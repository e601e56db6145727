import Mathlib.Data.List.Basic
import WeakSubscription.Delegate.Weak
import WeakSubscription.Execution.Frame

/-!
# The invocation lists that values carry

A delegate carries its invocation list and null carries the empty one, so delegate arithmetic is
arithmetic of lists. Types only matter by name.
-/

namespace WeakSubscription

open Delegate

variable {t t' : Ty} {xs ys : List Entry} {v w : Value}

/-- The value is a delegate of a type with this name and with this invocation list, or null if the list is
empty. -/
def Carries (t : Ty) (entries : List Entry) : Value → Prop
  | .null => entries = []
  | .delegate d => d.type.SameName t ∧ d.entries = entries ∧ entries ≠ []
  | .object _ | .methodPointer _ => False

namespace Carries

theorem null (t : Ty) : Carries t [] .null := rfl

theorem delegate (t : Ty) (nonempty : xs ≠ []) : Carries t xs (.delegate ⟨t, xs⟩) := ⟨rfl, rfl, nonempty⟩

theorem ofEntries {u : Ty} (same : u.SameName t) (xs : List Entry) : Carries t xs (.ofEntries u xs) := by
  cases xs with
  | nil => exact null t
  | cons e es => exact ⟨same, rfl, List.cons_ne_nil e es⟩

theorem retyped (carries : Carries t xs v) (same : t.SameName t') : Carries t' xs v := by
  cases v with
  | null => exact carries
  | delegate d => exact ⟨carries.1.trans same, carries.2⟩
  | object r => exact carries.elim
  | methodPointer token => exact carries.elim

theorem cases (carries : Carries t xs v) :
    (v = .null ∧ xs = []) ∨ ∃ u, v = .delegate ⟨u, xs⟩ ∧ u.SameName t ∧ xs ≠ [] := by
  cases v with
  | null => exact .inl ⟨rfl, carries⟩
  | delegate d =>
    obtain ⟨same, rfl, nonempty⟩ := carries
    exact .inr ⟨d.type, rfl, same, nonempty⟩
  | object r => exact carries.elim
  | methodPointer token => exact carries.elim

/-- A value that carries a list may be seen as any type of its name. -/
theorem cast (carries : Carries t xs v) (m : Machine) : Execution.cast m v t = .ok v := by
  obtain ⟨rfl, -⟩ | ⟨u, rfl, same, -⟩ := carries.cases
  · rfl
  · have allowed : u.SameName t ∨ t.isUniversalBase = true := .inl same
    simp only [Execution.cast, bind, Except.bind, pure, Except.pure, if_pos allowed]

end Carries

/-! ### Arithmetic of invocation lists -/

namespace Delegate

/-- The list without the last occurrence of a run, or the list itself if there is none. -/
def withoutRun (run l : List Entry) : List Entry := if run = [] then l else (withoutLast run l).getD l

theorem combine_carries (left : Carries t xs v) (right : Carries t ys w) :
    ∃ u, combine v w = .ok u ∧ Carries t (xs ++ ys) u := by
  obtain ⟨rfl, rfl⟩ | ⟨a, rfl, same, nonempty⟩ := left.cases
  · obtain ⟨rfl, rfl⟩ | ⟨b, rfl, same', nonempty'⟩ := right.cases
    · exact ⟨.null, rfl, .null t⟩
    · exact ⟨.delegate ⟨b, ys⟩, rfl, right⟩
  · obtain ⟨rfl, rfl⟩ | ⟨b, rfl, same', nonempty'⟩ := right.cases
    · exact ⟨.delegate ⟨a, xs⟩, rfl, by rwa [List.append_nil]⟩
    · have agree : a.SameName b := same.trans same'.symm
      refine ⟨.delegate ⟨a, xs ++ ys⟩, ?_, same, rfl, List.append_ne_nil_of_left_ne_nil nonempty ys⟩
      simp only [combine, Value.asOperand, bind, Except.bind, requireSameType, if_pos agree, pure,
        Except.pure]

theorem withoutRun_nil (run : List Entry) : withoutRun run [] = [] := by
  cases run with
  | nil => rfl
  | cons e run => simp [withoutRun, withoutLast, lastOccurrence?]

theorem remove_carries (source : Carries t xs v) (value : Carries t ys w) :
    ∃ u, remove v w = .ok u ∧ Carries t (withoutRun ys xs) u := by
  obtain ⟨rfl, rfl⟩ | ⟨a, rfl, same, nonempty⟩ := source.cases
  · exact ⟨.null, rfl, by rw [withoutRun_nil]; exact .null t⟩
  · obtain ⟨rfl, rfl⟩ | ⟨b, rfl, same', nonempty'⟩ := value.cases
    · exact ⟨.delegate ⟨a, xs⟩, rfl, by rwa [withoutRun, if_pos rfl]⟩
    · have agree : a.SameName b := same.trans same'.symm
      rw [withoutRun, if_neg nonempty']
      cases left : withoutLast ys xs with
      | some entries =>
        refine ⟨.ofEntries a entries, ?_, .ofEntries same entries⟩
        simp only [remove, Value.asOperand, bind, Except.bind, requireSameType, if_pos agree, left, pure,
          Except.pure]
      | none =>
        refine ⟨.delegate ⟨a, xs⟩, ?_, source⟩
        simp only [remove, Value.asOperand, bind, Except.bind, requireSameType, if_pos agree, left, pure,
          Except.pure]

theorem changeType_carries (carries : Carries t xs v) (t' : Ty) :
    ∃ u, changeType v t' = .ok u ∧ Carries t' xs u := by
  obtain ⟨rfl, rfl⟩ | ⟨a, rfl, -, nonempty⟩ := carries.cases
  · exact ⟨.null, rfl, .null t'⟩
  · exact ⟨.delegate ⟨t', xs⟩, rfl, .delegate t' nonempty⟩

/-! ### Wrappers -/

/-- The entry that a call becomes when it is wrapped with a number. -/
def wrapper (callback : Delegate) (handlerType : Ty) (p : Invocation × UInt32) : Entry :=
  .weak p.2 p.1 callback.type callback.entries handlerType

/-- Calls with the numbers that their wrappers are given, from behind the last number used. -/
def numbered : (last : UInt32) → List Invocation → List (Invocation × UInt32)
  | _, [] => []
  | last, c :: calls => (c, last + 1) :: numbered (last + 1) calls

theorem numbered_calls (last : UInt32) (calls : List Invocation) :
    (numbered last calls).map (·.1) = calls := by
  induction calls generalizing last with
  | nil => rfl
  | cons c calls ih => rw [numbered, List.map_cons, ih]

/-- As long as the count does not wrap, the numbers are those behind the last one, each once. -/
theorem numbered_numbers {last : UInt32} {calls : List Invocation}
    (room : last.toNat + calls.length < UInt32.size) :
    (numbered last calls).map (·.2.toNat) = List.range' (last.toNat + 1) calls.length := by
  induction calls generalizing last with
  | nil => rfl
  | cons c calls ih =>
    rw [List.length_cons] at room
    have next : (last + 1).toNat = last.toNat + 1 := toNat_add_ofNat (n := 1) (by omega)
    rw [numbered, List.map_cons, ih (by omega), next, List.length_cons, List.range'_succ]

theorem numbered_nodup {last : UInt32} {calls : List Invocation}
    (room : last.toNat + calls.length < UInt32.size) : ((numbered last calls).map (·.2)).Nodup := by
  -- numbers of 32 bits are different if they are as natural numbers
  have distinct : (((numbered last calls).map (·.2)).map UInt32.toNat).Nodup := by
    rw [List.map_map]
    exact numbered_numbers room ▸ List.nodup_range'
  exact List.Pairwise.of_map _ (fun _ _ apart same => apart (congrArg _ same)) distinct

theorem numbered_bounds {last : UInt32} {calls : List Invocation} {p : Invocation × UInt32}
    (room : last.toNat + calls.length < UInt32.size) (member : p ∈ numbered last calls) :
    last.toNat < p.2.toNat ∧ p.2.toNat ≤ last.toNat + calls.length := by
  have number : p.2.toNat ∈ (numbered last calls).map (·.2.toNat) := List.mem_map.mpr ⟨p, member, rfl⟩
  rw [numbered_numbers room, List.mem_range'_1] at number
  omega

theorem wrapEntries_strong (callback : Delegate) (handlerType : Ty) (last : UInt32)
    (calls : List Invocation) :
    wrapEntries callback handlerType last (calls.map .strong) =
      ((numbered last calls).map (wrapper callback handlerType), last + .ofNat calls.length) := by
  induction calls generalizing last with
  | nil => exact congrArg _ (UInt32.add_zero last).symm
  | cons c calls ih =>
    have count : last + 1 + .ofNat calls.length = last + .ofNat (calls.length + 1) := by
      rw [Nat.add_comm, UInt32.ofNat_add, ← UInt32.add_assoc]
      rfl
    simp only [List.map_cons, wrapEntries, ih, numbered, List.length_cons, count]
    rfl

/-- Making a handler weak numbers its calls from behind the last number used. -/
theorem makeWeak_carries {calls : List Invocation} (carries : Carries t (calls.map .strong) v)
    (nonempty : calls ≠ []) (callback : Delegate) (handlerType : Ty) (last : UInt32) :
    ∃ u, makeWeak v (.delegate callback) handlerType last = .ok (u, last + .ofNat calls.length) ∧
      Carries handlerType ((numbered last calls).map (wrapper callback handlerType)) u := by
  obtain ⟨-, empty⟩ | ⟨a, rfl, -, -⟩ := carries.cases
  · exact absurd (List.map_eq_nil_iff.mp empty) nonempty
  · refine ⟨.delegate ⟨handlerType, (numbered last calls).map (wrapper callback handlerType)⟩, ?_,
      .delegate handlerType ?_⟩
    · simp only [makeWeak, Value.asOperand, bind, Except.bind, pure, Except.pure, wrapEntries_strong]
    · intro empty
      rw [← numbered_calls last calls, List.map_eq_nil_iff.mp empty] at nonempty
      exact nonempty rfl

/-- Behind as many new wrappers as there are numbers the count stands where it stood, and the next wrapper gets a
number that was given before. -/
theorem makeWeak_starts_again {calls : List Invocation} (carries : Carries t (calls.map .strong) v)
    (all : calls.length = UInt32.size) (callback : Delegate) (handlerType : Ty) (last : UInt32) :
    ∃ u, makeWeak v (.delegate callback) handlerType last = .ok (u, last) := by
  have nonempty : calls ≠ [] := List.ne_nil_of_length_pos (by rw [all]; decide)
  obtain ⟨u, made, -⟩ := makeWeak_carries carries nonempty callback handlerType last
  have around : last + .ofNat calls.length = last := by
    rw [all]
    exact UInt32.add_zero last
  exact ⟨u, by rw [made, around]⟩

/-- The wrapper that is found is the last one around the first call of the handler. -/
theorem findWeak_carries {callback : Delegate} {handlerType : Ty} {l : List (Invocation × UInt32)}
    {c : Invocation} {rest : List Invocation}
    (source : Carries t (l.map (wrapper callback handlerType)) v)
    (handler : Carries t' ((c :: rest).map .strong) w) (found : Ty) :
    ∃ u, findWeak v w found = .ok u ∧
      Carries found ((l.reverse.find? (·.1 == c)).map (wrapper callback handlerType)).toList u := by
  obtain ⟨-, empty⟩ | ⟨b, rfl, -, -⟩ := handler.cases
  · cases empty
  have wanted : ((c :: rest).map Entry.strong).findSome? Entry.strongCall? = some c := rfl
  have search : (l.map (wrapper callback handlerType)).reverse.find?
      (fun e => e.wrappedCall? == some c) =
      (l.reverse.find? (·.1 == c)).map (wrapper callback handlerType) := by
    rw [← List.map_reverse, List.find?_map]
    rfl
  obtain ⟨rfl, empty⟩ | ⟨a, rfl, -, -⟩ := source.cases
  · rw [List.map_eq_nil_iff.mp empty]
    exact ⟨.null, rfl, .null found⟩
  · refine ⟨((l.reverse.find? (·.1 == c)).map (wrapper callback handlerType)).elim .null
      fun e => .delegate ⟨found, [e]⟩, ?_, ?_⟩
    · rw [← search]
      rfl
    · cases (l.reverse.find? (·.1 == c)).map (wrapper callback handlerType) with
      | none => exact .null found
      | some e => exact .delegate found (List.cons_ne_nil e [])

/-! ### Removing one entry -/

theorem startsWith_singleton (e x : Entry) (l : List Entry) : startsWith [e] (x :: l) = x.sameAs e := by
  simp [startsWith]

theorem lastOccurrence?_of_forall {e : Entry} {l : List Entry} (apart : ∀ x ∈ l, x.sameAs e = false) :
    lastOccurrence? [e] l = none := by
  induction l with
  | nil => rfl
  | cons x l ih =>
    have tail := ih fun y member => apart y (List.mem_cons_of_mem x member)
    rw [lastOccurrence?, tail]
    simp [startsWith_singleton, apart x List.mem_cons_self]

theorem lastOccurrence?_of_split {e x : Entry} {a b : List Entry} (same : x.sameAs e = true)
    (later : ∀ y ∈ b, y.sameAs e = false) : lastOccurrence? [e] (a ++ x :: b) = some a.length := by
  induction a with
  | nil =>
    rw [List.nil_append, lastOccurrence?, lastOccurrence?_of_forall later]
    simp [startsWith_singleton, same]
  | cons y a ih =>
    rw [List.cons_append, lastOccurrence?, ih]
    rfl

theorem withoutRun_of_split {e x : Entry} {a b : List Entry} (same : x.sameAs e = true)
    (later : ∀ y ∈ b, y.sameAs e = false) : withoutRun [e] (a ++ x :: b) = a ++ b := by
  rw [withoutRun, if_neg (List.cons_ne_nil e []), withoutLast, lastOccurrence?_of_split same later]
  simp

theorem withoutRun_of_forall {e : Entry} {l : List Entry} (apart : ∀ x ∈ l, x.sameAs e = false) :
    withoutRun [e] l = l := by
  rw [withoutRun, if_neg (List.cons_ne_nil e []), withoutLast, lastOccurrence?_of_forall apart]
  rfl

end Delegate

/-! ### Lists without a last occurrence -/

section EraseLast

variable {α : Type} [DecidableEq α] {c : α} {a b l : List α}

def eraseLast (c : α) (l : List α) : List α := (l.reverse.erase c).reverse

theorem eraseLast_of_notMem (absent : c ∉ l) : eraseLast c l = l := by
  rw [eraseLast, List.erase_of_not_mem (by simpa using absent), List.reverse_reverse]

theorem eraseLast_append_cons (later : c ∉ b) : eraseLast c (a ++ c :: b) = a ++ b := by
  have reversed : (a ++ c :: b).reverse = b.reverse ++ c :: a.reverse := by simp
  rw [eraseLast, reversed, List.erase_append_right _ (by simpa using later), List.erase_cons_head]
  simp

/-- The last element with a property splits a list so that none with it is behind. -/
theorem split_of_find?_reverse {β : Type} {p : β → Bool} {l : List β} {x : β}
    (found : l.reverse.find? p = some x) :
    ∃ a b, l = a ++ x :: b ∧ p x = true ∧ ∀ y ∈ b, p y = false := by
  obtain ⟨holds, front, back, split, none⟩ := List.find?_eq_some_iff_append.mp found
  refine ⟨back.reverse, front.reverse, ?_, holds, ?_⟩
  · have reversed := congrArg List.reverse split
    rw [List.reverse_reverse] at reversed
    rw [reversed]
    simp
  · intro y member
    simpa using none y (by simpa using member)

end EraseLast

namespace Delegate

variable {callback : Delegate} {handlerType : Ty} {l : List (Invocation × UInt32)} {c : Invocation}

theorem sameAs_wrapper (p q : Invocation × UInt32) :
    (wrapper callback handlerType p).sameAs (wrapper callback handlerType q) = (p.2 == q.2) := rfl

/-- Numbers tell wrappers apart. -/
theorem withoutRun_wrapper {a b : List (Invocation × UInt32)} {x : Invocation × UInt32}
    (distinct : ((a ++ x :: b).map (·.2)).Nodup) :
    withoutRun [wrapper callback handlerType x] ((a ++ x :: b).map (wrapper callback handlerType)) =
      (a ++ b).map (wrapper callback handlerType) := by
  rw [List.map_append, List.map_cons, List.map_append]
  refine withoutRun_of_split (by rw [sameAs_wrapper]; exact beq_self_eq_true _) ?_
  intro y member
  obtain ⟨z, inside, rfl⟩ := List.mem_map.mp member
  rw [sameAs_wrapper]
  refine beq_false_of_ne fun same => ?_
  rw [List.map_append, List.map_cons] at distinct
  have apart := (List.nodup_cons.mp (List.nodup_append.mp distinct).2.1).1
  exact apart (List.mem_map.mpr ⟨z, inside, same⟩)

/-- Taking the found wrapper out of a list of wrappers takes the last occurrence of the call out of the
wrapped calls. -/
theorem withoutRun_found (distinct : (l.map (·.2)).Nodup) (c : Invocation) :
    ∃ l' : List (Invocation × UInt32),
      withoutRun ((l.reverse.find? (·.1 == c)).map (wrapper callback handlerType)).toList
          (l.map (wrapper callback handlerType)) = l'.map (wrapper callback handlerType) ∧
      l'.map (·.1) = eraseLast c (l.map (·.1)) ∧ l'.Sublist l := by
  cases found : l.reverse.find? (·.1 == c) with
  | none =>
    refine ⟨l, rfl, ?_, List.Sublist.refl l⟩
    have absent : c ∉ l.map (·.1) := by
      intro member
      obtain ⟨x, inside, rfl⟩ := List.mem_map.mp member
      have none := List.find?_eq_none.mp found x (List.mem_reverse.mpr inside)
      exact none (beq_self_eq_true _)
    rw [eraseLast_of_notMem absent]
  | some x =>
    obtain ⟨a, b, rfl, same, later⟩ := split_of_find?_reverse found
    obtain rfl := beq_iff_eq.mp same
    refine ⟨a ++ b, withoutRun_wrapper distinct, ?_, ?_⟩
    · have absent : x.1 ∉ b.map (·.1) := by
        intro member
        obtain ⟨y, inside, same⟩ := List.mem_map.mp member
        exact absurd (later y inside) (by rw [same]; simp)
      rw [List.map_append, List.map_append, List.map_cons, eraseLast_append_cons absent]
    · exact List.Sublist.append (List.Sublist.refl a) (List.sublist_cons_self x b)

/-- Taking one plain entry out of a list takes its call's last occurrence out of the calls. -/
theorem withoutRun_strong (c : Invocation) (calls : List Invocation) :
    withoutRun [.strong c] (calls.map .strong) = (eraseLast c calls).map .strong := by
  by_cases member : c ∈ calls
  · obtain ⟨x, found⟩ := Option.isSome_iff_exists.mp (show (calls.reverse.find? (· == c)).isSome = true by
      simpa using member)
    obtain ⟨a, b, rfl, same, later⟩ := split_of_find?_reverse found
    obtain rfl := beq_iff_eq.mp same
    have absent : x ∉ b := fun inside => absurd (later x inside) (by simp)
    rw [eraseLast_append_cons absent, List.map_append, List.map_cons, List.map_append]
    refine withoutRun_of_split (beq_self_eq_true _) ?_
    intro y inside
    obtain ⟨d, within, rfl⟩ := List.mem_map.mp inside
    exact later d within
  · rw [eraseLast_of_notMem member]
    refine withoutRun_of_forall ?_
    intro y inside
    obtain ⟨d, within, rfl⟩ := List.mem_map.mp inside
    refine beq_false_of_ne ?_
    rintro rfl
    exact member within

end Delegate

end WeakSubscription
