import Mathlib.Data.List.Infix
import WeakSubscription.Delegate.Weak
import WeakSubscription.Tracked

/-!
# Wrappers on a ledger

A ledger lists all wrappers that were made, so that the wrapper at place `i` has the number that the count from one
on comes to there. The entries of a value are recorded if each wrapper among them, at any depth, stands there with
all its parts. The operations on delegates only pass recorded entries on, and making a handler weak records one new
wrapper for each of its plain entries.
-/

namespace WeakSubscription

variable {ledger more : List Entry} {e : Entry} {es fs : List Entry} {d : Delegate} {v w left right : Value} {t : Ty}

/-! ### Entries at any depth -/

/-- The entry is in the invocation list, or in the callback of a wrapper that is. -/
inductive Entry.Inside (e : Entry) : List Entry → Prop
  | here {es : List Entry} (member : e ∈ es) : Inside e es
  | callback {es : List Entry} {id : UInt32} {call : Invocation} {callbackType : Ty} {callback : List Entry}
      {handlerType : Ty} (member : .weak id call callbackType callback handlerType ∈ es)
      (inner : Inside e callback) : Inside e es

theorem Entry.Inside.mono (inside : e.Inside es) (within : es ⊆ fs) : e.Inside fs := by
  cases inside with
  | here member => exact .here (within member)
  | callback member inner => exact .callback (within member) inner

theorem Entry.inside_append : e.Inside (es ++ fs) ↔ e.Inside es ∨ e.Inside fs := by
  constructor
  · intro inside
    cases inside with
    | here member => exact (List.mem_append.mp member).imp .here .here
    | callback member inner =>
      exact (List.mem_append.mp member).imp (fun first => .callback first inner) fun later => .callback later inner
  · rintro (first | later)
    · exact first.mono (List.subset_append_left _ _)
    · exact later.mono (List.subset_append_right _ _)

/-- The entries of a value at any depth. -/
def Value.Holds : Value → Entry → Prop
  | .delegate d, e => e.Inside d.entries
  | .null, _ | .object _, _ | .methodPointer _, _ => False

/-- Whether no invocation list in the value is empty, at any depth. -/
def Value.HasEntries : Value → Prop
  | .delegate d => d.entries ≠ [] ∧ ∀ id call callbackType callback handlerType,
      (Entry.weak id call callbackType callback handlerType).Inside d.entries → callback ≠ []
  | .null | .object _ | .methodPointer _ => True

/-! ### Recorded entries -/

/-- A wrapper stands on the ledger at the place of its number, and its callback has entries. -/
def Entry.RecordedIn (ledger : List Entry) : Entry → Prop
  | .strong _ => True
  | .weak id call callbackType callback handlerType =>
    callback ≠ [] ∧ ∃ i, id = .ofNat (i + 1) ∧ ledger[i]? = some (.weak id call callbackType callback handlerType)

theorem Entry.RecordedIn.grow (recorded : e.RecordedIn ledger) (longer : ledger <+: more) : e.RecordedIn more := by
  cases e with
  | strong call => trivial
  | weak id call callbackType callback handlerType =>
    obtain ⟨called, i, number, stands⟩ := recorded
    obtain ⟨rest, rfl⟩ := longer
    refine ⟨called, i, number, ?_⟩
    rw [List.getElem?_append_left (List.getElem?_eq_some_iff.mp stands).1, stands]

/-- The entries of an invocation list are recorded at any depth. -/
def AllRecorded (ledger : List Entry) (es : List Entry) : Prop := ∀ e : Entry, e.Inside es → e.RecordedIn ledger

namespace AllRecorded

theorem grow (recorded : AllRecorded ledger es) (longer : ledger <+: more) : AllRecorded more es :=
  fun e inside => (recorded e inside).grow longer

theorem mono (recorded : AllRecorded ledger es) (within : fs ⊆ es) : AllRecorded ledger fs :=
  fun e inside => recorded e (inside.mono within)

theorem nil : AllRecorded ledger [] := by
  intro e inside
  cases inside with
  | here member => cases member
  | callback member _ => cases member

theorem append (first : AllRecorded ledger es) (later : AllRecorded ledger fs) : AllRecorded ledger (es ++ fs) := by
  intro e inside
  rcases Entry.inside_append.mp inside with inside | inside
  · exact first e inside
  · exact later e inside

theorem strong (call : Invocation) : AllRecorded ledger [.strong call] := by
  intro e inside
  cases inside with
  | here member =>
    obtain rfl := List.mem_singleton.mp member
    trivial
  | callback member _ => cases List.mem_singleton.mp member

/-- A wrapper is recorded at any depth if it is, and its callback at any depth. -/
theorem weak {id : UInt32} {call : Invocation} {callbackType handlerType : Ty} {callback : List Entry}
    (own : (Entry.weak id call callbackType callback handlerType).RecordedIn ledger)
    (inner : AllRecorded ledger callback) :
    AllRecorded ledger [.weak id call callbackType callback handlerType] := by
  intro e inside
  cases inside with
  | here member =>
    obtain rfl := List.mem_singleton.mp member
    exact own
  | callback member deeper =>
    cases List.mem_singleton.mp member
    exact inner e deeper

/-- What is recorded of a wrapper is recorded of its callback. -/
theorem callback {id : UInt32} {call : Invocation} {callbackType handlerType : Ty} {callback : List Entry}
    (recorded : AllRecorded ledger es) (member : .weak id call callbackType callback handlerType ∈ es) :
    callback ≠ [] ∧ AllRecorded ledger callback :=
  ⟨(recorded _ (.here member)).1, fun e inner => recorded e (.callback member inner)⟩

end AllRecorded

/-- A delegate has entries, and they are recorded at any depth. Other values have none. -/
def Value.RecordedIn (ledger : List Entry) : Value → Prop
  | .delegate d => d.entries ≠ [] ∧ AllRecorded ledger d.entries
  | .null | .object _ | .methodPointer _ => True

namespace Value.RecordedIn

theorem grow (recorded : v.RecordedIn ledger) (longer : ledger <+: more) : v.RecordedIn more := by
  cases v with
  | delegate d => exact ⟨recorded.1, recorded.2.grow longer⟩
  | null | object _ | methodPointer _ => trivial

theorem hasEntries (recorded : v.RecordedIn ledger) : v.HasEntries := by
  cases v with
  | delegate d =>
    refine ⟨recorded.1, fun id call callbackType callback handlerType inside => ?_⟩
    exact (recorded.2 _ inside).1
  | null | object _ | methodPointer _ => trivial

theorem holds (recorded : v.RecordedIn ledger) (inside : v.Holds e) : e.RecordedIn ledger := by
  cases v with
  | delegate d => exact recorded.2 e inside
  | null | object _ | methodPointer _ => exact inside.elim

theorem of_holds (entries : v.HasEntries) (recorded : ∀ e, v.Holds e → e.RecordedIn ledger) :
    v.RecordedIn ledger := by
  cases v with
  | delegate d => exact ⟨entries.1, recorded⟩
  | null | object _ | methodPointer _ => trivial

theorem ofEntries (recorded : AllRecorded ledger es) (t : Ty) : (Value.ofEntries t es).RecordedIn ledger := by
  cases es with
  | nil => trivial
  | cons e rest => exact ⟨nofun, recorded⟩

end Value.RecordedIn

/-! ### Delegate arithmetic -/

theorem Value.asOperand_recorded {use : ValueUse} {d? : Option Delegate} (recorded : v.RecordedIn ledger)
    (read : v.asOperand use = .ok d?) : ∀ d ∈ d?, (Value.delegate d).RecordedIn ledger := by
  cases v with
  | null =>
    obtain rfl := Except.ok.inj read
    nofun
  | delegate d =>
    obtain rfl := Except.ok.inj read
    rintro _ ⟨⟩
    exact recorded
  | object r => cases read
  | methodPointer m => cases read

namespace Delegate

theorem combine_recorded (first : left.RecordedIn ledger) (later : right.RecordedIn ledger)
    (combined : combine left right = .ok v) : v.RecordedIn ledger := by
  obtain ⟨a?, readFirst, h₁⟩ := except_bind_eq_ok_iff.mp combined
  obtain ⟨b?, readLater, h₂⟩ := except_bind_eq_ok_iff.mp h₁
  have first := Value.asOperand_recorded first readFirst
  have later := Value.asOperand_recorded later readLater
  cases a? with
  | none =>
    cases b? with
    | none =>
      obtain rfl := Except.ok.inj h₂
      trivial
    | some b =>
      obtain rfl := Except.ok.inj h₂
      exact later b rfl
  | some a =>
    cases b? with
    | none =>
      obtain rfl := Except.ok.inj h₂
      exact first a rfl
    | some b =>
      obtain ⟨-, -, last⟩ := except_bind_eq_ok_iff.mp h₂
      obtain rfl := Except.ok.inj last
      refine ⟨?_, (first a rfl).2.append (later b rfl).2⟩
      exact List.append_ne_nil_of_left_ne_nil (first a rfl).1 _

theorem withoutLast_subset (taken : withoutLast fs es = some left') : left' ⊆ es := by
  obtain ⟨i, -, rfl⟩ := Option.map_eq_some_iff.mp taken
  exact List.append_subset.mpr ⟨List.take_subset _ _, List.drop_subset _ _⟩

theorem remove_recorded (source : left.RecordedIn ledger) (removed : remove left right = .ok v) :
    v.RecordedIn ledger := by
  obtain ⟨a?, readSource, h₁⟩ := except_bind_eq_ok_iff.mp removed
  have source := Value.asOperand_recorded source readSource
  cases a? with
  | none =>
    obtain rfl := Except.ok.inj h₁
    trivial
  | some a =>
    obtain ⟨b?, -, h₂⟩ := except_bind_eq_ok_iff.mp h₁
    cases b? with
    | none =>
      obtain rfl := Except.ok.inj h₂
      exact source a rfl
    | some b =>
      obtain ⟨-, -, h₃⟩ := except_bind_eq_ok_iff.mp h₂
      split at h₃
      · rename_i rest taken
        obtain rfl := Except.ok.inj h₃
        exact .ofEntries ((source a rfl).2.mono (withoutLast_subset taken)) a.type
      · obtain rfl := Except.ok.inj h₃
        exact source a rfl

theorem changeType_recorded (recorded : w.RecordedIn ledger) (changed : changeType w t = .ok v) :
    v.RecordedIn ledger := by
  obtain ⟨d?, read, h₁⟩ := except_bind_eq_ok_iff.mp changed
  have recorded := Value.asOperand_recorded recorded read
  cases d? with
  | none =>
    obtain rfl := Except.ok.inj h₁
    trivial
  | some d =>
    obtain rfl := Except.ok.inj h₁
    exact recorded d rfl

theorem findWeak_recorded (source : left.RecordedIn ledger) (found : findWeak left right t = .ok v) :
    v.RecordedIn ledger := by
  obtain ⟨a?, readSource, h₁⟩ := except_bind_eq_ok_iff.mp found
  obtain ⟨b?, -, h₂⟩ := except_bind_eq_ok_iff.mp h₁
  have source := Value.asOperand_recorded source readSource
  obtain rfl := Except.ok.inj h₂
  cases a? with
  | none => trivial
  | some a =>
    cases b? with
    | none => trivial
    | some b =>
      show Value.RecordedIn ledger (Option.elim ((b.entries.findSome? Entry.strongCall?).bind fun wanted =>
        a.entries.reverse.find? fun e => e.wrappedCall? == some wanted) .null fun e => .delegate ⟨t, [e]⟩)
      cases search : (b.entries.findSome? Entry.strongCall?).bind fun wanted =>
          a.entries.reverse.find? fun e => e.wrappedCall? == some wanted with
      | none => trivial
      | some e =>
        obtain ⟨wanted, -, first⟩ := Option.bind_eq_some_iff.mp search
        have member : e ∈ a.entries := List.mem_reverse.mp (List.mem_of_find?_eq_some first)
        exact ⟨nofun, (source a rfl).2.mono (List.cons_subset.mpr ⟨member, List.nil_subset _⟩)⟩

/-! ### New wrappers -/

/-- The number of plain entries, each of which is put into a wrapper when the list is made weak. -/
def plainCount (es : List Entry) : Nat := es.countP (·.strongCall?.isSome)

/-- The wrappers that are made are recorded behind those that were made before. -/
theorem wrapEntries_recorded {unsubscribe : Delegate} (callback : (Value.delegate unsubscribe).RecordedIn ledger)
    (recorded : AllRecorded ledger es) (t : Ty) :
    ∃ more, more.length = plainCount es ∧
      (wrapEntries unsubscribe t (.ofNat ledger.length) es).2 = .ofNat (ledger ++ more).length ∧
      AllRecorded (ledger ++ more) (wrapEntries unsubscribe t (.ofNat ledger.length) es).1 ∧
      ((wrapEntries unsubscribe t (.ofNat ledger.length) es).1 = [] → es = []) := by
  induction es generalizing ledger with
  | nil =>
    refine ⟨[], rfl, ?_, ?_, fun _ => rfl⟩
    · rw [List.append_nil, wrapEntries]
    · rw [wrapEntries]
      exact .nil
  | cons e rest ih =>
    have later : AllRecorded ledger rest := recorded.mono (List.subset_cons_self _ _)
    cases e with
    | strong call =>
      have following : UInt32.ofNat (ledger.length + 1) = .ofNat ledger.length + 1 := UInt32.ofNat_add _ _
      let made : Entry := .weak (.ofNat ledger.length + 1) call unsubscribe.type unsubscribe.entries t
      have longer : ledger <+: ledger ++ [made] := List.prefix_append _ _
      obtain ⟨more, size, count, wrapped, -⟩ := ih (callback.grow longer) (later.grow longer)
      have next : UInt32.ofNat (ledger ++ [made]).length = .ofNat ledger.length + 1 := by
        rw [List.length_append, List.length_singleton, following]
      have own : made.RecordedIn (ledger ++ [made]) :=
        ⟨callback.1, ledger.length, following.symm, List.getElem?_concat_length⟩
      have first : AllRecorded (ledger ++ [made]) [made] := .weak own (callback.2.grow longer)
      have both := (first.grow (List.prefix_append _ more)).append wrapped
      rw [next, List.append_assoc] at count both
      refine ⟨[made] ++ more, ?_, count, both, nofun⟩
      rw [List.length_append, List.length_singleton, size, plainCount, plainCount, List.countP_cons_of_pos rfl,
        Nat.add_comm]
    | weak id call callbackType inner handlerType =>
      obtain ⟨more, size, count, wrapped, -⟩ := ih callback later
      refine ⟨more, ?_, count, ?_, nofun⟩
      · rw [size, plainCount, plainCount, List.countP_cons_of_neg Bool.false_ne_true]
      · have first : AllRecorded ledger [.weak id call callbackType inner handlerType] :=
          recorded.mono (List.cons_subset_cons _ (List.nil_subset _))
        exact (first.grow (List.prefix_append _ _)).append wrapped

/-- The wrappers that are made of a handler: one for each of its plain entries, if neither it nor the callback is
null. -/
def wrappersMade : Value → Value → Nat
  | .delegate handler, .delegate _ => plainCount handler.entries
  | _, _ => 0

theorem makeWeak_recorded {last : UInt32} (handler : left.RecordedIn ledger) (callback : right.RecordedIn ledger)
    (made : makeWeak left right t (.ofNat ledger.length) = .ok (v, last)) :
    ∃ more, more.length = wrappersMade left right ∧ last = .ofNat (ledger ++ more).length ∧
      v.RecordedIn (ledger ++ more) := by
  cases left with
  | delegate a =>
    cases right with
    | delegate b =>
      obtain ⟨more, size, count, wrapped, onlyEmpty⟩ := wrapEntries_recorded callback handler.2 t
      cases Except.ok.inj made
      exact ⟨more, size, count, fun none_left => handler.1 (onlyEmpty none_left), wrapped⟩
    | null | object _ | methodPointer _ => cases made
  | null | object _ | methodPointer _ => cases made

/-- Where no handler is made weak, no wrapper is made. -/
theorem wrappersMade_of_error {last : UInt32} {e : Error} (refused : makeWeak left right t last = .error e) :
    wrappersMade left right = 0 := by
  cases left with
  | delegate a =>
    cases right with
    | delegate b => cases refused
    | null | object _ | methodPointer _ => rfl
  | null | object _ | methodPointer _ => rfl

end Delegate

end WeakSubscription
