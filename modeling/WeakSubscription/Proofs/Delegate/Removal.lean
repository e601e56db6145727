import Mathlib.Order.Bounds.Basic
import WeakSubscription.Delegate.Arithmetic

/-!
# What removing takes out

Removing takes out the run of entries at the last place where the other invocation list occurs. The search
walks along the list. A search by places, from the last possible one down, comes to the same place, and none of
its subtractions and slices goes out of bounds.
-/

namespace WeakSubscription.Delegate

variable {v l : List Entry} {a b : Entry} {i j start : Nat} {s d : Delegate} {r r' : Option Nat}

/-! ### Occurrences -/

/-- The entries of `v` are the same, one by one, as those of `l` from place `i` on. -/
def OccursAt (v l : List Entry) (i : Nat) : Prop :=
  ∃ _ : i + v.length ≤ l.length, ∀ (k : Nat) (_ : k < v.length), l[i + k].sameAs v[k] = true

theorem OccursAt.fits (occurs : OccursAt v l i) : i + v.length ≤ l.length := occurs.1

theorem occursAt_nil : OccursAt [] l i ↔ i ≤ l.length :=
  ⟨fun occurs => occurs.fits, fun fits => ⟨fits, fun _ inside => absurd inside (Nat.not_lt_zero _)⟩⟩

theorem not_occursAt_cons_nil : ¬ OccursAt (a :: v) [] i := by
  intro occurs
  have fits := occurs.fits
  simp at fits

theorem occursAt_cons_zero : OccursAt (a :: v) (b :: l) 0 ↔ b.sameAs a = true ∧ OccursAt v l 0 := by
  constructor
  · rintro ⟨fits, same⟩
    rw [List.length_cons, List.length_cons] at fits
    refine ⟨same 0 (Nat.zero_lt_succ _), by omega, fun k inside => ?_⟩
    simpa using same (k + 1) (Nat.succ_lt_succ inside)
  · rintro ⟨first, fits, same⟩
    refine ⟨by rw [List.length_cons, List.length_cons]; omega, fun k inside => ?_⟩
    cases k with
    | zero => exact first
    | succ k => simpa using same k (Nat.lt_of_succ_lt_succ inside)

/-- An occurrence behind the first entry is one in the rest of the list. -/
theorem occursAt_cons_succ : OccursAt v (b :: l) (i + 1) ↔ OccursAt v l i := by
  have shift : ∀ k, i + 1 + k = i + k + 1 := fun k => by omega
  constructor
  · rintro ⟨fits, same⟩
    rw [List.length_cons] at fits
    refine ⟨by omega, fun k inside => ?_⟩
    simpa only [shift, List.getElem_cons_succ] using same k inside
  · rintro ⟨fits, same⟩
    refine ⟨by rw [List.length_cons]; omega, fun k inside => ?_⟩
    simpa only [shift, List.getElem_cons_succ] using same k inside

theorem startsWith_iff : startsWith v l = true ↔ OccursAt v l 0 := by
  induction v generalizing l with
  | nil => simp [startsWith, occursAt_nil]
  | cons a v ih =>
    cases l with
    | nil => simp [startsWith, not_occursAt_cons_nil]
    | cons b l => rw [startsWith, Bool.and_eq_true, ih, occursAt_cons_zero]

/-! ### The last one -/

/-- The greatest number with the property, or none if no number has it. -/
def IsLast (P : Nat → Prop) : Option Nat → Prop
  | none => ∀ i, ¬ P i
  | some i => IsGreatest {i | P i} i

theorem IsLast.unique {P : Nat → Prop} (first : IsLast P r) (second : IsLast P r') : r = r' := by
  cases r with
  | none =>
    cases r' with
    | none => rfl
    | some j => exact absurd second.1 (first j)
  | some i =>
    cases r' with
    | none => exact absurd first.1 (second i)
    | some j => exact congrArg some (IsGreatest.unique first second)

theorem lastOccurrence?_isLast (v l : List Entry) : IsLast (OccursAt v l) (lastOccurrence? v l) := by
  induction l with
  | nil =>
    cases v with
    | nil => exact ⟨occursAt_nil.mpr (Nat.le_refl 0), fun i occurs => occursAt_nil.mp occurs⟩
    | cons a v => exact fun i => not_occursAt_cons_nil
  | cons b l ih =>
    rw [lastOccurrence?]
    cases later : lastOccurrence? v l with
    | some i =>
      rw [later] at ih
      refine ⟨occursAt_cons_succ.mpr ih.1, fun j occurs => ?_⟩
      cases j with
      | zero => exact Nat.zero_le _
      | succ j => exact Nat.succ_le_succ (ih.2 (occursAt_cons_succ.mp occurs))
    | none =>
      rw [later] at ih
      have none_later : ∀ i, ¬ OccursAt v (b :: l) (i + 1) := fun i occurs => ih i (occursAt_cons_succ.mp occurs)
      dsimp only
      split
      · rename_i here
        refine ⟨startsWith_iff.mp here, fun j occurs => ?_⟩
        cases j with
        | zero => exact Nat.le_refl 0
        | succ j => exact absurd occurs (none_later j)
      · rename_i missing
        intro i occurs
        cases i with
        | zero => exact missing (startsWith_iff.mpr occurs)
        | succ i => exact none_later i occurs

/-! ### The search by places

Each step is checked: a subtraction gives nothing where it would go below zero, and a slice or a cut gives
nothing where one of its ends is no place of the list. -/

def minus? (m n : Nat) : Option Nat := if n ≤ m then some (m - n) else none

/-- The entries from place `i` to in front of place `j`. -/
def slice? (l : List Entry) (i j : Nat) : Option (List Entry) :=
  if i ≤ j ∧ j ≤ l.length then some ((l.take j).drop i) else none

/-- The list without the entries from place `i` to in front of place `j`. -/
def cut? (l : List Entry) (i j : Nat) : Option (List Entry) :=
  if i ≤ j ∧ j ≤ l.length then some (l.take i ++ l.drop j) else none

def sameEntries (window v : List Entry) : Bool := (window.zip v).all fun p => p.1.sameAs p.2

/-- The last place up to `start` where `v` occurs in `l`, tried from there down. -/
def searchDown (v l : List Entry) : (start : Nat) → Option (Option Nat)
  | 0 => do
    let window ← slice? l 0 v.length
    return if sameEntries window v then some 0 else none
  | start + 1 => do
    let window ← slice? l (start + 1) (start + 1 + v.length)
    if sameEntries window v then return some (start + 1) else searchDown v l start

/-- Removing by places. -/
def removeByPlaces (s d : Delegate) : Option Value := do
  if d.entries.length > s.entries.length then return .delegate s
  let start ← minus? s.entries.length d.entries.length
  match ← searchDown d.entries s.entries start with
  | some i => (cut? s.entries i (i + d.entries.length)).map (.ofEntries s.type)
  | none => return .delegate s

theorem sameEntries_iff {window : List Entry} : sameEntries window v = true ↔
    ∀ (k : Nat) (_ : k < window.length) (_ : k < v.length), window[k].sameAs v[k] = true := by
  rw [sameEntries, List.all_eq_true]
  constructor
  · intro same k inside inside'
    have both : k < (window.zip v).length := by rw [List.length_zip]; omega
    have here := same (window.zip v)[k] (List.getElem_mem both)
    rwa [List.getElem_zip] at here
  · intro same p member
    obtain ⟨k, both, rfl⟩ := List.mem_iff_getElem.mp member
    rw [List.getElem_zip]
    rw [List.length_zip] at both
    exact same k (by omega) (by omega)

theorem slice?_of_le (fits : i + v.length ≤ l.length) :
    ∃ window, slice? l i (i + v.length) = some window ∧ (sameEntries window v = true ↔ OccursAt v l i) := by
  refine ⟨_, if_pos ⟨Nat.le_add_right _ _, fits⟩, ?_⟩
  have length : ((l.take (i + v.length)).drop i).length = v.length := by
    rw [List.length_drop, List.length_take]
    omega
  have read : ∀ (k : Nat) (inside : k < v.length) (_ : k < ((l.take (i + v.length)).drop i).length),
      ((l.take (i + v.length)).drop i)[k] = l[i + k] := by
    intro k inside _
    rw [List.getElem_drop, List.getElem_take]
  rw [sameEntries_iff]
  constructor
  · intro same
    refine ⟨fits, fun k inside => ?_⟩
    rw [← read k inside (by omega)]
    exact same k (by omega) inside
  · rintro ⟨_, same⟩ k inside inside'
    rw [read k inside' inside]
    exact same k inside'

theorem searchDown_isLast (fits : start + v.length ≤ l.length) :
    ∃ r, searchDown v l start = some r ∧ IsLast (fun i => i ≤ start ∧ OccursAt v l i) r := by
  induction start with
  | zero =>
    obtain ⟨window, sliced, same⟩ := slice?_of_le fits
    rw [Nat.zero_add] at sliced
    refine ⟨if sameEntries window v then some 0 else none, by rw [searchDown, sliced]; rfl, ?_⟩
    split
    · rename_i here
      exact ⟨⟨Nat.le_refl 0, same.mp here⟩, fun j occurs => occurs.1⟩
    · rename_i missing
      rintro i ⟨below, occurs⟩
      obtain rfl := Nat.le_zero.mp below
      exact missing (same.mpr occurs)
  | succ start ih =>
    obtain ⟨window, sliced, same⟩ := slice?_of_le fits
    obtain ⟨r, searched, last⟩ := ih (by omega)
    by_cases here : sameEntries window v = true
    · refine ⟨some (start + 1), ?_, ⟨Nat.le_refl _, same.mp here⟩, fun j occurs => occurs.1⟩
      simp [searchDown, sliced, here]
    · refine ⟨r, ?_, ?_⟩
      · simp [searchDown, sliced, here, searched]
      · have below : ∀ i, (i ≤ start + 1 ∧ OccursAt v l i) ↔ i ≤ start ∧ OccursAt v l i := by
          intro i
          constructor
          · rintro ⟨below, occurs⟩
            have other : i ≠ start + 1 := by
              rintro rfl
              exact here (same.mpr occurs)
            exact ⟨by omega, occurs⟩
          · rintro ⟨below, occurs⟩
            exact ⟨by omega, occurs⟩
        rwa [funext fun i => propext (below i)]

/-- The search by places never leaves the list, and finds what the search along the list finds. -/
theorem searchDown_eq (fits : start + v.length = l.length) :
    searchDown v l start = some (lastOccurrence? v l) := by
  obtain ⟨r, searched, last⟩ := searchDown_isLast (Nat.le_of_eq fits)
  have all : ∀ i, (i ≤ start ∧ OccursAt v l i) ↔ OccursAt v l i := by
    intro i
    refine ⟨fun occurs => occurs.2, fun occurs => ⟨?_, occurs⟩⟩
    have := occurs.fits
    omega
  rw [funext fun i => propext (all i)] at last
  rw [searched, last.unique (lastOccurrence?_isLast v l)]

/-! ### Removing -/

theorem remove_of_last (same : s.type.SameName d.type) (place : lastOccurrence? d.entries s.entries = some i) :
    remove (.delegate s) (.delegate d) =
      .ok (.ofEntries s.type (s.entries.take i ++ s.entries.drop (i + d.entries.length))) := by
  simp only [remove, Value.asOperand, bind, Except.bind, requireSameType, if_pos same, withoutLast, place,
    Option.map_some, pure, Except.pure]

theorem remove_of_none (same : s.type.SameName d.type) (missing : lastOccurrence? d.entries s.entries = none) :
    remove (.delegate s) (.delegate d) = .ok (.delegate s) := by
  simp only [remove, Value.asOperand, bind, Except.bind, requireSameType, if_pos same, withoutLast, missing,
    Option.map_none, pure, Except.pure]

/-- Where the other list is not longer, the search by places has a place to start from. -/
theorem removeByPlaces_of_le (shorter : d.entries.length ≤ s.entries.length) :
    removeByPlaces s d = (match lastOccurrence? d.entries s.entries with
      | some i => (cut? s.entries i (i + d.entries.length)).map (.ofEntries s.type)
      | none => some (.delegate s)) := by
  have start : minus? s.entries.length d.entries.length = some (s.entries.length - d.entries.length) :=
    if_pos shorter
  have searched := searchDown_eq (v := d.entries) (Nat.sub_add_cancel shorter)
  rw [removeByPlaces, if_neg (Nat.not_lt.mpr shorter), start]
  show (searchDown d.entries s.entries (s.entries.length - d.entries.length)).bind _ = _
  rw [searched, Option.bind_some]
  cases lastOccurrence? d.entries s.entries <;> rfl

theorem removeByPlaces_of_last (place : lastOccurrence? d.entries s.entries = some i)
    (occurs : OccursAt d.entries s.entries i) :
    removeByPlaces s d =
      some (.ofEntries s.type (s.entries.take i ++ s.entries.drop (i + d.entries.length))) := by
  have inside := occurs.fits
  have cut : cut? s.entries i (i + d.entries.length) =
      some (s.entries.take i ++ s.entries.drop (i + d.entries.length)) :=
    if_pos ⟨Nat.le_add_right _ _, inside⟩
  rw [removeByPlaces_of_le (by omega), place]
  dsimp only
  rw [cut, Option.map_some]

theorem removeByPlaces_of_none (missing : lastOccurrence? d.entries s.entries = none) :
    removeByPlaces s d = some (.delegate s) := by
  by_cases longer : d.entries.length > s.entries.length
  · rw [removeByPlaces, if_pos longer]
    rfl
  · rw [removeByPlaces_of_le (Nat.not_lt.mp longer), missing]

theorem ofEntries_eq (t : Ty) (left : List Entry) :
    Value.ofEntries t left = if left = [] then .null else .delegate ⟨t, left⟩ := by
  cases left with
  | nil => rfl
  | cons e left => rw [if_neg (List.cons_ne_nil e left), Value.ofEntries]

/-- Removing leaves a delegate alone in which the other invocation list does not occur. Else it takes out the
last occurrence and keeps the other entries in their order, as a delegate of the same type, or as null if no
entry is left. Removing by places answers the same: it never stops for a place outside the list. -/
theorem remove_last_occurrence (s d : Delegate) (same : s.type.SameName d.type) :
    ∃ u, remove (.delegate s) (.delegate d) = .ok u ∧ removeByPlaces s d = some u ∧
      ((¬ ∃ i, OccursAt d.entries s.entries i) → u = .delegate s) ∧
      ((∃ i, OccursAt d.entries s.entries i) →
        ∃ i left, IsGreatest {i | OccursAt d.entries s.entries i} i ∧
          left = s.entries.take i ++ s.entries.drop (i + d.entries.length) ∧
          u = if left = [] then .null else .delegate ⟨s.type, left⟩) := by
  have last := lastOccurrence?_isLast d.entries s.entries
  cases place : lastOccurrence? d.entries s.entries with
  | none =>
    rw [place] at last
    refine ⟨_, remove_of_none same place, removeByPlaces_of_none place, fun _ => rfl, ?_⟩
    rintro ⟨i, occurs⟩
    exact absurd occurs (last i)
  | some i =>
    rw [place] at last
    refine ⟨_, remove_of_last same place, removeByPlaces_of_last place last.1, ?_, fun _ => ?_⟩
    · exact fun missing => absurd ⟨i, last.1⟩ missing
    · exact ⟨i, _, last, rfl, ofEntries_eq _ _⟩

/-! ### Overlapping occurrences -/

namespace Overlap

def first : Entry := .strong ⟨some ⟨1⟩, .ofRow .method 1⟩

def second : Entry := .weak 7 ⟨some ⟨2⟩, .ofRow .method 1⟩ .object [] .object

/-- A wrapper of the same number with other contents. -/
def again : Entry := .weak 7 ⟨none, .ofRow .method 9⟩ .object [first] .void

def source : Delegate := ⟨.object, [first, second, first, again, first, second]⟩

def run : Delegate := ⟨.named ⟨"System", "Object"⟩, [first, second, first]⟩

/-- The run occurs at the places 0 and 2 of the source, which share an entry, and with a part at place 4. -/
theorem remove_last_of_overlapping :
    source.type.SameName run.type ∧ OccursAt run.entries source.entries 0 ∧
      IsGreatest {i | OccursAt run.entries source.entries i} 2 ∧
      remove (.delegate source) (.delegate run) = .ok (.delegate ⟨.object, [first, second, second]⟩) := by
  have same : source.type.SameName run.type := by decide
  have place : lastOccurrence? run.entries source.entries = some 2 := by decide
  have last := lastOccurrence?_isLast run.entries source.entries
  rw [place] at last
  have start : OccursAt run.entries source.entries 0 := startsWith_iff.mp (by decide)
  obtain ⟨u, removed, -, -, taken⟩ := remove_last_occurrence source run same
  obtain ⟨i, left, greatest, rfl, rfl⟩ := taken ⟨0, start⟩
  obtain rfl : i = 2 := greatest.unique last
  exact ⟨same, start, last, removed⟩

end Overlap

end WeakSubscription.Delegate
