import WeakSubscription.Proofs.Delegate.Removal
import WeakSubscription.Tracked

/-!
# Laws of combining

Combining is associative where it succeeds, null is neutral, and removing what was combined last gives back what
was there before. Types are compared pairwise and null has none, so that the order in which three values are
combined could matter for success; it does not, since having the same name is an equivalence.
-/

namespace WeakSubscription

/-! ### Operands -/

namespace Value

/-- Null, or a delegate. -/
def IsOperand (v : Value) : Prop := v = .null ∨ ∃ d, v = .delegate d

/-- Null, or a delegate with entries. -/
def IsMulticast (v : Value) : Prop := v = .null ∨ ∃ d : Delegate, v = .delegate d ∧ d.entries ≠ []

theorem IsMulticast.isOperand {v : Value} (multicast : v.IsMulticast) : v.IsOperand :=
  multicast.imp_right fun ⟨d, same, _⟩ => ⟨d, same⟩

end Value

theorem Entry.sameAs_self (e : Entry) : e.sameAs e = true := by
  cases e with
  | strong call => exact beq_self_eq_true call
  | weak id _ _ _ _ => exact beq_self_eq_true id

namespace Delegate

variable {a b c v : Value} {d e f : Delegate}

/-! ### Combining two values -/

theorem combine_null_left (operand : a.IsOperand) : combine .null a = .ok a := by
  obtain rfl | ⟨d, rfl⟩ := operand <;> rfl

theorem combine_null_right (operand : a.IsOperand) : combine a .null = .ok a := by
  obtain rfl | ⟨d, rfl⟩ := operand <;> rfl

theorem combine_of_sameName (same : d.type.SameName e.type) :
    combine (.delegate d) (.delegate e) = .ok (.delegate ⟨d.type, d.entries ++ e.entries⟩) := by
  simp only [combine, Value.asOperand, bind, Except.bind, requireSameType, if_pos same, pure, Except.pure]

theorem combine_of_not_sameName (apart : ¬ d.type.SameName e.type) :
    combine (.delegate d) (.delegate e) = .error (.fault (.delegateTypeMismatch d.type e.type)) := by
  simp only [combine, Value.asOperand, bind, Except.bind, requireSameType, if_neg apart]

/-- Two delegates are combined exactly if their types have the same name. -/
theorem combine_delegates_eq_ok_iff : combine (.delegate d) (.delegate e) = .ok v ↔
    d.type.SameName e.type ∧ v = .delegate ⟨d.type, d.entries ++ e.entries⟩ := by
  by_cases same : d.type.SameName e.type
  · rw [combine_of_sameName same, Except.ok.injEq]
    exact ⟨fun given => ⟨same, given.symm⟩, fun given => given.2.symm⟩
  · rw [combine_of_not_sameName same]
    exact ⟨nofun, fun given => absurd given.1 same⟩

theorem combine_succeeds_iff (first : a.IsOperand) (second : b.IsOperand) :
    (∃ v, combine a b = .ok v) ↔ ∀ d e, a = .delegate d → b = .delegate e → d.type.SameName e.type := by
  obtain rfl | ⟨d, rfl⟩ := first
  · exact ⟨fun _ => nofun, fun _ => ⟨b, combine_null_left second⟩⟩
  · obtain rfl | ⟨e, rfl⟩ := second
    · exact ⟨fun _ => nofun, fun _ => ⟨.delegate d, rfl⟩⟩
    · constructor
      · rintro ⟨v, combined⟩ _ _ ⟨rfl⟩ ⟨rfl⟩
        exact (combine_delegates_eq_ok_iff.mp combined).1
      · exact fun same => ⟨_, combine_of_sameName (same d e rfl rfl)⟩

theorem combine_isOperand (first : a.IsOperand) (second : b.IsOperand) (combined : combine a b = .ok v) :
    v.IsOperand := by
  obtain rfl | ⟨d, rfl⟩ := first
  · rwa [← Except.ok.inj ((combine_null_left second).symm.trans combined)]
  · obtain rfl | ⟨e, rfl⟩ := second
    · exact .inr ⟨d, (Except.ok.inj combined).symm⟩
    · exact .inr ⟨_, (combine_delegates_eq_ok_iff.mp combined).2⟩

/-! ### Combining three values -/

theorem combine_delegates_assoc :
    (combine (.delegate d) (.delegate e) >>= fun w => combine w (.delegate f)) = .ok v ↔
      (combine (.delegate e) (.delegate f) >>= fun w => combine (.delegate d) w) = .ok v := by
  rw [except_bind_eq_ok_iff, except_bind_eq_ok_iff]
  constructor
  · rintro ⟨w, first, later⟩
    obtain ⟨de, rfl⟩ := combine_delegates_eq_ok_iff.mp first
    obtain ⟨df, rfl⟩ := combine_delegates_eq_ok_iff.mp later
    have ef : e.type.SameName f.type := de.symm.trans df
    refine ⟨_, combine_of_sameName ef, combine_delegates_eq_ok_iff.mpr ⟨de, ?_⟩⟩
    rw [List.append_assoc]
  · rintro ⟨w, later, first⟩
    obtain ⟨ef, rfl⟩ := combine_delegates_eq_ok_iff.mp later
    obtain ⟨de, rfl⟩ := combine_delegates_eq_ok_iff.mp first
    have df : d.type.SameName f.type := de.trans ef
    refine ⟨_, combine_of_sameName de, combine_delegates_eq_ok_iff.mpr ⟨df, ?_⟩⟩
    rw [List.append_assoc]

/-- What only hands on what it is given may be left out. -/
theorem bind_of_neutral {x : Except Error Value} {g : Value → Except Error Value}
    (neutral : ∀ w, x = .ok w → g w = .ok w) : x >>= g = x := by
  cases x with
  | error e => rfl
  | ok w => exact neutral w rfl

/-- A null among the three is left out on both sides. -/
theorem combine_assoc (first : a.IsOperand) (second : b.IsOperand) (third : c.IsOperand) :
    (combine a b >>= fun w => combine w c) = .ok v ↔ (combine b c >>= fun w => combine a w) = .ok v := by
  have nullFirst : (combine b c >>= fun w => combine .null w) = combine b c :=
    bind_of_neutral fun w combined => combine_null_left (combine_isOperand second third combined)
  have nullLast : (combine a b >>= fun w => combine w .null) = combine a b :=
    bind_of_neutral fun w combined => combine_null_right (combine_isOperand first second combined)
  obtain rfl | ⟨d, rfl⟩ := first
  · rw [nullFirst, combine_null_left second]
    rfl
  · obtain rfl | ⟨e, rfl⟩ := second
    · rw [combine_null_left third]
      rfl
    · obtain rfl | ⟨f, rfl⟩ := third
      · rw [nullLast]
        rfl
      · exact combine_delegates_assoc

/-! ### Removing what was combined last -/

/-- A run that was appended occurs last where it was appended, whatever else of it there is in the list or across
the seam: no later place is left for all of it. -/
theorem lastOccurrence?_append (l run : List Entry) : lastOccurrence? run (l ++ run) = some l.length := by
  have appended : IsLast (OccursAt run (l ++ run)) (some l.length) := by
    refine ⟨⟨by rw [List.length_append], fun k inside => ?_⟩, fun i occurs => ?_⟩
    · have inside' : l.length + k < (l ++ run).length := by rw [List.length_append]; omega
      have read : (l ++ run)[l.length + k] = run[k] := by simp
      rw [read]
      exact run[k].sameAs_self
    · have fits := occurs.fits
      rw [List.length_append] at fits
      omega
  exact (lastOccurrence?_isLast run (l ++ run)).unique appended

theorem remove_appended (same : d.type.SameName e.type) (l : List Entry) :
    remove (.delegate ⟨d.type, l ++ e.entries⟩) (.delegate e) = .ok (.ofEntries d.type l) := by
  have place := lastOccurrence?_append l e.entries
  rw [remove_of_last (s := ⟨d.type, l ++ e.entries⟩) same place, ← List.length_append, List.drop_length,
    List.take_left, List.append_nil]

theorem remove_combined (first : a.IsMulticast) (second : b.IsMulticast) (combined : combine a b = .ok v) :
    remove v b = .ok a := by
  obtain rfl | ⟨d, rfl, filled⟩ := first
  · obtain rfl := Except.ok.inj ((combine_null_left second.isOperand).symm.trans combined)
    obtain rfl | ⟨e, rfl, -⟩ := second
    · rfl
    · exact remove_appended rfl []
  · obtain rfl | ⟨e, rfl, -⟩ := second
    · obtain rfl := Except.ok.inj combined
      rfl
    · obtain ⟨same, rfl⟩ := combine_delegates_eq_ok_iff.mp combined
      rw [remove_appended same, ofEntries_eq, if_neg filled]

/-! ### The laws together -/

/-- Two values are combined exactly if they are not delegates of types with different names. Null is neutral, three
values may be combined in either order, and removing what was combined last gives back what was there before. -/
theorem combining_laws (first : a.IsMulticast) (second : b.IsMulticast) (third : c.IsMulticast) :
    ((∃ v, combine a b = .ok v) ↔ ∀ d e, a = .delegate d → b = .delegate e → d.type.SameName e.type) ∧
      combine .null a = .ok a ∧ combine a .null = .ok a ∧
      (∀ v, (do combine (← combine a b) c : Except Error Value) = .ok v ↔
        (do combine a (← combine b c) : Except Error Value) = .ok v) ∧
      ∀ v, combine a b = .ok v → remove v b = .ok a :=
  ⟨combine_succeeds_iff first.isOperand second.isOperand, combine_null_left first.isOperand,
    combine_null_right first.isOperand,
    fun _ => combine_assoc first.isOperand second.isOperand third.isOperand,
    fun _ combined => remove_combined first second combined⟩

/-! ### A run across the seam -/

namespace Overlap

def before : Delegate := ⟨.object, [first, second, first, second]⟩

def combined : Delegate := ⟨.object, [first, second, first, second, first, second, first]⟩

/-- The appended run also occurs inside what was there before, and across the seam, where it shares an entry with
the appended one. -/
theorem combining_laws_overlapping :
    (Value.delegate before).IsMulticast ∧ (Value.delegate run).IsMulticast ∧ (Value.delegate source).IsMulticast ∧
      OccursAt run.entries combined.entries 0 ∧ OccursAt run.entries combined.entries 2 ∧
      combine (.delegate before) (.delegate run) = .ok (.delegate combined) ∧
      remove (.delegate combined) (.delegate run) = .ok (.delegate before) ∧
      (do combine (.delegate before) (← combine (.delegate run) (.delegate source)) : Except Error Value) =
        .ok (.delegate ⟨.object, combined.entries ++ source.entries⟩) := by
  have filled : (Value.delegate before).IsMulticast := .inr ⟨before, rfl, nofun⟩
  have appended : (Value.delegate run).IsMulticast := .inr ⟨run, rfl, nofun⟩
  have last : (Value.delegate source).IsMulticast := .inr ⟨source, rfl, nofun⟩
  have inside : OccursAt run.entries combined.entries 0 := startsWith_iff.mp (by decide)
  have across : OccursAt run.entries combined.entries 2 :=
    occursAt_cons_succ.mpr (occursAt_cons_succ.mpr (startsWith_iff.mp (by decide)))
  have made : combine (.delegate before) (.delegate run) = .ok (.delegate combined) :=
    combine_of_sameName (by decide)
  obtain ⟨-, -, -, order, undone⟩ := combining_laws filled appended last
  refine ⟨filled, appended, last, inside, across, made, undone _ made, (order _).mp ?_⟩
  rw [made]
  exact combine_of_sameName (d := combined) (e := source) (by decide)

end Overlap

end Delegate

end WeakSubscription
