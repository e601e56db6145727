import WeakSubscription.Delegate.Weak
import WeakSubscription.Proofs.Delegate.Carried
import WeakSubscription.Proofs.Delegate.Laws

/-!
# The wrapper that is found is the one that removing takes out

A wrapper is found by the call that it wraps, from the last entry down, and taken out by its number, at the last
place where the number occurs. Where numbers tell wrappers apart, both come to the same entry: behind the last
wrapper of a call there is none of its number either, since that one would wrap the same call.
-/

namespace WeakSubscription

variable {es : List Entry} {e w y : Entry} {c : Invocation} {source handler : Delegate} {t : Ty}

/-- Entries with the same number are the same wrapper. -/
def NumberedApart (es : List Entry) : Prop :=
  ∀ e ∈ es, ∀ f ∈ es, e.weakId?.isSome = true → e.weakId? = f.weakId? → e = f

instance : DecidablePred NumberedApart := fun es =>
  inferInstanceAs (Decidable (∀ e ∈ es, ∀ f ∈ es, e.weakId?.isSome = true → e.weakId? = f.weakId? → e = f))

/-- The call of the first plain entry. -/
def IsFirstCall (c : Invocation) (es : List Entry) : Prop :=
  ∃ before after, es = before ++ .strong c :: after ∧ ∀ e ∈ before, e.strongCall? = none

/-- The entry wraps the call, and none of those behind it does. -/
structure IsLastWrapper (c : Invocation) (w : Entry) (back : List Entry) : Prop where
  wraps : w.wrappedCall? = some c
  alone : ∀ e ∈ back, e.wrappedCall? ≠ some c

namespace Entry

theorem strongCall?_eq_some_iff : e.strongCall? = some c ↔ e = .strong c := by
  cases e <;> simp [strongCall?]

/-- What is the same as a wrapper has its number. -/
theorem weakId?_of_sameAs (wraps : w.wrappedCall? = some c) (same : y.sameAs w = true) :
    y.weakId?.isSome = true ∧ y.weakId? = w.weakId? := by
  cases w with
  | strong call => cases wraps
  | weak id call callbackType callback handlerType =>
    cases y with
    | strong call' => cases same
    | weak id' _ _ _ _ => exact ⟨rfl, congrArg some (beq_iff_eq.mp same)⟩

end Entry

/-- A list with a plain entry has a first one, and its call is the one that is looked for. -/
theorem exists_isFirstCall (plain : ∃ c, .strong c ∈ es) :
    ∃ c, IsFirstCall c es ∧ es.findSome? Entry.strongCall? = some c := by
  obtain ⟨d, member⟩ := plain
  have there : (es.findSome? Entry.strongCall?).isSome := by
    rw [List.findSome?_isSome_iff]
    exact ⟨_, member, rfl⟩
  obtain ⟨c, wanted⟩ := Option.isSome_iff_exists.mp there
  obtain ⟨before, e, after, split, call, weak⟩ := List.findSome?_eq_some_iff.mp wanted
  obtain rfl := Entry.strongCall?_eq_some_iff.mp call
  exact ⟨c, ⟨before, after, split, weak⟩, wanted⟩

namespace Delegate

theorem findWeak_eq (wanted : handler.entries.findSome? Entry.strongCall? = some c) (t : Ty) :
    findWeak (.delegate source) (.delegate handler) t =
      .ok ((source.entries.reverse.find? (·.wrappedCall? == some c)).elim .null fun e => .delegate ⟨t, [e]⟩) := by
  show Except.ok (((handler.entries.findSome? Entry.strongCall?).bind fun wanted =>
    source.entries.reverse.find? (·.wrappedCall? == some wanted)).elim Value.null _) = _
  rw [wanted]
  rfl

/-- Behind the last wrapper of a call, no entry has its number. -/
theorem lastOccurrence?_wrapper {front back : List Entry} (last : IsLastWrapper c w back)
    (numbered : NumberedApart (front ++ w :: back)) :
    lastOccurrence? [w] (front ++ w :: back) = some front.length := by
  refine lastOccurrence?_of_split w.sameAs_self fun y member => Bool.eq_false_iff.mpr fun same => ?_
  obtain ⟨weak, number⟩ := Entry.weakId?_of_sameAs last.wraps same
  have behind : y ∈ front ++ w :: back := by simp [member]
  obtain rfl := numbered y behind w (by simp) weak number
  exact last.alone y member last.wraps

theorem remove_wrapper {front back : List Entry} (last : IsLastWrapper c w back)
    (numbered : NumberedApart (front ++ w :: back)) (t : Ty) :
    remove (.delegate ⟨t, front ++ w :: back⟩) (.delegate ⟨t, [w]⟩) = .ok (.ofEntries t (front ++ back)) := by
  rw [remove_of_last (s := ⟨t, front ++ w :: back⟩) (d := ⟨t, [w]⟩) rfl (lastOccurrence?_wrapper last numbered)]
  simp

/-- Where numbers tell the wrappers of a delegate apart, the wrapper that is found for a handler is the entry that
removing it takes out. None is found exactly if no entry wraps the handler's first call, and then nothing is taken
out. Otherwise it is the last entry that does, and the others stay in their order. -/
theorem found_wrapper_removed (source handler : Delegate) (t : Ty) (numbered : NumberedApart source.entries)
    (plain : ∃ c, .strong c ∈ handler.entries) :
    ∃ c, IsFirstCall c handler.entries ∧ ∃ found, findWeak (.delegate source) (.delegate handler) t = .ok found ∧
      (found = .null ↔ ∀ e ∈ source.entries, e.wrappedCall? ≠ some c) ∧
      (found = .null → remove (.delegate source) found = .ok (.delegate source)) ∧
      (found ≠ .null → ∃ front w back, source.entries = front ++ w :: back ∧ IsLastWrapper c w back ∧
        found = .delegate ⟨t, [w]⟩ ∧ ∃ retyped, changeType found source.type = .ok retyped ∧
          remove (.delegate source) retyped =
            .ok (if front ++ back = [] then .null else .delegate ⟨source.type, front ++ back⟩)) := by
  obtain ⟨c, first, wanted⟩ := exists_isFirstCall plain
  refine ⟨c, first, _, findWeak_eq wanted t, ?_⟩
  cases search : source.entries.reverse.find? (·.wrappedCall? == some c) with
  | none =>
    have unwrapped : ∀ e ∈ source.entries, e.wrappedCall? ≠ some c := by simpa using search
    exact ⟨⟨fun _ => unwrapped, fun _ => rfl⟩, fun _ => rfl, fun found => absurd rfl found⟩
  | some w =>
    obtain ⟨front, back, split, wraps, others⟩ := split_of_find?_reverse search
    have last : IsLastWrapper c w back :=
      ⟨beq_iff_eq.mp wraps, fun e member => by simpa using others e member⟩
    have member : w ∈ source.entries := by simp [split]
    refine ⟨⟨nofun, fun unwrapped => absurd last.wraps (unwrapped w member)⟩, nofun, fun _ => ?_⟩
    refine ⟨front, w, back, split, last, rfl, .delegate ⟨source.type, [w]⟩, rfl, ?_⟩
    obtain ⟨own, entries⟩ := source
    obtain rfl : entries = front ++ w :: back := split
    rw [remove_wrapper last numbered, ofEntries_eq]

/-! ### A busy source -/

namespace Busy

def eventType : Ty := .named .eventHandler

def listening : Invocation := ⟨some ⟨1⟩, .ofRow .method 1⟩

def bystander : Entry := .strong ⟨none, .ofRow .method 2⟩

/-- A wrapper around the listener's call. -/
def wrapper (id : UInt32) : Entry := .weak id listening eventType [bystander] eventType

def other : Entry := .weak 5 ⟨some ⟨2⟩, .ofRow .method 1⟩ eventType [bystander] eventType

/-- The listener is held by itself, and by two wrappers of which one stands there twice. -/
def held : Delegate :=
  ⟨eventType, [wrapper 3, .strong listening, wrapper 4, wrapper 3, other, bystander, .strong listening]⟩

def leaving : Delegate := ⟨eventType, [other, .strong listening, bystander]⟩

/-- What is left without the second place of the wrapper that stands there twice. -/
def left : List Entry := [wrapper 3, .strong listening, wrapper 4, other, bystander, .strong listening]

theorem found_wrapper_removed_busy :
    NumberedApart held.entries ∧ (∃ c, .strong c ∈ leaving.entries) ∧ IsFirstCall listening leaving.entries ∧
      findWeak (.delegate held) (.delegate leaving) .object = .ok (.delegate ⟨.object, [wrapper 3]⟩) ∧
      remove (.delegate held) (.delegate ⟨eventType, [wrapper 3]⟩) = .ok (.delegate ⟨eventType, left⟩) ∧
      ∃ front back, held.entries = front ++ wrapper 3 :: back ∧ IsLastWrapper listening (wrapper 3) back ∧
        front ++ back = left := by
  have numbered : NumberedApart held.entries := by decide
  have plain : ∃ c, .strong c ∈ leaving.entries := ⟨listening, by decide⟩
  have search : findWeak (.delegate held) (.delegate leaving) .object = .ok (.delegate ⟨.object, [wrapper 3]⟩) := by
    decide
  have removed : remove (.delegate held) (.delegate ⟨eventType, [wrapper 3]⟩) =
      .ok (.delegate ⟨eventType, left⟩) := by decide
  obtain ⟨c, first, found, search', -, -, taken⟩ := found_wrapper_removed held leaving .object numbered plain
  obtain rfl := Except.ok.inj (search.symm.trans search')
  obtain ⟨front, w, back, split, last, same, retyped, converted, rest⟩ := taken nofun
  obtain rfl : wrapper 3 = w := by simpa using same
  obtain rfl : listening = c := Option.some.inj last.wraps
  obtain rfl := Except.ok.inj converted
  refine ⟨numbered, plain, first, search, removed, front, back, split, last, ?_⟩
  have both := Except.ok.inj (removed.symm.trans rest)
  split at both
  · cases both
  · exact congrArg Delegate.entries (Value.delegate.inj both).symm

end Busy

end Delegate

end WeakSubscription
