import Mathlib.Logic.Basic
import WeakSubscription.Ty.Basic

/-!
# What the text of a type says

Types are compared by their texts. A text is read back from the left: up to the first delimiter stands a name, what
follows the name tells the kind of type, and an argument ends where a comma or the closing bracket stands. So two
texts differ as soon as the types differ, except that a built-in type and a named type can read alike.
-/

namespace WeakSubscription

/-! ### Words in front of what stops them -/

section

variable {α : Type} {p : α → Bool} {w v r s : List α}

theorem takeWhile_word (word : ∀ c ∈ w, p c = true) (stops : ∀ c ∈ r.head?, p c = false) :
    (w ++ r).takeWhile p = w := by
  rw [List.takeWhile_append_of_pos word]
  cases r with
  | nil => rw [List.takeWhile_nil, List.append_nil]
  | cons c r =>
    have stop : ¬ p c = true := by simp [stops c rfl]
    rw [List.takeWhile_cons_of_neg stop, List.append_nil]

/-- A word and what stops it are known from the whole. -/
theorem word_append_inj (left : ∀ c ∈ w, p c = true) (right : ∀ c ∈ v, p c = true)
    (stopsLeft : ∀ c ∈ r.head?, p c = false) (stopsRight : ∀ c ∈ s.head?, p c = false)
    (same : w ++ r = v ++ s) : w = v ∧ r = s := by
  have words : w = v := by rw [← takeWhile_word left stopsLeft, same, takeWhile_word right stopsRight]
  rw [words] at same
  exact ⟨words, List.append_cancel_left same⟩

end

/-! ### Names -/

namespace TypeName

/-- Whether the character is none of those that stand between names in the text of a type. -/
def isNameChar (c : Char) : Bool := c ∉ ['<', '>', ',', '!']

/-- Whether the name can be made out in a text: no delimiter is in it, and its last part is one word. -/
structure WellFormed (n : TypeName) : Prop where
  ns : n.ns.toList.all isNameChar = true
  name : n.name.toList.all isNameChar = true
  nonempty : n.name ≠ ""
  undotted : '.' ∉ n.name.toList

instance (n : TypeName) : Decidable n.WellFormed :=
  decidable_of_iff (n.ns.toList.all isNameChar = true ∧ n.name.toList.all isNameChar = true ∧ n.name ≠ "" ∧
    '.' ∉ n.name.toList)
    ⟨fun ⟨ns, name, nonempty, undotted⟩ => ⟨ns, name, nonempty, undotted⟩,
      fun h => ⟨h.ns, h.name, h.nonempty, h.undotted⟩⟩

def void : TypeName := ⟨"System", "Void"⟩

def object : TypeName := ⟨"System", "Object"⟩

def intPtr : TypeName := ⟨"System", "IntPtr"⟩

variable {n m : TypeName}

/-- The namespace as it stands in front of the name, read from the name back. -/
def qualifier (n : TypeName) : List Char := if n.ns = "" then [] else '.' :: n.ns.toList.reverse

theorem reverse_full (n : TypeName) : n.full.toList.reverse = n.name.toList.reverse ++ n.qualifier := by
  unfold full qualifier
  split <;> simp

theorem head_qualifier : ∀ c ∈ n.qualifier.head?, (c != '.') = false := by
  unfold qualifier
  split <;> simp

theorem qualifier_inj (same : n.qualifier = m.qualifier) : n.ns = m.ns := by
  unfold qualifier at same
  split at same <;> split at same <;> simp_all [String.toList_inj]

/-- The last dot of a text divides namespace and name. -/
theorem full_inj (left : n.WellFormed) (right : m.WellFormed) (same : n.full = m.full) : n = m := by
  have word : ∀ {n : TypeName}, n.WellFormed → ∀ c ∈ n.name.toList.reverse, (c != '.') = true := by
    intro n formed c member
    have other : c ≠ '.' := fun dot => formed.undotted (dot ▸ List.mem_reverse.mp member)
    simpa using other
  have reversed := congrArg (fun text => text.toList.reverse) same
  simp only [reverse_full] at reversed
  obtain ⟨names, qualifiers⟩ := word_append_inj (word left) (word right) head_qualifier head_qualifier reversed
  have name : n.name = m.name := String.toList_inj.mp (List.reverse_inj.mp names)
  exact congrArg₂ TypeName.mk (qualifier_inj qualifiers) name

theorem full_ne_nil (formed : n.WellFormed) : n.full.toList ≠ [] := by
  have nonempty : n.name.toList ≠ [] := fun empty => formed.nonempty (String.toList_eq_nil_iff.mp empty)
  unfold full
  split <;> simp [nonempty]

theorem full_word (formed : n.WellFormed) : ∀ c ∈ n.full.toList, isNameChar c = true := by
  intro c member
  unfold full at member
  split at member
  · exact List.all_eq_true.mp formed.name c member
  · simp only [String.toList_append, List.mem_append] at member
    rcases member with (inside | dot) | inside
    · exact List.all_eq_true.mp formed.ns c inside
    · obtain rfl : c = '.' := by simpa using dot
      decide
    · exact List.all_eq_true.mp formed.name c inside

end TypeName

namespace Ty

variable {t a b : Ty} {n : TypeName} {r s : List Char}

/-! ### Types of well-formed names -/

mutual

/-- Whether every name in the type is well formed, at any depth. -/
def wellNamed : Ty → Bool
  | .void | .object | .intPtr | .typeParam _ | .methodParam _ => true
  | .named n => decide n.WellFormed
  | .inst base args => decide base.WellFormed && allWellNamed args

def allWellNamed : List Ty → Bool
  | [] => true
  | t :: ts => wellNamed t && allWellNamed ts

end

/-- The type that a name alone stands for: a built-in one, if it goes by the name. -/
def ofName (n : TypeName) : Ty :=
  if n = .void then .void else if n = .object then .object else if n = .intPtr then .intPtr else .named n

mutual

/-- The type with the built-in types in place of the named types that read like them, at any depth. -/
def normalized : Ty → Ty
  | .void => .void
  | .object => .object
  | .intPtr => .intPtr
  | .named n => ofName n
  | .inst base args => .inst base (allNormalized args)
  | .typeParam i => .typeParam i
  | .methodParam i => .methodParam i

def allNormalized : List Ty → List Ty
  | [] => []
  | t :: ts => normalized t :: allNormalized ts

end

theorem fullName_ofName (n : TypeName) : (ofName n).fullName = n.full := by
  unfold ofName
  split
  case isTrue is => rw [is]; rfl
  case isFalse =>
    split
    case isTrue is => rw [is]; rfl
    case isFalse =>
      split
      case isTrue is => rw [is]; rfl
      case isFalse => rfl

mutual

/-- A built-in type reads like the named type that it stands for. -/
theorem fullName_normalized : ∀ t : Ty, t.normalized.fullName = t.fullName
  | .void | .object | .intPtr | .typeParam _ | .methodParam _ => rfl
  | .named n => fullName_ofName n
  | .inst base args => by rw [normalized, fullName, fullName, fullNames_allNormalized args]

theorem fullNames_allNormalized : ∀ ts : List Ty, fullNames (allNormalized ts) = fullNames ts
  | [] => rfl
  | t :: ts => by rw [allNormalized, fullNames, fullNames, fullName_normalized t, fullNames_allNormalized ts]

end

/-! ### The name in front -/

/-- The name that the text begins with. A parameter has none. -/
def leadName? : Ty → Option TypeName
  | .void => some .void
  | .object => some .object
  | .intPtr => some .intPtr
  | .named n | .inst n _ => some n
  | .typeParam _ | .methodParam _ => none

def leadText (t : Ty) : List Char := (t.leadName?.map fun n => n.full.toList).getD []

/-- What stands between the brackets of a generic type. -/
def argsText (ts : List Ty) : List Char := (",".intercalate (ts.map fullName)).toList

/-- What the text has behind the name. -/
def textBehind : Ty → List Char
  | .void | .object | .intPtr | .named _ => []
  | .inst _ args => '<' :: argsText args ++ ['>']
  | .typeParam i => '!' :: Nat.toDigits 10 i
  | .methodParam i => '!' :: '!' :: Nat.toDigits 10 i

theorem toList_fullName (t : Ty) : t.fullName.toList = t.leadText ++ t.textBehind := by
  cases t with
  | void | object | intPtr => decide
  | named n => simp [fullName, leadText, leadName?, textBehind]
  | inst base args => simp [fullName_inst, leadText, leadName?, textBehind, argsText]
  | typeParam i | methodParam i => simp [fullName, leadText, leadName?, textBehind, toString]

theorem wellFormed_of_leadName (named : t.wellNamed = true) (lead : t.leadName? = some n) : n.WellFormed := by
  cases t with
  | void | object | intPtr =>
    obtain rfl := Option.some.inj lead
    decide
  | named m =>
    obtain rfl := Option.some.inj lead
    exact of_decide_eq_true named
  | inst base args =>
    obtain rfl := Option.some.inj lead
    exact of_decide_eq_true (Bool.and_eq_true_iff.mp named).1
  | typeParam _ | methodParam _ => cases lead

theorem leadText_word (named : t.wellNamed = true) : ∀ c ∈ t.leadText, TypeName.isNameChar c = true := by
  unfold leadText
  cases lead : t.leadName? with
  | none => simp
  | some n => exact TypeName.full_word (wellFormed_of_leadName named lead)

theorem leadName?_eq_none (named : t.wellNamed = true) (nothing : t.leadText = []) : t.leadName? = none := by
  cases lead : t.leadName? with
  | none => rfl
  | some n =>
    rw [leadText, lead] at nothing
    exact absurd nothing (TypeName.full_ne_nil (wellFormed_of_leadName named lead))

theorem leadName?_eq_of_leadText (left : a.wellNamed = true) (right : b.wellNamed = true)
    (same : a.leadText = b.leadText) : a.leadName? = b.leadName? := by
  cases leadA : a.leadName? with
  | none =>
    have nothing : b.leadText = [] := by rw [← same, leadText, leadA]; rfl
    rw [leadName?_eq_none right nothing]
  | some n =>
    cases leadB : b.leadName? with
    | none =>
      have nothing : a.leadText = [] := by rw [same, leadText, leadB]; rfl
      rw [leadName?_eq_none left nothing] at leadA
      cases leadA
    | some m =>
      rw [leadText, leadText, leadA, leadB] at same
      have names := TypeName.full_inj (wellFormed_of_leadName left leadA) (wellFormed_of_leadName right leadB)
        (String.toList_inj.mp same)
      rw [names]

/-- What may stand behind a type that is an argument, or nothing. -/
def Closes (r : List Char) : Prop := ∀ c ∈ r.head?, c = ',' ∨ c = '>'

theorem head_textBehind (closes : Closes r) :
    ∀ c ∈ (t.textBehind ++ r).head?, TypeName.isNameChar c = false := by
  intro c member
  cases t with
  | void | object | intPtr | named _ =>
    obtain rfl | rfl := closes c member <;> decide
  | inst _ _ | typeParam _ | methodParam _ =>
    obtain rfl := Option.some.inj member
    decide

/-- Texts that begin alike begin with the same name. -/
theorem lead_inj (left : a.wellNamed = true) (right : b.wellNamed = true) (closesLeft : Closes r)
    (closesRight : Closes s) (same : a.fullName.toList ++ r = b.fullName.toList ++ s) :
    a.leadName? = b.leadName? ∧ a.textBehind ++ r = b.textBehind ++ s := by
  rw [toList_fullName, toList_fullName, List.append_assoc, List.append_assoc] at same
  obtain ⟨words, behind⟩ := word_append_inj (leadText_word left) (leadText_word right) (head_textBehind closesLeft)
    (head_textBehind closesRight) same
  exact ⟨leadName?_eq_of_leadText left right words, behind⟩

/-! ### Parameters -/

theorem digits_word (i : Nat) : ∀ c ∈ Nat.toDigits 10 i, TypeName.isNameChar c = true := by
  intro c member
  have digit := Nat.isDigit_of_mem_toDigits (by decide) (by decide) member
  have none : ['<', '>', ',', '!'].all (fun d => !d.isDigit) = true := by decide
  refine decide_eq_true fun listed => ?_
  have other := List.all_eq_true.mp none c listed
  rw [digit] at other
  cases other

theorem head_closes (closes : Closes r) : ∀ c ∈ r.head?, TypeName.isNameChar c = false := by
  intro c member
  obtain rfl | rfl := closes c member <;> decide

theorem digits_inj {i j : Nat} (closesLeft : Closes r) (closesRight : Closes s)
    (same : Nat.toDigits 10 i ++ r = Nat.toDigits 10 j ++ s) : i = j ∧ r = s := by
  obtain ⟨digits, rest⟩ :=
    word_append_inj (digits_word i) (digits_word j) (head_closes closesLeft) (head_closes closesRight) same
  refine ⟨?_, rest⟩
  calc
    i = Nat.ofDigitChars 10 (Nat.toDigits 10 i) 0 := Nat.ofDigitChars_ten_toDigits.symm
    _ = Nat.ofDigitChars 10 (Nat.toDigits 10 j) 0 := by rw [digits]
    _ = j := Nat.ofDigitChars_ten_toDigits

/-- A number does not begin with the mark of a parameter. -/
theorem digits_ne_mark {i : Nat} : Nat.toDigits 10 i ++ r ≠ '!' :: s := by
  intro same
  cases digits : Nat.toDigits 10 i with
  | nil => exact Nat.toDigits_ne_nil digits
  | cons c cs =>
    have word := digits_word i c (by rw [digits]; exact List.mem_cons_self)
    rw [digits] at same
    rw [(List.cons.inj same).1] at word
    revert word
    decide

/-! ### Arguments -/

/-- The arguments behind the first one, each with the comma in front of it. -/
def furtherText : List Ty → List Char
  | [] => []
  | t :: ts => ',' :: (t.fullName.toList ++ furtherText ts)

theorem furtherText_cons (t : Ty) (ts : List Ty) : furtherText (t :: ts) = ',' :: argsText (t :: ts) := by
  induction ts generalizing t with
  | nil => simp [argsText, furtherText]
  | cons u ts ih =>
    rw [furtherText, ih]
    simp [argsText]

theorem closes_furtherText (ts : List Ty) (r : List Char) : Closes (furtherText ts ++ '>' :: r) := by
  cases ts <;> simp [Closes, furtherText]

/-- An argument does not read like the closing bracket: it has a name or a mark in front. -/
theorem fullName_ne_closing (named : t.wellNamed = true) (closes : Closes r) :
    t.fullName.toList ++ r ≠ '>' :: s := by
  intro same
  rw [toList_fullName, List.append_assoc] at same
  have stops : ∀ c ∈ ('>' :: s).head?, TypeName.isNameChar c = false := by simp [TypeName.isNameChar]
  obtain ⟨nothing, behind⟩ :=
    word_append_inj (v := []) (leadText_word named) (by simp) (head_textBehind closes) stops same
  have lead := leadName?_eq_none named nothing
  cases t with
  | typeParam i | methodParam i => exact absurd (List.cons.inj behind).1 (by decide)
  | void | object | intPtr | named _ | inst _ _ => cases lead

theorem argsText_cons_ne (named : t.wellNamed = true) (ts : List Ty) : argsText (t :: ts) ++ '>' :: r ≠ '>' :: s := by
  have first : argsText (t :: ts) = t.fullName.toList ++ furtherText ts :=
    (List.cons.inj (furtherText_cons t ts)).2.symm
  rw [first, List.append_assoc]
  exact fullName_ne_closing named (closes_furtherText ts r)

/-- What stands between brackets tells whether there is a first argument, so a comma may be put in front of it. -/
theorem furtherText_of_argsText {as bs : List Ty} (left : allWellNamed as = true) (right : allWellNamed bs = true)
    (same : argsText as ++ '>' :: r = argsText bs ++ '>' :: s) :
    furtherText as ++ '>' :: r = furtherText bs ++ '>' :: s := by
  cases as with
  | nil =>
    cases bs with
    | nil => exact same
    | cons b bs => exact absurd same.symm (argsText_cons_ne (Bool.and_eq_true_iff.mp right).1 bs)
  | cons a as =>
    cases bs with
    | nil => exact absurd same (argsText_cons_ne (Bool.and_eq_true_iff.mp left).1 as)
    | cons b bs => rw [furtherText_cons, furtherText_cons, List.cons_append, List.cons_append, same]

/-! ### Reading a type back -/

/-- A type without arguments is known from its name. -/
theorem normalized_of_leadName (lead : t.leadName? = some n) (simple : t.textBehind = []) :
    t.normalized = ofName n := by
  cases t with
  | void | object | intPtr | named _ =>
    obtain rfl := Option.some.inj lead
    rfl
  | inst _ _ => cases simple
  | typeParam _ | methodParam _ => cases lead

/-- Behind a type that is only a name nothing of the type is left, so the other type is only a name as well. -/
theorem textBehind_eq_nil (lead : b.leadName? = some n) (closes : Closes r) (same : r = b.textBehind ++ s) :
    b.textBehind = [] := by
  cases b with
  | void | object | intPtr | named _ => rfl
  | inst _ args =>
    rw [same] at closes
    exact absurd (closes '<' rfl) (by decide)
  | typeParam _ | methodParam _ => cases lead

theorem normalized_of_simple (simple : a.textBehind = []) (lead : a.leadName? = some n) (closes : Closes r)
    (names : a.leadName? = b.leadName?) (behind : a.textBehind ++ r = b.textBehind ++ s) :
    a.normalized = b.normalized ∧ r = s := by
  rw [simple, List.nil_append] at behind
  rw [lead] at names
  have simple' := textBehind_eq_nil names.symm closes behind
  rw [simple', List.nil_append] at behind
  exact ⟨by rw [normalized_of_leadName lead simple, normalized_of_leadName names.symm simple'], behind⟩

mutual

/-- Where two texts with something behind them agree, the types are the same up to built-in types, and so is what is
behind them. -/
theorem normalized_of_text : ∀ (a b : Ty) {r s : List Char}, a.wellNamed = true → b.wellNamed = true → Closes r →
    Closes s → a.fullName.toList ++ r = b.fullName.toList ++ s → a.normalized = b.normalized ∧ r = s
  | .void, b, _, _, left, right, closesLeft, closesRight, same
  | .object, b, _, _, left, right, closesLeft, closesRight, same
  | .intPtr, b, _, _, left, right, closesLeft, closesRight, same
  | .named _, b, _, _, left, right, closesLeft, closesRight, same => by
    obtain ⟨names, behind⟩ := lead_inj left right closesLeft closesRight same
    exact normalized_of_simple rfl rfl closesLeft names behind
  | .inst base args, b, r, s, left, right, closesLeft, closesRight, same => by
    obtain ⟨names, behind⟩ := lead_inj left right closesLeft closesRight same
    cases b with
    | inst base' args' =>
      obtain rfl := Option.some.inj names
      obtain ⟨-, left⟩ := Bool.and_eq_true_iff.mp left
      obtain ⟨-, right⟩ := Bool.and_eq_true_iff.mp right
      simp only [textBehind, List.cons_append, List.append_assoc, List.nil_append] at behind
      -- behind an argument stand the others and the bracket, so the induction is with anything behind the types
      have args_behind := furtherText_of_argsText left right (List.cons.inj behind).2
      obtain ⟨same, rest⟩ := normalized_of_furtherText args args' left right args_behind
      exact ⟨by rw [normalized, normalized, same], rest⟩
    | void | object | intPtr | named _ => cases textBehind_eq_nil rfl closesRight behind.symm
    | typeParam _ | methodParam _ => cases names
  | .typeParam i, b, _, _, left, right, closesLeft, closesRight, same => by
    obtain ⟨names, behind⟩ := lead_inj left right closesLeft closesRight same
    cases b with
    | typeParam j =>
      obtain ⟨rfl, rest⟩ := digits_inj closesLeft closesRight (List.cons.inj behind).2
      exact ⟨rfl, rest⟩
    | methodParam j => exact absurd (List.cons.inj behind).2 digits_ne_mark
    | void | object | intPtr | named _ | inst _ _ => cases names
  | .methodParam i, b, _, _, left, right, closesLeft, closesRight, same => by
    obtain ⟨names, behind⟩ := lead_inj left right closesLeft closesRight same
    cases b with
    | typeParam j => exact absurd (List.cons.inj behind).2.symm digits_ne_mark
    | methodParam j =>
      obtain ⟨rfl, rest⟩ := digits_inj closesLeft closesRight (List.cons.inj (List.cons.inj behind).2).2
      exact ⟨rfl, rest⟩
    | void | object | intPtr | named _ | inst _ _ => cases names

theorem normalized_of_furtherText : ∀ (as bs : List Ty) {r s : List Char}, allWellNamed as = true →
    allWellNamed bs = true → furtherText as ++ '>' :: r = furtherText bs ++ '>' :: s →
    allNormalized as = allNormalized bs ∧ r = s
  | [], [], _, _, _, _, same => ⟨rfl, (List.cons.inj same).2⟩
  | [], _ :: _, _, _, _, _, same => absurd (List.cons.inj same).1 (by decide)
  | _ :: _, [], _, _, _, _, same => absurd (List.cons.inj same).1 (by decide)
  | a :: as, b :: bs, _, _, left, right, same => by
    rw [furtherText, furtherText, List.cons_append, List.cons_append, List.append_assoc, List.append_assoc] at same
    obtain ⟨left, lefts⟩ := Bool.and_eq_true_iff.mp left
    obtain ⟨right, rights⟩ := Bool.and_eq_true_iff.mp right
    obtain ⟨first, further⟩ := normalized_of_text a b left right (closes_furtherText as _) (closes_furtherText bs _)
      (List.cons.inj same).2
    obtain ⟨others, rest⟩ := normalized_of_furtherText as bs lefts rights further
    exact ⟨by rw [allNormalized, allNormalized, first, others], rest⟩

end

/-- Types of well-formed names read alike exactly if they are the same type, once the built-in types stand for the
named types that go by their names, at any depth. -/
theorem fullName_eq_iff (left : a.wellNamed = true) (right : b.wellNamed = true) :
    a.fullName = b.fullName ↔ a.normalized = b.normalized := by
  constructor
  · intro same
    have texts : a.fullName.toList ++ [] = b.fullName.toList ++ [] := by rw [same]
    exact (normalized_of_text a b left right (by simp [Closes]) (by simp [Closes]) texts).1
  · intro same
    rw [← fullName_normalized a, same, fullName_normalized b]

/-- A name that is spelled out reads like the built-in type, however deep it stands. A bracket in another place makes
another type of the same names. -/
theorem fullName_eq_iff_nested :
    let pair (args : List Ty) : Ty := .inst ⟨"", "Pair`2"⟩ args
    let list (args : List Ty) : Ty := .inst ⟨"Sample.Lists", "List`1"⟩ args
    let a : Ty := pair [list [.object], .methodParam 10, list []]
    let b : Ty := pair [list [.named .object], .methodParam 10, list []]
    let c : Ty := pair [list [.object, .methodParam 10], list []]
    a.wellNamed = true ∧ b.wellNamed = true ∧ c.wellNamed = true ∧ a ≠ b ∧ a.fullName = b.fullName ∧
      a.fullName ≠ c.fullName := by
  intro pair list a b c
  have namedA : a.wellNamed = true := by decide
  have namedB : b.wellNamed = true := by decide
  have namedC : c.wellNamed = true := by decide
  have alike : a.normalized = b.normalized := by decide
  have apart : a.normalized ≠ c.normalized := by decide
  refine ⟨namedA, namedB, namedC, by decide, ?_, ?_⟩
  · exact (fullName_eq_iff namedA namedB).mpr alike
  · exact fun same => apart ((fullName_eq_iff namedA namedC).mp same)

end Ty

end WeakSubscription
