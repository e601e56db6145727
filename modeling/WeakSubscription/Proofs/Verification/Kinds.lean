import Mathlib.Data.List.Forall2
import WeakSubscription.Verification.Method

/-!
# What verification sees of a type

The verifier compares types by their names, and beyond that asks a type three questions: whether it is the
type of no value, whether its values are references, and whether every reference may be seen as one of
them. The answers go by how the type is written and not by its name, so `System.Object` written as a named
type is not the base of all references.

Types that agree in name and in the three answers cannot be told apart. Two modules that differ in such
types only are verified step by step with the same outcome: each rule takes stacks of like types to stacks
of like types, or fails on both.
-/

namespace WeakSubscription

/-! ### Results that agree -/

/-- Two computations agree if both give values, and these are in relation, or both fail. -/
def Agree {ε α β : Type} (P : α → β → Prop) : Except ε α → Except ε β → Prop
  | .ok a, .ok b => P a b
  | .error _, .error _ => True
  | .ok _, .error _ | .error _, .ok _ => False

namespace Agree

variable {ε α β α' β' : Type} {P : α → β → Prop} {Q : α' → β' → Prop}

theorem cases {x : Except ε α} {y : Except ε β} (agree : Agree P x y) :
    (∃ a b, x = .ok a ∧ y = .ok b ∧ P a b) ∨ ∃ e e', x = .error e ∧ y = .error e' := by
  match x, y with
  | .ok a, .ok b => exact .inl ⟨a, b, rfl, rfl, agree⟩
  | .error e, .error e' => exact .inr ⟨e, e', rfl, rfl⟩
  | .ok _, .error _ | .error _, .ok _ => exact agree.elim

theorem bind {x : Except ε α} {y : Except ε β} {f : α → Except ε α'} {g : β → Except ε β'}
    (first : Agree P x y) (later : ∀ a b, P a b → Agree Q (f a) (g b)) : Agree Q (x >>= f) (y >>= g) := by
  obtain ⟨a, b, rfl, rfl, holds⟩ | ⟨e, e', rfl, rfl⟩ := first.cases
  · exact later a b holds
  · trivial

theorem imp {Q : α → β → Prop} {x : Except ε α} {y : Except ε β} (agree : Agree P x y)
    (weaker : ∀ a b, P a b → Q a b) : Agree Q x y := by
  obtain ⟨a, b, rfl, rfl, holds⟩ | ⟨e, e', rfl, rfl⟩ := agree.cases
  · exact weaker a b holds
  · trivial

theorem refl (x : Except ε α) : Agree Eq x x := by
  cases x with
  | ok a => exact rfl
  | error e => trivial

theorem eq_ok_iff {x y : Except ε α} (agree : Agree Eq x y) (a : α) : x = .ok a ↔ y = .ok a := by
  obtain ⟨b, _, rfl, rfl, rfl⟩ | ⟨e, e', rfl, rfl⟩ := agree.cases
  · rfl
  · simp only [reduceCtorEq]

theorem foldlM {γ δ : Type} {R : γ → δ → Prop} {f : α → γ → Except ε α} {g : β → δ → Except ε β}
    (step : ∀ a b c d, P a b → R c d → Agree P (f a c) (g b d)) {l : List γ} {l' : List δ}
    (items : List.Forall₂ R l l') {a : α} {b : β} (start : P a b) :
    Agree P (l.foldlM f a) (l'.foldlM g b) := by
  induction items generalizing a b with
  | nil => exact start
  | cons item _ ih =>
    simp only [List.foldlM_cons]
    exact (step _ _ _ _ start item).bind fun _ _ next => ih next

theorem of_rel {o : Option α} {o' : Option β} {e e' : ε} (rel : Option.Rel P o o') :
    Agree P (o.elim (.error e) .ok) (o'.elim (.error e') .ok) := by
  cases rel with
  | some holds => exact holds
  | none => trivial

end Agree

theorem rel_getElem? {α β : Type} {P : α → β → Prop} {l : List α} {l' : List β}
    (items : List.Forall₂ P l l') (k : Nat) : Option.Rel P l[k]? l'[k]? := by
  induction items generalizing k with
  | nil => exact .none
  | cons first _ ih =>
    cases k with
    | zero => exact .some first
    | succ k => exact ih k

/-! ### Types that verification cannot tell apart -/

/-- Two types of the same name that agree in what else the verifier asks of a type. -/
structure Ty.Alike (a b : Ty) : Prop where
  name : a.SameName b
  void : a = .void ↔ b = .void
  reference : a.isReference = b.isReference
  universal : a.isUniversalBase = b.isUniversalBase

theorem Ty.Alike.refl (a : Ty) : a.Alike a := ⟨rfl, Iff.rfl, rfl, rfl⟩

inductive Slot.Alike : Slot → Slot → Prop where
  | null : Slot.Alike .null .null
  | value {a b : Ty} (alike : a.Alike b) : Slot.Alike (.value a) (.value b)

theorem Slot.Alike.assignable {s s' : Slot} {t t' : Ty} (slots : s.Alike s') (types : t.Alike t') :
    s.assignable t = s'.assignable t' := by
  cases slots with
  | null => exact types.reference
  | value alike =>
    have names : ∀ a b : Ty, a.SameName b ↔ a.fullName = b.fullName := fun _ _ => Iff.rfl
    have first := (names _ _).mp alike.name
    have second := (names _ _).mp types.name
    simp only [Slot.assignable, names, first, second, alike.reference, types.universal]

/-! ### Modules that differ in such types -/

structure Signature.Alike (s s' : Signature) : Prop where
  hasThis : s.hasThis = s'.hasThis
  params : List.Forall₂ Ty.Alike s.params s'.params
  result : s.result.Alike s'.result

structure CallTarget.Alike (c c' : CallTarget) : Prop where
  declaringType : c.declaringType.Alike c'.declaringType
  name : c.name = c'.name
  signature : c.signature.Alike c'.signature

structure Field.Alike (f f' : Field) : Prop where
  owner : f.owner = f'.owner
  flags : f.flags = f'.flags
  ty : f.ty.Alike f'.ty

structure Method.Alike (r r' : Method) : Prop where
  name : r.name = r'.name
  owner : r.owner = r'.owner
  modifiers : r.modifiers = r'.modifiers
  result : r.result.Alike r'.result
  params : List.Forall₂ Ty.Alike (r.params.map (·.ty)) (r'.params.map (·.ty))
  locals : List.Forall₂ (fun v v' : Variable => v.ty.Alike v'.ty) r.body.locals r'.body.locals
  code : r.body.code = r'.body.code

/-- Two references to members of the same name that call alike, whatever type arguments a call gives. -/
structure MemberRef.Alike (r r' : MemberRef) : Prop where
  name : r.name = r'.name
  parent : r.parent.Alike r'.parent
  closed : ∀ args, (r.closedSignature args).Alike (r'.closedSignature args)

/-- Two modules with the same rows, but for types in them that verification cannot tell apart. -/
structure Module.Alike (m n : Module) : Prop where
  types : m.types = n.types
  typeRefs : m.typeRefs = n.typeRefs
  fields : List.Forall₂ Field.Alike m.fields n.fields
  methods : List.Forall₂ Method.Alike m.methods n.methods
  memberRefs : List.Forall₂ MemberRef.Alike m.memberRefs n.memberRefs
  methodSpecs : m.methodSpecs = n.methodSpecs
  typeSpecs : List.Forall₂ Ty.Alike m.typeSpecs n.typeSpecs

namespace Module.Alike

variable {m n : Module} {table : Table} {t : Token}

theorem lookup {α β : Type} {P : α → β → Prop} {rows : List α} {rows' : List β}
    (alike : List.Forall₂ P rows rows') :
    Option.Rel P (Module.lookup table rows t) (Module.lookup table rows' t) := by
  unfold Module.lookup
  cases t.indexIn? table with
  | none => exact .none
  | some i => exact rel_getElem? alike i

theorem typeDef (alike : Alike m n) (t : Token) : m.typeDef t = n.typeDef t := by
  rw [Module.typeDef, Module.typeDef, alike.types]

theorem typeRef (alike : Alike m n) (t : Token) : m.typeRef t = n.typeRef t := by
  rw [Module.typeRef, Module.typeRef, alike.typeRefs]

theorem methodSpec (alike : Alike m n) (t : Token) : m.methodSpec t = n.methodSpec t := by
  rw [Module.methodSpec, Module.methodSpec, alike.methodSpecs]

theorem field (alike : Alike m n) (t : Token) : Agree Field.Alike (m.field t) (n.field t) :=
  .of_rel (lookup alike.fields)

theorem method (alike : Alike m n) (t : Token) : Agree Method.Alike (m.method t) (n.method t) :=
  .of_rel (lookup alike.methods)

theorem memberRef (alike : Alike m n) (t : Token) : Agree MemberRef.Alike (m.memberRef t) (n.memberRef t) :=
  .of_rel (lookup alike.memberRefs)

theorem typeSpec (alike : Alike m n) (t : Token) : Agree Ty.Alike (m.typeSpec t) (n.typeSpec t) :=
  .of_rel (lookup alike.typeSpecs)

theorem resolveType (alike : Alike m n) (t : Token) :
    Agree Ty.Alike (m.resolveType t) (n.resolveType t) := by
  have same : ∀ x : Except Error Ty, Agree Ty.Alike x x := fun x =>
    (Agree.refl x).imp fun a _ h => h ▸ Ty.Alike.refl a
  unfold Module.resolveType
  rw [alike.typeDef, alike.typeRef]
  cases t.table? with
  | none => exact same _
  | some table =>
    cases table with
    | typeSpec => exact alike.typeSpec t
    | typeDef | typeRef | field | method | memberRef | methodSpec => exact same _

theorem callTarget (alike : Alike m n) (t : Token) :
    Agree CallTarget.Alike (m.callTarget t) (n.callTarget t) := by
  unfold Module.callTarget
  cases t.table? with
  | none => trivial
  | some table =>
    cases table with
    | method =>
      refine (alike.method t).bind fun r r' rows => ?_
      rw [← rows.owner, ← alike.typeDef]
      refine (Agree.refl _).bind fun d _ same => ?_
      subst same
      exact ⟨Ty.Alike.refl _, rows.name, by simp [Method.signature, Method.isStatic, rows.modifiers],
        rows.params, rows.result⟩
    | memberRef =>
      exact (alike.memberRef t).bind fun r r' rows => ⟨rows.parent, rows.name, rows.closed []⟩
    | methodSpec =>
      simp only [alike.methodSpec]
      refine (Agree.refl _).bind fun spec _ same => ?_
      subst same
      exact (alike.memberRef _).bind fun r r' rows => ⟨rows.parent, rows.name, rows.closed _⟩
    | typeDef | typeRef | typeSpec | field => trivial

end Module.Alike

/-! ### The rules -/

namespace Verification

/-- Stacks of the same height with like types. -/
abbrev Stack.Alike : Stack → Stack → Prop := List.Forall₂ Slot.Alike

variable {s s' : Stack} {i : Instruction}

theorem agree_resolved {α β : Type} {P : α → β → Prop} {x : Except Error α} {y : Except Error β}
    (agree : Agree P x y) : Agree P (resolved x) (resolved y) := by
  obtain ⟨a, b, rfl, rfl, holds⟩ | ⟨e, e', rfl, rfl⟩ := agree.cases
  · exact holds
  · trivial

theorem agree_pop (alike : Stack.Alike s s') :
    Agree (fun p p' : Slot × Stack => p.1.Alike p'.1 ∧ Stack.Alike p.2 p'.2) (pop s) (pop s') := by
  cases alike with
  | nil => trivial
  | cons top rest => exact ⟨top, rest⟩

theorem agree_popInto {use use' : SlotUse} {t t' : Ty} (types : t.Alike t') (alike : Stack.Alike s s') :
    Agree Stack.Alike (popInto use t s) (popInto use' t' s') := by
  refine (agree_pop alike).bind fun p p' ⟨top, rest⟩ => ?_
  dsimp only
  rw [top.assignable types]
  split
  · exact rest
  · trivial

theorem agree_popReference (alike : Stack.Alike s s') :
    Agree Stack.Alike (popReference s) (popReference s') := by
  refine (agree_pop alike).bind fun p p' ⟨top, rest⟩ => ?_
  obtain ⟨slot, below⟩ := p
  obtain ⟨slot', below'⟩ := p'
  cases top with
  | null => exact rest
  | value types =>
    dsimp only
    rw [types.reference]
    split
    · exact rest
    · trivial

theorem agree_popArguments {params params' : List Ty} (types : List.Forall₂ Ty.Alike params params')
    (alike : Stack.Alike s s') :
    Agree Stack.Alike (popArguments params s) (popArguments params' s') := by
  have numbered : ∀ k, List.Forall₂ (fun p p' : Ty × Nat => p.1.Alike p'.1) (params.zipIdx k)
      (params'.zipIdx k) := by
    induction types with
    | nil => exact fun _ => .nil
    | cons first _ ih => exact fun k => .cons first (ih (k + 1))
  have reversed := List.forall₂_reverse_iff.mpr (numbered 0)
  exact Agree.foldlM (R := fun p p' : Ty × Nat => p.1.Alike p'.1)
    (fun _ _ _ _ stacked types => agree_popInto types stacked) reversed alike

structure Frame.Alike (f f' : Frame) : Prop where
  module : f.module.Alike f'.module
  args : List.Forall₂ Ty.Alike f.args f'.args
  locals : List.Forall₂ (fun v v' : Variable => v.ty.Alike v'.ty) f.locals f'.locals
  result : f.result.Alike f'.result

namespace Frame.Alike

variable {f f' : Frame}

theorem argumentTy (alike : Alike f f') : Agree Ty.Alike (f.argumentTy i) (f'.argumentTy i) := by
  unfold Frame.argumentTy
  have args := rel_getElem? alike.args (i.argument?.getD 255).toNat
  dsimp only
  generalize f.args[(i.argument?.getD 255).toNat]? = found, f'.args[(i.argument?.getD 255).toNat]? = found' at *
  cases args with
  | none => trivial
  | some types => exact types

theorem localTy (alike : Alike f f') : Agree Ty.Alike (f.localTy i) (f'.localTy i) := by
  unfold Frame.localTy
  have locals := rel_getElem? alike.locals (i.local?.getD 255).toNat
  dsimp only
  generalize f.locals[(i.local?.getD 255).toNat]? = found, f'.locals[(i.local?.getD 255).toNat]? = found' at *
  cases locals with
  | none => trivial
  | some types => exact types

theorem target (alike : Alike f f') {t t' : Token} (same : t = t') :
    Agree CallTarget.Alike (resolved (f.module.callTarget t)) (resolved (f'.module.callTarget t')) :=
  same ▸ agree_resolved (alike.module.callTarget t)

theorem call (alike : Alike f f') (stacked : Stack.Alike s s') :
    Agree Stack.Alike (f.call i s) (f'.call i s') := by
  refine (Agree.refl (operand i)).bind fun t t' same => (alike.target same).bind fun c c' targets => ?_
  refine (agree_popArguments targets.signature.params stacked).bind fun s s' stacked => ?_
  have pushed : ∀ {s s' : Stack}, Stack.Alike s s' → Agree Stack.Alike
      (if c.signature.result = .void then pure s else pure (.value c.signature.result :: s) : Check Stack)
      (if c'.signature.result = .void then pure s' else pure (.value c'.signature.result :: s')) := by
    intro s s' stacked
    simp only [targets.signature.result.void]
    split
    · exact stacked
    · exact .cons (.value targets.signature.result) stacked
  rw [targets.signature.hasThis]
  cases c'.signature.hasThis with
  | false => exact pushed stacked
  | true => exact (agree_popInto targets.declaringType stacked).bind fun _ _ stacked => pushed stacked

theorem construct (alike : Alike f f') (stacked : Stack.Alike s s') :
    Agree Stack.Alike (f.construct i s) (f'.construct i s') := by
  refine (Agree.refl (operand i)).bind fun t t' same => (alike.target same).bind fun c c' targets => ?_
  refine (agree_popArguments targets.signature.params stacked).bind fun s s' stacked => ?_
  rw [targets.name]
  split
  · exact .cons (.value targets.declaringType) stacked
  · trivial

theorem field (alike : Alike f f') (isStatic : Bool) :
    Agree (fun p p' : Field × Ty => p.1.Alike p'.1 ∧ p.2 = p'.2) (f.field i isStatic)
      (f'.field i isStatic) := by
  refine (Agree.refl (operand i)).bind fun t t' same => ?_
  subst same
  refine (agree_resolved (alike.module.field t)).bind fun g g' fields => ?_
  have kind : g.isStatic = g'.isStatic := by rw [Field.isStatic, Field.isStatic, fields.flags]
  have owner : Agree Eq (resolved (f.module.typeDef g.owner)) (resolved (f'.module.typeDef g'.owner)) := by
    rw [fields.owner, alike.module.typeDef]
    exact .refl _
  rw [kind]
  by_cases wrong : g'.isStatic ≠ isStatic
  · rw [if_pos wrong, if_pos wrong]
    trivial
  · rw [if_neg wrong, if_neg wrong]
    exact owner.bind fun d d' same => ⟨fields, by rw [same]⟩

/-- An instruction takes like stacks to like stacks, or fails on both. -/
theorem step (alike : Alike f f') (stacked : Stack.Alike s s') :
    Agree Stack.Alike (f.step i s) (f'.step i s') := by
  unfold Frame.step
  cases op : i.opcode with
  | nop | ret => exact stacked
  | ldarg0 | ldarg1 | ldarg2 | ldarg3 | ldargS =>
    exact alike.argumentTy.bind fun _ _ types => .cons (.value types) stacked
  | ldloc0 | ldloc1 | ldloc2 | ldloc3 | ldlocS =>
    exact alike.localTy.bind fun _ _ types => .cons (.value types) stacked
  | stloc0 | stloc1 | stloc2 | stloc3 | stlocS =>
    exact alike.localTy.bind fun _ _ types => agree_popInto types stacked
  | ldnull => exact .cons .null stacked
  | dup => exact (agree_pop stacked).bind fun _ _ ⟨top, rest⟩ => .cons top (.cons top rest)
  | pop => exact (agree_pop stacked).bind fun _ _ ⟨_, rest⟩ => rest
  | call | callvirt => exact alike.call stacked
  | newobj => exact alike.construct stacked
  | castclass =>
    refine (Agree.refl (operand i)).bind fun t t' same => ?_
    subst same
    refine (agree_resolved (alike.module.resolveType t)).bind fun _ _ types => ?_
    exact (agree_popReference stacked).bind fun _ _ rest => .cons (.value types) rest
  | ldfld =>
    refine (alike.field false).bind fun ⟨g, d⟩ ⟨g', d'⟩ ⟨fields, same⟩ => ?_
    obtain rfl : d = d' := same
    exact (agree_popInto (.refl d) stacked).bind fun _ _ rest => .cons (.value fields.ty) rest
  | stfld =>
    refine (alike.field false).bind fun ⟨g, d⟩ ⟨g', d'⟩ ⟨fields, same⟩ => ?_
    obtain rfl : d = d' := same
    exact (agree_popInto fields.ty stacked).bind fun _ _ rest => agree_popInto (.refl d) rest
  | ldsfld => exact (alike.field true).bind fun _ _ ⟨fields, _⟩ => .cons (.value fields.ty) stacked
  | stsfld => exact (alike.field true).bind fun _ _ ⟨fields, _⟩ => agree_popInto fields.ty stacked
  | ldftn =>
    refine (Agree.refl (operand i)).bind fun t t' same => ?_
    exact (alike.target same).bind fun _ _ _ => .cons (.value (.refl _)) stacked

theorem checkReturn (alike : Alike f f') (stacked : Stack.Alike s s') :
    Agree Eq (f.checkReturn s) (f'.checkReturn s') := by
  have left : ∀ {s s' : Stack}, Stack.Alike s s' → Agree Eq
      (if s.isEmpty then pure () else reject (.leftOnStack s.length) : Check Unit)
      (if s'.isEmpty then pure () else reject (.leftOnStack s'.length)) := by
    intro s s' stacked
    cases stacked with
    | nil => exact rfl
    | cons => trivial
  unfold Frame.checkReturn
  simp only [alike.result.void]
  by_cases none : f'.result = .void
  · simp only [none, if_true]
    exact left stacked
  · simp only [none, if_false]
    exact (agree_popInto alike.result stacked).bind fun _ _ rest => left rest

/-- Code is accepted in both frames with the same greatest height, or in neither. -/
theorem checkCode (alike : Alike f f') (offset height : Nat) (stacked : Stack.Alike s s') (code : Code) :
    Agree Eq (f.checkCode offset height s code) (f'.checkCode offset height s' code) := by
  induction code generalizing offset height s s' with
  | nil => trivial
  | cons i rest ih =>
    simp only [Frame.checkCode]
    split
    · obtain ⟨_, _, here, there, -⟩ | ⟨e, e', here, there⟩ := (alike.checkReturn stacked).cases <;>
        rw [here, there]
      · exact .refl _
      · trivial
    · obtain ⟨below, below', here, there, later⟩ | ⟨e, e', here, there⟩ :=
        (alike.step (i := i) stacked).cases <;> rw [here, there]
      · dsimp only
        rw [later.length_eq]
        exact ih _ _ later
      · trivial

end Frame.Alike

end Verification

open Verification

theorem Module.Alike.frameOf {m n : Module} (alike : m.Alike n) {r r' : Method} (rows : r.Alike r') :
    Agree Frame.Alike (m.frameOf r) (n.frameOf r') := by
  have frames : ∀ {this : List Ty},
      Frame.Alike ⟨m, this ++ r.params.map (·.ty), r.body.locals, r.result⟩
        ⟨n, this ++ r'.params.map (·.ty), r'.body.locals, r'.result⟩ := fun {this} =>
    ⟨alike, List.rel_append (List.forall₂_same.mpr fun t _ => .refl t) rows.params, rows.locals,
      rows.result⟩
  unfold Module.frameOf
  rw [Method.isStatic, Method.isStatic, rows.modifiers, rows.owner, alike.typeDef]
  cases r'.modifiers.has .static with
  | true => exact frames
  | false =>
    cases n.typeDef r'.owner with
    | error e => trivial
    | ok d => exact frames

/-- What verification says of a method depends on types through their names and the three answers only:
modules that differ in types of the same name and the same answers have the same verified methods, with
the same summaries. -/
theorem verify_eq_of_alike {m n : Module} (alike : m.Alike n) (t : Token) (summary : Summary) :
    m.verify t = .ok summary ↔ n.verify t = .ok summary := by
  refine Agree.eq_ok_iff ?_ summary
  refine (alike.method t).bind fun r r' rows => ?_
  refine (alike.frameOf rows).bind fun f f' frames => ?_
  rw [← rows.code]
  obtain ⟨height, _, here, there, rfl⟩ | ⟨e, e', here, there⟩ :=
    (frames.checkCode 0 0 .nil r.body.code).cases <;> rw [here, there]
  · exact .refl _
  · rcases e with ⟨_, _ | _⟩ <;> rcases e' with ⟨_, _ | _⟩ <;> trivial

/-! ### One type written in several ways -/

namespace Handing

def owner : Token := .ofRow .typeDef 1

def take : Token := .ofRow .method 1

def give : Token := .ofRow .method 2

def box : TypeName := ⟨"App", "Box"⟩

def takeRow (param : Ty) : Method :=
  { token := take, name := "Take", owner, access := .publicAccess, modifiers := .static
    result := .void, params := [⟨none, param⟩], attributes := [], body := .ofCode [.plain .ret] }

/-- Hands the object that it is called on to the other method. -/
def giveRow : Method :=
  { token := give, name := "Give", owner, access := .publicAccess, modifiers := .none
    result := .void, params := [], attributes := []
    body := .ofCode [.loadArg 0, .onToken .call take, .plain .ret] }

def handing (param : Ty) : Module :=
  { name := "Handing"
    types := [⟨owner, box, .publicFlag, some .object, [], [take, give]⟩]
    typeRefs := [], fields := [], methods := [takeRow param, giveRow]
    memberRefs := [], methodSpecs := [], typeSpecs := [] }

theorem handing_alike {a b : Ty} (types : a.Alike b) : (handing a).Alike (handing b) := by
  have taken : (takeRow a).Alike (takeRow b) := ⟨rfl, rfl, rfl, .refl _, .cons types .nil, .nil, rfl⟩
  have given : giveRow.Alike giveRow := ⟨rfl, rfl, rfl, .refl _, .nil, .nil, rfl⟩
  exact ⟨rfl, rfl, .nil, .cons taken (.cons given .nil), .nil, rfl, .nil⟩

end Handing

open Handing in
/-- Where a name is split into namespace and simple name makes no difference. -/
theorem verify_eq_of_alike_split :
    (handing (.named box)).Alike (handing (.named ⟨"", "App.Box"⟩)) ∧
      (handing (.named box)).verify give = .ok ⟨1, 3⟩ ∧
      (handing (.named ⟨"", "App.Box"⟩)).verify give = .ok ⟨1, 3⟩ := by
  have alike := handing_alike (a := .named box) (b := .named ⟨"", "App.Box"⟩)
    ⟨by decide, by decide, rfl, by decide⟩
  have verified : (handing (.named box)).verify give = .ok ⟨1, 3⟩ := by decide
  exact ⟨alike, verified, (verify_eq_of_alike alike give _).mp verified⟩

open Handing in
/-- The base of all references is not that any more once it is written as a named type, although the two
have one name: the object itself is then the only one that fits. -/
theorem named_object_takes_no_box :
    Ty.SameName .object (.named ⟨"System", "Object"⟩) ∧
      (handing .object).verify give = .ok ⟨1, 3⟩ ∧
      (handing (.named ⟨"System", "Object"⟩)).verify give =
        .error (.unverifiable "App.Box::Give" 1
          (.notAssignable (.argument 0) (.value (.named box)) (.named ⟨"System", "Object"⟩))) := by
  decide

end WeakSubscription
