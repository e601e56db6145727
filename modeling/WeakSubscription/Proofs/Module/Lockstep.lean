import Mathlib.Data.List.Perm.Subperm
import WeakSubscription.Proofs.Module.Arena
import WeakSubscription.Proofs.Module.Exhaustion

/-!
# Interning in lockstep

Two modules with the same types and fields may have interned different rows, and so give different tokens for
what they are asked for. Computations that only intern nevertheless run on one as they run on the other: where the
first run succeeds, and all that it interned and all that the second module has interned is in a third module, the
second run succeeds too, since every row that it adds is one of the third module, which is not full.
-/

namespace WeakSubscription

def MemberRef.key (r : MemberRef) : Ty × String × Signature := (r.parent, r.name, r.signature)

def MethodSpec.key (s : MethodSpec) : Token × List Ty := (s.method, s.args)

/-- The definition without the list of its methods. -/
def TypeDef.bare (d : TypeDef) : TypeDef := { d with methods := [] }

/-- Types are found by name without their methods. -/
theorem find?_bare {types types' : List TypeDef} (same : types'.map TypeDef.bare = types.map TypeDef.bare)
    (p : TypeName → Bool) : (types'.find? fun d => p d.name).map TypeDef.bare =
      (types.find? fun d => p d.name).map TypeDef.bare := by
  have bare : ∀ types : List TypeDef, (types.find? fun d => p d.name).map TypeDef.bare =
      (types.map TypeDef.bare).find? fun d => p d.name := by
    intro types
    rw [List.find?_map]
    rfl
  rw [bare, bare, same]

namespace Module

open Tracked

variable {m m' n n' u : Module} {t : Token} {ty : Ty} {α β γ δ : Type}

/-! ### Interned rows -/

/-- What the second module has interned is interned in the first one. -/
structure Covers (u m : Module) : Prop where
  memberRefs : m.memberRefs.map MemberRef.key ⊆ u.memberRefs.map MemberRef.key
  methodSpecs : m.methodSpecs.map MethodSpec.key ⊆ u.methodSpecs.map MethodSpec.key
  typeSpecs : m.typeSpecs ⊆ u.typeSpecs

theorem Covers.refl (m : Module) : Covers m m := ⟨fun _ => id, fun _ => id, fun _ => id⟩

theorem Covers.earlier (covers : Covers u m') (grows : Grows m m') : Covers u m :=
  ⟨List.Subset.trans (grows.memberRefs.map _).subset covers.memberRefs,
    List.Subset.trans (grows.methodSpecs.map _).subset covers.methodSpecs,
    List.Subset.trans grows.typeSpecs.subset covers.typeSpecs⟩

/-- A list without repeats has room for one more of what is in a longer list. -/
theorem room_of_new {κ : Type} {keys all : List κ} {k : κ} (nodup : keys.Nodup) (within : keys ⊆ all)
    (asked : k ∈ all) (new : k ∉ keys) : keys.length + 1 ≤ all.length :=
  (List.Nodup.subperm (List.nodup_cons.mpr ⟨new, nodup⟩) (List.cons_subset.mpr ⟨asked, within⟩)).length_le

/-- Whether the operation asks for a row that is interned. -/
def Op.Refers : Op → Prop
  | importType _ | addMemberRef _ _ _ | addMethodSpec _ _ => True
  | addType _ _ _ | addTypeRef _ _ _ | addField _ _ _ _ | addMethod _ | rollbackMethod _ | rewriteMethod _ _
  | addLocal _ _ | insertCode _ _ _ => False

instance : Interns (Along Op.Refers) where
  memberRef parent name signature := moves_op (.addMemberRef parent name signature) trivial rfl
  methodSpec method args := moves_op (.addMethodSpec method args) trivial rfl
  importType ty := moves_op (.importType ty) trivial rfl

/-- The two modules have the same types, references to types, fields and methods. -/
structure SameRows (m m' : Module) : Prop where
  types : m'.types = m.types
  typeRefs : m'.typeRefs = m.typeRefs
  fields : m'.fields = m.fields
  methods : m'.methods = m.methods

theorem Along.sameRows (along : Along Op.Refers m m') : SameRows m m' := by
  induction along with
  | refl => exact ⟨rfl, rfl, rfl, rfl⟩
  | @step m' _ op refers ih =>
    have effect := op.effect m'
    generalize op.apply m' = m'' at effect
    cases effect with
    | found | importType | addMemberRef | addMethodSpec => exact ⟨ih.types, ih.typeRefs, ih.fields, ih.methods⟩
    | addType | addTypeRef | addField | addMethod | rollbackMethod | rewriteMethod | addLocal | insertCode =>
      exact refers.elim

theorem Along.quiet (along : Along Op.Refers m m') : Evolves (fun _ => False) m m' :=
  along.evolves fun op refers t touches => by cases op <;> trivial

/-- What only interns adds, and touches no method. -/
theorem Along.addsTo (along : Along Op.Refers m m') (method : Token) : Along (Op.AddsTo method) m m' := by
  refine along.imp fun op refers => ?_
  cases op with
  | importType | addMemberRef | addMethodSpec => exact ⟨trivial, fun _ touched => touched.elim⟩
  | addType | addTypeRef | addField | addMethod | rollbackMethod | rewriteMethod | addLocal | insertCode =>
    exact refers.elim

/-! ### Modules in step -/

/-- Two modules with the same types and fields. What the second one has interned is interned in the module `u`,
which is not full. -/
structure InStep (u m n : Module) : Prop where
  types : n.types.map TypeDef.bare = m.types.map TypeDef.bare
  typeRefs : n.typeRefs = m.typeRefs
  fields : n.fields = m.fields
  placed : m.Placed
  follower : n.Placed
  distinct : n.Distinct
  within : Covers u n
  roomy : u.Placed

namespace InStep

theorem field (inStep : InStep u m n) {f : Field} (found : m.field t = .ok f) : n.field t = .ok f := by
  rwa [field_eq_ok_iff, inStep.fields, ← field_eq_ok_iff]

theorem typeDef (inStep : InStep u m n) {d : TypeDef} (found : m.typeDef t = .ok d) :
    ∃ d', n.typeDef t = .ok d' ∧ d'.bare = d.bare := by
  obtain ⟨i, place, read⟩ := lookup_eq_some_iff.mp (typeDef_eq_ok_iff.mp found)
  have same : (n.types.map TypeDef.bare)[i]? = some d.bare := by
    rw [inStep.types, List.getElem?_map, read, Option.map_some]
  rw [List.getElem?_map] at same
  obtain ⟨d', read', bare⟩ := Option.map_eq_some_iff.mp same
  exact ⟨d', typeDef_eq_ok_iff.mpr (lookup_eq_some_iff.mpr ⟨i, place, read'⟩), bare⟩

/-- Modules that interned more stay in step. -/
theorem referred (inStep : InStep u m n) (along : Along Op.Refers m m') (along' : Along Op.Refers n n')
    (within : Covers u n') : InStep u m' n' := by
  have same := along.sameRows
  have same' := along'.sameRows
  exact {
    types := by rw [same.types, same'.types, inStep.types]
    typeRefs := by rw [same.typeRefs, same'.typeRefs, inStep.typeRefs]
    fields := by rw [same.fields, same'.fields, inStep.fields]
    placed := along.quiet.placed inStep.placed
    follower := along'.quiet.placed inStep.follower
    distinct := distinct_of_along along' inStep.distinct
    within
    roomy := inStep.roomy }

end InStep

/-! ### Computations in step -/

/-- Where the first computation succeeds on its module and interns nothing that `u` has not, the second one succeeds
on its own; the modules stay in step, and the results are related. -/
def Lockstep (u : Module) (R : α → β → Module → Module → Prop) (x : Edit α) (y : Edit β) (m n : Module) : Prop :=
  ∀ a m', x m = .ok a m' → Covers u m' → ∃ b n', y n = .ok b n' ∧ Along Op.Refers m m' ∧ Along Op.Refers n n' ∧
    InStep u m' n' ∧ R a b m' n'

section Lockstep

variable {R : α → β → Module → Module → Prop} {S : γ → δ → Module → Module → Prop} {f : α → Edit γ} {g : β → Edit δ}

theorem lockstep_pure {a : α} {b : β} (inStep : InStep u m n) (related : R a b m n) :
    Lockstep u R (pure a) (pure b) m n := by
  intro a' m' ran _
  obtain ⟨rfl, rfl⟩ := EStateM.Result.ok.inj ran
  exact ⟨b, n, rfl, .refl, .refl, inStep, related⟩

theorem lockstep_bind {x : Edit α} {y : Edit β} (first : Lockstep u R x y m n)
    (onward : ∀ a m', Moves (Along Op.Refers) (f a) m')
    (later : ∀ a b m' n', Along Op.Refers m m' → Along Op.Refers n n' → InStep u m' n' → R a b m' n' →
      Lockstep u S (f a) (g b) m' n') : Lockstep u S (x >>= f) (y >>= g) m n := by
  intro c m₂ ran covers
  obtain ⟨a, m₁, begun, continued⟩ := bind_eq_ok_iff.mp ran
  have behind : Along Op.Refers m₁ m₂ := (onward a m₁).of_ok continued
  obtain ⟨b, n₁, begun', along₁, along₁', inStep₁, related₁⟩ := first a m₁ begun (covers.earlier behind.grows)
  obtain ⟨d, n₂, continued', along₂, along₂', inStep₂, related₂⟩ :=
    later a b m₁ n₁ along₁ along₁' inStep₁ related₁ c m₂ continued covers
  exact ⟨d, n₂, bind_eq_ok_iff.mpr ⟨b, n₁, begun', continued'⟩, trans_of _ along₁ along₂, trans_of _ along₁' along₂',
    inStep₂, related₂⟩

theorem lockstep_get_bind {f : Module → Edit γ} {g : Module → Edit δ} (later : Lockstep u S (f m) (g n) m n) :
    Lockstep u S (get >>= f) (get >>= g) m n :=
  later

theorem lockstep_lift_bind {x : Except Error α} {y : Except Error β}
    (taken : ∀ a, x = .ok a → ∃ b, y = .ok b ∧ Lockstep u S (f a) (g b) m n) :
    Lockstep u S (liftM x >>= f) (liftM y >>= g) m n := by
  cases x with
  | error e =>
    intro c m' ran
    cases ran
  | ok a =>
    obtain ⟨b, rfl, later⟩ := taken a rfl
    exact later

theorem lockstep_lift {x : Except Error α} {y : Except Error β} (inStep : InStep u m n)
    (taken : ∀ a, x = .ok a → ∃ b, y = .ok b ∧ R a b m n) : Lockstep u R (liftM x) (liftM y) m n := by
  intro a m' ran _
  obtain ⟨here, rfl⟩ := lift_eq_ok_iff.mp ran
  obtain ⟨b, there, related⟩ := taken a here
  exact ⟨b, n, lift_eq_ok_iff.mpr ⟨there, rfl⟩, .refl, .refl, inStep, related⟩

theorem Lockstep.imp {R' : α → β → Module → Module → Prop} {x : Edit α} {y : Edit β} (lockstep : Lockstep u R x y m n)
    (weaker : ∀ a b m' n', R a b m' n' → R' a b m' n') : Lockstep u R' x y m n := by
  intro a m' ran covers
  obtain ⟨b, n', ran', along, along', inStep, related⟩ := lockstep a m' ran covers
  exact ⟨b, n', ran', along, along', inStep, weaker a b m' n' related⟩

end Lockstep

/-! ### Interning -/

/-- The definition or the reference that gives a named type its token. -/
def namedRow? (m : Module) : Ty → Option Token
  | .named name =>
    ((m.types.find? (·.name == name)).map (·.token)).or ((m.typeRefs.find? (·.name == name)).map (·.token))
  | .void | .object | .intPtr | .inst _ _ | .typeParam _ | .methodParam _ => none

theorem InStep.namedRow? (inStep : InStep u m n) (ty : Ty) : n.namedRow? ty = m.namedRow? ty := by
  cases ty with
  | named name =>
    have found := congrArg (Option.map TypeDef.token) (find?_bare inStep.types (· == name))
    rw [Option.map_map, Option.map_map] at found
    show ((n.types.find? _).map _).or _ = ((m.types.find? _).map _).or _
    rw [inStep.typeRefs]
    exact congrArg (Option.or · _) found
  | void | object | intPtr | inst | typeParam | methodParam => rfl

theorem importType_of_row (row : m.namedRow? ty = some t) : importType ty m = .ok t m := by
  cases ty with
  | named name =>
    have found : ((m.types.find? (·.name == name)).map (·.token)).or
        ((m.typeRefs.find? (·.name == name)).map (·.token)) = some t := row
    unfold importType
    rw [get_bind]
    simp only [found, pure_apply]
  | void | object | intPtr | inst | typeParam | methodParam => cases row

/-- A type without a row of its own is among the imported types once it was asked for. -/
theorem importType_interns (ty : Ty) (m : Module) :
    Gives (fun _ m' => m.namedRow? ty = none → ty ∈ m'.typeSpecs) (importType ty) m := by
  apply gives_get_bind
  dsimp only
  split
  · rename_i token row
    refine gives_pure fun missing => ?_
    cases ty with
    | named name => cases row.symm.trans missing
    | void | object | intPtr | inst | typeParam | methodParam => cases row
  · split
    · rename_i i place
      obtain ⟨inside, same, -⟩ := List.idxOf?_eq_some_iff.mp place
      exact gives_pure fun _ => List.mem_of_getElem (by simpa using same)
    · refine gives_lift_bind fun token _ => gives_put_bind (gives_pure fun _ => ?_)
      exact List.mem_append_right _ (List.mem_singleton_self ty)

/-- A computation that cannot fail succeeds. -/
theorem ok_of_never {x : Edit α} (never : Fails (fun _ _ => False) x m) : ∃ a m', x m = .ok a m' := by
  cases ran : x m with
  | ok a m' => exact ⟨a, m', rfl⟩
  | error e m' => exact (never e m' ran).elim

theorem addMemberRef_of_room {parent : Ty} {name : String} {signature : Signature}
    (room : (parent, name, signature) ∉ n.memberRefs.map MemberRef.key → n.memberRefs.length + 1 < 0x1000000) :
    ∃ t n', addMemberRef parent name signature n = .ok t n' := by
  apply ok_of_never
  apply fails_get_bind
  dsimp only
  split
  · exact fails_pure _
  · rename_i missing
    refine fails_nextToken_bind (fun full => ?_) fun t => fails_put_pure t
    have new : (parent, name, signature) ∉ n.memberRefs.map MemberRef.key := by
      intro member
      obtain ⟨r, inside, same⟩ := List.mem_map.mp member
      obtain ⟨rfl, rfl, rfl⟩ : r.parent = parent ∧ r.name = name ∧ r.signature = signature := by
        simpa [MemberRef.key] using same
      simpa using List.find?_eq_none.mp missing r inside
    exact absurd full (Nat.not_le_of_lt (room new))

theorem addMethodSpec_of_room {method : Token} {args : List Ty} {ref : MemberRef}
    (known : n.memberRef method = .ok ref) (arity : ref.signature.arity = args.length)
    (room : (method, args) ∉ n.methodSpecs.map MethodSpec.key → n.methodSpecs.length + 1 < 0x1000000) :
    ∃ t n', addMethodSpec method args n = .ok t n' := by
  apply ok_of_never
  refine fails_get_bind (fails_lift_bind known ?_)
  dsimp only
  rw [if_neg (Decidable.not_not.mpr arity)]
  split
  · exact fails_pure _
  · rename_i missing
    refine fails_nextToken_bind (fun full => ?_) fun t => fails_put_pure t
    have new : (method, args) ∉ n.methodSpecs.map MethodSpec.key := by
      intro member
      obtain ⟨s, inside, same⟩ := List.mem_map.mp member
      obtain ⟨rfl, rfl⟩ : s.method = method ∧ s.args = args := by simpa [MethodSpec.key] using same
      simpa using List.find?_eq_none.mp missing s inside
    exact absurd full (Nat.not_le_of_lt (room new))

theorem importType_of_room (room : ty ∉ n.typeSpecs → n.typeSpecs.length + 1 < 0x1000000) :
    ∃ t n', importType ty n = .ok t n' := by
  apply ok_of_never
  apply fails_get_bind
  dsimp only
  split
  · exact fails_pure _
  · split
    · exact fails_pure _
    · rename_i missing
      refine fails_nextToken_bind (fun full => ?_) fun t => fails_put_pure t
      exact absurd full (Nat.not_le_of_lt (room (by simpa using missing)))

/-! ### Interning in step -/

/-- Whether the row that the operation asks for is interned in the module. -/
def Op.AskedIn (u : Module) : Op → Prop
  | importType ty => ty ∈ u.typeSpecs
  | addMemberRef parent name signature => (parent, name, signature) ∈ u.memberRefs.map MemberRef.key
  | addMethodSpec method args => (method, args) ∈ u.methodSpecs.map MethodSpec.key
  | addType _ _ _ | addTypeRef _ _ _ | addField _ _ _ _ | addMethod _ | rollbackMethod _ | rewriteMethod _ _
  | addLocal _ _ | insertCode _ _ _ => True

theorem Effect.covered {op : Op} (effect : Effect n op n') (covers : Covers u n) (asked : op.AskedIn u) :
    Covers u n' := by
  obtain ⟨memberRefs, methodSpecs, typeSpecs⟩ := covers
  cases effect with
  | importType ty fits new =>
    refine ⟨memberRefs, methodSpecs, ?_⟩
    exact List.append_subset.mpr ⟨typeSpecs, List.cons_subset.mpr ⟨asked, List.nil_subset _⟩⟩
  | addMemberRef parent name signature fits new =>
    refine ⟨?_, methodSpecs, typeSpecs⟩
    rw [List.map_append]
    exact List.append_subset.mpr ⟨memberRefs, List.cons_subset.mpr ⟨asked, List.nil_subset _⟩⟩
  | addMethodSpec method args known arity fits new =>
    refine ⟨memberRefs, ?_, typeSpecs⟩
    rw [List.map_append]
    exact List.append_subset.mpr ⟨methodSpecs, List.cons_subset.mpr ⟨asked, List.nil_subset _⟩⟩
  | found | addType | addTypeRef | addField | addMethod | rollbackMethod | rewriteMethod | addLocal | insertCode =>
    exact ⟨memberRefs, methodSpecs, typeSpecs⟩

/-- What asks for one row gives a token of it in both modules, if the second one has room for the row. -/
theorem lockstep_of_asked {op : Op} {x : Edit α} {R : α → Module → Prop} (inStep : InStep u m n)
    (moves : ∀ m, Moves (Along Op.Refers) x m) (performs : ∀ m, Performs op x m)
    (gives : ∀ {m : Module}, m.Placed → Gives R x m) (asked : ∀ a m', x m = .ok a m' → Covers u m' → op.AskedIn u)
    (runs : op.AskedIn u → ∃ a n', x n = .ok a n') :
    Lockstep u (fun a b m' n' => R a m' ∧ R b n') x x m n := by
  intro a m' ran covers
  have rowIn := asked a m' ran covers
  obtain ⟨b, n', ran'⟩ := runs rowIn
  have along := (moves m).of_ok ran
  have along' := (moves n).of_ok ran'
  have within := ((performs n).1 b n' ran').covered inStep.within rowIn
  exact ⟨b, n', ran', along, along', inStep.referred along along' within, gives inStep.placed a m' ran,
    gives inStep.follower b n' ran'⟩

namespace InStep

theorem addMemberRef (inStep : InStep u m n) (parent : Ty) (name : String) (signature : Signature) :
    Lockstep u (fun t t' m' n' => m'.memberRef t = .ok ⟨t, parent, name, signature⟩ ∧
        n'.memberRef t' = .ok ⟨t', parent, name, signature⟩)
      (Module.addMemberRef parent name signature) (Module.addMemberRef parent name signature) m n := by
  refine lockstep_of_asked (R := fun t m => m.memberRef t = .ok ⟨t, parent, name, signature⟩) inStep
    (References.memberRef _ _ _) (performs_addMemberRef _ _ _) (addMemberRef_gives _ _ _) ?_ ?_
  · intro t m' ran covers
    obtain ⟨i, -, read⟩ := lookup_eq_some_iff.mp
      (memberRef_eq_ok_iff.mp (addMemberRef_gives parent name signature inStep.placed t m' ran))
    exact covers.memberRefs (List.mem_map.mpr ⟨_, List.mem_of_getElem? read, rfl⟩)
  · intro asked
    refine addMemberRef_of_room fun new => ?_
    have longer := room_of_new inStep.distinct.memberRefs inStep.within.memberRefs asked new
    rw [List.length_map, List.length_map] at longer
    exact Nat.lt_of_le_of_lt longer inStep.roomy.memberRefs.fits

/-- An instantiation of a method that both modules reference by the same token. -/
theorem addMethodSpec (inStep : InStep u m n) {method : Token} {ref : MemberRef} {args : List Ty}
    (known : n.memberRef method = .ok ref) (arity : ref.signature.arity = args.length) :
    Lockstep u (fun t t' m' n' => m'.methodSpec t = .ok ⟨t, method, args⟩ ∧ n'.methodSpec t' = .ok ⟨t', method, args⟩)
      (Module.addMethodSpec method args) (Module.addMethodSpec method args) m n := by
  refine lockstep_of_asked (R := fun t m => m.methodSpec t = .ok ⟨t, method, args⟩) inStep
    (Instantiates.methodSpec _ _) (performs_addMethodSpec _ _) (addMethodSpec_gives _ _) ?_ ?_
  · intro t m' ran covers
    obtain ⟨i, -, read⟩ := lookup_eq_some_iff.mp
      (methodSpec_eq_ok_iff.mp (addMethodSpec_gives method args inStep.placed t m' ran))
    exact covers.methodSpecs (List.mem_map.mpr ⟨_, List.mem_of_getElem? read, rfl⟩)
  · intro asked
    refine addMethodSpec_of_room known arity fun new => ?_
    have longer := room_of_new inStep.distinct.methodSpecs inStep.within.methodSpecs asked new
    rw [List.length_map, List.length_map] at longer
    exact Nat.lt_of_le_of_lt longer inStep.roomy.methodSpecs.fits

theorem importType (inStep : InStep u m n) (ty : Ty) :
    Lockstep u (fun t t' m' n' => m'.resolveType t = .ok ty ∧ n'.resolveType t' = .ok ty)
      (Module.importType ty) (Module.importType ty) m n := by
  cases row : m.namedRow? ty with
  | some token =>
    intro t m' ran _
    have ran' : Module.importType ty n = .ok token n := importType_of_row ((inStep.namedRow? ty).trans row)
    have given := importType_gives ty inStep.placed t m' ran
    obtain ⟨rfl, rfl⟩ := EStateM.Result.ok.inj ((importType_of_row row).symm.trans ran)
    exact ⟨token, n, ran', .refl, .refl, inStep, given, importType_gives ty inStep.follower token n ran'⟩
  | none =>
    refine lockstep_of_asked (R := fun t m => m.resolveType t = .ok ty) inStep (Specifies.importType _)
      (performs_importType _) (importType_gives _) ?_ ?_
    · exact fun t m' ran covers => covers.typeSpecs (importType_interns ty m t m' ran row)
    · intro asked
      refine importType_of_room fun new => ?_
      have longer := room_of_new inStep.distinct.typeSpecs inStep.within.typeSpecs asked new
      exact Nat.lt_of_le_of_lt longer inStep.roomy.typeSpecs

end InStep

end Module

end WeakSubscription
