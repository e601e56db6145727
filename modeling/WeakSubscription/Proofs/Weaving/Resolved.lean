import WeakSubscription.Proofs.Weaving.Corresponding
import WeakSubscription.Proofs.Weaving.Suitable

/-!
# Code with its tokens resolved

In modules that number their rows differently, code for the same purpose has different tokens. It is compared by what
the tokens lead to: a type, a field together with the type that declares it, or a call target. The code for an event
depends on no more than that, so that events that agree in it get code that is the same once its tokens are resolved.
-/

open WeakSubscription.Module

namespace WeakSubscription

open Tracked

/-! ### Resolved code -/

/-- A field, without the numbers of its row and of the type that declares it. -/
structure FieldTarget where
  declaringType : Ty
  name : String
  flags : FieldFlags
  ty : Ty
  deriving DecidableEq

/-- An operand, with what a token leads to in its place. -/
inductive ResolvedOperand where
  | none
  | index (i : UInt8)
  | type (ty : Ty)
  | field (target : FieldTarget)
  | call (target : CallTarget)
  deriving DecidableEq

namespace Module

def fieldTarget (m : Module) (t : Token) : Except Error FieldTarget := do
  let row ← m.field t
  let owner ← m.typeDef row.owner
  return ⟨owner.ty, row.name, row.flags, row.ty⟩

/-- What the token leads to, by the table that it is of. -/
def resolve (m : Module) (t : Token) : Except Error ResolvedOperand :=
  match t.table? with
  | some .typeDef | some .typeRef | some .typeSpec => .type <$> m.resolveType t
  | some .field => .field <$> m.fieldTarget t
  | some .method | some .memberRef | some .methodSpec | none => .call <$> m.callTarget t

end Module

def Operand.resolve (m : Module) : Operand → Except Error ResolvedOperand
  | none => .ok .none
  | index i => .ok (.index i)
  | token t => m.resolve t

def Code.resolve (m : Module) (code : Code) : Except Error (List (Opcode × ResolvedOperand)) :=
  code.mapM fun i => (i.opcode, ·) <$> i.operand.resolve m

/-- All tokens of the two codes resolve, each in its module, and then the codes are the same. -/
def Code.ResolveAlike (m n : Module) (code code' : Code) : Prop :=
  ∃ resolved, code.resolve m = .ok resolved ∧ code'.resolve n = .ok resolved

variable {m m' n n' : Module} {refs : HelperRefs} {event event' : Event} {t t' method method' : Token}
  {code code' : Code} {row row' : Method} {v : Variable} {param wanted : Ty} {h : Helper} {args : List Ty}

namespace Module

theorem resolve_of_callTarget {target : CallTarget} (calls : m.callTarget t = .ok target) :
    m.resolve t = .ok (.call target) := by
  have mapped : ResolvedOperand.call <$> m.callTarget t = .ok (.call target) := by
    rw [calls]
    rfl
  unfold resolve
  cases table : t.table? with
  | none => exact mapped
  | some kind =>
    cases kind with
    | method | memberRef | methodSpec => exact mapped
    | typeDef | typeRef | typeSpec | field =>
      unfold callTarget at calls
      simp only [table] at calls
      cases calls

theorem resolve_of_resolveType {ty : Ty} (resolves : m.resolveType t = .ok ty) : m.resolve t = .ok (.type ty) := by
  have mapped : ResolvedOperand.type <$> m.resolveType t = .ok (.type ty) := by
    rw [resolves]
    rfl
  unfold resolve
  cases table : t.table? with
  | none =>
    unfold resolveType at resolves
    simp only [table] at resolves
    cases resolves
  | some kind =>
    cases kind with
    | typeDef | typeRef | typeSpec => exact mapped
    | field | method | memberRef | methodSpec =>
      unfold resolveType at resolves
      simp only [table] at resolves
      cases resolves

theorem resolve_of_fieldTarget {target : FieldTarget} (leads : m.fieldTarget t = .ok target) :
    m.resolve t = .ok (.field target) := by
  obtain ⟨row, found, -⟩ := except_bind_eq_ok_iff.mp leads
  unfold resolve
  rw [table?_of_lookup (field_eq_ok_iff.mp found), leads]
  rfl

theorem fieldTarget_eq_ok_iff {target : FieldTarget} :
    m.fieldTarget t = .ok target ↔ ∃ row d, m.field t = .ok row ∧ m.typeDef row.owner = .ok d ∧
      target = ⟨d.ty, row.name, row.flags, row.ty⟩ := by
  constructor
  · intro leads
    obtain ⟨row, found, h⟩ := except_bind_eq_ok_iff.mp leads
    obtain ⟨d, owner, last⟩ := except_bind_eq_ok_iff.mp h
    exact ⟨row, d, found, owner, (Except.ok.inj last).symm⟩
  · rintro ⟨row, d, found, owner, rfl⟩
    exact except_bind_eq_ok_iff.mpr ⟨row, found, except_bind_eq_ok_iff.mpr ⟨d, owner, rfl⟩⟩

theorem Grows.fieldTarget {target : FieldTarget} (grows : Grows m m') (leads : m.fieldTarget t = .ok target) :
    m'.fieldTarget t = .ok target := by
  obtain ⟨row, d, found, owner, rfl⟩ := fieldTarget_eq_ok_iff.mp leads
  obtain ⟨d', owner', -, name, -⟩ := grows.typeDef owner
  exact fieldTarget_eq_ok_iff.mpr ⟨row, d', grows.field found, owner', by rw [TypeDef.ty, TypeDef.ty, name]⟩

end Module

namespace Code.ResolveAlike

theorem nil : Code.ResolveAlike m n [] [] := ⟨[], rfl, rfl⟩

theorem append {more more' : Code} (first : code.ResolveAlike m n code') (later : more.ResolveAlike m n more') :
    Code.ResolveAlike m n (code ++ more) (code' ++ more') := by
  obtain ⟨resolved, left, right⟩ := first
  obtain ⟨resolved', left', right'⟩ := later
  unfold Code.resolve at left right left' right'
  refine ⟨resolved ++ resolved', ?_, ?_⟩
  · rw [Code.resolve, List.mapM_append, left, left']
    rfl
  · rw [Code.resolve, List.mapM_append, right, right']
    rfl

/-- An instruction without a token. -/
theorem plain {i : Instruction} (plain : i.token? = none) : Code.ResolveAlike m n [i] [i] := by
  obtain ⟨opcode, operand⟩ := i
  cases operand with
  | none => exact ⟨[(opcode, .none)], rfl, rfl⟩
  | index i => exact ⟨[(opcode, .index i)], rfl, rfl⟩
  | token t => cases plain

theorem onToken {target : ResolvedOperand} (o : Opcode) (left : m.resolve t = .ok target)
    (right : n.resolve t' = .ok target) : Code.ResolveAlike m n [.onToken o t] [.onToken o t'] := by
  refine ⟨[(o, target)], ?_, ?_⟩
  · simp [Code.resolve, Instruction.onToken, Operand.resolve, left]
  · simp [Code.resolve, Instruction.onToken, Operand.resolve, right]

end Code.ResolveAlike

/-! ### Methods and events in two modules -/

/-- The tokens name the same method, each in its module: it has the same declaring type, name and signature. -/
structure Module.SameMethod (m n : Module) (t t' : Token) (row row' : Method) : Prop where
  left : m.method t = .ok row
  right : n.method t' = .ok row'
  target : ∃ target, m.callTarget t = .ok target ∧ n.callTarget t' = .ok target

theorem Module.signature_of_callTarget {target : CallTarget} (found : m.method t = .ok row)
    (calls : m.callTarget t = .ok target) : target.signature = row.signature := by
  unfold callTarget at calls
  simp only [table?_of_lookup (method_eq_ok_iff.mp found)] at calls
  obtain ⟨row', found', built⟩ := except_bind_eq_ok_iff.mp calls
  obtain rfl := Except.ok.inj (found.symm.trans found')
  obtain ⟨d, -, last⟩ := except_bind_eq_ok_iff.mp built
  rw [← Except.ok.inj last]

namespace Module.SameMethod

theorem symm (same : SameMethod m n t t' row row') : SameMethod n m t' t row' row := by
  obtain ⟨target, calls, calls'⟩ := same.target
  exact ⟨same.right, same.left, target, calls', calls⟩

theorem signature (same : SameMethod m n t t' row row') : row'.signature = row.signature := by
  obtain ⟨target, calls, calls'⟩ := same.target
  rw [← signature_of_callTarget same.left calls, signature_of_callTarget same.right calls']

theorem isStatic (same : SameMethod m n t t' row row') : row'.isStatic = row.isStatic := by
  have hasThis := (Signature.mk.inj same.signature).1
  simpa using hasThis

theorem firstParamIndex (same : SameMethod m n t t' row row') : row'.firstParamIndex = row.firstParamIndex := by
  unfold Method.firstParamIndex
  rw [same.isStatic]

/-- With as many locals, the two methods offer the same to code. -/
theorem offers (same : SameMethod m n t t' row row') (locals : row'.body.locals.length = row.body.locals.length)
    (offers : row.Offers v param) : row'.Offers v param := by
  have params := (Signature.mk.inj same.signature).2.2.1
  refine ⟨?_, locals ▸ offers.inside, offers.addressable⟩
  rw [← List.head?_map, params, List.head?_map]
  exact offers.first

end Module.SameMethod

/-- The events agree in what their code depends on. -/
structure Event.Alike (m n : Module) (event event' : Event) : Prop where
  field : ∃ target, m.fieldTarget event.field = .ok target ∧ n.fieldTarget event'.field = .ok target
  helperNamespace : event'.refs.helperNamespace = event.refs.helperNamespace
  name : event'.name = event.name
  handler : event'.handler = event.handler
  isStatic : event'.isStatic = event.isStatic
  closed : event'.closed = event.closed
  isGeneric : event'.isGeneric = event.isGeneric

/-- Fields that are the same but for numbers of rows, with the same event arguments, have events that agree. -/
theorem Event.alike_of_args {field field' : Token} {target : FieldTarget} {a : Ty} (names : refs.Name m)
    (names' : refs.Name n) (leads : m.fieldTarget field = .ok target) (leads' : n.fieldTarget field' = .ok target)
    (derived : m.eventArgs target.ty = .ok a) (derived' : n.eventArgs target.ty = .ok a) (settings : Settings) :
    ∃ event event', ofField m field refs settings = .ok event ∧ ofField n field' refs settings = .ok event' ∧
      event.closed = .closedHandler a ∧ event.Alike m n event' := by
  obtain ⟨row, d, found, owner, rfl⟩ := fieldTarget_eq_ok_iff.mp leads
  obtain ⟨row', d', found', owner', same⟩ := fieldTarget_eq_ok_iff.mp leads'
  obtain ⟨-, sameName, sameFlags, sameTy⟩ := FieldTarget.mk.inj same
  obtain ⟨event, made, rfl, name, -, isStatic, closed⟩ := ofField_of_args names found derived settings
  obtain ⟨event', made', sameRefs, name', -, isStatic', closed'⟩ :=
    ofField_of_args names' found' (sameTy ▸ derived') settings
  obtain ⟨⟨⟨fieldRow, backing, handler, -⟩, -⟩, sameField, -⟩ := ofField_ok made names
  obtain ⟨⟨⟨fieldRow', backing', handler', -⟩, -⟩, sameField', -⟩ := ofField_ok made' names'
  obtain rfl := Except.ok.inj (found.symm.trans (sameField ▸ backing))
  obtain rfl := Except.ok.inj (found'.symm.trans (sameField' ▸ backing'))
  have handlers : event'.handler = event.handler := by rw [← handler, ← handler', sameTy]
  refine ⟨event, event', made, made', closed, ?_⟩
  exact {
    field := ⟨_, sameField.symm ▸ leads, sameField'.symm ▸ leads'⟩
    helperNamespace := congrArg HelperRefs.helperNamespace sameRefs
    name := by rw [name, name', sameName]
    handler := handlers
    isStatic := by rw [isStatic, isStatic', Field.isStatic, Field.isStatic, sameFlags]
    closed := closed'.trans closed.symm
    isGeneric := by
      rw [Bool.eq_iff_iff, isGeneric_iff made, isGeneric_iff made', closed, closed', handlers] }

namespace Event.Alike

theorem symm (alike : event.Alike m n event') : event'.Alike n m event := by
  obtain ⟨target, leads, leads'⟩ := alike.field
  exact ⟨⟨target, leads', leads⟩, alike.helperNamespace.symm, alike.name.symm, alike.handler.symm,
    alike.isStatic.symm, alike.closed.symm, alike.isGeneric.symm⟩

theorem grow (alike : event.Alike m n event') (grows : Grows m m') (grows' : Grows n n') :
    event.Alike m' n' event' := by
  obtain ⟨target, leads, leads'⟩ := alike.field
  exact { alike with field := ⟨target, grows.fieldTarget leads, grows'.fieldTarget leads'⟩ }

/-! ### Pieces of code -/

/-- Calls of one helper at the same arguments. -/
theorem calls (alike : event.Alike m n event') (names : event.refs.Name m) (names' : event'.refs.Name n)
    (calls : event.refs.Calls m h args t) (calls' : event'.refs.Calls n h args t') (other : h ≠ .actionConstructor) :
    Code.ResolveAlike m n [.onToken .call t] [.onToken .call t'] := by
  have target := calls'.target names' other
  rw [alike.helperNamespace] at target
  exact .onToken .call (resolve_of_callTarget (calls.target names other)) (resolve_of_callTarget target)

theorem converts (alike : event.Alike m n event') (names : event.refs.Name m) (names' : event'.refs.Name n)
    (converts : event.Converts m wanted code) (converts' : event'.Converts n wanted code') :
    code.ResolveAlike m n code' := by
  unfold Converts at converts converts'
  rw [alike.isGeneric] at converts'
  split at converts
  · rename_i generic
    rw [if_pos generic] at converts'
    rw [converts, converts']
    exact .nil
  · rename_i generic
    rw [if_neg generic] at converts'
    obtain ⟨t, rfl, called⟩ := converts
    obtain ⟨t', rfl, called'⟩ := converts'
    exact alike.calls names names' called called' nofun

theorem onField (alike : event.Alike m n event') (o : Opcode) :
    Code.ResolveAlike m n [.onToken o event.field] [.onToken o event'.field] := by
  obtain ⟨target, leads, leads'⟩ := alike.field
  exact .onToken o (resolve_of_fieldTarget leads) (resolve_of_fieldTarget leads')

theorem sourceCode (alike : event.Alike m n event') : Code.ResolveAlike m n event.sourceCode event'.sourceCode := by
  unfold Event.sourceCode
  rw [alike.isStatic]
  split
  · exact alike.onField .ldsfld
  · exact .append (.plain (Instruction.token?_loadArg 0)) (alike.onField .ldfld)

theorem receiverCode (alike : event.Alike m n event') :
    Code.ResolveAlike m n event.receiverCode event'.receiverCode := by
  unfold Event.receiverCode
  rw [alike.isStatic]
  split
  · exact .nil
  · exact .plain (Instruction.token?_loadArg 0)

theorem storeInstruction (alike : event.Alike m n event') :
    Code.ResolveAlike m n [event.storeInstruction] [event'.storeInstruction] := by
  unfold Event.storeInstruction
  rw [alike.isStatic]
  split
  · exact alike.onField .stsfld
  · exact alike.onField .stfld

/-- Code of one form, from parts that are the same once their tokens are resolved. -/
theorem template {index : UInt8} {before between cast behind before' between' cast' behind' : Code}
    (alike : event.Alike m n event') (names : event.refs.Name m) (names' : event'.refs.Name n)
    (calls : event.refs.Calls m h args t) (calls' : event'.refs.Calls n h args t') (other : h ≠ .actionConstructor)
    (template : event.Template m index t wanted before between cast behind code)
    (template' : event'.Template n index t' wanted before' between' cast' behind' code')
    (befores : before.ResolveAlike m n before') (betweens : between.ResolveAlike m n between')
    (casts : cast.ResolveAlike m n cast') (behinds : behind.ResolveAlike m n behind') :
    code.ResolveAlike m n code' := by
  obtain ⟨inward, outward, into, back, rfl⟩ := template
  obtain ⟨inward', outward', into', back', rfl⟩ := template'
  rw [alike.handler] at back'
  have argument : Code.ResolveAlike m n [.loadArg index] [.loadArg index] :=
    .plain (Instruction.token?_loadArg index)
  have inwards := argument.append (alike.converts names names' into into')
  have called := (alike.calls names names' calls calls' other).append casts
  exact ((((befores.append inwards).append betweens).append called).append
    (alike.converts names names' back back')).append behinds

end Event.Alike

/-! ### Weaving in two modules -/

section

variable {α β : Type} {x : Edit α} {y : Edit β}

/-- Where the first computation succeeds, the second one does too, unless it fails in this way. -/
def KeepsUp (Q : Error → Module → Prop) (x : Edit α) (y : Edit β) (m n : Module) : Prop :=
  ∀ a m', x m = .ok a m' → (∃ b n', y n = .ok b n') ∨ ∃ e n', y n = .error e n' ∧ Q e n'

/-- The two computations succeed in the same cases, but for failures of this kind, and then their results are
related. -/
structure Parallel (R : Module → Module → α → β → Prop) (Q : Error → Module → Prop) (x : Edit α) (y : Edit β)
    (m n : Module) : Prop where
  forth : KeepsUp Q x y m n
  back : KeepsUp Q y x n m
  related : ∀ a m' b n', x m = .ok a m' → y n = .ok b n' → R m' n' a b

end

section

variable (placed : m.Placed) (placed' : n.Placed) (backed : event.Backed m) (backed' : event'.Backed n)
  (alike : event.Alike m n event')

include placed placed' backed backed' alike

omit placed' in
theorem findWeakCode_keepsUp (same : SameMethod m n method method' row row')
    (locals : row'.body.locals.length = row.body.locals.length) (v : Variable) :
    KeepsUp OutOfReferences (event.findWeakCode method v) (event'.findWeakCode method' v) m n := by
  intro code m' ran
  obtain ⟨a, closed⟩ := backed.closed
  obtain ⟨_, param, -, found, offers, kind, -⟩ := findWeakCode_template placed backed closed method v code m' ran
  obtain rfl := Except.ok.inj (same.left.symm.trans found)
  rw [← alike.isStatic, ← same.isStatic] at kind
  exact made_of_fails (findWeakCode_fails backed' (alike.closed.trans closed) same.right
    (same.offers locals offers) kind)

theorem findWeakCode_parallel (same : SameMethod m n method method' row row')
    (locals : row'.body.locals.length = row.body.locals.length) (v : Variable) :
    Parallel Code.ResolveAlike OutOfReferences (event.findWeakCode method v) (event'.findWeakCode method' v) m n := by
  refine ⟨findWeakCode_keepsUp placed backed backed' alike same locals v,
    findWeakCode_keepsUp placed' backed' backed alike.symm same.symm locals.symm v, ?_⟩
  intro code m' code' n' ran ran'
  obtain ⟨a, closed⟩ := backed.closed
  obtain ⟨_, -, helper, found, -, -, calls, template⟩ :=
    findWeakCode_template placed backed closed method v code m' ran
  obtain ⟨_, -, helper', found', -, -, calls', template'⟩ :=
    findWeakCode_template placed' backed' (alike.closed.trans closed) method' v code' n' ran'
  obtain rfl := Except.ok.inj (same.left.symm.trans found)
  obtain rfl := Except.ok.inj (same.right.symm.trans found')
  rw [same.firstParamIndex, alike.closed] at template'
  have grows := (evolves_of_ok (moves_findWeakCode event method v m) ran).grows
  have grows' := (evolves_of_ok (moves_findWeakCode event' method' v n) ran').grows
  have alike' := alike.grow grows grows'
  exact alike'.template (backed.refs.grow grows) (backed'.refs.grow grows') calls calls' nofun template template'
    alike'.sourceCode .nil .nil (.plain (Instruction.token?_storeLocal _))

/-- With callbacks on the same method. -/
theorem makeWeakCode_keepsUp {unsubscribe unsubscribe' : Token} {callee callee' : Method}
    (same : SameMethod m n method method' row row') (locals : row'.body.locals.length = row.body.locals.length)
    (bound : SameMethod m n unsubscribe unsubscribe' callee callee') (v : Variable) :
    KeepsUp OutOfReferences (event.makeWeakCode method unsubscribe v) (event'.makeWeakCode method' unsubscribe' v)
      m n := by
  intro code m' ran
  obtain ⟨a, closed⟩ := backed.closed
  obtain ⟨_, param, -, -, _, found, offers, foundCallee, kind, -⟩ :=
    makeWeakCode_template placed backed closed method unsubscribe v code m' ran
  obtain rfl := Except.ok.inj (same.left.symm.trans found)
  obtain rfl := Except.ok.inj (bound.left.symm.trans foundCallee)
  rw [← bound.isStatic, ← same.isStatic] at kind
  exact made_of_fails (makeWeakCode_fails placed' backed' (alike.closed.trans closed) same.right
    (same.offers locals offers) bound.right kind)

theorem makeWeakCode_parallel {unsubscribe unsubscribe' : Token} {callee callee' : Method}
    (same : SameMethod m n method method' row row') (locals : row'.body.locals.length = row.body.locals.length)
    (bound : SameMethod m n unsubscribe unsubscribe' callee callee') (v : Variable) :
    Parallel Code.ResolveAlike OutOfReferences (event.makeWeakCode method unsubscribe v)
      (event'.makeWeakCode method' unsubscribe' v) m n := by
  refine ⟨makeWeakCode_keepsUp placed placed' backed backed' alike same locals bound v,
    makeWeakCode_keepsUp placed' placed backed' backed alike.symm same.symm locals.symm bound.symm v, ?_⟩
  intro code m' code' n' ran ran'
  obtain ⟨a, closed⟩ := backed.closed
  obtain ⟨_, -, helper, constructor, _, found, -, foundCallee, -, calls, closes, template⟩ :=
    makeWeakCode_template placed backed closed method unsubscribe v code m' ran
  obtain ⟨_, -, helper', constructor', _, found', -, foundCallee', -, calls', closes', template'⟩ :=
    makeWeakCode_template placed' backed' (alike.closed.trans closed) method' unsubscribe' v code' n' ran'
  obtain rfl := Except.ok.inj (same.left.symm.trans found)
  obtain rfl := Except.ok.inj (same.right.symm.trans found')
  obtain rfl := Except.ok.inj (bound.left.symm.trans foundCallee)
  obtain rfl := Except.ok.inj (bound.right.symm.trans foundCallee')
  rw [same.firstParamIndex, alike.closed, bound.isStatic] at template'
  rw [alike.closed] at closes'
  have ev := evolves_of_ok (moves_makeWeakCode event method unsubscribe v m) ran
  have ev' := evolves_of_ok (moves_makeWeakCode event' method' unsubscribe' v n) ran'
  obtain ⟨target, called, called'⟩ := bound.target
  have callbacks : Code.ResolveAlike m' n' (callbackCode callee.isStatic constructor unsubscribe)
      (callbackCode callee.isStatic constructor' unsubscribe') := by
    have instance_ : (if callee.isStatic then Instruction.plain .ldnull else .loadArg 0).token? = none := by
      cases callee.isStatic with
      | true => rfl
      | false => exact Instruction.token?_loadArg 0
    have loads := Code.ResolveAlike.onToken .ldftn (resolve_of_callTarget (ev.retained.callTarget called))
      (resolve_of_callTarget (ev'.retained.callTarget called'))
    have creates := Code.ResolveAlike.onToken .newobj
      (resolve_of_callTarget (callTarget_of_closedConstructor closes))
      (resolve_of_callTarget (callTarget_of_closedConstructor closes'))
    exact .append (.plain instance_) (loads.append creates)
  have alike' := alike.grow ev.grows ev'.grows
  exact alike'.template (backed.refs.grow ev.grows) (backed'.refs.grow ev'.grows) calls calls' nofun template
    template' .nil callbacks .nil (.plain (Instruction.token?_storeLocal _))

end

/-- What a token of the unsubscribing method calls. -/
theorem Event.IsUnsubscribing.callTarget {target : FieldTarget} (is : event.IsUnsubscribing row)
    (found : m.method t = .ok row) (backed : event.Backed m) (leads : m.fieldTarget event.field = .ok target) :
    m.callTarget t = .ok ⟨target.declaringType, unsubscribeName event.name,
      ⟨!event.isStatic, 0, [event.closed], .void⟩⟩ := by
  obtain ⟨fieldRow, d, field, owner, rfl⟩ := fieldTarget_eq_ok_iff.mp leads
  obtain ⟨fieldRow', field', -, -, fieldOwner, -⟩ := backed.field
  obtain rfl := Except.ok.inj (field.symm.trans field')
  rw [fieldOwner, ← is.owner] at owner
  rw [callTarget_of_method found owner, Method.signature, is.name, is.isStatic, is.params, is.result]
  rfl

/-- Methods that are the same but for the numbers of rows, in their code as well. -/
def SameUnsubscribe (m n : Module) (t t' : Token) : Prop :=
  ∃ row row', SameMethod m n t t' row row' ∧ row.body.code.ResolveAlike m n row'.body.code

/-- The unsubscribing methods, where the name is taken in both modules or in none. -/
theorem addUnsubscribe_parallel (placed : m.Placed) (placed' : n.Placed) (typed : event.Typed m)
    (typed' : event'.Typed n) (alike : event.Alike m n event')
    (taken : (n.findMethod? event'.owner (unsubscribeName event'.name)).isSome =
      (m.findMethod? event.owner (unsubscribeName event.name)).isSome) :
    Parallel SameUnsubscribe OutOfRows event.addUnsubscribe event'.addUnsubscribe m n := by
  have added : ∀ {event : Event} {m : Module}, m.Placed → event.Typed m →
      (m.findMethod? event.owner (unsubscribeName event.name)).isSome = false →
      (∃ t m', event.addUnsubscribe m = .ok t m') ∨ ∃ e m', event.addUnsubscribe m = .error e m' ∧ OutOfRows e m' := by
    intro event m placed typed free
    rcases (addUnsubscribe_yields placed typed free).cases with ⟨t, m', ran, -⟩ | failed
    · exact .inl ⟨t, m', ran⟩
    · exact .inr failed
  refine ⟨fun t m' ran => ?_, fun t' n' ran' => ?_, fun t m' t' n' ran ran' => ?_⟩
  · exact added placed' typed' (taken.trans (addUnsubscribe_steps event m t m' ran).1)
  · exact added placed typed (taken.symm.trans (addUnsubscribe_steps event' n t' n' ran').1)
  have backed := typed.backed
  have backed' := typed'.backed
  obtain ⟨row, cast, found, is, resolves, template⟩ := addUnsubscribe_template placed backed t m' ran
  obtain ⟨row', cast', found', is', resolves', template'⟩ := addUnsubscribe_template placed' backed' t' n' ran'
  have grows := ((moves_addUnsubscribe event m).of_ok ran).grows
  have grows' := ((moves_addUnsubscribe event' n).of_ok ran').grows
  have alike' := alike.grow grows grows'
  obtain ⟨target, leads, leads'⟩ := alike'.field
  have calls := is.callTarget found (backed.grow grows) leads
  have calls' := is'.callTarget found' (backed'.grow grows') leads'
  rw [alike.name, alike.isStatic, alike.closed] at calls'
  have same : SameMethod m' n' t t' row row' := ⟨found, found', _, calls, calls'⟩
  refine ⟨row, row', same, ?_⟩
  rw [same.firstParamIndex, alike.handler] at template'
  rw [alike.handler] at resolves'
  have casts :=
    Code.ResolveAlike.onToken .castclass (resolve_of_resolveType resolves) (resolve_of_resolveType resolves')
  exact alike'.template (backed.refs.grow grows) (backed'.refs.grow grows') (h := .remove) (.reference .remove)
    (.reference .remove) nofun template template' (alike'.receiverCode.append alike'.sourceCode) .nil casts
    (alike'.storeInstruction.append (.plain rfl))

end WeakSubscription
