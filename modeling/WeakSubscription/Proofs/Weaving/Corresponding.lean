import Mathlib.Data.List.Forall2
import WeakSubscription.Proofs.Module.Lockstep
import WeakSubscription.Proofs.Weaving.EventTyping

/-!
# Corresponding code

Code made for the same event in two modules is the same but for the tokens in it, and a token resolves in one module
to what its counterpart resolves to in the other. Everything that makes code keeps this up as long as the modules are
in step, and goes through in the second module where it went through in the first one.
-/

open WeakSubscription.Module

namespace WeakSubscription

open Tracked

variable {m m' n n' u : Module} {t t' : Token} {f f' g g' : Fragment} {code code' : Code} {ty : Ty} {event : Event}
  {refs : HelperRefs} {site site' : Site} {row row' : Method} {ref : MemberRef}

/-! ### Correspondence -/

/-- The tokens resolve to the same field, the same type or the same call target, each in its module. -/
inductive Token.Corresponds (m n : Module) (t t' : Token) : Prop
  | field {row : Field} (left : m.field t = .ok row) (right : n.field t' = .ok row)
  | type {ty : Ty} (left : m.resolveType t = .ok ty) (right : n.resolveType t' = .ok ty)
  | target {target : CallTarget} (left : m.callTarget t = .ok target) (right : n.callTarget t' = .ok target)

inductive Operand.Corresponds (m n : Module) : Operand → Operand → Prop
  | none : Corresponds m n .none .none
  | index (i : UInt8) : Corresponds m n (.index i) (.index i)
  | token {t t' : Token} (same : t.Corresponds m n t') : Corresponds m n (.token t) (.token t')

structure Instruction.Corresponds (m n : Module) (i j : Instruction) : Prop where
  opcode : j.opcode = i.opcode
  operand : i.operand.Corresponds m n j.operand

/-- The instructions correspond one by one. -/
def Code.Corresponds (m n : Module) (code code' : Code) : Prop :=
  List.Forall₂ (Instruction.Corresponds m n) code code'

structure Fragment.Corresponds (m n : Module) (f g : Fragment) : Prop where
  ty : g.ty = f.ty
  code : Code.Corresponds m n f.code g.code

theorem Token.Corresponds.grow (same : t.Corresponds m n t') (kept : Retained m m') (kept' : Retained n n') :
    t.Corresponds m' n' t' := by
  cases same with
  | field left right => exact .field (kept.grows.field left) (kept'.grows.field right)
  | type left right => exact .type (kept.grows.resolveType left) (kept'.grows.resolveType right)
  | target left right => exact .target (kept.callTarget left) (kept'.callTarget right)

theorem Operand.Corresponds.grow {o o' : Operand} (same : o.Corresponds m n o') (kept : Retained m m')
    (kept' : Retained n n') : o.Corresponds m' n' o' := by
  cases same with
  | none => exact .none
  | index i => exact .index i
  | token tokens => exact .token (tokens.grow kept kept')

theorem Instruction.Corresponds.grow {i j : Instruction} (same : i.Corresponds m n j) (kept : Retained m m')
    (kept' : Retained n n') : i.Corresponds m' n' j :=
  ⟨same.opcode, same.operand.grow kept kept'⟩

theorem Code.Corresponds.grow (same : code.Corresponds m n code') (kept : Retained m m') (kept' : Retained n n') :
    code.Corresponds m' n' code' :=
  List.Forall₂.imp (fun _ _ one => one.grow kept kept') same

theorem Fragment.Corresponds.grow (same : f.Corresponds m n g) (kept : Retained m m') (kept' : Retained n n') :
    f.Corresponds m' n' g :=
  ⟨same.ty, same.code.grow kept kept'⟩

/-- An instruction without a token corresponds to itself. -/
theorem Instruction.corresponds_self {i : Instruction} (plain : i.token? = none) : i.Corresponds m n i := by
  obtain ⟨opcode, operand⟩ := i
  cases operand with
  | none => exact ⟨rfl, .none⟩
  | index i => exact ⟨rfl, .index i⟩
  | token t => cases plain

theorem Instruction.corresponds_onToken (o : Opcode) (same : t.Corresponds m n t') :
    (onToken o t).Corresponds m n (onToken o t') :=
  ⟨rfl, .token same⟩

theorem Instruction.token?_loadArg (i : UInt8) : (loadArg i).token? = none := by
  unfold loadArg
  split <;> rfl

theorem Instruction.token?_storeLocal (i : UInt8) : (storeLocal i).token? = none := by
  unfold storeLocal
  split <;> rfl

namespace Code.Corresponds

theorem append {more more' : Code} (first : code.Corresponds m n code') (later : more.Corresponds m n more') :
    Code.Corresponds m n (code ++ more) (code' ++ more') :=
  List.rel_append first later

theorem snoc {i j : Instruction} (first : code.Corresponds m n code') (last : i.Corresponds m n j) :
    Code.Corresponds m n (code ++ [i]) (code' ++ [j]) :=
  first.append (.cons last .nil)

theorem thenReturn (same : code.Corresponds m n code') : code.thenReturn.Corresponds m n code'.thenReturn :=
  same.snoc (Instruction.corresponds_self rfl)

end Code.Corresponds

namespace Fragment.Corresponds

/-- Calls of the same helper on values that correspond. -/
theorem calling_one (same : f.Corresponds m n g) (helpers : t.Corresponds m n t') (ty : Ty) :
    (calling t [f] ty).Corresponds m n (calling t' [g] ty) := by
  refine ⟨rfl, ?_⟩
  simp only [calling, List.flatMap_cons, List.flatMap_nil, List.append_nil]
  exact same.code.snoc (Instruction.corresponds_onToken .call helpers)

theorem calling_two (first : f.Corresponds m n g) (second : f'.Corresponds m n g') (helpers : t.Corresponds m n t')
    (ty : Ty) : (calling t [f, f'] ty).Corresponds m n (calling t' [g, g'] ty) := by
  refine ⟨rfl, ?_⟩
  simp only [calling, List.flatMap_cons, List.flatMap_nil, List.append_nil]
  exact (first.code.append second.code).snoc (Instruction.corresponds_onToken .call helpers)

end Fragment.Corresponds

/-! ### Helpers -/

theorem HelperRefs.Name.corresponds (names : refs.Name m) (names' : refs.Name n) (h : Helper) :
    (refs.token h).Corresponds m n (refs.token h) :=
  .target (callTarget_of_memberRef (names h)) (callTarget_of_memberRef (names' h))

/-! ### Sites -/

/-- The sites are of methods with the same staticness and the same parameters. -/
structure Site.Matches (site site' : Site) : Prop where
  isStatic : site'.isStatic = site.isStatic
  firstParamIndex : site'.firstParamIndex = site.firstParamIndex
  firstParam : site'.firstParam = site.firstParam

namespace Site

theorem ofMethod_matches (found : m.method t = .ok row) (found' : n.method t' = .ok row')
    (static : row'.isStatic = row.isStatic) (params : row'.params = row.params) (made : ofMethod m t = .ok site) :
    ∃ site', ofMethod n t' = .ok site' ∧ site.Matches site' ∧ site.method = t ∧ site'.method = t' := by
  obtain rfl := ofMethod_ok made found
  refine ⟨⟨t', row'.isStatic, row'.firstParamIndex, row'.params.head?.map (·.ty)⟩,
    except_bind_eq_ok_iff.mpr ⟨row', found', rfl⟩, ⟨static, ?_, ?_⟩, rfl, rfl⟩
  · show row'.firstParamIndex = row.firstParamIndex
    rw [Method.firstParamIndex, static, Method.firstParamIndex]
  · show row'.params.head?.map _ = row.params.head?.map _
    rw [params]

namespace Matches

theorem requireThis (same : site.Matches site') {member member' : Token} (passed : site.requireThis member = .ok ()) :
    site'.requireThis member' = .ok () :=
  requireThis_of_kind (same.isStatic.trans (requireThis_ok passed)) member'

theorem firstArgument (same : site.Matches site') (m n : Module) (loaded : site.firstArgument = .ok f) :
    ∃ g, site'.firstArgument = .ok g ∧ f.Corresponds m n g := by
  unfold Site.firstArgument at loaded ⊢
  rw [same.firstParam, same.firstParamIndex]
  split at loaded
  · obtain rfl := Except.ok.inj loaded
    exact ⟨_, rfl, rfl, .cons (Instruction.corresponds_self (Instruction.token?_loadArg _)) .nil⟩
  · cases loaded

theorem loadField (same : site.Matches site') (inStep : InStep u m n) {field : Token}
    (loaded : site.loadField m field = .ok f) : ∃ g, site'.loadField n field = .ok g ∧ f.Corresponds m n g := by
  obtain ⟨row, found, built⟩ := except_bind_eq_ok_iff.mp loaded
  have found' := inStep.field found
  have fields : field.Corresponds m n field := .field found found'
  split at built
  · rename_i static
    obtain rfl := Except.ok.inj built
    refine ⟨_, except_bind_eq_ok_iff.mpr ⟨row, found', if_pos static⟩, rfl, ?_⟩
    exact .cons (Instruction.corresponds_onToken _ fields) .nil
  · rename_i ofInstance
    obtain ⟨_, passed, last⟩ := except_bind_eq_ok_iff.mp built
    obtain rfl := Except.ok.inj last
    refine ⟨⟨[.loadArg 0, .onToken .ldfld field], row.ty⟩, except_bind_eq_ok_iff.mpr ⟨row, found', ?_⟩, rfl, ?_⟩
    · rw [if_neg ofInstance, same.requireThis passed]
      rfl
    · exact .cons (Instruction.corresponds_self (Instruction.token?_loadArg _))
        (.cons (Instruction.corresponds_onToken _ fields) .nil)

theorem storeField (same : site.Matches site') (inStep : InStep u m n) {field : Token} (values : f.Corresponds m n g)
    (stored : site.storeField m field f = .ok code) :
    ∃ code', site'.storeField n field g = .ok code' ∧ code.Corresponds m n code' := by
  obtain ⟨row, found, built⟩ := except_bind_eq_ok_iff.mp stored
  have found' := inStep.field found
  have fields : field.Corresponds m n field := .field found found'
  split at built
  · rename_i static
    obtain rfl := Except.ok.inj built
    exact ⟨_, except_bind_eq_ok_iff.mpr ⟨row, found', if_pos static⟩,
      values.code.snoc (Instruction.corresponds_onToken _ fields)⟩
  · rename_i ofInstance
    obtain ⟨_, passed, last⟩ := except_bind_eq_ok_iff.mp built
    obtain rfl := Except.ok.inj last
    refine ⟨.loadArg 0 :: g.code ++ [.onToken .stfld field], except_bind_eq_ok_iff.mpr ⟨row, found', ?_⟩, ?_⟩
    · rw [if_neg ofInstance, same.requireThis passed]
      rfl
    · exact Code.Corresponds.snoc (.cons (Instruction.corresponds_self (Instruction.token?_loadArg _)) values.code)
        (Instruction.corresponds_onToken _ fields)

end Matches

/-- A method with the same locals in both modules has the same variables. -/
theorem storeLocal_corresponds {v : Variable} (found : m.method site.method = .ok row)
    (found' : n.method site'.method = .ok row') (locals : row'.body.locals = row.body.locals)
    (values : f.Corresponds m n g) (stored : site.storeLocal m v f = .ok code) :
    ∃ code', site'.storeLocal n v g = .ok code' ∧ code.Corresponds m n code' := by
  obtain ⟨i, index, built⟩ := except_bind_eq_ok_iff.mp stored
  obtain rfl := Except.ok.inj built
  have index' : site'.localIndex n v = .ok i := by
    obtain ⟨row₀, found₀, tested⟩ := except_bind_eq_ok_iff.mp index
    obtain rfl : row = row₀ := Except.ok.inj (found.symm.trans found₀)
    refine except_bind_eq_ok_iff.mpr ⟨row', found', ?_⟩
    rw [locals]
    exact tested
  exact ⟨_, except_bind_eq_ok_iff.mpr ⟨i, index', rfl⟩,
    values.code.snoc (Instruction.corresponds_self (Instruction.token?_storeLocal i))⟩

/-- New delegates on methods with the same call target, made by constructors with the same call target. -/
theorem newDelegate_corresponds {constructor constructor' : Token} {callee created : CallTarget}
    (same : site.Matches site') (found : m.method t = .ok row) (found' : n.method t' = .ok row')
    (static : row'.isStatic = row.isStatic) (called : m.callTarget t = .ok callee)
    (called' : n.callTarget t' = .ok callee) (creates : m.callTarget constructor = .ok created)
    (creates' : n.callTarget constructor' = .ok created) (made : site.newDelegate m constructor t = .ok f) :
    ∃ g, site'.newDelegate n constructor' t' = .ok g ∧ f.Corresponds m n g := by
  have kind := kind_of_newDelegate found made
  obtain rfl := Except.ok.inj ((newDelegate_of_kind found kind creates).symm.trans made)
  rw [← static, ← same.isStatic] at kind
  refine ⟨_, newDelegate_of_kind found' kind creates', rfl, ?_⟩
  rw [static]
  have instance_ : (if row.isStatic then Instruction.plain .ldnull else .loadArg 0).token? = none := by
    cases row.isStatic with
    | true => rfl
    | false => exact Instruction.token?_loadArg 0
  exact .cons (Instruction.corresponds_self instance_) (.cons
    (Instruction.corresponds_onToken _ (.target called called')) (.cons
      (Instruction.corresponds_onToken _ (.target creates creates')) .nil))

end Site

/-! ### Fragments in step -/

namespace Fragment

theorem convert_lockstep (inStep : InStep u m n) (names : refs.Name m) (names' : refs.Name n)
    (same : f.Corresponds m n g) (target : Ty) :
    Lockstep u (fun f g m' n' => f.Corresponds m' n' g) (f.convert refs target) (g.convert refs target) m n := by
  refine lockstep_bind (inStep.addMethodSpec (names' .changeType) rfl) (fun _ _ => moves_pure _) ?_
  rintro t t' m₁ n₁ along along' inStep₁ ⟨spec, spec'⟩
  have known := along.quiet.grows.memberRef (names .changeType)
  have known' := along'.quiet.grows.memberRef (names' .changeType)
  have helpers : t.Corresponds m₁ n₁ t' :=
    .target (callTarget_of_methodSpec spec known) (callTarget_of_methodSpec spec' known')
  exact lockstep_pure inStep₁ ((same.grow along.quiet.retained along'.quiet.retained).calling_one helpers target)

theorem arithmetic_lockstep (inStep : InStep u m n) (names : refs.Name m) (names' : refs.Name n) (h : Helper)
    (sources : f.Corresponds m n g) (handlers : f'.Corresponds m n g') :
    Lockstep u (fun f g m' n' => f.Corresponds m' n' g) (arithmetic (refs.token h) f f')
      (arithmetic (refs.token h) g g') m n := by
  unfold arithmetic
  rw [sources.ty]
  refine lockstep_bind (inStep.importType f.ty) (fun _ _ => moves_pure _) ?_
  rintro t t' m₁ n₁ along along' inStep₁ ⟨cast, cast'⟩
  have kept := along.quiet.retained
  have kept' := along'.quiet.retained
  have helpers := (names.grow kept.grows).corresponds (names'.grow kept'.grows) h
  have results := (sources.grow kept kept').calling_two (handlers.grow kept kept') helpers f.ty
  exact lockstep_pure inStep₁ ⟨rfl, results.code.snoc (Instruction.corresponds_onToken _ (.type cast cast'))⟩

theorem instantiateHelper_lockstep (inStep : InStep u m n) (names : refs.Name m) (names' : refs.Name n) {h : Helper}
    (generic : h.signature.arity = 1) (closed : Ty) :
    Lockstep u (fun t t' m' n' => t.Corresponds m' n' t') (instantiateHelper (refs.token h) closed)
      (instantiateHelper (refs.token h) closed) m n := by
  unfold instantiateHelper
  split
  · rename_i args _
    intro t m' ran covers
    have arity : h.signature.arity = [args].length := generic
    obtain ⟨t', n', ran', along, along', inStep', spec, spec'⟩ :=
      inStep.addMethodSpec (names' h) arity t m' ran covers
    have known := along.quiet.grows.memberRef (names h)
    have known' := along'.quiet.grows.memberRef (names' h)
    exact ⟨t', n', ran', along, along', inStep',
      .target (callTarget_of_methodSpec spec known) (callTarget_of_methodSpec spec' known')⟩
  · intro t m' ran
    cases ran

theorem findWeak_lockstep (inStep : InStep u m n) (names : refs.Name m) (names' : refs.Name n) (closed : Ty)
    (sources : f.Corresponds m n g) (handlers : f'.Corresponds m n g') :
    Lockstep u (fun f g m' n' => f.Corresponds m' n' g) (findWeak refs closed f f') (findWeak refs closed g g')
      m n := by
  refine lockstep_bind (instantiateHelper_lockstep (h := .findWeak) inStep names names' rfl closed)
    (fun _ _ => moves_pure _) fun t t' m₁ n₁ along along' inStep₁ helpers => ?_
  have kept := along.quiet.retained
  have kept' := along'.quiet.retained
  exact lockstep_pure inStep₁ ((sources.grow kept kept').calling_two (handlers.grow kept kept') helpers closed)

theorem makeWeak_lockstep (inStep : InStep u m n) (names : refs.Name m) (names' : refs.Name n) (closed : Ty)
    (handlers : f.Corresponds m n g) (callbacks : f'.Corresponds m n g') :
    Lockstep u (fun f g m' n' => f.Corresponds m' n' g) (makeWeak refs closed f f') (makeWeak refs closed g g')
      m n := by
  refine lockstep_bind (instantiateHelper_lockstep (h := .makeWeak) inStep names names' rfl closed)
    (fun _ _ => moves_pure _) fun t t' m₁ n₁ along along' inStep₁ helpers => ?_
  have kept := along.quiet.retained
  have kept' := along'.quiet.retained
  exact lockstep_pure inStep₁ ((handlers.grow kept kept').calling_two (callbacks.grow kept kept') helpers closed)

end Fragment

/-! ### The code of an event in step -/

theorem converted_lockstep (inStep : InStep u m n) (names : event.refs.Name m) (names' : event.refs.Name n)
    (same : f.Corresponds m n g) (target : Ty) :
    Lockstep u (fun f g m' n' => f.Corresponds m' n' g) (event.converted f target) (event.converted g target)
      m n := by
  unfold Event.converted
  split
  · exact lockstep_pure inStep same
  · exact Fragment.convert_lockstep inStep names names' same target

theorem closeActionConstructor_lockstep (inStep : InStep u m n) (names : refs.Name m) (names' : refs.Name n)
    (closed : Ty) :
    Lockstep u (fun t t' m' n' => ∃ target, m'.callTarget t = .ok target ∧ n'.callTarget t' = .ok target)
      (refs.closeActionConstructor closed) (refs.closeActionConstructor closed) m n := by
  refine lockstep_get_bind (lockstep_lift_bind fun ref found => ?_)
  obtain rfl := Except.ok.inj ((names .actionConstructor).symm.trans found)
  refine ⟨_, names' .actionConstructor, (inStep.addMemberRef _ _ _).imp ?_⟩
  rintro t t' m₁ n₁ ⟨closes, closes'⟩
  exact ⟨_, callTarget_of_closedConstructor closes, callTarget_of_closedConstructor closes'⟩

/-- The bodies of two unsubscribing methods of the event. -/
theorem unsubscribeCode_lockstep (inStep : InStep u m n) (names : event.refs.Name m) (names' : event.refs.Name n)
    (found : m.method t = .ok row) (found' : n.method t' = .ok row') (static : row'.isStatic = row.isStatic)
    (params : row'.params = row.params) :
    Lockstep u (fun code code' m' n' => code.Corresponds m' n' code') (event.unsubscribeCode t)
      (event.unsubscribeCode t') m n := by
  refine lockstep_get_bind (lockstep_lift_bind fun site made => ?_)
  obtain ⟨site', made', same, -, -⟩ := Site.ofMethod_matches found found' static params made
  refine ⟨site', made', lockstep_lift_bind fun first loaded => ?_⟩
  obtain ⟨first', loaded', firsts⟩ := same.firstArgument m n loaded
  refine ⟨first', loaded', lockstep_bind (converted_lockstep inStep names names' firsts _) (fun _ _ => ?_) ?_⟩
  · refine moves_get_bind (moves_lift_bind fun _ _ => moves_bind (Fragment.moves_arithmetic _ _ _ _) fun _ _ _ => ?_)
    exact moves_bind (moves_converted _ _ _ _) fun _ _ _ => moves_get_bind (moves_lift_bind fun _ _ => moves_pure _)
  intro handler handler' m₁ n₁ along₁ along₁' inStep₁ handlers
  have names₁ := names.grow along₁.quiet.grows
  have names₁' := names'.grow along₁'.quiet.grows
  refine lockstep_get_bind (lockstep_lift_bind fun source sourceLoaded => ?_)
  obtain ⟨source', sourceLoaded', sources⟩ := same.loadField inStep₁ sourceLoaded
  refine ⟨source', sourceLoaded', lockstep_bind (Fragment.arithmetic_lockstep inStep₁ names₁ names₁' .remove sources
    handlers) (fun _ _ => ?_) ?_⟩
  · exact moves_bind (moves_converted _ _ _ _) fun _ _ _ => moves_get_bind (moves_lift_bind fun _ _ => moves_pure _)
  intro removed removed' m₂ n₂ along₂ along₂' inStep₂ removes
  have names₂ := names₁.grow along₂.quiet.grows
  have names₂' := names₁'.grow along₂'.quiet.grows
  refine lockstep_bind (converted_lockstep inStep₂ names₂ names₂' removes _)
    (fun _ _ => moves_get_bind (moves_lift_bind fun _ _ => moves_pure _)) ?_
  intro remaining remaining' m₃ n₃ _ _ inStep₃ remains
  refine lockstep_get_bind (lockstep_lift_bind fun code stored => ?_)
  obtain ⟨code', stored', codes⟩ := same.storeField inStep₃ remains stored
  exact ⟨code', stored', lockstep_pure inStep₃ codes.thenReturn⟩

/-- The wrapper of the argument of an accessor that has the same row in both modules. -/
theorem findWeakCode_lockstep (inStep : InStep u m n) (names : event.refs.Name m) (names' : event.refs.Name n)
    (found : m.method t = .ok row) (found' : n.method t = .ok row) (v : Variable) :
    Lockstep u (fun code code' m' n' => code.Corresponds m' n' code') (event.findWeakCode t v)
      (event.findWeakCode t v) m n := by
  refine lockstep_get_bind (lockstep_lift_bind fun site made => ?_)
  obtain ⟨site', made', same, own, own'⟩ := Site.ofMethod_matches found found' rfl rfl made
  refine ⟨site', made', lockstep_lift_bind fun first loaded => ?_⟩
  obtain ⟨first', loaded', firsts⟩ := same.firstArgument m n loaded
  refine ⟨first', loaded', lockstep_bind (converted_lockstep inStep names names' firsts _) (fun _ _ => ?_) ?_⟩
  · refine moves_get_bind (moves_lift_bind fun _ _ => moves_bind (Fragment.moves_findWeak _ _ _ _) fun _ _ _ => ?_)
    exact moves_bind (moves_converted _ _ _ _) fun _ _ _ => moves_get_bind (moves_lift _)
  intro handler handler' m₁ n₁ along₁ along₁' inStep₁ handlers
  have names₁ := names.grow along₁.quiet.grows
  have names₁' := names'.grow along₁'.quiet.grows
  refine lockstep_get_bind (lockstep_lift_bind fun source sourceLoaded => ?_)
  obtain ⟨source', sourceLoaded', sources⟩ := same.loadField inStep₁ sourceLoaded
  refine ⟨source', sourceLoaded', lockstep_bind (Fragment.findWeak_lockstep inStep₁ names₁ names₁' _ sources handlers)
    (fun _ _ => moves_bind (moves_converted _ _ _ _) fun _ _ _ => moves_get_bind (moves_lift _)) ?_⟩
  intro wrapped wrapped' m₂ n₂ along₂ along₂' inStep₂ wraps
  have names₂ := names₁.grow along₂.quiet.grows
  have names₂' := names₁'.grow along₂'.quiet.grows
  refine lockstep_bind (converted_lockstep inStep₂ names₂ names₂' wraps _)
    (fun _ _ => moves_get_bind (moves_lift _)) ?_
  intro stored stored' m₃ n₃ along₃ along₃' inStep₃ stores
  have rows := trans_of (Along Op.Refers) (trans_of (Along Op.Refers) along₁ along₂) along₃
  have rows' := trans_of (Along Op.Refers) (trans_of (Along Op.Refers) along₁' along₂') along₃'
  refine lockstep_get_bind (lockstep_lift inStep₃ fun code storing => ?_)
  exact Site.storeLocal_corresponds (own ▸ (rows.quiet.keeps id).row found)
    (own' ▸ (rows'.quiet.keeps id).row found') rfl stores storing

/-- The argument of an accessor that has the same row in both modules, wrapped with corresponding callbacks. -/
theorem makeWeakCode_lockstep {method : Token} {accessor : Method} {callee : CallTarget} (inStep : InStep u m n)
    (names : event.refs.Name m) (names' : event.refs.Name n) (found : m.method method = .ok accessor)
    (found' : n.method method = .ok accessor) (declared : m.method t = .ok row) (declared' : n.method t' = .ok row')
    (static : row'.isStatic = row.isStatic) (called : m.callTarget t = .ok callee)
    (called' : n.callTarget t' = .ok callee) (v : Variable) :
    Lockstep u (fun code code' m' n' => code.Corresponds m' n' code') (event.makeWeakCode method t v)
      (event.makeWeakCode method t' v) m n := by
  refine lockstep_bind (closeActionConstructor_lockstep inStep names names' _) (fun _ _ => ?_) ?_
  · refine moves_get_bind (moves_lift_bind fun _ _ => moves_get_bind (moves_lift_bind fun _ _ => ?_))
    refine moves_lift_bind fun _ _ => moves_bind (moves_converted _ _ _ _) fun _ _ _ => ?_
    refine moves_bind (Fragment.moves_makeWeak _ _ _ _) fun _ _ _ => ?_
    exact moves_bind (moves_converted _ _ _ _) fun _ _ _ => moves_get_bind (moves_lift _)
  rintro constructor constructor' m₁ n₁ along₁ along₁' inStep₁ ⟨created, creates, creates'⟩
  have names₁ := names.grow along₁.quiet.grows
  have names₁' := names'.grow along₁'.quiet.grows
  have found₁ := (along₁.quiet.keeps id).row found
  have found₁' := (along₁'.quiet.keeps id).row found'
  refine lockstep_get_bind (lockstep_lift_bind fun site made => ?_)
  obtain ⟨site', made', same, own, own'⟩ := Site.ofMethod_matches found₁ found₁' rfl rfl made
  refine ⟨site', made', lockstep_get_bind (lockstep_lift_bind fun callback bound => ?_)⟩
  obtain ⟨callback', bound', callbacks⟩ := Site.newDelegate_corresponds same ((along₁.quiet.keeps id).row declared)
    ((along₁'.quiet.keeps id).row declared') static (along₁.quiet.retained.callTarget called)
    (along₁'.quiet.retained.callTarget called') creates creates' bound
  refine ⟨callback', bound', lockstep_lift_bind fun first loaded => ?_⟩
  obtain ⟨first', loaded', firsts⟩ := same.firstArgument m₁ n₁ loaded
  refine ⟨first', loaded', lockstep_bind (converted_lockstep inStep₁ names₁ names₁' firsts _) (fun _ _ => ?_) ?_⟩
  · refine moves_bind (Fragment.moves_makeWeak _ _ _ _) fun _ _ _ => ?_
    exact moves_bind (moves_converted _ _ _ _) fun _ _ _ => moves_get_bind (moves_lift _)
  intro handler handler' m₂ n₂ along₂ along₂' inStep₂ handlers
  have names₂ := names₁.grow along₂.quiet.grows
  have names₂' := names₁'.grow along₂'.quiet.grows
  refine lockstep_bind (Fragment.makeWeak_lockstep inStep₂ names₂ names₂' _ handlers
      (callbacks.grow along₂.quiet.retained along₂'.quiet.retained))
    (fun _ _ => moves_bind (moves_converted _ _ _ _) fun _ _ _ => moves_get_bind (moves_lift _)) ?_
  intro weak weak' m₃ n₃ along₃ along₃' inStep₃ wraps
  have names₃ := names₂.grow along₃.quiet.grows
  have names₃' := names₂'.grow along₃'.quiet.grows
  refine lockstep_bind (converted_lockstep inStep₃ names₃ names₃' wraps _)
    (fun _ _ => moves_get_bind (moves_lift _)) ?_
  intro stored stored' m₄ n₄ along₄ along₄' inStep₄ stores
  have rows := trans_of (Along Op.Refers) (trans_of (Along Op.Refers) along₂ along₃) along₄
  have rows' := trans_of (Along Op.Refers) (trans_of (Along Op.Refers) along₂' along₃') along₄'
  refine lockstep_get_bind (lockstep_lift inStep₄ fun code storing => ?_)
  exact Site.storeLocal_corresponds (own ▸ (rows.quiet.keeps id).row found₁)
    (own' ▸ (rows'.quiet.keeps id).row found₁') rfl stores storing

end WeakSubscription
