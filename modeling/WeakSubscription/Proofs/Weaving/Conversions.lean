import WeakSubscription.Proofs.Weaving.Repeatable
import WeakSubscription.Proofs.Weaving.Templates

/-!
# Where conversions are

An event converts nothing exactly if its field is of the generic handler type over its arguments. Otherwise each piece
of its code has two conversions, one on each side of the call of its helper. Besides these there are no calls.
-/

open WeakSubscription.Module

namespace WeakSubscription

open Tracked

variable {m₀ m m' : Module} {refs : HelperRefs} {event : Event} {t : Token} {h : Helper} {args : List Ty}
  {index : UInt8} {wanted : Ty} {before between cast behind code : Code} {P Q : Op → Prop}

/-! ### Instantiations of helpers -/

/-- The contents of a row that references the helper. -/
def Helper.key (ns : String) (h : Helper) : Ty × String × Signature := (h.parent ns, h.member, h.signature)

theorem Helper.key_injective (ns : String) : Function.Injective (key ns) := by
  intro h h' same
  obtain ⟨parent, member, signature⟩ : h.parent ns = h'.parent ns ∧ h.member = h'.member ∧
      h.signature = h'.signature := by simpa [key] using same
  have first := find?_isNamedBy h ns (.ofRow .memberRef 1)
  rw [parent, member, signature, find?_isNamedBy] at first
  exact (Option.some.inj first).symm

theorem HelperRefs.Name.token_injective (names : refs.Name m) {h h' : Helper} (same : refs.token h = refs.token h') :
    h = h' := by
  have row := names h
  rw [same, names h'] at row
  obtain ⟨-, parent, member, signature⟩ := MemberRef.mk.inj (Except.ok.inj row)
  exact Helper.key_injective refs.helperNamespace (by rw [Helper.key, Helper.key, parent, member, signature])

/-- A token that calls a helper is among the instantiations of no other helper. -/
theorem HelperRefs.Calls.mem_instantiationsOf_iff (calls : refs.Calls m h args t) (placed : m.Placed)
    (names : refs.Name m) (other : Helper) : t ∈ m.instantiationsOf (refs.token other) ↔ h = other := by
  have isRef : ∀ h, (refs.token h).table = Table.memberRef.id := fun h =>
    inTable_of_lookup (memberRef_eq_ok_iff.mp (names h))
  have isSpec : ∀ {t : Token} {row : MethodSpec}, m.methodSpec t = .ok row → t.table = Table.methodSpec.id :=
    fun found => inTable_of_lookup (methodSpec_eq_ok_iff.mp found)
  have apart : Table.memberRef.id ≠ Table.methodSpec.id := by decide
  rw [placed.mem_instantiationsOf_iff]
  cases calls with
  | reference =>
    refine ⟨?_, fun same => .inl (congrArg refs.token same)⟩
    rintro (same | ⟨args, found⟩)
    · exact names.token_injective same
    · exact absurd ((isRef h).symm.trans (isSpec found)) apart
  | instantiation spec =>
    refine ⟨?_, fun same => .inr ⟨args, same ▸ spec⟩⟩
    rintro (rfl | ⟨args', found⟩)
    · exact absurd ((isRef other).symm.trans (isSpec spec)) apart
    · exact names.token_injective (MethodSpec.mk.inj (Except.ok.inj (spec.symm.trans found))).2.1

/-! ### Counting calls -/

namespace Code

variable {code : Code}

theorem countCalls_append (a b : Code) (targets : List Token) :
    countCalls (a ++ b) targets = countCalls a targets + countCalls b targets :=
  List.countP_append

/-- Code without calls. -/
def Quiet (code : Code) : Prop := ∀ i ∈ code, i.opcode ≠ .call

theorem Quiet.countCalls (quiet : Quiet code) (targets : List Token) : code.countCalls targets = 0 := by
  refine List.countP_eq_zero.mpr fun i member => ?_
  simp [quiet i member]

theorem countCalls_call (t : Token) (targets : List Token) :
    countCalls [.onToken .call t] targets = if t ∈ targets then 1 else 0 := by
  simp [countCalls, List.countP_cons, Instruction.onToken, Instruction.token?]

end Code

theorem Instruction.opcode_loadArg_ne (i : UInt8) : (loadArg i).opcode ≠ .call := by
  unfold loadArg
  split <;> exact nofun

theorem Instruction.opcode_storeLocal_ne (i : UInt8) : (storeLocal i).opcode ≠ .call := by
  unfold storeLocal
  split <;> exact nofun

theorem Event.Converts.countCalls (converts : event.Converts m wanted code) (placed : m.Placed)
    (names : event.refs.Name m) (other : Helper) :
    code.countCalls (m.instantiationsOf (event.refs.token other)) =
      if event.isGeneric = false ∧ Helper.changeType = other then 1 else 0 := by
  unfold Converts at converts
  split at converts
  · rename_i generic
    obtain rfl := converts
    rw [if_neg (by simp [generic])]
    rfl
  · rename_i generic
    obtain ⟨t, rfl, calls⟩ := converts
    rw [Code.countCalls_call]
    simp [generic, calls.mem_instantiationsOf_iff placed names]

/-- The calls in such code are that of the helper and those of the conversions. -/
theorem Event.Template.countCalls (template : event.Template m index t wanted before between cast behind code)
    (quiet : Code.Quiet (before ++ between ++ cast ++ behind)) (calls : event.refs.Calls m h args t)
    (placed : m.Placed) (names : event.refs.Name m) (other : Helper) :
    code.countCalls (m.instantiationsOf (event.refs.token other)) =
      (if h = other then 1 else 0) + if event.isGeneric = false ∧ Helper.changeType = other then 2 else 0 := by
  obtain ⟨inward, outward, into, back, rfl⟩ := template
  generalize targets : m.instantiationsOf (event.refs.token other) = l
  have zero := Code.Quiet.countCalls quiet l
  have load : Code.countCalls [.loadArg index] l = 0 := by
    refine Code.Quiet.countCalls (fun i member => ?_) l
    obtain rfl := List.mem_singleton.mp member
    exact Instruction.opcode_loadArg_ne index
  have converts := into.countCalls placed names other
  have converts' := back.countCalls placed names other
  have called : Code.countCalls [.onToken .call t] l = if h = other then 1 else 0 := by
    rw [Code.countCalls_call, ← targets]
    simp [calls.mem_instantiationsOf_iff placed names]
  rw [targets] at converts converts'
  show Code.countCalls (before ++ ([.loadArg index] ++ inward) ++ between ++ ([.onToken .call t] ++ cast) ++ outward ++
    behind) l = _
  simp only [Code.countCalls_append] at zero ⊢
  rw [load, called, converts, converts']
  split <;> split <;> omega

/-- The code calls the helper once, in this form, and what it converts are the argument that goes in and the result
that comes out. -/
structure Event.CallsOnce (event : Event) (m : Module) (index : UInt8) (h : Helper) (args : List Ty) (wanted : Ty)
    (code : Code) : Prop where
  helper : code.countCalls (m.instantiationsOf (event.refs.token h)) = 1
  conversions : code.countCalls (m.instantiationsOf event.refs.changeType) = if event.isGeneric then 0 else 2
  template : ∃ t before between cast behind, event.refs.Calls m h args t ∧
    Code.Quiet (before ++ between ++ cast ++ behind) ∧
    event.Template m index t wanted before between cast behind code

theorem Event.Template.callsOnce (template : event.Template m index t wanted before between cast behind code)
    (quiet : Code.Quiet (before ++ between ++ cast ++ behind)) (calls : event.refs.Calls m h args t)
    (placed : m.Placed) (names : event.refs.Name m) (other : h ≠ .changeType) :
    event.CallsOnce m index h args wanted code := by
  refine ⟨?_, ?_, t, before, between, cast, behind, calls, quiet, template⟩
  · rw [template.countCalls quiet calls placed names, if_pos rfl, if_neg (other ·.2.symm)]
  · have counted := template.countCalls quiet calls placed names .changeType
    rw [if_neg other, Nat.zero_add] at counted
    refine counted.trans ?_
    cases event.isGeneric <;> rfl

/-! ### When conversions are needed -/

/-- A handler type without angle brackets in its name has the name of the generic handler type only if it is that
type. -/
theorem Module.sameName_closedHandler_iff {handler a : Ty} (derived : m.eventArgs handler = .ok a)
    (plain : ∀ name, handler = .named name → '<' ∉ name.full.toList) :
    (Ty.closedHandler a).SameName handler ↔ handler = .closedHandler a := by
  refine ⟨fun same => ?_, fun same => congrArg Ty.fullName same.symm⟩
  cases handler with
  | named name =>
    have bracket : '<' ∈ (Ty.closedHandler a).fullName.toList := by
      simp [Ty.closedHandler, Ty.fullName]
    rw [same] at bracket
    exact absurd bracket (plain name rfl)
  | inst base params =>
    match params, derived with
    | [b], derived =>
      unfold eventArgs at derived
      dsimp only at derived
      split at derived
      · rename_i generic
        obtain rfl := Except.ok.inj derived
        rw [generic]
        rfl
      · cases derived
    | [], derived => cases derived
    | _ :: _ :: _, derived => cases derived
  | void | object | intPtr | typeParam index | methodParam index => cases derived

/-! ### The code of an event -/

theorem Event.sourceCode_quiet (event : Event) : event.sourceCode.Quiet := by
  unfold sourceCode Code.Quiet
  split <;> simp [Instruction.onToken, Instruction.opcode_loadArg_ne]

theorem callbackCode_quiet (isStatic : Bool) (constructor method : Token) :
    (callbackCode isStatic constructor method).Quiet := by
  unfold callbackCode Code.Quiet
  cases isStatic <;> simp [Instruction.onToken, Instruction.plain, Instruction.opcode_loadArg_ne]

theorem Event.storing_quiet (event : Event) (cast : Token) :
    Code.Quiet (event.receiverCode ++ [.onToken .castclass cast, event.storeInstruction, .plain .ret]) := by
  unfold receiverCode storeInstruction Code.Quiet
  cases event.isStatic <;> simp [Instruction.onToken, Instruction.plain, Instruction.opcode_loadArg_ne]

/-- Wherever the module goes from here, the code calls the helper once. -/
def Event.Remains (event : Event) (Q : Op → Prop) (index : UInt8) (h : Helper) (args : List Ty) (wanted : Ty)
    (code : Code) (m : Module) : Prop :=
  ∀ m', Along Q m m' → event.CallsOnce m' index h args wanted code

theorem Event.Template.remains (template : event.Template m index t wanted before between cast behind code)
    (quiet : Code.Quiet (before ++ between ++ cast ++ behind)) (calls : event.refs.Calls m h args t)
    (placed : m.Placed) (names : event.refs.Name m) (other : h ≠ .changeType) :
    event.Remains Q index h args wanted code m := by
  intro m' along
  have ev : Evolves (fun _ => True) m m' := along.evolves fun _ _ _ _ => trivial
  exact (template.grow ev.grows).callsOnce quiet (calls.grow ev.grows) (ev.placed placed) (names.grow ev.grows) other

theorem addUnsubscribe_callsOnce (placed : m.Placed) (backed : event.Backed m) :
    Gives (fun t m' => ∃ row, m'.method t = .ok row ∧
        event.Remains Q row.firstParamIndex .remove [] event.handler row.body.code m')
      event.addUnsubscribe m := by
  intro t m' added
  obtain ⟨row, cast, found, -, -, template⟩ := addUnsubscribe_template placed backed t m' added
  have ev : Evolves (fun _ => True) m m' :=
    ((moves_addUnsubscribe event m).of_ok added).evolves fun _ _ _ _ => trivial
  refine ⟨row, found, ?_⟩
  refine template.remains ?_ (.reference .remove) (ev.placed placed) (backed.grow ev.grows).refs nofun
  have stores := event.storing_quiet cast
  have source := event.sourceCode_quiet
  simp only [Code.Quiet, List.mem_append, List.append_nil] at stores source ⊢
  grind

theorem findWeakCode_callsOnce {a : Ty} (placed : m.Placed) (backed : event.Backed m)
    (closed : event.closed = .closedHandler a) (method : Token) (v : Variable) :
    Gives (fun code m' => ∃ row, m.method method = .ok row ∧
        event.Remains Q row.firstParamIndex .findWeak [a] event.closed code m')
      (event.findWeakCode method v) m := by
  intro code m' made
  obtain ⟨row, param, helper, found, -, -, calls, template⟩ :=
    findWeakCode_template placed backed closed method v code m' made
  have ev := evolves_of_ok (moves_findWeakCode event method v m) made
  refine ⟨row, found, template.remains ?_ calls (ev.placed placed) (backed.grow ev.grows).refs nofun⟩
  have source := event.sourceCode_quiet
  simpa [Code.Quiet, Instruction.opcode_storeLocal_ne, or_imp, forall_and] using source

theorem makeWeakCode_callsOnce {a : Ty} (placed : m.Placed) (backed : event.Backed m)
    (closed : event.closed = .closedHandler a) (method unsubscribe : Token) (v : Variable) :
    Gives (fun code m' => ∃ row, m.method method = .ok row ∧
        event.Remains Q row.firstParamIndex .makeWeak [a] event.closed code m')
      (event.makeWeakCode method unsubscribe v) m := by
  intro code m' made
  obtain ⟨row, param, helper, constructor, callee, found, -, -, -, calls, -, template⟩ :=
    makeWeakCode_template placed backed closed method unsubscribe v code m' made
  have ev := evolves_of_ok (moves_makeWeakCode event method unsubscribe v m) made
  refine ⟨row, found, template.remains ?_ calls (ev.placed placed) (backed.grow ev.grows).refs nofun⟩
  have callback := callbackCode_quiet callee.isStatic constructor unsubscribe
  simpa [Code.Quiet, Instruction.opcode_storeLocal_ne, or_imp, forall_and] using callback

theorem Event.isGeneric_iff {field : Token} {settings : Settings}
    (made : Event.ofField m field refs settings = .ok event) :
    event.isGeneric = true ↔ event.closed.SameName event.handler := by
  obtain ⟨row, -, h₁⟩ := except_bind_eq_ok_iff.mp made
  obtain ⟨-, -, h₂⟩ := except_bind_eq_ok_iff.mp h₁
  obtain ⟨args, -, built⟩ := except_bind_eq_ok_iff.mp h₂
  obtain rfl := Except.ok.inj built
  exact decide_eq_true_iff

/-- Where the field is of the generic handler type, which is then the closed type of its event, nothing is converted.
For any other field each piece of code converts what goes into its helper, and converts the result back. -/
theorem conversions_where_needed {field : Token} {fieldRow : Field} {a : Ty} (imported : Imported P refs m₀)
    (found : m₀.field field = .ok fieldRow) (derived : m₀.eventArgs fieldRow.ty = .ok a) (settings : Settings) :
    ∃ event, Event.ofField m₀ field refs settings = .ok event ∧ event.refs = refs ∧ event.handler = fieldRow.ty ∧
      event.closed = .closedHandler a ∧
      ((∀ name, fieldRow.ty = .named name → '<' ∉ name.full.toList) →
        (event.isGeneric = true ↔ fieldRow.ty = .inst .genericEventHandler [a]) ∧
          (event.isGeneric = true → event.closed = fieldRow.ty)) ∧
      ∀ m, Along Q m₀ m →
        Gives (fun t m' => ∃ row, m'.method t = .ok row ∧
            event.Remains Q row.firstParamIndex .remove [] event.handler row.body.code m')
          event.addUnsubscribe m ∧
        ∀ method v,
          Gives (fun code m' => ∃ row, m.method method = .ok row ∧
              event.Remains Q row.firstParamIndex .findWeak [a] event.closed code m')
            (event.findWeakCode method v) m ∧
          ∀ unsubscribe, Gives (fun code m' => ∃ row, m.method method = .ok row ∧
              event.Remains Q row.firstParamIndex .makeWeak [a] event.closed code m')
            (event.makeWeakCode method unsubscribe v) m := by
  obtain ⟨placed₀, names₀, -⟩ := imported.facts
  obtain ⟨event, made, sameRefs, -, -, -, closed⟩ := Event.ofField_of_args names₀ found derived settings
  obtain ⟨backed₀, sameField, -⟩ := Event.ofField_ok made names₀
  obtain ⟨fieldRow', found', ty, -⟩ := backed₀.field
  rw [sameField] at found'
  obtain rfl := Except.ok.inj (found.symm.trans found')
  refine ⟨event, made, sameRefs, ty.symm, closed, fun plain => ?_, fun m along => ?_⟩
  · have generic : event.isGeneric = true ↔ fieldRow.ty = .closedHandler a := by
      rw [Event.isGeneric_iff made, closed, ← ty]
      exact sameName_closedHandler_iff derived plain
    exact ⟨generic, fun is => closed.trans (generic.mp is).symm⟩
  · have ev : Evolves (fun _ => True) m₀ m := along.evolves fun _ _ _ _ => trivial
    have placed := ev.placed placed₀
    have backed := backed₀.grow ev.grows
    refine ⟨addUnsubscribe_callsOnce placed backed, fun method v => ⟨?_, fun unsubscribe => ?_⟩⟩
    · exact findWeakCode_callsOnce placed backed closed method v
    · exact makeWeakCode_callsOnce placed backed closed method unsubscribe v

namespace Ticker

theorem readied_along : Along Op.KeepsOwners declared readied := by
  have declares : Along Op.KeepsOwners declared withUnsubscribe := moves_addUnsubscribe Ticker.event.event declared
  have allocates := moves_addVariable Ticker.event.event Ticker.event.add withUnsubscribe
  exact trans_of _ declares (allocates.imp fun _ adds => adds.1.keepsOwners)

/-- The field of the ticker is of the plain handler type, so its handlers are converted. -/
theorem ticker_conversions :
    Imported Op.KeepsOwners helpers declared ∧ declared.field ticked = .ok tickedRow ∧
      declared.eventArgs tickedRow.ty = .ok (.named .eventArgs) ∧ Along Op.KeepsOwners declared readied ∧
      Ticker.event.event.isGeneric = false ∧
      (∃ row, withUnsubscribe.method Ticker.event.unsubscribe = .ok row ∧
        row.body.code.countCalls (withUnsubscribe.instantiationsOf helpers.remove) = 1 ∧
        row.body.code.countCalls (withUnsubscribe.instantiationsOf helpers.changeType) = 2) ∧
      ∃ code m', wrapping readied = .ok code m' ∧ code.countCalls (m'.instantiationsOf helpers.makeWeak) = 1 ∧
        code.countCalls (m'.instantiationsOf helpers.changeType) = 2 := by
  have found : declared.field ticked = .ok tickedRow := eq_ok_of_toOption (by decide +kernel)
  have derived : declared.eventArgs tickedRow.ty = .ok (.named .eventArgs) := eq_ok_of_toOption (by decide +kernel)
  have adds : Ticker.event.event.addUnsubscribe declared = .ok Ticker.event.unsubscribe withUnsubscribe :=
    eq_ok_of_value? (by decide +kernel)
  have succeeds : (value? (wrapping readied)).isSome = true := by decide +kernel
  obtain ⟨code, valued⟩ := Option.isSome_iff_exists.mp succeeds
  have wraps := eq_ok_of_value? valued
  obtain ⟨event, made', sameRefs, handler, closed, generic, woven⟩ :=
    conversions_where_needed (Q := Op.KeepsOwners) declared_imported found derived {}
  obtain rfl : Ticker.event.event = event := Except.ok.inj (made.symm.trans made')
  have plain : ∀ name, tickedRow.ty = .named name → '<' ∉ name.full.toList := by
    rintro name same
    obtain rfl := Ty.named.inj same
    decide +kernel
  have converts : Ticker.event.event.isGeneric = false := by
    have other : tickedRow.ty ≠ .inst .genericEventHandler [.named .eventArgs] := nofun
    exact Bool.eq_false_iff.mpr fun is => other ((generic plain).1.mp is)
  refine ⟨declared_imported, found, derived, readied_along, converts, ?_, code, _, wraps, ?_⟩
  · obtain ⟨row, foundRow, remains⟩ := (woven declared .refl).1 _ _ adds
    obtain ⟨once, twice, -⟩ := remains withUnsubscribe .refl
    rw [converts] at twice
    exact ⟨row, foundRow, once, twice⟩
  · obtain ⟨row, -, remains⟩ := ((woven readied readied_along).2 _ _).2 _ _ _ wraps
    obtain ⟨once, twice, -⟩ := remains _ .refl
    rw [converts] at twice
    exact ⟨once, twice⟩

end Ticker

end WeakSubscription
