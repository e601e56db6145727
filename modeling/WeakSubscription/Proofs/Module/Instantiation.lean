import WeakSubscription.Proofs.Module.Arena

/-!
# Instantiated signatures

What a call of an instantiation calls has a signature in which arguments stand for parameters. Where a parameter stood
there is its argument as it is, also if parameters occur in it, and there are no parameters but these. An instantiation
in a module has an argument for each generic parameter of its method, so a signature that mentions no others is closed
by closed arguments.
-/

namespace WeakSubscription

/-! ### Places in types -/

namespace Ty

variable {t s p a : Ty} {ts ms : List Ty} {types methods : Nat} {path : List Nat}

/-- The type at a place inside the type: the arguments to descend into, from the outside. -/
def at? : Ty → List Nat → Option Ty
  | t, [] => some t
  | t, i :: path => t.typeArgs[i]?.bind (at? · path)

def isParam : Ty → Bool
  | .typeParam _ | .methodParam _ => true
  | .void | .object | .intPtr | .named _ | .inst _ _ => false

/-- The argument for a parameter. -/
def argument? (typeArgs methodArgs : List Ty) : Ty → Option Ty
  | .typeParam i => typeArgs[i]?
  | .methodParam j => methodArgs[j]?
  | .void | .object | .intPtr | .named _ | .inst _ _ => none

mutual

/-- Whether the parameters in the type are below these bounds. -/
def mentionsOnly (types methods : Nat) : Ty → Bool
  | .void | .object | .intPtr | .named _ => true
  | .inst _ args => allMentionOnly types methods args
  | .typeParam i => i < types
  | .methodParam j => j < methods

def allMentionOnly (types methods : Nat) : List Ty → Bool
  | [] => true
  | t :: ts => mentionsOnly types methods t && allMentionOnly types methods ts

end

@[simp] theorem allMentionOnly_eq_all (types methods : Nat) (l : List Ty) :
    allMentionOnly types methods l = l.all (mentionsOnly types methods) := by
  induction l with
  | nil => rfl
  | cons t l ih => simp [allMentionOnly, ih]

theorem at?_cons_eq_some_iff {i : Nat} :
    t.at? (i :: path) = some s ↔ ∃ a, t.typeArgs[i]? = some a ∧ a.at? path = some s := by
  rw [at?, Option.bind_eq_some_iff]

theorem at?_cons_inst {base : TypeName} {args : List Ty} {i : Nat} :
    (inst base args).at? (i :: path) = some s ↔ ∃ a, args[i]? = some a ∧ a.at? path = some s :=
  at?_cons_eq_some_iff

/-- A type without arguments has no place but its own. -/
theorem at?_of_typeArgs_nil (flat : t.typeArgs = []) (found : t.at? path = some s) : path = [] ∧ s = t := by
  cases path with
  | nil => exact ⟨rfl, (Option.some.inj found).symm⟩
  | cons i path =>
    obtain ⟨a, read, -⟩ := at?_cons_eq_some_iff.mp found
    rw [flat] at read
    cases read

theorem isOpen_of_at? (found : t.at? path = some s) (isOpen : s.isOpen = true) : t.isOpen = true := by
  induction path generalizing t with
  | nil =>
    obtain rfl := Option.some.inj found
    exact isOpen
  | cons i path ih =>
    obtain ⟨a, read, inner⟩ := at?_cons_eq_some_iff.mp found
    cases t with
    | inst base args =>
      rw [Ty.isOpen, anyOpen_eq_any]
      exact List.any_eq_true.mpr ⟨a, List.mem_of_getElem? read, ih inner⟩
    | void | object | intPtr | named _ | typeParam _ | methodParam _ => cases read

mutual

theorem exists_param_of_isOpen : ∀ t : Ty, t.isOpen = true → ∃ path p, t.at? path = some p ∧ p.isParam = true
  | .typeParam _, _ => ⟨[], _, rfl, rfl⟩
  | .methodParam _, _ => ⟨[], _, rfl, rfl⟩
  | .inst _ args, isOpen => by
    obtain ⟨i, a, read, path, p, found, param⟩ := exists_param_of_anyOpen args isOpen
    exact ⟨i :: path, p, at?_cons_inst.mpr ⟨a, read, found⟩, param⟩
  | .void, isOpen | .object, isOpen | .intPtr, isOpen | .named _, isOpen => by cases isOpen

theorem exists_param_of_anyOpen : ∀ l : List Ty, anyOpen l = true →
    ∃ (i : Nat) (a : Ty), l[i]? = some a ∧ ∃ path p, a.at? path = some p ∧ p.isParam = true
  | t :: l, isOpen => by
    rcases (Bool.or_eq_true _ _).mp isOpen with here | later
    · exact ⟨0, t, rfl, exists_param_of_isOpen t here⟩
    · obtain ⟨i, a, read, inside⟩ := exists_param_of_anyOpen l later
      exact ⟨i + 1, a, read, inside⟩
  | [], isOpen => by cases isOpen

end

theorem isOpen_of_isParam (param : p.isParam = true) : p.isOpen = true := by
  cases p with
  | typeParam _ | methodParam _ => rfl
  | void | object | intPtr | named _ | inst _ _ => cases param

/-! ### Arguments for parameters -/

theorem at?_instantiate (ts ms : List Ty) (found : t.at? path = some s) :
    (t.instantiate ts ms).at? path = some (s.instantiate ts ms) := by
  induction path generalizing t with
  | nil =>
    obtain rfl := Option.some.inj found
    rfl
  | cons i path ih =>
    obtain ⟨a, read, inner⟩ := at?_cons_eq_some_iff.mp found
    cases t with
    | inst base args =>
      rw [instantiate, instantiateAll_eq_map]
      refine at?_cons_inst.mpr ⟨a.instantiate ts ms, ?_, ih inner⟩
      rw [List.getElem?_map, show args[i]? = some a from read, Option.map_some]
    | void | object | intPtr | named _ | typeParam _ | methodParam _ => cases read

theorem instantiate_of_argument (given : p.argument? ts ms = some a) : p.instantiate ts ms = a := by
  cases p with
  | typeParam i =>
    show ts.getD i _ = a
    rw [List.getD_eq_getElem?_getD, show ts[i]? = some a from given, Option.getD_some]
  | methodParam j =>
    show ms.getD j _ = a
    rw [List.getD_eq_getElem?_getD, show ms[j]? = some a from given, Option.getD_some]
  | void | object | intPtr | named _ | inst _ _ => cases given

theorem exists_argument (param : p.isParam = true) (within : p.mentionsOnly ts.length ms.length = true) :
    ∃ a, p.argument? ts ms = some a := by
  cases p with
  | typeParam i => exact ⟨_, List.getElem?_eq_getElem (of_decide_eq_true within)⟩
  | methodParam j => exact ⟨_, List.getElem?_eq_getElem (of_decide_eq_true within)⟩
  | void | object | intPtr | named _ | inst _ _ => cases param

theorem mentionsOnly_inst {base : TypeName} {args : List Ty}
    (within : (inst base args).mentionsOnly types methods = true) (member : a ∈ args) :
    a.mentionsOnly types methods = true := by
  rw [mentionsOnly, allMentionOnly_eq_all] at within
  exact List.all_eq_true.mp within a member

theorem param_in_argument (here : t.isParam = true) (within : t.mentionsOnly ts.length ms.length = true)
    (found : (t.instantiate ts ms).at? path = some p) :
    ∃ outer inner q a, path = outer ++ inner ∧ t.at? outer = some q ∧ q.argument? ts ms = some a ∧
      a.at? inner = some p := by
  obtain ⟨a, given⟩ := exists_argument here within
  rw [instantiate_of_argument given] at found
  exact ⟨[], path, t, a, rfl, rfl, given, found⟩

/-- A parameter of an instantiated type is one of an argument: by induction on its place, where the walk goes on inside
the argument once it comes to a parameter of the type. -/
theorem param_of_instantiate (within : t.mentionsOnly ts.length ms.length = true)
    (found : (t.instantiate ts ms).at? path = some p) (param : p.isParam = true) :
    ∃ outer inner q a, path = outer ++ inner ∧ t.at? outer = some q ∧ q.argument? ts ms = some a ∧
      a.at? inner = some p := by
  induction path generalizing t with
  | nil =>
    cases t with
    | typeParam _ | methodParam _ => exact param_in_argument rfl within found
    | void | object | intPtr | named _ | inst _ _ =>
      obtain rfl := Option.some.inj found
      cases param
  | cons i path ih =>
    cases t with
    | typeParam _ | methodParam _ => exact param_in_argument rfl within found
    | void | object | intPtr | named _ => cases (at?_of_typeArgs_nil rfl found).1
    | inst base args =>
      rw [instantiate, instantiateAll_eq_map] at found
      obtain ⟨b, mapped, below⟩ := at?_cons_inst.mp found
      rw [List.getElem?_map] at mapped
      obtain ⟨a, read, rfl⟩ := Option.map_eq_some_iff.mp mapped
      have inside := mentionsOnly_inst within (List.mem_of_getElem? read)
      obtain ⟨outer, inner, q, arg, rfl, place, given, rest⟩ := ih inside below
      exact ⟨i :: outer, inner, q, arg, rfl, at?_cons_inst.mpr ⟨a, read, place⟩, given, rest⟩

/-- The second type is the first one with arguments for its parameters. -/
structure FilledWith (typeArgs methodArgs : List Ty) (t t' : Ty) : Prop where
  /-- An argument stands where its parameter stood, as it is. -/
  carried : ∀ path p a, t.at? path = some p → p.argument? typeArgs methodArgs = some a → t'.at? path = some a
  /-- There are no parameters outside of arguments. -/
  param : ∀ path p, t'.at? path = some p → p.isParam = true →
    ∃ outer inner q a, path = outer ++ inner ∧ t.at? outer = some q ∧ q.argument? typeArgs methodArgs = some a ∧
      a.at? inner = some p

theorem filledWith_instantiate (within : t.mentionsOnly ts.length ms.length = true) :
    FilledWith ts ms t (t.instantiate ts ms) := by
  refine ⟨fun path p a found given => ?_, fun path p found param => param_of_instantiate within found param⟩
  rw [at?_instantiate ts ms found, instantiate_of_argument given]

example : (inst .action [.typeParam 0, .methodParam 0]).instantiate [.methodParam 0] [.typeParam 0] =
    .inst .action [.methodParam 0, .typeParam 0] := by decide

theorem mem_of_argument (given : p.argument? ts ms = some a) : a ∈ ts ++ ms := by
  cases p with
  | typeParam _ => exact List.mem_append_left _ (List.mem_of_getElem? given)
  | methodParam _ => exact List.mem_append_right _ (List.mem_of_getElem? given)
  | void | object | intPtr | named _ | inst _ _ => cases given

theorem FilledWith.closed {t' : Ty} (filled : FilledWith ts ms t t') (closed : ∀ a ∈ ts ++ ms, a.isOpen = false) :
    t'.isOpen = false := by
  rw [Bool.eq_false_iff]
  intro isOpen
  obtain ⟨path, p, found, param⟩ := exists_param_of_isOpen t' isOpen
  obtain ⟨outer, inner, q, a, -, -, given, inside⟩ := filled.param path p found param
  have argOpen := isOpen_of_at? inside (isOpen_of_isParam param)
  rw [closed a (mem_of_argument given)] at argOpen
  cases argOpen

theorem closed_of_filled {l l' : List Ty} (filled : List.Forall₂ (FilledWith ts ms) l l')
    (closed : ∀ a ∈ ts ++ ms, a.isOpen = false) : ∀ t ∈ l', t.isOpen = false := by
  induction filled with
  | nil => exact nofun
  | cons first _ ih => exact List.forall_mem_cons.mpr ⟨first.closed closed, ih⟩

end Ty

/-! ### Signatures -/

namespace Signature

def types (s : Signature) : List Ty := s.result :: s.params

/-- The second signature is the first one with arguments for its parameters. -/
structure FilledWith (typeArgs methodArgs : List Ty) (s s' : Signature) : Prop where
  hasThis : s'.hasThis = s.hasThis
  arity : s'.arity = s.arity
  types : List.Forall₂ (Ty.FilledWith typeArgs methodArgs) s.types s'.types

variable {s s' : Signature} {ts ms : List Ty}

theorem filledWith_instantiate (within : ∀ ty ∈ s.types, ty.mentionsOnly ts.length ms.length = true) :
    FilledWith ts ms s (s.instantiate ts ms) := by
  refine ⟨rfl, rfl, ?_⟩
  show List.Forall₂ _ s.types (s.types.map (Ty.instantiate ts ms))
  rw [List.forall₂_map_right_iff, List.forall₂_same]
  exact fun ty member => Ty.filledWith_instantiate (within ty member)

theorem FilledWith.closed (filled : FilledWith ts ms s s') (closed : ∀ a ∈ ts ++ ms, a.isOpen = false) :
    ∀ ty ∈ s'.types, ty.isOpen = false :=
  Ty.closed_of_filled filled.types closed

end Signature

/-! ### Call targets -/

namespace Module

open Tracked

variable {m : Module} {t : Token}

/-- The call target of a token that calls the referenced method with these arguments for its own parameters. -/
def CallsFilled (m : Module) (t : Token) (ref : MemberRef) (args : List Ty) : Prop :=
  ∃ target, m.callTarget t = .ok target ∧ target.declaringType = ref.parent ∧ target.name = ref.name ∧
    ((∀ ty ∈ ref.signature.types, ty.mentionsOnly ref.parent.typeArgs.length ref.signature.arity = true) →
      ref.signature.FilledWith ref.parent.typeArgs args target.signature ∧
      ((∀ a ∈ ref.parent.typeArgs ++ args, a.isOpen = false) → ∀ ty ∈ target.signature.types, ty.isOpen = false))

theorem callsFilled_of_target {ref : MemberRef} {args : List Ty}
    (calls : m.callTarget t = .ok ⟨ref.parent, ref.name, ref.closedSignature args⟩)
    (arity : ref.signature.arity = args.length) : CallsFilled m t ref args := by
  refine ⟨_, calls, rfl, rfl, fun within => ?_⟩
  rw [arity] at within
  have filled := Signature.filledWith_instantiate within
  exact ⟨filled, filled.closed⟩

/-- In a module of any history, every instantiation calls a referenced method, with its signature filled in by the
arguments of the declaring type and those of the instantiation, and so does a reference to a method without parameters
of its own. -/
theorem call_targets_filled (reached : Reachable m) :
    (∀ (t : Token) (spec : MethodSpec), m.methodSpec t = .ok spec →
      ∃ ref, m.memberRef spec.method = .ok ref ∧ m.CallsFilled t ref spec.args) ∧
    ∀ (t : Token) (ref : MemberRef), m.memberRef t = .ok ref → ref.signature.arity = 0 → m.CallsFilled t ref [] := by
  constructor
  · intro t spec found
    have row := methodSpec_eq_ok_iff.mp found
    obtain ⟨i, -, read⟩ := lookup_eq_some_iff.mp row
    obtain ⟨ref, known, arity⟩ := reached.specsFit spec (List.mem_of_getElem? read)
    obtain rfl : spec.token = t := reached.placed.methodSpecs.token_of_lookup row
    exact ⟨ref, known, callsFilled_of_target (callTarget_of_methodSpec found known) arity⟩
  · intro t ref found arity
    exact callsFilled_of_target (callTarget_of_memberRef found) arity

namespace Crate

def signature : Signature :=
  ⟨false, 1, [.inst .action [.inst ⟨"Sample", "Pair`2"⟩ [.typeParam 0, .methodParam 0]]], .methodParam 0⟩

def generic : MemberRef := ⟨.ofRow .memberRef 1, .inst ⟨"Sample", "Crate`1"⟩ [.methodParam 0], "Put", signature⟩

def closed : MemberRef := ⟨.ofRow .memberRef 2, .inst ⟨"Sample", "Crate`1"⟩ [.object], "Put", signature⟩

/-- A generic method of a generic type, with arguments in which parameters of both kinds occur, and with closed ones. -/
def packed : Module :=
  [Op.addMemberRef generic.parent "Put" signature, Op.addMethodSpec generic.token [.typeParam 0],
   Op.addMemberRef closed.parent "Put" signature, Op.addMethodSpec closed.token [.named .eventArgs]].foldl
    (fun m op => op.apply m) (empty "Sample")

theorem call_targets_filled_crate : Reachable packed ∧
    packed.methodSpec (.ofRow .methodSpec 1) = .ok ⟨.ofRow .methodSpec 1, generic.token, [.typeParam 0]⟩ ∧
    packed.methodSpec (.ofRow .methodSpec 2) = .ok ⟨.ofRow .methodSpec 2, closed.token, [.named .eventArgs]⟩ ∧
    (∃ target, packed.callTarget (.ofRow .methodSpec 1) = .ok target ∧
      signature.FilledWith [.methodParam 0] [.typeParam 0] target.signature) ∧
    ∃ target, packed.callTarget (.ofRow .methodSpec 2) = .ok target ∧
      ∀ ty ∈ target.signature.types, ty.isOpen = false := by
  have built : Along (fun _ => True) (empty "Sample") packed := .operated (fun _ _ => trivial) _
  have genericSpec : packed.methodSpec (.ofRow .methodSpec 1) =
      .ok ⟨.ofRow .methodSpec 1, generic.token, [.typeParam 0]⟩ := eq_ok_of_toOption (by decide +kernel)
  have closedSpec : packed.methodSpec (.ofRow .methodSpec 2) =
      .ok ⟨.ofRow .methodSpec 2, closed.token, [.named .eventArgs]⟩ := eq_ok_of_toOption (by decide +kernel)
  have genericRef : packed.memberRef generic.token = .ok generic := eq_ok_of_toOption (by decide +kernel)
  have closedRef : packed.memberRef closed.token = .ok closed := eq_ok_of_toOption (by decide +kernel)
  have within : ∀ ty ∈ signature.types, ty.mentionsOnly 1 1 = true := by decide
  obtain ⟨specs, -⟩ := call_targets_filled built.reachable
  refine ⟨built.reachable, genericSpec, closedSpec, ?_, ?_⟩
  · obtain ⟨ref, known, target, calls, -, -, fills⟩ := specs _ _ genericSpec
    obtain rfl := Except.ok.inj (genericRef.symm.trans known)
    exact ⟨target, calls, (fills within).1⟩
  · obtain ⟨ref, known, target, calls, -, -, fills⟩ := specs _ _ closedSpec
    obtain rfl := Except.ok.inj (closedRef.symm.trans known)
    exact ⟨target, calls, (fills within).2 (by decide)⟩

end Crate

end Module

end WeakSubscription
