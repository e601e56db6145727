import WeakSubscription.Proofs.Module.Arena
import WeakSubscription.Proofs.Weaving.History

/-!
# Modules with imported helpers

The helpers are imported once, and any operations come before and after. The references keep naming the
helpers, whatever was done since.
-/

open WeakSubscription.Module

namespace WeakSubscription

open Tracked

variable {m m' : Module} {refs : HelperRefs} {P Q : Op → Prop}

/-- A module that operations of this kind made, with these references to the helpers imported on the way. -/
inductive Imported (P : Op → Prop) (refs : HelperRefs) : Module → Prop
  | added {name ns : String} {m m' : Module} (built : Along P (Module.empty name) m)
      (added : HelperRefs.addAll ns m = .ok refs m') : Imported P refs m'
  | edited {m : Module} (op : Op) (kind : P op) (imported : Imported P refs m) : Imported P refs (op.apply m)

theorem HelperRefs.moves_addAll {rel : Module → Module → Prop} [Interns rel] (ns : String) (m : Module) :
    Moves rel (addAll ns) m := by
  have one : ∀ h m, Moves rel (add ns h) m := fun h m => References.memberRef _ _ _ m
  refine moves_bind (one _ _) fun _ _ _ => moves_bind (one _ _) fun _ _ _ => ?_
  refine moves_bind (one _ _) fun _ _ _ => moves_bind (one _ _) fun _ _ _ => ?_
  refine moves_bind (one _ _) fun _ _ _ => moves_bind (one _ _) fun _ _ _ => ?_
  exact moves_bind (one _ _) fun _ _ _ => moves_pure _

namespace Imported

theorem along (imported : Imported P refs m) (along : Along P m m') : Imported P refs m' := by
  induction along with
  | refl => exact imported
  | step _ op kind ih => exact .edited op kind ih

theorem operated {ops : List Op} (imported : Imported P refs m) (kinds : ∀ op ∈ ops, P op) :
    Imported P refs (ops.foldl (fun m op => op.apply m) m) := by
  induction ops generalizing m with
  | nil => exact imported
  | cons op rest ih =>
    exact ih (.edited op (kinds op List.mem_cons_self) imported) fun op' member =>
      kinds op' (List.mem_cons_of_mem _ member)

theorem grown (imported : Imported Op.KeepsOwners refs m) (along : Along Op.Adds m m') :
    Imported Op.KeepsOwners refs m' :=
  imported.along (along.imp fun _ adds => adds.keepsOwners)

theorem imp (imported : Imported P refs m) (h : ∀ op, P op → Q op) : Imported Q refs m := by
  induction imported with
  | added built added => exact .added (built.imp h) added
  | edited op kind _ ih => exact .edited op (h op kind) ih

theorem facts (imported : Imported P refs m) : m.Placed ∧ refs.Name m ∧ m.FieldsOwned := by
  induction imported with
  | added built added =>
    obtain ⟨evolves, names⟩ := HelperRefs.addAll_gives built.reachable.placed _ _ added
    have on : Along Op.Adds _ _ := (HelperRefs.moves_addAll _ _).of_ok added
    exact ⟨evolves.placed built.reachable.placed, names,
      on.fieldsOwned (built.fieldsOwned (fieldsOwned_empty _))⟩
  | edited op _ _ ih =>
    obtain ⟨placed, names, owned⟩ := ih
    exact ⟨(op.moves _).placed placed, names.grow (op.moves _).grows, op.fieldsOwned owned⟩

theorem listed (imported : Imported Op.KeepsOwners refs m) : m.Listed := by
  induction imported with
  | added built added =>
    have on : Along Op.Adds _ _ := (HelperRefs.moves_addAll _ _).of_ok added
    exact ((listed_empty _).along built fun _ keeps => keeps).along on fun _ adds => adds.keepsOwners
  | edited op keeps _ ih => exact ih.apply keeps

theorem methodsOwned (imported : Imported Op.KeepsOwners refs m) : m.MethodsOwned := imported.listed.methodsOwned

theorem distinct (imported : Imported P refs m) : m.Distinct := by
  induction imported with
  | added built added =>
    have on : Along Op.Adds _ _ := (HelperRefs.moves_addAll _ _).of_ok added
    exact distinct_of_along on (distinct_of_along built (distinct_empty _))
  | edited op _ _ ih => exact (op.effect _).distinct ih

end Imported

end WeakSubscription
