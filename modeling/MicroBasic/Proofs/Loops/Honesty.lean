import MicroBasic.Proofs.Library
import MicroBasic.Proofs.Loops.Carried

/-!
# Hosts make no functions of programs

A function of the host can hand on the functions of programs that its arguments and the heap carry,
but it cannot make any. So a property that all functions in the machine have is one of those in its
result. This is assumed of a host in general, and true of the one that offers the standard library.
-/

namespace MicroBasic

/-- Where all functions in the heap have a property, they have it after some work of the host, too.
-/
def HostAction.Honest {α : Type} (good : Overload → Prop) (Good : α → Prop) (work : HostAction α) :
    Prop :=
  ∀ state, state.heap.Carries good →
    match work state with
    | .ok value next => Good value ∧ next.heap.Carries good
    | .error (.fault _) next => next.heap.Carries good
    | .error (.awaiting _) _ => True

/-- A function of the host hands on functions that it is given only. -/
def HostBody.Honest (body : HostBody) : Prop :=
  ∀ ⦃good : Overload → Prop⦄ ⦃args : List Value⦄, (∀ value ∈ args, value.Carries good) →
    HostAction.Honest good (Value.Carries good) (body args)

/-- Every function of a host hands on functions that it is given only. -/
def Host.Honest (host : Host) : Prop :=
  ∀ ref, HostBody.Honest (host.invoke ref)

/-- All functions in the heap and among the values have a property. -/
def HeapRule.carrying (good : Overload → Prop) : HeapRule where
  Inv := Heap.Carries good
  Val := Value.Carries good
  number := trivial
  text := trivial
  array := trivial
  items carries among := carries.items among
  setItems carries carried := carries.setItems carried
  newArray carries carried := carries.newArray carried
  Outside _ := True
  Needs _ := True
  random _ := trivial
  clock := @HeapRule.free.clock

theorem Host.standard_honest : standard.Honest := by
  intro ref good args carried state carries
  have serves := standard_serves (.carrying good) ref args carried state ⟨carries, trivial⟩
  match standard.invoke ref args state, serves with
  | .ok _ _, serves => exact ⟨serves.1, serves.2.1⟩
  | .error (.fault _) _, serves => exact serves.1
  | .error (.awaiting _) _, _ => trivial

end MicroBasic
