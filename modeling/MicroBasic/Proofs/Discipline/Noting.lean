import MicroBasic.Proofs.Runs

/-!
# What was registered beforehand

Which declarations a program registered before its first statement is noted on the machine, and
nothing that happens afterwards changes the note. So a property of it can be kept along with any
discipline: the laws of the discipline carry over, and all that remains is what a program itself
notes as it begins.
-/

namespace MicroBasic.Discipline

/-- A discipline under which something is also true of the declarations registered beforehand. Work
may fail for any cause. -/
def noting (D : Discipline) (Noted : List Nat → Prop) : Discipline :=
  { D with
    Inv := fun m => D.Inv m ∧ Noted m.hoisted
    Cause := fun _ => True }

variable {D : Discipline} {Noted : List Nat → Prop} {m next : Machine} {host : Host}

theorem noting_kept (kept : D.Keeps m next) (inv : (D.noting Noted).Inv m)
    (same : next.hoisted = m.hoisted) : (D.noting Noted).Keeps m next := by
  refine ⟨⟨kept.1, ?_⟩, kept.2⟩
  rw [same]
  exact inv.2

theorem noting_united (united : D.United) : (D.noting Noted).United := united

theorem noting_hereditary (hereditary : D.Hereditary) : (D.noting Noted).Hereditary :=
  ⟨hereditary.parts, hereditary.among⟩

theorem noting_laws (laws : D.Laws host) : (D.noting Noted).Laws host where
  ordinary _ := trivial
  number := laws.number
  text := laws.text
  array := laws.array
  record := laws.record
  declared inv := laws.declared inv.1
  grown inv grows := noting_kept (laws.grown inv.1 grows) inv rfl
  functionName := laws.functionName
  hostEntry := laws.hostEntry
  boundFunction := laws.boundFunction
  boundHost := laws.boundHost
  readVariable inv := laws.readVariable inv.1
  items inv := laws.items inv.1
  fields inv := laws.fields inv.1
  targets inv := laws.targets inv.1
  functions inv := laws.functions inv.1
  getters inv := laws.getters inv.1
  setters inv := laws.setters inv.1
  spot_name inv := laws.spot_name inv.1
  spot_field inv := laws.spot_field inv.1
  spot_element inv := laws.spot_element inv.1
  outside inv := noting_kept (laws.outside inv.1) inv rfl
  invoke {m ref args} inv good := by
    have invoked := @Laws.invoke _ _ laws m ref args inv.1 good
    split at invoked
    · exact ⟨invoked.1, noting_kept invoked.2 inv rfl⟩
    · exact noting_kept invoked inv rfl
    · trivial
  setVariable inv good assigned :=
    noting_kept (laws.setVariable inv.1 good assigned) inv
      (Machine.control_of_setVariable assigned).2.1
  setField inv good allowed := noting_kept (laws.setField inv.1 good allowed) inv rfl
  insertField inv good untyped := noting_kept (laws.insertField inv.1 good untyped) inv rfl
  setItem inv good := noting_kept (laws.setItem inv.1 good) inv rfl
  defineFunction inv code fine defined :=
    noting_kept (laws.defineFunction inv.1 code fine defined) inv rfl
  defineProperty inv code fine defined :=
    noting_kept (laws.defineProperty inv.1 code fine defined) inv rfl
  defineType inv defined := noting_kept (laws.defineType inv.1 defined) inv rfl
  deferBlock inv code := noting_kept (laws.deferBlock inv.1 code) inv rfl

theorem noting_draining (draining : D.Draining) : (D.noting Noted).Draining where
  counted inv := noting_kept (draining.counted inv.1) inv rfl
  targeted targets inv good := noting_kept (draining.targeted targets inv.1 good) inv rfl
  parted_fatal := draining.parted_fatal
  parted_activation := draining.parted_activation
  parted_unpark := draining.parted_unpark
  emptied inv := noting_kept (draining.emptied inv.1) inv rfl
  started inv waiting :=
    ⟨⟨(draining.started inv.1 waiting).1, inv.2⟩, (draining.started inv.1 waiting).2⟩
  ended result inv waiting kept step :=
    ⟨⟨(draining.ended result inv.1 waiting kept.1 step).1, kept.2⟩,
      (draining.ended result inv.1 waiting kept.1 step).2⟩

theorem noting_entering {parked : Machine} {overload : Overload} {args : List Arg}
    (entering : Entering D D m parked overload args) (inv : (D.noting Noted).Inv m)
    (done : m.park = .ok parked) :
    Entering (D.noting Noted) (D.noting Noted) m parked overload args where
  nested := .refl _
  draining := noting_draining entering.draining
  entered := by
    refine ⟨entering.entered, ?_⟩
    show Noted parked.hoisted
    rw [(Machine.control_of_park done).2.1]
    exact inv.2
  code := entering.code
  defaults := entering.defaults
  values := entering.values
  bindLocal inv good := noting_kept (entering.bindLocal inv.1 good) inv rfl
  bindPlace inv step bound := noting_kept (entering.bindPlace inv.1 step bound) inv rfl
  left {final} kept step := by
    refine ⟨⟨(entering.left kept.1 step).1, ?_⟩, (entering.left kept.1 step).2⟩
    show Noted final.unpark.hoisted
    obtain ⟨_, _, unparked⟩ := final.unpark_eq
    rw [unparked]
    exact kept.2

/-- Nested evaluation keeps a discipline and what is noted, under an observer that lets every moment
pass. -/
theorem noting_hooks {observe : Moment → Exec Unit} {settings : Settings} (laws : D.Laws host)
    (draining : D.Draining) (united : D.United) (hereditary : D.Hereditary)
    (entering : ∀ {m parked overload args}, D.Inv m → D.Callable overload → D.GoodArgs args m →
      m.park = .ok parked → Entering D D m parked overload args)
    (passes : ∀ {moment m}, (D.noting Noted).Inv m → (D.noting Noted).Arises moment m →
      observe moment m = .ok () m)
    (bound : Nat) : (D.noting Noted).Hooks (observedEvaluator observe settings host bound)
      (observedEvaluator observe settings host bound) := by
  refine @Hooks.passing Unit (fun _ => D.noting Noted) _ _ _ (fun _ => noting_laws laws)
    (fun _ => (noting_draining draining).toSteady) (fun _ => noting_united united)
    (fun _ => noting_hereditary hereditary)
    (fun _ => trivial) passes (fun hooks inv callable good done => ?_) bound ()
  exact ⟨D.noting Noted,
    { noting_entering (entering inv.1 callable good done) inv done with hooks := hooks () }⟩

theorem noting_registering {block : Block} (scoping : D.Scoping)
    (notes : ∀ {ids stmt}, stmt ∈ block → stmt.isDeclaration = true → Noted ids →
      Noted (stmt.id :: ids)) : (D.noting Noted).Registering block where noted among declares inv :=
    ⟨⟨(scoping.hoisted inv.1).1, notes among declares inv.2⟩, (scoping.hoisted inv.1).2⟩

end MicroBasic.Discipline
