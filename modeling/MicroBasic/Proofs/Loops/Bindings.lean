import MicroBasic.Proofs.Loops.Honesty
import MicroBasic.Proofs.Loops.Pairing
import MicroBasic.Proofs.Runs

/-!
# Code runs with the pairs of its own program

Statement numbers repeat from program to program, so a table of loop pairs is of use only with the
blocks of the program it was made for. A function, an accessor of a property, a bound function and a
waiting block each refer to the table of their program, and whoever runs one puts that table in
force. The discipline here says that this is true of all code in a machine, and that no work leaves
another table in force than it found.
-/

namespace MicroBasic

/-- A block is part of the one of some programs whose pairs go with it. -/
def Issued (history : List Program) (loops : LoopsRef) (block : Block) : Prop :=
  ∃ program, history[loops.index]? = some program ∧ block.Within program.statements

namespace Issued

variable {history : List Program} {loops : LoopsRef} {block : Block}

theorem step {stmt : Stmt} {part : Block} (issued : Issued history loops block)
    (among : stmt ∈ block)
    (held : part ∈ stmt.blocks) : Issued history loops part := by
  obtain ⟨program, known, within⟩ := issued
  exact ⟨program, known, within.step among held⟩

theorem append (issued : Issued history loops block) (later : List Program) :
    Issued (history ++ later) loops block := by
  obtain ⟨program, known, within⟩ := issued
  refine ⟨program, ?_, within⟩
  rw [List.getElem?_append_left (List.getElem?_eq_some_iff.mp known).1, known]

end Issued

/-- The body of a function is code of the program whose loops it refers to. -/
def Overload.IsIssued (history : List Program) (overload : Overload) : Prop :=
  Issued history overload.loops overload.decl.body

/-- The pairings of a machine are those of some programs, and all code in it refers to the one of
its own. -/
structure Machine.Coherent (history : List Program) (m : Machine) : Prop where
  pairings : m.pairings = history.map Program.bindings
  carries : m.Carries (Overload.IsIssued history)
  deferred : ∀ block ∈ m.activation.deferred, Issued history block.loops block.body

namespace Machine.Coherent

variable {history : List Program} {m next : Machine}

theorem same (coherent : m.Coherent history)
    (alike : next.scope = m.scope ∧ next.parked = m.parked ∧ next.heap = m.heap ∧
      next.activation.targets = m.activation.targets ∧
      next.functions = m.functions ∧ next.properties = m.properties)
        (table : next.pairings = m.pairings)
    (waiting : ∀ block ∈ next.activation.deferred, block ∈ m.activation.deferred) :
    next.Coherent history where
  pairings := table.trans coherent.pairings
  carries := coherent.carries.same alike
  deferred block among := coherent.deferred block (waiting block among)

section

variable {block : Block} (coherent : m.Coherent history)
  (issued : Issued history m.activation.loops block)

include coherent issued

theorem paired (known : ∀ program ∈ history, program.IsPaired) : m.bindings.Pairs block := by
  obtain ⟨program, found, within⟩ := issued
  have inForce : m.bindings = program.bindings := by
    rw [Machine.bindings, coherent.pairings, List.getElem?_map, found]
    rfl
  rw [inForce]
  exact (known program (List.mem_of_getElem? found)).pairs within

theorem pairs (parsed : ∀ program ∈ history, program.IsParsed) : m.bindings.Pairs block :=
  coherent.paired issued fun program among => (parsed program among).isPaired

end

end Machine.Coherent

theorem Heap.Carries.grown {good : Overload → Prop} {Known : TypeDecl → Prop} {heap next : Heap}
    (carries : heap.Carries good) (grows : heap.Grows Known (Value.Carries good) next) :
    next.Carries good := by
  induction grows with
  | none => exact carries
  | array _ carried kept => exact kept.newArray carried
  | untyped _ carried _ kept | typed _ carried _ _ kept => exact kept.newRecord carried

/-- What is asked of the functions and blocks in a machine, and of the tokens and faults of their
code. -/
structure Bearing where
  Inv : Machine → Prop
  Good : Overload → Prop
  Held : LoopsRef → Block → Prop
  Known : Token → Prop := fun _ => True
  Cause : Fault → Prop := fun _ => True
  pairings : List LoopBindings
  inv_iff : ∀ {m}, Inv m ↔ m.pairings = pairings ∧ m.Carries Good ∧
    ∀ block ∈ m.activation.deferred, Held block.loops block.body
  ordinary : ∀ {fault}, fault.isOrdinary = true → Cause fault
  defined : ∀ {decl origin loops}, Held loops decl.body →
    (∀ expr ∈ decl.params.filterMap Param.default, expr.Among Known) → Good { decl, origin, loops }
  held : ∀ {overload}, Good overload → Held overload.loops overload.decl.body
  defaults : ∀ {overload}, Good overload →
    ∀ expr ∈ overload.params.filterMap Param.default, expr.Among Known

namespace Discipline

/-- All code in a machine is as it should be, and work leaves the pairs in force that it found. -/
def bearing (B : Bearing) : Discipline where
  Inv := B.Inv
  Step before after := after.activation.loops = before.activation.loops
  Val := Value.Carries B.Good
  Code m block := B.Held m.activation.loops block
  Callable := B.Good
  Known := B.Known
  Cause := B.Cause
  step_refl _ := rfl
  step_trans first second := second.trans first
  code_step step code := by
    rw [step]
    exact code

section Bearing

variable {B : Bearing} {m next : Machine}

theorem bearing_united (B : Bearing) : (bearing B).United :=
  ⟨fun _ _ _ _ differ => differ, fun _ _ strayed => strayed⟩

section

variable (inv : B.Inv m)

include inv

theorem bearing_pairings : m.pairings = B.pairings :=
  (B.inv_iff.mp inv).1

theorem bearing_carries : m.Carries B.Good :=
  (B.inv_iff.mp inv).2.1

theorem bearing_deferred : ∀ block ∈ m.activation.deferred, B.Held block.loops block.body :=
  (B.inv_iff.mp inv).2.2

/-- A machine with the same pairings is as it should be if its functions and its waiting blocks are.
-/
theorem bearing_inv (table : next.pairings = m.pairings) (carries : next.Carries B.Good)
    (waiting : ∀ block ∈ next.activation.deferred, B.Held block.loops block.body) : B.Inv next :=
  B.inv_iff.mpr ⟨table.trans (bearing_pairings inv), carries, waiting⟩

theorem bearing_kept (carries : next.Carries B.Good) (activation : next.activation = m.activation)
    (table : next.pairings = m.pairings) : (bearing B).Keeps m next := by
  refine ⟨bearing_inv inv table carries ?_, congrArg Activation.loops activation⟩
  rw [activation]
  exact bearing_deferred inv

theorem bearing_same
    (alike : next.scope = m.scope ∧ next.parked = m.parked ∧ next.heap = m.heap ∧
      next.activation = m.activation ∧
      next.functions = m.functions ∧ next.properties = m.properties)
        (table : next.pairings = m.pairings) :
    (bearing B).Keeps m next := by
  obtain ⟨scope, parked, heap, activation, functions, properties⟩ := alike
  refine bearing_kept inv ((bearing_carries inv).same ?_) activation table
  exact ⟨scope, parked, heap, congrArg Activation.targets activation, functions, properties⟩

theorem bearing_withHeap {heap : Heap} (carried : heap.Carries B.Good) :
    (bearing B).Keeps m { m with heap } :=
  bearing_kept inv ((bearing_carries inv).withHeap carried) rfl rfl

end

/-- The ways to look at the machine and to change it keep its code as it should be. -/
theorem bearing_laws (B : Bearing) {host : Host} (honest : host.Honest) :
    (bearing B).Laws host where
  ordinary := B.ordinary
  grown inv grows := bearing_withHeap inv ((bearing_carries inv).heap.grown grows)
  hostEntry {entry} := by cases entry <;> trivial
  boundFunction := .rfl
  readVariable inv read := (bearing_carries inv).readVariable read
  items inv among := (bearing_carries inv).heap.items among
  fields inv among := (bearing_carries inv).heap.fields among
  targets inv among := (bearing_carries inv).targets _ among
  functions inv found among := (bearing_carries inv).overloads found among
  getters inv found := (bearing_carries inv).accessors (.inl found)
  setters inv found := (bearing_carries inv).accessors (.inr found)
  outside inv := bearing_same inv ⟨rfl, rfl, rfl, rfl, rfl, rfl⟩ rfl
  invoke {m ref args} inv carried := by
    have carries := bearing_carries inv
    have honest := honest ref carried { heap := m.heap, world := m.world } carries.heap
    have kept (state : HostState) (carried : state.heap.Carries B.Good) :=
      @bearing_kept B m { m with heap := state.heap, world := state.world } inv
        ((carries.withHeap carried).same ⟨rfl, rfl, rfl, rfl, rfl, rfl⟩) rfl rfl
    split
    · next done =>
      rw [done] at honest
      exact ⟨honest.1, kept _ honest.2⟩
    · next done =>
      rw [done] at honest
      exact kept _ honest
    · trivial
  setVariable inv carried assigned :=
    bearing_kept inv ((bearing_carries inv).setVariable carried assigned)
      (Machine.control_of_setVariable assigned).1 (Machine.control_of_setVariable assigned).2.2.2
  setField inv carried _ :=
    bearing_withHeap inv ((bearing_carries inv).heap.setRecord
      (Record.carries_set carried fun _ => (bearing_carries inv).heap.fields))
  insertField inv carried _ :=
    bearing_withHeap inv ((bearing_carries inv).heap.setRecord
      (Record.carries_insert carried fun _ => (bearing_carries inv).heap.fields))
  setItem inv carried := bearing_withHeap inv ((bearing_carries inv).heap.setItem carried)
  defineFunction inv code fine defined :=
    bearing_kept inv ((bearing_carries inv).defineFunction (B.defined code fine) defined) rfl rfl
  defineProperty inv code fine defined :=
    bearing_kept inv ((bearing_carries inv).defineProperty (B.defined code fine) defined) rfl rfl
  defineType inv _ := bearing_same inv ⟨rfl, rfl, rfl, rfl, rfl, rfl⟩ rfl
  deferBlock inv code :=
    ⟨bearing_inv inv rfl ((bearing_carries inv).same ⟨rfl, rfl, rfl, rfl, rfl, rfl⟩)
      (List.forall_mem_cons.mpr ⟨code, bearing_deferred inv⟩), rfl⟩

theorem bearing_scoping (B : Bearing) : (bearing B).Scoping where
  counted inv := bearing_same inv ⟨rfl, rfl, rfl, rfl, rfl, rfl⟩ rfl
  hoisted inv := bearing_same inv ⟨rfl, rfl, rfl, rfl, rfl, rfl⟩ rfl
  targeted targets inv carried :=
    ⟨bearing_inv inv rfl ((bearing_carries inv).withActivation carried) fun _ =>
      bearing_deferred inv _, rfl⟩
  emptied inv :=
    ⟨bearing_inv inv rfl ((bearing_carries inv).same ⟨rfl, rfl, rfl, rfl, rfl, rfl⟩) nofun, rfl⟩
  started {m block others} inv waiting := by
    have known := bearing_deferred inv
    rw [waiting] at known
    obtain ⟨own, others⟩ := List.forall_mem_cons.mp known
    exact ⟨bearing_inv inv rfl ((bearing_carries inv).same ⟨rfl, rfl, rfl, rfl, rfl, rfl⟩) others,
      own⟩
  ended _ inv _ kept _ :=
    ⟨bearing_inv kept rfl ((bearing_carries kept).same ⟨rfl, rfl, rfl, rfl, rfl, rfl⟩)
      fun _ => bearing_deferred kept _, rfl⟩

theorem bearing_entering {overload : Overload} {args : List Arg} {parked : Machine}
    (inv : (bearing B).Inv m)
    (callable : (bearing B).Callable overload) (good : (bearing B).GoodArgs args m)
    (done : m.park = .ok parked) : Entering (bearing B) (bearing B) m parked overload args := by
  have carries := (bearing_carries inv).park done
  have activation : parked.activation = m.activation := (Machine.control_of_park done).1
  have table := (Machine.control_of_park done).2.2.2
  refine
    { nested := .refl _
      draining := (bearing_scoping B).toDraining
      entered := bearing_inv inv table (carries.withActivation nofun) nofun
      code := B.held callable
      defaults := B.defaults callable
      values := fun arg among => (good arg among).1
      bindLocal :=
        fun inv carried => bearing_kept inv ((bearing_carries inv).bindLocal carried) rfl rfl
      bindPlace := fun inv _ _ => bearing_kept inv (bearing_carries inv).bindPlace rfl rfl
      left := fun {final} kept _ => ?_ }
  have back : (final.leaving parked.activation).pairings = final.pairings := by
    obtain ⟨_, _, unparked⟩ := final.unpark_eq
    rw [Machine.leaving, unparked]
  refine ⟨bearing_inv kept back ((bearing_carries kept).unpark.withActivation carries.targets) ?_,
    ?_⟩
  · show ∀ block ∈ parked.activation.deferred, _
    rw [activation]
    exact bearing_deferred inv
  · show parked.activation.loops = m.activation.loops
    rw [activation]

end Bearing

variable {history : List Program}

/-- All code that a machine bears is code of one of some programs. -/
def looped (history : List Program) : Bearing where
  Inv := Machine.Coherent history
  Good := Overload.IsIssued history
  Held := Issued history
  Cause fault := fault ≠ .strayControl .unpairedLoop ∧ fault ≠ .strayControl .inactiveNext
  pairings := history.map Program.bindings
  inv_iff := ⟨fun coherent => ⟨coherent.pairings, coherent.carries, coherent.deferred⟩,
    fun all => ⟨all.1, all.2.1, all.2.2⟩⟩
  ordinary ordinary := by constructor <;> rintro rfl <;> cases ordinary
  defined code _ := code
  held issued := issued
  defaults _ _ _ _ _ := trivial

/-- All code keeps the pairs of its own program, work leaves the pairs in force that it found, and
never fails for want of a pair. -/
def looping (history : List Program) : Discipline :=
  bearing (looped history)

theorem looping_united (history : List Program) : (looping history).United :=
  bearing_united _

theorem looping_ordinary {fault : Fault} (ordinary : fault.isOrdinary = true) :
    (looping history).Cause fault :=
  (looped history).ordinary ordinary

theorem looping_scoping (history : List Program) : (looping history).Scoping :=
  bearing_scoping _

end Discipline

end MicroBasic
