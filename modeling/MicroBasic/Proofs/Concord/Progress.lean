import MicroBasic.Proofs.Discipline.Shallow

/-!
# How a machine moves on

Work adds to the count of statements and to the text on the console, and takes nothing away. Work
within one scope moreover leaves the scope as it found it: the places that its names stand for, the
open `WITH` blocks, the loops of its program, the depth of calls and the scopes of the callers.
Blocks may come to wait for the end of the scope, and those that wait already go on waiting.

The relations here say this from the least, which holds across scopes, to the most, which holds of
work that needs nothing from outside.
-/

namespace MicroBasic

/-- Text is only added to a console: to the line that is not finished, or in further lines of which
the first takes up that line. -/
inductive Console.Leads (before after : Console) : Prop
  | pending (lines : after.lines = before.lines)
      (begun : ∀ text, before.pending = some text → ∃ more, after.pending = some (text ++ more))
  | lines (text : String) (rest : List String)
      (lines : after.lines.toList = before.lines.toList ++ (before.pending.getD "" ++ text) :: rest)

namespace Console.Leads

variable {first second third : Console}

theorem refl (console : Console) : console.Leads console :=
  .pending rfl fun text begun => ⟨"", by rw [begun, String.append_empty]⟩

theorem trans (before : first.Leads second) (after : second.Leads third) : first.Leads third := by
  cases before with
  | pending same begun =>
    cases after with
    | pending also onward =>
      refine .pending (also.trans same) fun text held => ?_
      obtain ⟨more, held⟩ := begun text held
      obtain ⟨further, held⟩ := onward _ held
      exact ⟨more ++ further, by rw [held, String.append_assoc]⟩
    | lines text rest added =>
      rw [same] at added
      cases held : first.pending with
      | none =>
        refine .lines (second.pending.getD "" ++ text) rest ?_
        rw [added, held, Option.getD_none, String.empty_append]
      | some start =>
        obtain ⟨more, held'⟩ := begun start held
        refine .lines (more ++ text) rest ?_
        rw [added, held, held', Option.getD_some, Option.getD_some, String.append_assoc]
  | lines text rest added =>
    cases after with
    | pending also onward => exact .lines text rest (by rw [also, added])
    | lines further others more =>
      refine .lines text (rest ++ (second.pending.getD "" ++ further) :: others) ?_
      rw [more, added, List.append_assoc, List.cons_append]

theorem write (m : Machine) (text : String) : m.console.Leads (m.write text).console := by
  refine .pending rfl fun start held => ⟨text, ?_⟩
  simp only [Machine.write, held, Option.getD_some]

theorem writeLine (m : Machine) (text : String) : m.console.Leads (m.writeLine text).console := by
  refine .lines text [] ?_
  simp only [Machine.writeLine, Array.toList_push]

end Console.Leads

/-- Two worlds in which the same lines and readings are to come. -/
def World.SameSources (before after : World) : Prop :=
  after.input = before.input ∧ after.clock = before.clock

/-- What the work of a scope may do to the blocks that wait for its end: it leaves further ones to
wait, each of which it enters in the journal. -/
def Machine.Defers (before after : Machine) : Prop :=
  ∃ added : List Deferred, after.activation.deferred = added ++ before.activation.deferred ∧
      after.activation.journal = added.map .registered ++ before.activation.journal

namespace Machine.Defers

variable {first second third : Machine}

theorem of_activation (same : second.activation = first.activation) : first.Defers second :=
  ⟨[], by rw [same]; rfl, by rw [same]; rfl⟩

theorem trans (before : first.Defers second) (after : second.Defers third) :
    first.Defers third := by
  obtain ⟨early, waiting, journal⟩ := before
  obtain ⟨late, laterWaiting, laterJournal⟩ := after
  refine ⟨late ++ early, ?_, ?_⟩
  · rw [laterWaiting, waiting, List.append_assoc]
  · rw [laterJournal, journal, List.map_append, List.append_assoc]

theorem defer (m : Machine) (body : Block) : m.Defers (m.defer body) :=
  ⟨[{ body, loops := m.activation.loops }], rfl, rfl⟩

end Machine.Defers

namespace Machine

/-- The count of statements and the text on the console only grow. -/
structure Grows (before after : Machine) : Prop where
  steps : before.steps ≤ after.steps
  console : before.console.Leads after.console

/-- Work at one depth of calls leaves the scopes of the callers in their places. -/
structure Framed (before after : Machine) : Prop extends Grows before after where
  frames : after.parked.map Scope.places = before.parked.map Scope.places
  depth : after.activation.depth = before.activation.depth

/-- Work within one scope, which may begin with the binding of its parameters: blocks only come to
wait for its end. -/
structure Within (before after : Machine) : Prop extends Framed before after where
  deferred : before.Defers after

/-- Work in one scope, or at its end, leaves the scope as it found it, but for blocks that wait. -/
structure Stays (before after : Machine) : Prop extends Framed before after where
  places : after.scope.places = before.scope.places
  targets : after.activation.targets = before.activation.targets
  loops : after.activation.loops = before.activation.loops

/-- Work within one scope: blocks only come to wait for its end. -/
structure Onward (before after : Machine) : Prop extends Stays before after where
  deferred : before.Defers after

/-- Work within one scope for which nothing is needed from outside. -/
structure Calm (before after : Machine) : Prop extends Onward before after where
  sources : before.world.SameSources after.world

variable {first second third : Machine}

theorem Grows.refl (m : Machine) : m.Grows m :=
  ⟨Nat.le_refl _, .refl _⟩

theorem Grows.trans (before : first.Grows second) (after : second.Grows third) :
    first.Grows third :=
  ⟨Nat.le_trans before.steps after.steps, before.console.trans after.console⟩

theorem Framed.refl (m : Machine) : m.Framed m :=
  ⟨.refl _, rfl, rfl⟩

theorem Framed.trans (before : first.Framed second) (after : second.Framed third) :
    first.Framed third where
  toGrows := before.toGrows.trans after.toGrows
  frames := after.frames.trans before.frames
  depth := after.depth.trans before.depth

theorem Framed.parked (framed : first.Framed second) :
    second.parked.length = first.parked.length := by
  have same := congrArg List.length framed.frames
  simpa only [List.length_map] using same

theorem Within.refl (m : Machine) : m.Within m :=
  ⟨.refl _, .of_activation rfl⟩

theorem Within.trans (before : first.Within second) (after : second.Within third) :
    first.Within third :=
  ⟨before.toFramed.trans after.toFramed, before.deferred.trans after.deferred⟩

theorem Stays.refl (m : Machine) : m.Stays m :=
  ⟨.refl _, rfl, rfl, rfl⟩

theorem Stays.trans (before : first.Stays second) (after : second.Stays third) :
    first.Stays third where
  toFramed := before.toFramed.trans after.toFramed
  places := after.places.trans before.places
  targets := after.targets.trans before.targets
  loops := after.loops.trans before.loops

theorem Onward.refl (m : Machine) : m.Onward m :=
  ⟨.refl _, .of_activation rfl⟩

theorem Onward.trans (before : first.Onward second) (after : second.Onward third) :
    first.Onward third :=
  ⟨before.toStays.trans after.toStays, before.deferred.trans after.deferred⟩

theorem Onward.within (onward : first.Onward second) : first.Within second :=
  ⟨onward.toFramed, onward.deferred⟩

theorem Calm.refl (m : Machine) : m.Calm m :=
  ⟨.refl _, rfl, rfl⟩

theorem Calm.trans (before : first.Calm second) (after : second.Calm third) : first.Calm third where
  toOnward := before.toOnward.trans after.toOnward
  sources := ⟨after.sources.1.trans before.sources.1, after.sources.2.trans before.sources.2⟩

theorem Calm.shared (m : Machine) (functions : FunctionTable) (types : TypeTable)
    (properties : PropertyTable) (spawned : List String) (hoisted : List Nat) (heap : Heap) :
    m.Calm { m with functions, types, properties, spawned, hoisted, heap } :=
  ⟨⟨⟨⟨⟨Nat.le_refl _, .refl _⟩, rfl, rfl⟩, rfl, rfl, rfl⟩, .of_activation rfl⟩, rfl, rfl⟩

/-- A machine with one more statement counted. -/
def counted (m : Machine) : Machine :=
  { m with steps := m.steps + 1 }

theorem Calm.counted (m : Machine) : m.Calm m.counted :=
  ⟨⟨⟨⟨⟨Nat.le_succ _, .refl _⟩, rfl, rfl⟩, rfl, rfl, rfl⟩, .of_activation rfl⟩, rfl, rfl⟩

theorem Calm.setVariable {name : String} {value : Value} {m next : Machine}
    (assigned : m.setVariable name value = .ok next) : m.Calm next := by
  cases assigns_of_setVariable assigned with
  | own =>
    exact ⟨⟨⟨⟨⟨Nat.le_refl _, .refl _⟩, rfl, rfl⟩, rfl, rfl, rfl⟩, .of_activation rfl⟩, rfl, rfl⟩
  | @slot frame key =>
    refine ⟨⟨⟨⟨⟨Nat.le_refl _, .refl _⟩, ?_, rfl⟩, rfl, rfl, rfl⟩, .of_activation rfl⟩, rfl, rfl⟩
    refine List.ext_getElem? fun index => ?_
    simp only [List.getElem?_map, List.getElem?_modify]
    cases m.parked[index]? with
    | none => rfl
    | some scope => by_cases same : frame = index <;> simp [same, Scope.assign]
  | field | element => exact .shared ..

theorem Calm.defer (m : Machine) (body : Block) : m.Calm (m.defer body) :=
  ⟨⟨⟨⟨⟨Nat.le_refl _, .refl _⟩, rfl, rfl⟩, rfl, rfl, rfl⟩, .defer m body⟩, rfl, rfl⟩

theorem Calm.write (m : Machine) (text : String) : m.Calm (m.write text) :=
  ⟨⟨⟨⟨⟨Nat.le_refl _, .write m text⟩, rfl, rfl⟩, rfl, rfl, rfl⟩, .of_activation rfl⟩, rfl, rfl⟩

theorem Calm.writeLine (m : Machine) (text : String) : m.Calm (m.writeLine text) where
  toOnward :=
    ⟨⟨⟨⟨Nat.le_refl _, .writeLine m text⟩, rfl, rfl⟩, rfl, rfl, rfl⟩, .of_activation rfl⟩
  sources := by
    unfold Machine.writeLine
    split <;> exact ⟨rfl, rfl⟩

theorem Calm.spawn (m : Machine) (name : String) : m.Calm (m.spawn name) := by
  unfold Machine.spawn
  dsimp only
  split
  · exact .writeLine m _
  · exact (Calm.shared m _ _ _ _ _ _).trans (.writeLine _ _)

theorem Onward.world (m : Machine) (heap : Heap) (world : World) :
    m.Onward { m with heap, world } :=
  ⟨⟨⟨⟨Nat.le_refl _, .refl _⟩, rfl, rfl⟩, rfl, rfl, rfl⟩, .of_activation rfl⟩

end Machine

end MicroBasic
