import MicroBasic.Proofs.Concord.Block
import MicroBasic.Proofs.Concord.Endings

/-!
# Works within larger and larger bounds

The same work is done within every bound on nesting and on the rounds of loops. It settles when its
result is the same from some bound on. Under a budget of statements all loops settle: a round counts
a statement or leaves fewer blocks waiting.

A work that has settled never runs out of fuel. It may need a line of input or a reading of the
clock that has not come yet, but only in a world in which there are more to come.
-/

namespace MicroBasic

/-- No more lines of input and no more readings of the clock will come than those that are there. -/
structure World.Complete (world : World) : Prop where
  input : ∀ remaining live, world.input = .lines remaining live → live = false
  clock : world.clock.live = false

namespace World.Complete

variable {world next : World}

theorem sources (complete : world.Complete) (same : world.SameSources next) : next.Complete :=
  ⟨fun remaining live lines => complete.input remaining live (same.1 ▸ lines),
    same.2 ▸ complete.clock⟩

theorem takeLine (complete : world.Complete) (prompt : String) :
    (world.takeLine prompt).2.Complete := by
  unfold World.takeLine
  split
  · exact complete
  · next remaining live lines =>
    have ended := complete.input remaining live lines
    cases remaining with
    | nil => exact ⟨complete.input, complete.clock⟩
    | cons line rest =>
      refine ⟨fun others still same => ?_, complete.clock⟩
      cases same
      exact ended

end World.Complete

theorem World.awaits_of_takeLine {world : World} {prompt : String} {what : Awaited}
    (awaits : (world.takeLine prompt).1 = .error what) : what = .line ∧ ¬ world.Complete := by
  unfold World.takeLine at awaits
  split at awaits
  · cases awaits
  · next remaining live lines =>
    cases remaining with
    | cons line rest => cases awaits
    | nil =>
      cases live with
      | false => cases awaits
      | true =>
        cases awaits
        exact ⟨rfl, fun complete => nomatch complete.input [] true lines⟩

/-- Work that does not run out of fuel and needs nothing in a complete world. -/
def Manner.completing : Manner where
  Trail m final := m.world.Complete → final.world.Complete
  Awaits m what := what ≠ .fuel ∧ ¬ m.world.Complete
  Stops _ _ := False
  trail_quiet _ same complete := complete.sources same
  trail_trans before after complete := after (before complete)
  awaits_before trail awaits := ⟨awaits.1, fun complete => awaits.2 (trail complete)⟩
  stops_before _ stops := stops
  asks {m} prompt := by
    have taken (complete : m.world.Complete) := complete.takeLine prompt
    have awaits (what : Awaited) := @World.awaits_of_takeLine m.world prompt what
    revert taken awaits
    match m.world.takeLine prompt with
    | (.ok _, _) => exact fun taken _ => taken
    | (.error what, _) =>
      intro _ awaits
      obtain ⟨rfl, incomplete⟩ := awaits what rfl
      exact ⟨nofun, incomplete⟩

/-- Within all bounds from some one on a work that was begun on a machine has the same result, and
ends so with good values and breaks. -/
def Settles {α : Type} (m : Machine) (Good : α → Machine → Prop) (Bad : Break → Machine → Prop)
    (results : Nat → EStateM.Result Escape Machine α) : Prop :=
  ∃ result, (∃ least, ∀ bound, least ≤ bound → results bound = result) ∧
    Manner.completing.Ends m Good Bad result

/-- Bounds that exceed every number from some index on. -/
def Unbounded (bounds : Nat → Nat) : Prop :=
  ∀ least, ∃ enough, ∀ bound, enough ≤ bound → least ≤ bounds bound

namespace Settles

variable {α β : Type} {m start : Machine} {Good : α → Machine → Prop}
  {Bad : Break → Machine → Prop} {results : Nat → EStateM.Result Escape Machine α}

theorem same {result : EStateM.Result Escape Machine α}
    (ends : Manner.completing.Ends m Good Bad result) : Settles m Good Bad (fun _ => result) :=
  ⟨result, ⟨0, fun _ _ => rfl⟩, ends⟩

theorem along {bounds : Nat → Nat} {others : Nat → EStateM.Result Escape Machine α}
    (settles : Settles m Good Bad results) (unbounded : Unbounded bounds) (least : Nat)
    (same : ∀ bound, least ≤ bound → others bound = results (bounds bound)) :
    Settles m Good Bad others := by
  obtain ⟨result, ⟨settled, alike⟩, ends⟩ := settles
  obtain ⟨enough, above⟩ := unbounded settled
  refine ⟨result, ⟨max least enough, fun bound larger => ?_⟩, ends⟩
  have larger := Nat.max_le.mp larger
  exact (same bound larger.1).trans (alike _ (above bound larger.2))

theorem weaken {Weak : α → Machine → Prop} {Poor : Break → Machine → Prop}
    (settles : Settles m Good Bad results)
    (good : ∀ value final, Good value final → Weak value final)
    (bad : ∀ cause final, Bad cause final → Poor cause final) : Settles m Weak Poor results := by
  obtain ⟨result, settled, ends⟩ := settles
  exact ⟨result, settled, ends.weaken good bad⟩

theorem rebase (same : m.world.SameSources start.world) (settles : Settles start Good Bad results) :
    Settles m Good Bad results := by
  obtain ⟨result, settled, ends⟩ := settles
  exact ⟨result, settled, ends.before fun complete => complete.sources same⟩

theorem bind {Last : β → Machine → Prop} {first : Nat → Exec α} {rest : Nat → α → Exec β}
    (settles : Settles m Good Bad (fun bound => first bound m))
    (onward : ∀ value next, Good value next →
      Settles next Last Bad (fun bound => rest bound value next)) :
    Settles m Last Bad (fun bound => (first bound >>= rest bound) m) := by
  obtain ⟨result, ⟨least, alike⟩, ends⟩ := settles
  cases ends with
  | @value value next trail good =>
    obtain ⟨last, ⟨later, unchanged⟩, ended⟩ := onward value next good
    refine ⟨last, ⟨max least later, fun bound larger => ?_⟩, ended.before trail⟩
    have larger := Nat.max_le.mp larger
    simp only [Bind.bind, EStateM.bind, alike bound larger.1]
    exact unchanged bound larger.2
  | broken trail bad =>
    refine ⟨_, ⟨least, fun bound larger => ?_⟩, .broken trail bad⟩
    simp only [Bind.bind, EStateM.bind, alike bound larger]
  | @awaiting what final awaits =>
    refine ⟨.error (.awaiting what) final, ⟨least, fun bound larger => ?_⟩, .awaiting awaits⟩
    simp only [Bind.bind, EStateM.bind, alike bound larger]
  | stopped stops => exact stops.elim

theorem attempt {Never : Break → Machine → Prop} {work : Nat → Exec α}
    (settles : Settles m Good Bad (fun bound => work bound m)) :
    Settles m (fun result final =>
        match result with
        | .ok value => Good value final
        | .error cause => Bad cause final)
      Never (fun bound => Exec.attempt (work bound) m) := by
  obtain ⟨result, ⟨least, alike⟩, ends⟩ := settles
  refine ⟨Exec.attempt (fun _ => result) m, ⟨least, fun bound larger => ?_⟩, ends.attempt⟩
  simp only [Exec.attempt, alike bound larger]

/-- A loop settles under a budget of statements if each of its rounds does, given that all those do
that are nearer to its end. -/
theorem rounds {σ : Type} {limit : Nat} {loop : Nat → Nat → σ → Exec α} {Inv : Machine → Prop}
    {Good : Machine → α → Machine → Prop} {Bad : Machine → Break → Machine → Prop}
    (round : ∀ {fuels : Nat → Nat} {m : Machine} (state : σ), Unbounded fuels → Inv m →
      (∀ state next, Inv next →
        m.Nearer (fun before after => before.steps < limit ∧ before.steps < after.steps) next →
        Settles next (Good next) (Bad next) (fun bound => loop bound (fuels bound) state next)) →
      Settles m (Good m) (Bad m) (fun bound => loop bound (fuels bound + 1) state m))
    {m : Machine} {fuels : Nat → Nat} (state : σ) (room : Unbounded fuels) (inv : Inv m) :
    Settles m (Good m) (Bad m) (fun bound => loop bound (fuels bound) state m) := by
  have fewer : Unbounded (fun bound => fuels bound - 1) := by
    intro least
    obtain ⟨enough, above⟩ := room (least + 1)
    exact ⟨enough, fun bound larger => Nat.le_sub_one_of_lt (above bound larger)⟩
  obtain ⟨enough, above⟩ := room 1
  have last := round state fewer inv fun state next inv nearer => rounds round state fewer inv
  have same : Unbounded (fun bound => bound) := fun least => ⟨least, fun _ larger => larger⟩
  refine last.along same enough fun bound larger => ?_
  rw [Nat.sub_add_cancel (above bound larger)]
termination_by (limit - m.steps, m.activation.deferred.length)
decreasing_by
  rcases nearer with ⟨within, counted⟩ | ⟨uncounted, lessWaiting⟩
  · exact Prod.Lex.left _ _ (by omega)
  · rw [uncounted]
    exact Prod.Lex.right _ lessWaiting

end Settles

/-- Works within larger and larger bounds, under a budget of statements. -/
def settling (limit : Nat) : Concord Nat where
  Holds := Settles
  Room := Unbounded
  Spent before after := before.steps < limit ∧ before.steps < after.steps
  spent_before grows spent :=
    ⟨Nat.lt_of_le_of_lt grows.steps spent.1, Nat.lt_of_le_of_lt grows.steps spent.2⟩
  spent_after spent grows := ⟨spent.1, Nat.lt_of_lt_of_le spent.2 grows.steps⟩
  value calm good := .same (.value (fun complete => complete.sources calm.sources) good)
  broken calm bad := .same (.broken (fun complete => complete.sources calm.sources) bad)
  takeLine := .same .takeLine
  weaken := .weaken
  bind := .bind
  attempt := .attempt
  rebase _ same settles := settles.rebase same
  rounds _ round _ _ state room inv := .rounds round state room inv

end MicroBasic
