import MicroBasic.Proofs.Concord.Progress

/-!
# Concords: works of several evaluators side by side

The same work may be done by several evaluators at once: by one with more fuel than the other, with
a larger budget, or under an observer that stops it. What is to be said of their results taken
together differs from case to case. What is common is how it is carried through an evaluation: from
two works to one after the other, from work to work that is attempted, from one round of a loop to
all of them.

A concord is a judgement on the results of a family of works begun on one machine, with these laws.
The lemmas of the modules after this one go through the evaluator once, for every concord.
-/

namespace MicroBasic

/-- A machine comes nearer to the end of a loop than another one: a statement was counted within the
budget, or no statement was counted and fewer blocks wait. -/
def Machine.Nearer (Spent : Machine → Machine → Prop) (before after : Machine) : Prop :=
  Spent before after ∨ after.steps = before.steps ∧
    after.activation.deferred.length < before.activation.deferred.length

/-- A judgement on the results of a family of works that are begun on one machine. -/
structure Concord (ι : Type) where
  /-- The results are as they should be: a value and the machine that comes with it are good ones,
  and so are the machines on which work breaks off for a cause. -/
  Holds : {α : Type} → Machine → (α → Machine → Prop) → (Break → Machine → Prop) →
    (ι → EStateM.Result Escape Machine α) → Prop
  /-- What is known of the bounds on the rounds of a loop. -/
  Room : (ι → Nat) → Prop
  /-- A statement was counted within the budget between two machines. -/
  Spent : Machine → Machine → Prop
  spent_before :
    ∀ {first second third : Machine}, first.Grows second → Spent second third → Spent first third
  spent_after :
    ∀ {first second third : Machine}, Spent first second → second.Grows third → Spent first third
  value : ∀ {α : Type} {m final : Machine} {Good : α → Machine → Prop}
    {Bad : Break → Machine → Prop} {value : α}, m.Calm final → Good value final →
    Holds m Good Bad (fun _ => .ok value final)
  broken : ∀ {α : Type} {m final : Machine} {Good : α → Machine → Prop}
    {Bad : Break → Machine → Prop} {cause : Break}, m.Calm final → Bad cause final →
    Holds m Good Bad (fun _ => .error (.broken cause) final)
  takeLine : ∀ {m : Machine} {prompt : String}, Holds m (fun _ => m.Onward) (fun _ => m.Onward)
      (fun _ => Exec.takeLine prompt m)
  weaken : ∀ {α : Type} {m : Machine} {Good Weak : α → Machine → Prop}
    {Bad Poor : Break → Machine → Prop} {results : ι → EStateM.Result Escape Machine α},
    Holds m Good Bad results → (∀ value final, Good value final → Weak value final) →
    (∀ cause final, Bad cause final → Poor cause final) → Holds m Weak Poor results
  bind : ∀ {α β : Type} {m : Machine} {Middle : α → Machine → Prop} {Good : β → Machine → Prop}
    {Bad : Break → Machine → Prop} {first : ι → Exec α} {rest : ι → α → Exec β},
    Holds m Middle Bad (fun i => first i m) →
    (∀ value next, Middle value next → Holds next Good Bad (fun i => rest i value next)) →
    Holds m Good Bad (fun i => (first i >>= rest i) m)
  attempt : ∀ {α : Type} {m : Machine} {Good : α → Machine → Prop}
    {Bad Never : Break → Machine → Prop} {work : ι → Exec α},
    Holds m Good Bad (fun i => work i m) →
    Holds m (fun result final =>
        match result with
        | .ok value => Good value final
        | .error cause => Bad cause final)
      Never (fun i => Exec.attempt (work i) m)
  /-- Work may be taken to begin where nothing else had happened yet. -/
  rebase : ∀ {α : Type} {m start : Machine} {Good : α → Machine → Prop}
    {Bad : Break → Machine → Prop} {results : ι → EStateM.Result Escape Machine α},
    m.Grows start → m.world.SameSources start.world → Holds start Good Bad results →
    Holds m Good Bad results
  /-- A loop ends as it should if each of its rounds does, given that all those do that are nearer
  to its end. -/
  rounds : ∀ {α σ : Type} {loop : ι → Nat → σ → Exec α} {Inv : Machine → Prop}
    {Good : Machine → α → Machine → Prop} {Bad : Machine → Break → Machine → Prop},
    (∀ i state, loop i 0 state = Exec.await .fuel) →
    (∀ {fuels : ι → Nat} {m : Machine} (state : σ), Room fuels → Inv m →
      (∀ state next, Inv next → m.Nearer Spent next →
        Holds next (Good next) (Bad next) (fun i => loop i (fuels i) state next)) →
      Holds m (Good m) (Bad m) (fun i => loop i (fuels i + 1) state m)) →
    ∀ {fuels : ι → Nat} {m : Machine} (state : σ), Room fuels → Inv m →
      Holds m (Good m) (Bad m) (fun i => loop i (fuels i) state m)

namespace Exec

variable {α : Type}

theorem change_eq (step : Machine → Except Fault Machine) (m : Machine) : change step m =
      match step m with
      | .ok next => .ok () next
      | .error fault => .error (.broken (.error (.unplaced fault))) m := by
  simp only [change, ask, bind_assoc]
  rw [get_bind]
  cases step m <;> rfl

end Exec

namespace Concord

variable {ι α β : Type} {C : Concord ι} {m : Machine}

/-- Works are in concord and stay within the scope that they begin in. -/
def Keeps (C : Concord ι) (m : Machine) (work : ι → Exec α) : Prop :=
  C.Holds m (fun _ => m.Onward) (fun _ => m.Onward) (fun i => work i m)

theorem Keeps.after {next : Machine} {γ : Type} {work : ι → Exec γ} (step : m.Onward next)
    (keeps : C.Keeps next work) :
    C.Holds next (fun _ => m.Onward) (fun _ => m.Onward) (fun i => work i next) :=
  C.weaken keeps (fun _ _ later => step.trans later) fun _ _ later => step.trans later

namespace Keeps

theorem bind {first : ι → Exec α} {rest : ι → α → Exec β} (keeps : C.Keeps m first)
    (onward : ∀ value next, m.Onward next → C.Keeps next (fun i => rest i value)) :
    C.Keeps m (fun i => first i >>= rest i) :=
  C.bind keeps fun value next step => (onward value next step).after step

theorem pure {value : α} : C.Keeps m (fun _ => Pure.pure value) :=
  C.value (.refl m) (.refl m)

theorem throw {cause : Break} : C.Keeps m (fun _ => (MonadExcept.throw (.broken cause) : Exec α)) :=
  C.broken (.refl m) (.refl m)

theorem change {step : Machine → Except Fault Machine}
    (calm : ∀ {next}, step m = .ok next → m.Calm next) : C.Keeps m (fun _ => Exec.change step) := by
  unfold Keeps
  simp only [Exec.change_eq]
  cases changed : step m with
  | ok next => exact C.value (calm changed) (calm changed).toOnward
  | error fault => exact C.broken (.refl m) (.refl m)

theorem making (work : Making α) : C.Keeps m (fun _ => Exec.making work) := by
  have calm (heap : Heap) : m.Calm { m with heap } := .shared ..
  unfold Keeps Exec.making
  dsimp only
  cases work m.heap with
  | ok value heap => exact C.value (calm heap) (calm heap).toOnward
  | error fault heap => exact C.broken (calm heap) (calm heap).toOnward

theorem get {rest : ι → Machine → Exec α} (keeps : C.Keeps m (fun i => rest i m)) :
    C.Keeps m (fun i => MonadState.get >>= rest i) := keeps

theorem attempt {γ : Type} {work : ι → Exec γ} (keeps : C.Keeps m work) :
    C.Keeps m (fun i => Exec.attempt (work i)) := by
  refine C.weaken (C.attempt keeps) (fun result final kept => ?_) fun _ _ kept => kept
  cases result <;> exact kept

theorem resume {γ : Type} {outcome : Except Break γ} :
    C.Keeps m (fun _ => Exec.resume outcome) := by
  cases outcome with
  | ok value => exact .pure
  | error cause => exact .throw

theorem placed {token : Token} {work : ι → Exec α} (keeps : C.Keeps m work) :
    C.Keeps m (fun i => Exec.placed token (work i)) := by
  simp only [Exec.placed_eq]
  refine keeps.attempt.bind fun result next step => ?_
  match result with
  | .ok _ => exact .pure
  | .error (.error _) | .error (.halt _) => exact .throw

theorem halting {γ : Type} {work : ι → Exec γ} (keeps : C.Keeps m work) :
    C.Keeps m (fun i => Exec.halting (work i)) := by
  simp only [Exec.halting_eq]
  refine keeps.attempt.bind fun result next step => ?_
  match result with
  | .ok _ => exact .pure
  | .error (.error _) => exact .throw
  | .error (.halt _) => exact .pure

theorem rounds {σ : Type} {loop : ι → Nat → σ → Exec α} {Inv : Machine → Prop}
    (empty : ∀ i state, loop i 0 state = Exec.await .fuel)
    (round : ∀ {fuels : ι → Nat} {m : Machine} (state : σ), C.Room fuels → Inv m →
      (∀ state next, Inv next → m.Nearer C.Spent next →
        C.Keeps next (fun i => loop i (fuels i) state)) →
      C.Keeps m (fun i => loop i (fuels i + 1) state))
    {fuels : ι → Nat} (state : σ) (room : C.Room fuels) (inv : Inv m) :
    C.Keeps m (fun i => loop i (fuels i) state) :=
  C.rounds empty round state room inv

end Keeps

theorem changing {change : Machine → Machine} {Good : α → Machine → Prop}
    {Bad : Break → Machine → Prop} {rest : ι → Unit → Exec α} (grows : m.Grows (change m))
    (same : m.world.SameSources (change m).world)
    (holds : C.Holds (change m) Good Bad (fun i => rest i () (change m))) :
    C.Holds m Good Bad (fun i => (modify change >>= rest i) m) :=
  C.rebase grows same holds

theorem attempting {Good : α → Machine → Prop} {Bad : Break → Machine → Prop}
    {Last : β → Machine → Prop} {Poor : Break → Machine → Prop} {work : ι → Exec α}
    {rest : ι → Except Break α → Exec β}
    (holds : C.Holds m Good Bad (fun i => work i m))
    (returned : ∀ value next, Good value next →
      C.Holds next Last Poor (fun i => rest i (.ok value) next))
    (broke : ∀ cause next, Bad cause next →
      C.Holds next Last Poor (fun i => rest i (.error cause) next)) :
    C.Holds m Last Poor (fun i => (Exec.attempt (work i) >>= rest i) m) := by
  refine C.bind (C.attempt holds) fun result next kept => ?_
  cases result with
  | ok value => exact returned value next kept
  | error cause => exact broke cause next kept

theorem placing {Good : α → Machine → Prop} {Bad : Break → Machine → Prop} {token : Token}
    {work : ι → Exec α} (holds : C.Holds m Good Bad (fun i => work i m))
    (placed : ∀ error final, Bad (.error error) final → Bad (.error (error.placedAt token)) final) :
    C.Holds m Good Bad (fun i => Exec.placed token (work i) m) := by
  simp only [Exec.placed_eq]
  refine attempting holds (fun value next good => C.value (.refl next) good) fun cause next bad =>
    ?_
  cases cause with
  | error error => exact C.broken (.refl next) (placed error next bad)
  | halt reason => exact C.broken (.refl next) bad

/-- Between two machines nothing was counted and no block came to wait or ceased to, or a statement
was counted within the budget. -/
def Moves (C : Concord ι) (before after : Machine) : Prop :=
  (after.steps = before.steps ∧ after.activation.deferred = before.activation.deferred) ∨
    C.Spent before after

/-- Work within a scope came to a machine and, unless it did nothing, counted a statement. -/
def Reaches (C : Concord ι) (before after : Machine) : Prop :=
  before.Onward after ∧ C.Moves before after

/-- So did work that broke off for a cause other than an exhausted budget. -/
def BreaksOff (C : Concord ι) (before : Machine) (cause : Break) (after : Machine) : Prop :=
  before.Onward after ∧ (cause.isFatal = false → C.Moves before after)

/-- Blocks stay within a scope and come nearer to the end of every loop around them, unless they
exhaust a budget. -/
def Runs (C : Concord ι) (m : Machine) (work : ι → Exec α) : Prop :=
  C.Holds m (fun _ => C.Reaches m) (C.BreaksOff m) (fun i => work i m)

theorem Runs.keeps {γ : Type} {work : ι → Exec γ} (runs : C.Runs m work) : C.Keeps m work :=
  C.weaken runs (fun _ _ kept => kept.1) fun _ _ kept => kept.1

end Concord

end MicroBasic
