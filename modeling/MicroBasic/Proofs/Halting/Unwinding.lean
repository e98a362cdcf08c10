import MicroBasic.Proofs.Congruence
import MicroBasic.Proofs.Termination

/-!
# What follows a halt

A program halts when an `END` or `STOP` statement is executed, possibly deep inside calls and
expressions. What follows is that constructs and scopes are left: their clean-up blocks and waiting
blocks run, and nothing else. This is said by comparing the run with one that an observer stops at
that statement. From the machine met there, every later machine comes by running a clean-up block of
a `TRY` statement that the run executed and that is being left, by running a waiting block of the
scope that is being left, or by going back to what was open around a `WITH` block or a call. This
goes on until one of these blocks does not end as it should, since then it decides how the run goes
on.

The statements that a run executes are known from its being stopped there by other observers. So a
judgement here is about the results of one work under all observers, with the run itself as the one
without any.
-/

namespace MicroBasic

/-- The reason for which a statement halts the program, if it does. -/
def Stmt.haltReason? (stmt : Stmt) : Option HaltReason :=
  match stmt.kind with
  | .halt => some .ended
  | .stop => some .stopped
  | _ => none

/-- What an observer asks of the moments of a run. -/
abbrev Assertion := Moment → Machine → Prop

/-- The observer with an assertion, or the one that does nothing. -/
noncomputable def Assertion.observer : Option Assertion → Moment → Exec Unit
  | none => fun _ => return
  | some asserted => assertion asserted

variable {m final : Machine}

theorem Moment.target_of_not_spares {target : Stmt → Machine → Prop} {moment : Moment}
    (fails : ¬ moment.Spares target m) :
    ∃ stmt, moment = .statement stmt ∧ target stmt m := by
  refine Classical.byContradiction fun missed => fails fun stmt same hit => ?_
  exact missed ⟨stmt, same, hit⟩

theorem Exec.bind_of_error {escape : Escape} {α β : Type} {first : Exec α} {rest : α → Exec β}
    (failed : first m = .error escape final) :
    (first >>= rest) m = .error escape final := by
  simp only [Bind.bind, EStateM.bind, failed]

theorem Exec.attempt_of_error {α : Type} {work : Exec α} {escape : Escape}
    (failed : work m = .error escape final) (unbroken : ∀ cause, escape ≠ .broken cause) :
    Exec.attempt work m = .error escape final := by
  unfold attempt
  rw [failed]
  match escape, unbroken with
  | .broken cause, unbroken => exact absurd rfl (unbroken cause)
  | .awaiting _, _ | .stopped, _ => rfl

/-- A halt that a run comes to: its limits and host, why the program halts, and the number of the
statement among all that the run counts. -/
structure Halting where
  settings : Settings
  host : Host
  reason : HaltReason
  count : Nat

namespace Halting

variable (halting : Halting)

/-- The statement that halts the program is not executed at a moment. -/
def Unmet : Assertion :=
  Moment.Spares fun stmt m =>
    stmt.haltReason? = some halting.reason ∧ m.steps = halting.count

/-- The evaluators that run the program, one for every observer. -/
noncomputable def family (bound : Nat) (asserted : Option Assertion) : Evaluator :=
  observedEvaluator (Assertion.observer asserted) halting.settings halting.host bound

/-- The evaluator that nobody observes. -/
def whole (bound : Nat) : Evaluator :=
  evaluator halting.settings halting.host bound

/-- The evaluator that is stopped at the statement that halts the program. -/
noncomputable def paused (bound : Nat) : Evaluator :=
  observedEvaluator (assertion halting.Unmet) halting.settings halting.host bound

/-- An outcome that tells of the halt. -/
def Ends (outcome : Outcome) : Prop :=
  outcome = .ok (.halt halting.reason) ∨ outcome = .error (.halt halting.reason)

/-- The result of work that tells whether the program halted in it: it did so, or the work has a
value that tells so. -/
def Tells {α : Type} (Halt : α → Prop) : Except HaltReason α → Prop
  | .ok value => Halt value
  | .error reason => reason = halting.reason

/-- A `TRY` statement that is executed on a machine, in whose body or handler the program halts. -/
structure LeavesTry (Executed : Stmt → Machine → Prop) (bound : Nat) (block : Block)
    (met : Machine) : Prop where
  left : ∃ stmt body handler start, stmt.kind = .attempt body handler (some block) ∧
    Executed stmt start ∧
      (halting.paused bound).tryStmt body handler none start = .error .stopped met

/-- The machines that are come to after the program halted on one, as long as everything that runs
on the way ends as it should. -/
inductive Unwinds (Executed : Stmt → Machine → Prop) (met : Machine) : Machine → Prop
  /-- Halting itself changes nothing. -/
  | halted : Unwinds Executed met met
  /-- The clean-up block of a `TRY` statement runs. -/
  | cleaned {bound : Nat} {block : Block} {now next : Machine}
      (leaves : halting.LeavesTry Executed bound block met) (unwinds : Unwinds Executed met now)
      (done : (halting.whole bound).exec block now = .ok .done next) : Unwinds Executed met next
  /-- A `WITH` block is left. -/
  | narrowed {bound : Nat} {stmt : Stmt} {target : Expr} {body : Block} {start now : Machine}
      (kind : stmt.kind = .withBlock target body) (executed : Executed stmt start)
      (leaves : (halting.paused bound).withStmt target body start = .error .stopped met)
      (unwinds : Unwinds Executed met now) :
      Unwinds Executed met (now.withTargets now.activation.targets.tail)
  /-- A waiting block of the scope runs. -/
  | drained {bound : Nat} {block : Deferred} {others : List Deferred} {signal : Signal}
      {now last : Machine} (unwinds : Unwinds Executed met now)
      (waiting : now.activation.deferred = block :: others)
      (done : (halting.whole bound).exec block.body (now.starting block others) = .ok signal last)
      (onward : ∀ reason, signal ≠ .halt reason) :
      Unwinds Executed met (last.concluding (.ok signal) now.activation.loops)
  /-- A waiting block in which the program halted is left. -/
  | concluded {bound : Nat} {block : Deferred} {others : List Deferred} {result : Outcome}
      {start now : Machine}
      (leaves : (halting.paused bound).exec block.body (start.starting block others) =
        .error .stopped met)
      (unwinds : Unwinds Executed met now) (ends : halting.Ends result) :
      Unwinds Executed met (now.concluding result start.activation.loops)
  /-- The body of a function is left whose waiting blocks have run. -/
  | returned {bound : Nat} {overload : Overload} {args : List Arg} {start now : Machine}
      (leaves : (halting.paused bound).runBody overload args start = .error .stopped met)
      (unwinds : Unwinds Executed met now) (emptied : now.activation.deferred = []) :
      Unwinds Executed met (now.leaving start.activation)

/-- A block comes to its end with an error, by halting or with a signal other than those expected.
-/
def Diverts (Expected : Signal → Prop) (result : EStateM.Result Escape Machine Signal) : Prop :=
  match result with
  | .ok signal _ => ¬ Expected signal
  | .error (.broken _) _ => True
  | .error (.awaiting _) _ => False
  | .error .stopped _ => False

/-- After the program halted, a block that runs since something is left does not end as it should.
-/
inductive Diverted (Executed : Stmt → Machine → Prop) (met : Machine) : Prop
  | cleanUp {bound : Nat} {block : Block} {now : Machine}
      (leaves : halting.LeavesTry Executed bound block met)
      (unwinds : halting.Unwinds Executed met now)
      (diverts : Diverts (· = .done) ((halting.whole bound).exec block now))
  | deferred {bound : Nat} {block : Deferred} {others : List Deferred} {now : Machine}
      (unwinds : halting.Unwinds Executed met now)
      (waiting : now.activation.deferred = block :: others)
      (diverts : Diverts (fun signal => ∀ reason, signal ≠ .halt reason)
        ((halting.whole bound).exec block.body (now.starting block others)))

/-- How work ends in which the program halted on a machine: with a value that tells so or by
halting, on a machine that is come to in this way, unless it is unfinished or the halt is overtaken.
-/
inductive Follows {α : Type} (Executed : Stmt → Machine → Prop) (Halt : α → Prop) (met : Machine) :
    EStateM.Result Escape Machine α → Prop
  | value {value : α} {now : Machine} (unwinds : halting.Unwinds Executed met now)
      (halt : Halt value) : Follows Executed Halt met (.ok value now)
  | broken {now : Machine} (unwinds : halting.Unwinds Executed met now) :
      Follows Executed Halt met (.error (.broken (.halt halting.reason)) now)
  | unfinished {escape : Escape} {now : Machine} (unbroken : ∀ cause, escape ≠ .broken cause) :
      Follows Executed Halt met (.error escape now)
  | diverted {result : EStateM.Result Escape Machine α} (diverted : halting.Diverted Executed met) :
      Follows Executed Halt met result

variable {halting} {Executed More : Stmt → Machine → Prop} {met : Machine}

section

variable (more : ∀ stmt start, Executed stmt start → More stmt start)

include more

theorem LeavesTry.mono {bound : Nat} {block : Block}
    (leaves : halting.LeavesTry Executed bound block met) :
    halting.LeavesTry More bound block met := by
  obtain ⟨stmt, body, handler, start, kind, executed, stopped⟩ := leaves.left
  exact ⟨stmt, body, handler, start, kind, more stmt start executed, stopped⟩

theorem Unwinds.mono {now : Machine} (unwinds : halting.Unwinds Executed met now) :
    halting.Unwinds More met now := by
  induction unwinds with
  | halted => exact .halted
  | cleaned leaves _ done ih => exact .cleaned (leaves.mono more) ih done
  | narrowed kind executed leaves _ ih =>
    exact .narrowed kind (more _ _ executed) leaves ih
  | drained _ waiting done onward ih =>
    exact .drained ih waiting done onward
  | concluded leaves _ ends ih => exact .concluded leaves ih ends
  | returned leaves _ emptied ih => exact .returned leaves ih emptied

theorem Diverted.mono (diverted : halting.Diverted Executed met) : halting.Diverted More met := by
  cases diverted with
  | cleanUp leaves unwinds diverts => exact .cleanUp (leaves.mono more) (unwinds.mono more) diverts
  | deferred unwinds waiting diverts => exact .deferred (unwinds.mono more) waiting diverts

theorem Follows.mono {α : Type} {Halt : α → Prop} {result : EStateM.Result Escape Machine α}
    {Weak : α → Prop} (follows : halting.Follows Executed Halt met result)
    (implies : ∀ value, Halt value → Weak value) : halting.Follows More Weak met result := by
  cases follows with
  | value unwinds halt => exact .value (unwinds.mono more) (implies _ halt)
  | broken unwinds => exact .broken (unwinds.mono more)
  | unfinished unbroken => exact .unfinished unbroken
  | diverted diverted => exact .diverted (diverted.mono more)

end

/-- A statement is executed on a machine by work that has some results: an observer stops it there.
-/
def Executes {α : Type} (results : Option Assertion → EStateM.Result Escape Machine α) (stmt : Stmt)
    (start : Machine) : Prop :=
  results (some (Moment.Spares fun other now => other = stmt ∧ now = start)) = .error .stopped start

variable (halting)

/-- The results of work under all observers are as they should be. An observer stops the work where
its assertion fails, or the work ends as it does without. Where the statement that halts the program
stops it, what follows does, given that some statements were executed earlier. It may be assumed
that the work is come to in the run that is stopped there. -/
structure Judged {α : Type} (Live : Prop) (Earlier : Stmt → Machine → Prop) (Halt : α → Prop)
    (results : Option Assertion → EStateM.Result Escape Machine α) : Prop where
  watched : ∀ asserted, results (some asserted) = results none ∨
    ∃ moment m, ¬ asserted moment m ∧ results (some asserted) = .error .stopped m
  follows : Live → ∀ met, results (some halting.Unmet) = .error .stopped met →
    halting.Follows (fun stmt start => Earlier stmt start ∨ Executes results stmt start) Halt met
      (results none)

namespace Judged

variable {halting} {α β : Type} {Live Alive : Prop} {Earlier Before : Stmt → Machine → Prop}
  {Halt Weak : α → Prop} {Last : β → Prop} {m : Machine}

theorem weaken {results : Option Assertion → EStateM.Result Escape Machine α}
    (judged : halting.Judged Live Earlier Halt results) (live : Alive → Live)
    (earlier : ∀ stmt start, Earlier stmt start → Before stmt start)
    (implies : ∀ value, Halt value → Weak value) : halting.Judged Alive Before Weak results where
  watched := judged.watched
  follows alive met stopped :=
    (judged.follows (live alive) met stopped).mono
      (fun stmt start => .imp_left (earlier stmt start)) implies

theorem same (result : EStateM.Result Escape Machine α) :
    halting.Judged Live Earlier Halt (fun _ => result) where
  watched _ := .inl rfl
  follows _ met stopped := by
    rw [stopped]
    exact .unfinished nofun

theorem through {results : Option Assertion → EStateM.Result Escape Machine α}
    (judged : halting.Judged Live Earlier Halt results)
    (after : EStateM.Result Escape Machine α → EStateM.Result Escape Machine β)
    (stopped : ∀ final, after (.error .stopped final) = .error .stopped final)
    (awaiting : ∀ what final, after (.error (.awaiting what) final) = .error (.awaiting what) final)
    (value : ∀ {Executed met value now}, halting.Unwinds Executed met now → Halt value →
      halting.Follows Executed Last met (after (.ok value now)))
    (broken : ∀ {Executed met now}, halting.Unwinds Executed met now →
      halting.Follows Executed Last met (after (.error (.broken (.halt halting.reason)) now))) :
    halting.Judged Live Earlier Last (fun i => after (results i)) where
  watched asserted := by
    rcases judged.watched asserted with equal | ⟨moment, final, fails, halts⟩
    · exact .inl (congrArg after equal)
    · exact .inr ⟨moment, final, fails, by rw [halts, stopped]⟩
  follows live met halts := by
    rcases judged.watched halting.Unmet with equal | ⟨_, final, _, paused⟩
    · rw [← equal, halts]
      exact .unfinished nofun
    · rw [paused, stopped] at halts
      cases halts
      have more (stmt : Stmt) (start : Machine)
        (known : Earlier stmt start ∨ Executes results stmt start) :
          Earlier stmt start ∨ Executes (fun i => after (results i)) stmt start :=
        known.imp_right fun executes => (congrArg after executes).trans (stopped start)
      have follows := (judged.follows live met paused).mono more fun _ halt => halt
      revert follows
      generalize results none = result
      intro follows
      cases follows with
      | value unwinds halt => exact value unwinds halt
      | broken unwinds => exact broken unwinds
      | diverted diverted => exact .diverted diverted
      | @unfinished escape now unbroken =>
        match escape, unbroken with
        | .broken cause, unbroken => exact absurd rfl (unbroken cause)
        | .awaiting what, unbroken =>
          rw [awaiting]
          exact .unfinished unbroken
        | .stopped, unbroken =>
          rw [stopped]
          exact .unfinished unbroken

/-- One work after another. Where the program halted in the first and this gave a value, the second
has to do with it what follows. -/
theorem bind {first : Option Assertion → Exec α} {rest : Option Assertion → α → Exec β}
    (begun : halting.Judged Live Earlier Halt (fun i => first i m))
    (later : ∀ value next, first none m = .ok value next →
      halting.Judged (Live ∧ first (some halting.Unmet) m = .ok value next) Earlier Last
        (fun i => rest i value next))
    (unwound : Live →
      ∀ Executed met value now, (∀ stmt start, Earlier stmt start → Executed stmt start) →
      first (some halting.Unmet) m = .error .stopped met → first none m = .ok value now →
      halting.Unwinds Executed met now → Halt value →
      halting.Follows Executed Last met (rest none value now)) :
    halting.Judged Live Earlier Last (fun i => (first i >>= rest i) m) where
  watched asserted := by
    rcases begun.watched asserted with equal | ⟨moment, final, fails, stopped⟩
    · cases done : first none m with
      | ok value next =>
        rw [Exec.bind_of_ok (equal.trans done), Exec.bind_of_ok done]
        exact (later value next done).watched asserted
      | error escape final =>
        rw [Exec.bind_of_error (equal.trans done), Exec.bind_of_error done]
        exact .inl rfl
    · exact .inr ⟨moment, final, fails, Exec.bind_of_error stopped⟩
  follows live met stopped := by
    rcases begun.watched halting.Unmet with equal | ⟨_, final, _, paused⟩
    · cases done : first none m with
      | ok value next =>
        have alive := equal.trans done
        rw [Exec.bind_of_ok alive] at stopped
        rw [Exec.bind_of_ok done]
        refine ((later value next done).follows ⟨live, alive⟩ met stopped).mono
          (fun stmt start known => known.imp_right fun executes => ?_) fun _ halt => halt
        -- An observer of that statement stops the first work there, if not the second.
        rcases begun.watched (Moment.Spares fun other now => other = stmt ∧ now = start) with
          equal | ⟨moment, other, fails, early⟩
        · exact (Exec.bind_of_ok (equal.trans done)).trans executes
        · obtain ⟨_, _, _, rfl⟩ := Moment.target_of_not_spares fails
          exact Exec.bind_of_error early
      | error escape final =>
        rw [Exec.bind_of_error (equal.trans done)] at stopped
        cases stopped
        rw [Exec.bind_of_error done]
        exact .unfinished nofun
    · rw [Exec.bind_of_error paused] at stopped
      cases stopped
      have more (stmt : Stmt) (start : Machine)
          (known : Earlier stmt start ∨ Executes (fun i => first i m) stmt start) :
          Earlier stmt start ∨ Executes (fun i => (first i >>= rest i) m) stmt start :=
        known.imp_right fun executes => Exec.bind_of_error executes
      have follows := (begun.follows live met paused).mono more fun _ halt => halt
      cases done : first none m with
      | ok value now =>
        rw [done] at follows
        rw [Exec.bind_of_ok done]
        cases follows with
        | value unwinds halt =>
          exact unwound live _ met value now (fun _ _ => .inl) paused done unwinds halt
        | diverted diverted => exact .diverted diverted
      | error escape now =>
        rw [done] at follows
        rw [Exec.bind_of_error done]
        cases follows with
        | broken unwinds => exact .broken unwinds
        | unfinished unbroken => exact .unfinished unbroken
        | diverted diverted => exact .diverted diverted

theorem ofNone {work : Option Assertion → Exec α}
    (judged : halting.Judged True (fun _ _ => False) (fun _ : α => False) (fun i => work i m)) :
    halting.Judged Live Earlier Halt (fun i => work i m) :=
  judged.weaken (fun _ => trivial) (fun _ _ => False.elim) fun _ => False.elim

theorem placed {work : Option Assertion → Exec α} (token : Token)
    (judged : halting.Judged Live Earlier Halt (fun i => work i m)) :
    halting.Judged Live Earlier Halt (fun i => Exec.placed token (work i) m) :=
  judged.through (fun result => Exec.placed token (fun _ => result) m) (fun _ => rfl)
    (fun _ _ => rfl) (fun unwinds halt => .value unwinds halt) fun unwinds => .broken unwinds

theorem attempt {work : Option Assertion → Exec Signal}
    (judged : halting.Judged Live Earlier (· = .halt halting.reason) (fun i => work i m)) :
    halting.Judged Live Earlier halting.Ends (fun i => Exec.attempt (work i) m) :=
  judged.through (fun result => Exec.attempt (fun _ => result) m) (fun _ => rfl)
    (fun _ _ => rfl) (fun unwinds halt => .value unwinds (.inl (congrArg Except.ok halt)))
    fun unwinds => .value unwinds (.inr rfl)

theorem tellHalt {work : Option Assertion → Exec α}
    (judged : halting.Judged Live Earlier Halt (fun i => work i m)) :
    halting.Judged Live Earlier (halting.Tells Halt) (fun i => Exec.halting (work i) m) :=
  judged.through (fun result => Exec.halting (fun _ => result) m) (fun _ => rfl)
    (fun _ _ => rfl) (fun unwinds halt => .value unwinds halt) fun unwinds => .value unwinds rfl

variable {bound : Nat}

theorem observe {moment : Moment} {Halt : Unit → Prop} (other : ∀ stmt, moment ≠ .statement stmt) :
    halting.Judged Live Earlier Halt (fun i => (halting.family bound i).observe moment m) := by
  simp only [family, observedEvaluator_observe]
  constructor
  · intro asserted
    by_cases holds : asserted moment m
    · exact .inl (assertion_holds holds)
    · exact .inr ⟨moment, m, holds, assertion_fails holds⟩
  · intro _ met stopped
    have passes : assertion halting.Unmet moment m = .ok () m :=
      assertion_holds fun stmt same => absurd same (other stmt)
    cases passes.symm.trans stopped

theorem observing {moment : Moment} {rest : Option Assertion → Unit → Exec α}
    (other : ∀ stmt, moment ≠ .statement stmt)
    (judged : halting.Judged Live Earlier Halt (fun i => rest i () m)) :
    halting.Judged Live Earlier Halt
      (fun i => ((halting.family bound i).observe moment >>= rest i) m) := by
  have observed : halting.Judged Live Earlier (fun _ => False)
      (fun i => (halting.family bound i).observe moment m) := .observe other
  refine observed.bind (fun _ next passed => ?_) fun _ _ _ _ _ _ _ _ _ halt => halt.elim
  have passes : (halting.family bound none).observe moment m = .ok () m := by
    rw [family, observedEvaluator_observe]
    rfl
  cases passes.symm.trans passed
  exact judged.weaken And.left (fun _ _ => id) fun _ => id

theorem statement {stmt : Stmt} {work : Option Assertion → Exec α}
    (judged : halting.Judged Live
      (fun other start => Earlier other start ∨ other = stmt ∧ start = m) Halt (fun i => work i m))
    (halts : stmt.haltReason? = some halting.reason → ∃ value, work none m = .ok value m ∧
      Halt value) :
    halting.Judged Live Earlier Halt
      (fun i => ((halting.family bound i).observe (.statement stmt) >>= fun _ => work i) m) := by
  simp only [family, observedEvaluator_observe]
  have passes (asserted : Assertion) (holds : asserted (.statement stmt) m) :
      (Assertion.observer (some asserted) (.statement stmt) >>= fun _ => work (some asserted)) m =
        work (some asserted) m :=
    Exec.bind_of_ok (assertion_holds holds)
  have stops (asserted : Assertion) (fails : ¬ asserted (.statement stmt) m) :
      (Assertion.observer (some asserted) (.statement stmt) >>= fun _ => work (some asserted)) m =
          .error .stopped m :=
    Exec.bind_of_error (assertion_fails fails)
  have unobserved :
      (Assertion.observer none (.statement stmt) >>= fun _ => work none) m = work none m := rfl
  constructor
  · intro asserted
    by_cases holds : asserted (.statement stmt) m
    · rw [passes asserted holds, unobserved]
      exact judged.watched asserted
    · exact .inr ⟨_, m, holds, stops asserted holds⟩
  · intro live met stopped
    rw [unobserved]
    by_cases unmet : halting.Unmet (.statement stmt) m
    · rw [passes halting.Unmet unmet] at stopped
      refine (judged.follows live met stopped).mono (fun other start known => ?_) fun _ halt => halt
      rcases known with (earlier | ⟨rfl, rfl⟩) | executes
      · exact .inl earlier
      · exact .inr (stops _ fun spares => spares other rfl ⟨rfl, rfl⟩)
      · refine .inr ?_
        by_cases spares :
          (Moment.statement stmt).Spares (fun hit now => hit = other ∧ now = start) m
        · exact (passes _ spares).trans executes
        · obtain ⟨_, _, _, rfl⟩ := Moment.target_of_not_spares spares
          exact stops _ spares
    · rw [stops halting.Unmet unmet] at stopped
      cases stopped
      obtain ⟨_, ⟨⟩, reason, _⟩ := Moment.target_of_not_spares unmet
      obtain ⟨value, done, halt⟩ := halts reason
      rw [done]
      exact .value .halted halt

end Judged

/-- Works that are put together from nested evaluations are judged like these. -/
def congruence (halting : Halting) : Congruence (Option Assertion) where
  Rel {α} work :=
    ∀ m, halting.Judged True (fun _ _ => False) (fun _ : α => False) (fun i => work i m)
  pure _ := .same _
  throw _ := .same _
  get _ later m := later m m
  change _ _ _ := .same _
  making _ _ := .same _
  bind begun later m :=
    (begun m).bind (fun value next _ => (later value next).ofNone) fun _ _ _ _ _ _ _ _ _ halt =>
      halt.elim
  placed token judged m := (judged m).placed token

theorem refl (halting : Halting) {α : Type} (work : Exec α) :
    halting.congruence.Rel (fun _ => work) :=
  fun m => .same (work m)

theorem Judged.following {Live : Prop} {Earlier : Stmt → Machine → Prop} {halting : Halting}
    {α β : Type} {Last : β → Prop}
    {first : Option Assertion → Exec α} {rest : Option Assertion → α → Exec β}
    (begun : halting.congruence.Rel first) (later : ∀ value next, first none m = .ok value next →
      halting.Judged (Live ∧ first (some halting.Unmet) m = .ok value next) Earlier Last
        (fun i => rest i value next)) :
    halting.Judged Live Earlier Last (fun i => (first i >>= rest i) m) :=
  (begun m).ofNone.bind later fun _ _ _ _ _ _ _ _ _ halt => False.elim halt

end Halting

end MicroBasic
