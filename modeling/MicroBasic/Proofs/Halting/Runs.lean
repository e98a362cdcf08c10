import MicroBasic.Proofs.Deferral
import MicroBasic.Proofs.Halting.Unwinding

/-!
# Halts are not intercepted

The functions of the evaluator are gone through with the judgement on what follows a halt. Whatever
only evaluates nested expressions and calls is judged like these. What executes blocks sees a halt
as a signal, as the outcome of attempted work or as a break, and hands it on: blocks, loops and
branches at once, `TRY` statements and scopes after their clean-up blocks and waiting blocks. A
handler is not entered, since it is asked for errors only.
-/

namespace MicroBasic

namespace Halting

/-- Nested evaluations are judged as they should be. -/
structure Nests (halting : Halting) (bound : Nat) : Prop where
  eval : ∀ expr, halting.congruence.Rel (fun i => (halting.family bound i).eval expr)
  exec : ∀ block m, halting.Judged True (fun _ _ => False) (· = .halt halting.reason)
    (fun i => (halting.family bound i).exec block m)

variable {halting : Halting} {bound : Nat} {Executed Earlier : Stmt → Machine → Prop} {Live : Prop}
  {m met now : Machine} {self : Evaluator} {fuel : Nat} {outcome : Outcome}

theorem drainAfter_signal {signal : Signal} (onward : ∀ reason, signal ≠ .halt reason) :
    self.drainAfter fuel outcome (.ok signal) = self.drain fuel outcome := by
  cases signal with
  | halt reason => exact absurd rfl (onward reason)
  | _ => rfl

theorem drainAfter_halt {result : Outcome}
    (ends : halting.Ends result) :
    self.drainAfter fuel outcome result = self.drain fuel result := by
  rcases ends with rfl | rfl <;> rfl

theorem finishScope_halt (ends : halting.Ends outcome) :
    self.finishScope outcome = self.drain self.fuel outcome := by
  rcases ends with rfl | rfl <;> rfl

theorem drain_follows (unwinds : halting.Unwinds Executed met now) (ends : halting.Ends outcome) :
    halting.Follows Executed halting.Ends met ((halting.whole bound).drain fuel outcome now) := by
  induction fuel generalizing now with
  | zero => exact .unfinished (by simp)
  | succ fuel ih =>
    cases waiting : now.activation.deferred with
    | nil =>
      rw [Evaluator.drain_idle waiting]
      exact .value unwinds ends
    | cons block others =>
      rw [Evaluator.drain_waiting waiting]
      have diverts (otherwise : Diverts (fun signal => ∀ reason, signal ≠ .halt reason)
          ((halting.whole bound).exec block.body (now.starting block others))) :=
        Diverted.deferred unwinds waiting otherwise
      cases done : (halting.whole bound).exec block.body (now.starting block others) with
      | ok signal last =>
        rw [done] at diverts
        have attempted : Exec.attempt ((halting.whole bound).exec block.body)
            (now.starting block others) = .ok (.ok signal) last := by
          simp only [Exec.attempt, done]
        rw [Exec.bind_of_ok attempted, Exec.modify_bind]
        by_cases onward : ∀ reason, signal ≠ .halt reason
        · rw [drainAfter_signal onward]
          exact ih (.drained unwinds waiting done onward)
        · exact .diverted (diverts onward)
      | error escape last =>
        rw [done] at diverts
        cases escape with
        | broken cause => exact .diverted (diverts trivial)
        | awaiting what =>
          rw [Exec.bind_of_error (Exec.attempt_of_error done (by simp))]
          exact .unfinished (by simp)
        | stopped =>
          rw [Exec.bind_of_error (Exec.attempt_of_error done (by simp))]
          exact .unfinished (by simp)

namespace Nests

variable (N : halting.Nests bound)

include N

theorem joins : halting.congruence.Joins (halting.family bound) halting.host fun _ => True where
  hosts _ := by simp only [family, observedEvaluator_host]
  invoke _ _ := halting.refl _
  takeLine _ := halting.refl _
  observe _ _ := .observe (by simp)
  eval _ := N.eval _

theorem bindParams (function : String) (params : List Param) (args : List Arg) :
    halting.congruence.Rel (fun i => (halting.family bound i).bindParams function params args) := by
  have onward {α β : Type} {work : Exec α} {rest : Option Assertion → α → Exec β}
      (later : ∀ value, halting.congruence.Rel (fun i => rest i value)) :
      halting.congruence.Rel (fun i => work >>= rest i) :=
    halting.congruence.bind (halting.refl work) later
  induction params generalizing args with
  | nil => exact halting.refl _
  | cons param params ih =>
    refine halting.congruence.ite (onward fun _ => onward fun _ => ih []) ?_
    cases args with
    | nil =>
      exact halting.congruence.bind (N.joins.defaultOf param) fun _ => onward fun _ =>
        onward fun _ => ih []
    | cons arg args =>
      refine onward fun _ => ?_
      split
      · exact onward fun _ => ih args
      · exact onward fun _ => ih args

theorem drain (fuel : Nat) (outcome : Outcome) (m : Machine) :
    halting.Judged True (fun _ _ => False) halting.Ends
      (fun i => (halting.family bound i).drain fuel outcome m) := by
  induction fuel generalizing outcome m with
  | zero => exact .same _
  | succ fuel ih =>
    cases waiting : m.activation.deferred with
    | nil =>
      simp only [Evaluator.drain_idle waiting]
      exact .same _
    | cons block others =>
      simp only [Evaluator.drain_waiting waiting]
      refine (N.exec block.body _).attempt.bind (fun result next _ => ?_)
        fun _ Executed met result now _ stopped _ unwinds ends => ?_
      · simp only [Exec.modify_bind]
        rcases result.unexhausted_or with ordinary | ⟨cause, rfl, fatal⟩
        · simp only [Evaluator.drainAfter_ordinary ordinary]
          exact (ih _ _).weaken (fun _ => trivial) (fun _ _ => id) fun _ => id
        · simp only [Evaluator.drainAfter_exhausted fatal]
          exact .same _
      · rw [Exec.modify_bind, drainAfter_halt ends]
        exact drain_follows (.concluded (Exec.stopped_of_attempt stopped) unwinds ends) ends

theorem finishScope (outcome : Outcome) (m : Machine) :
    halting.Judged True (fun _ _ => False) halting.Ends
      (fun i => (halting.family bound i).finishScope outcome m) := by
  rcases outcome.unexhausted_or with ordinary | ⟨cause, rfl, fatal⟩
  · simp only [Evaluator.finishScope_drain _ ordinary, family, observedEvaluator_fuel]
    exact N.drain _ outcome m
  · simp only [Evaluator.finishScope_exhausted fatal]
    exact .same _

theorem scope {work : Option Assertion → Exec Signal}
    (judged : halting.Judged True (fun _ _ => False) (· = .halt halting.reason)
      (fun i => work i m)) :
    halting.Judged True (fun _ _ => False) halting.Ends
      (fun i => (Exec.attempt (work i) >>= (halting.family bound i).finishScope) m) := by
  refine judged.attempt.bind (fun outcome next _ => ?_) fun _ _ _ _ _ _ _ _ unwinds ends => ?_
  · exact (N.finishScope outcome next).weaken (fun _ => trivial) (fun _ _ => id) fun _ => id
  · rw [finishScope_halt ends]
    exact drain_follows unwinds ends

theorem runBody (overload : Overload) (args : List Arg) (m : Machine) :
    halting.Judged True (fun _ _ => False) halting.Ends
      (fun i => (halting.family bound i).runBody overload args m) := by
  cases done : m.park with
  | error fault =>
    have refused (i : Option Assertion) :=
      @Evaluator.runBody_refused (halting.family bound i) _ pure
      m overload args fault done
    simp only [bind_pure] at refused
    simp only [refused]
    exact .same _
  | ok parked =>
    simp only [Evaluator.runBody_scope done]
    have body : halting.Judged True (fun _ _ => False) (· = .halt halting.reason)
        (fun i => (do
          (halting.family bound i).bindParams overload.name overload.params args
          (halting.family bound i).exec overload.decl.body) (parked.entering overload)) := by
      refine .following (N.bindParams _ _ _) fun _ next _ => ?_
      exact (N.exec overload.decl.body next).weaken (fun _ => trivial) (fun _ _ => id) fun _ => id
    refine (N.scope body).bind (fun outcome next _ => .same _)
      fun _ _ met outcome now _ stopped ended unwinds ends => ?_
    obtain ⟨_, _, _, ended⟩ := Exec.of_bind ended
    have leaves : (halting.paused bound).runBody overload args m = .error .stopped met :=
      (Evaluator.runBody_scope done).trans (Exec.bind_of_error stopped)
    exact .value (.returned leaves unwinds (Evaluator.deferred_of_finishScope ended)) ends

theorem callUser (overload : Overload) (args : List Arg) :
    halting.congruence.Rel (fun i => (halting.family bound i).callUser overload args) := by
  intro m
  simp only [Evaluator.callUser_eq]
  refine .observing (by simp) ?_
  have limit (i : Option Assertion) :
      (halting.family bound i).settings.maxCallDepth = halting.settings.maxCallDepth := by
    rw [family, observedEvaluator_settings]
  simp only [Evaluator.called, limit, Exec.get_bind]
  by_cases deep : halting.settings.maxCallDepth ≤ m.activation.depth
  · simp only [if_pos deep, Evaluator.exhaust]
    exact .observing (by simp) (.same _)
  · simp only [if_neg deep]
    refine (N.runBody overload args m).bind (fun _ _ _ => .same _)
      fun _ _ _ outcome now _ _ _ unwinds ends => ?_
    rcases ends with rfl | rfl
    · exact .broken unwinds
    · exact .broken unwinds

theorem joinsCalls :
    halting.congruence.JoinsCalls (halting.family bound) halting.host fun _ => True :=
  { N.joins with callUser := N.callUser }

omit N in
theorem tick : halting.congruence.Rel (fun i => (halting.family bound i).tick) := by
  unfold Evaluator.tick
  simp only [family, observedEvaluator_settings]
  refine halting.congruence.bind (halting.refl _) fun m =>
    halting.congruence.bind (halting.refl _) fun _ => ?_
  split
  · refine halting.congruence.ite ?_ (halting.refl _)
    exact halting.congruence.bind (fun _ => .observe (by simp)) fun _ => halting.refl _
  · exact halting.refl _

theorem execBlock (block : Block) (m : Machine) :
    halting.Judged Live Earlier (· = .halt halting.reason)
      (fun i => (halting.family bound i).exec block m) :=
  (N.exec block m).weaken (fun _ => trivial) (fun _ _ => False.elim) fun _ => id

theorem execOption (block : Option Block) (m : Machine) :
    halting.Judged Live Earlier (· = .halt halting.reason)
      (fun i => (halting.family bound i).execOption block m) := by
  cases block with
  | some block => exact N.execBlock block m
  | none => exact .same _

theorem rounds {kind : LoopKind} {before after : Option Assertion → Exec Bool}
    (first : halting.congruence.Rel before) (last : halting.congruence.Rel after) (body : Block)
    (fuel : Nat) (m : Machine) : halting.Judged Live Earlier (· = .halt halting.reason)
      (fun i => (halting.family bound i).rounds kind (before i) (after i) body fuel m) := by
  induction fuel generalizing m Live with
  | zero => exact .same _
  | succ fuel ih =>
    refine .following first fun goesOn next _ => ?_
    cases goesOn with
    | false => exact .same _
    | true =>
      refine (N.execBlock body next).bind (fun signal next _ => ?_)
        fun _ _ _ signal now _ _ _ unwinds halt => ?_
      · cases signal.afterRound kind with
        | some signal => exact .same _
        | none =>
          refine .following last fun goesOn next _ => ?_
          cases goesOn with
          | false => exact .same _
          | true => exact .following tick fun _ _ _ => ih _
      · subst halt
        exact .value unwinds rfl

variable {stmt : Stmt} {body : Block}

theorem withStmt {target : Expr} (kind : stmt.kind = .withBlock target body)
    (executed : Earlier stmt m) :
    halting.Judged Live Earlier (· = .halt halting.reason)
      (fun i => (halting.family bound i).withStmt target body m) := by
  refine .following (N.eval target) fun value next _ => ?_
  refine (N.execBlock body _).attempt.bind (fun _ _ _ => .same _)
    fun live _ met outcome now known stopped _ unwinds ends => ?_
  have leaves :
      (halting.family bound (some halting.Unmet)).withStmt target body m = .error .stopped met := by
    unfold Evaluator.withStmt
    rw [Exec.bind_of_ok live.2, Exec.modify_bind]
    exact Exec.bind_of_error stopped
  have back := Unwinds.narrowed kind (known _ _ executed) leaves unwinds
  rw [Exec.modify_bind]
  rcases ends with rfl | rfl
  · exact .value back rfl
  · exact .broken back

theorem cleanUp (cleanup : Option Block) (outcome : Outcome) (m : Machine) :
    halting.Judged Live Earlier (· = .halt halting.reason)
      (fun i => (halting.family bound i).cleanUp cleanup outcome m) := by
  cases cleanup with
  | none => exact .same _
  | some block =>
    refine .observing (by simp) ((N.execBlock block m).bind (fun signal next _ => ?_)
      fun _ _ _ signal now _ _ _ unwinds halt => ?_)
    · cases signal with
      | done | _ => exact .same _
    · subst halt
      exact .value unwinds rfl

omit N in
theorem cleanUp_follows {handler : Option (CatchClause Block)} {cleanup : Option Block}
    {start : Machine} (kind : stmt.kind = .attempt body handler cleanup)
    (executed : Executed stmt start)
    (leaves : (halting.paused bound).tryStmt body handler none start = .error .stopped met)
    (unwinds : halting.Unwinds Executed met now) (ends : halting.Ends outcome) :
    halting.Follows Executed (· = .halt halting.reason) met
      ((halting.whole bound).cleanUp cleanup outcome now) := by
  have resumed {last : Machine} (unwinds : halting.Unwinds Executed met last) :
      halting.Follows Executed (· = .halt halting.reason) met (Exec.resume outcome last) := by
    rcases ends with rfl | rfl
    · exact .value unwinds rfl
    · exact .broken unwinds
  cases cleanup with
  | none => exact resumed unwinds
  | some block =>
    have left : halting.LeavesTry Executed bound block met :=
      ⟨stmt, body, handler, start, kind, executed, leaves⟩
    have diverts := Diverted.cleanUp left unwinds
    have quiet (moment : Moment) : (halting.whole bound).observe moment = (return : Exec Unit) := by
      simp only [whole, evaluator, observedEvaluator_observe]
    unfold Evaluator.cleanUp
    dsimp only
    rw [quiet, pure_bind]
    cases done : (halting.whole bound).exec block now with
    | ok signal last =>
      rw [done] at diverts
      rw [Exec.bind_of_ok done]
      cases signal with
      | done => exact resumed (.cleaned left unwinds done)
      | _ => exact .diverted (diverts (by rintro ⟨⟩))
    | error escape last =>
      rw [done] at diverts
      rw [Exec.bind_of_error done]
      cases escape with
      | broken cause => exact .diverted (diverts trivial)
      | awaiting what | stopped => exact .unfinished (by simp)

theorem handle (clause : CatchClause Block) (error : RuntimeError) (m : Machine) :
    halting.Judged Live Earlier halting.Ends
      (fun i => (halting.family bound i).handle clause error m) :=
  .following (halting.refl (Evaluator.enterHandler clause error)) fun _ next _ =>
    (N.execBlock clause.body next).attempt

theorem tryStmt {handler : Option (CatchClause Block)} {cleanup : Option Block}
    (kind : stmt.kind = .attempt body handler cleanup) (executed : Earlier stmt m) :
    halting.Judged Live Earlier (· = .halt halting.reason)
      (fun i => (halting.family bound i).tryStmt body handler cleanup m) := by
  refine (N.execBlock body m).attempt.bind (fun outcome next _ => ?_)
    fun _ _ met outcome now known stopped ended unwinds ends => ?_
  · cases outcome with
    | ok signal => exact N.cleanUp cleanup (.ok signal) next
    | error cause =>
      dsimp only
      cases fatal : cause.isFatal with
      | true => exact .same _
      | false =>
        cases handler with
        | none => exact N.cleanUp cleanup (.error cause) next
        | some clause =>
          refine (N.handle clause cause.toError next).bind
            (fun outcome last _ => N.cleanUp cleanup outcome last)
            fun live _ met outcome now known stopped _ unwinds ends => ?_
          have leaves : (halting.family bound (some halting.Unmet)).tryStmt body (some clause) none
              m = .error .stopped met := by
            unfold Evaluator.tryStmt
            rw [Exec.bind_of_ok live.2]
            simp only [fatal, Bool.false_eq_true, if_false]
            exact Exec.bind_of_error stopped
          exact cleanUp_follows kind (known _ _ executed) leaves unwinds ends
  · have leaves : (halting.paused bound).tryStmt body handler none m = .error .stopped met :=
      Exec.bind_of_error stopped
    have follows := cleanUp_follows kind (known _ _ executed) leaves unwinds ends
    rcases ends with rfl | rfl
    · exact follows
    · exact absurd rfl ((evaluator_unhalted _ _ bound body).attempt.good ended halting.reason)

theorem plainStmt (executed : Earlier stmt m) :
    halting.Judged Live Earlier (· = .halt halting.reason)
      (fun i => (halting.family bound i).plainStmt stmt m) := by
  have J := N.joinsCalls
  have thenDone {work : Option Assertion → Exec Unit} (first : halting.congruence.Rel work)
      {Alive : Prop} {next : Machine} :
      halting.Judged Alive Earlier (· = .halt halting.reason)
          (fun i => Evaluator.thenDone (work i) next) :=
    .following first fun _ _ _ => .same _
  unfold Evaluator.plainStmt
  cases kind : stmt.kind with
  | assign target value explicit =>
    exact .following (N.eval value) fun value _ _ => thenDone (J.assign target value)
  | print items newline => exact thenDone (J.print items newline)
  | input prompt targets => exact thenDone (J.input _ targets)
  | branch branches otherwise blockForm =>
    exact .following (J.chosenBranch otherwise branches) fun body next _ => N.execOption body next
  | whileLoop condition body =>
    simp only [family, observedEvaluator_fuel]
    exact N.rounds (N.joins.holds trivial) (halting.refl _) body _ m
  | doLoop before after body =>
    simp only [family, observedEvaluator_fuel]
    exact N.rounds (J.goesOn before) (J.goesOn after) body _ m
  | attempt body handler cleanup => exact N.tryStmt kind executed
  | raise message code => exact (J.raise stmt.token message code m).ofNone
  | defer body | function decl | property decl | type decl => exact .same _
  | withBlock target body => exact N.withStmt kind executed
  | select selector cases otherwise =>
    refine .following (N.eval selector) fun selector next _ => ?_
    exact .following (J.chosenCase selector otherwise cases) fun body next _ =>
      N.execOption body next
  | dim name size type => exact thenDone (J.dim name size type)
  | returnValue value =>
    cases value with
    | some value => exact .following (N.eval value) fun _ _ _ => .same _
    | none => exact .same _
  | call expr =>
    exact thenDone (halting.congruence.bind (N.eval expr) fun _ => halting.congruence.pure)
  | _ => exact .same _

theorem execStmt {loops : List ActiveLoop} (executed : Earlier stmt m) :
    halting.Judged Live Earlier (fun ended => ended.1 = .halt halting.reason)
      (fun i => (halting.family bound i).execStmt stmt loops m) := by
  have plain {Alive : Prop} :
    halting.Judged Alive Earlier (fun ended => ended.1 = .halt halting.reason)
      (fun i => (do return (← (halting.family bound i).plainStmt stmt, loops) :
        Exec (Signal × List ActiveLoop)) m) := by
    refine (N.plainStmt executed).bind (fun _ _ _ => .same _)
      fun _ _ _ signal now _ _ _ unwinds halt => ?_
    exact .value unwinds halt
  unfold Evaluator.execStmt
  cases stmt.kind with
  | openFor var start limit step =>
    exact (N.joinsCalls.beginFor (halting.refl _) var start limit step loops m).ofNone
  | next var => exact .same _
  | _ => exact plain

omit N in
theorem execStmt_halt {loops : List ActiveLoop} {reason : HaltReason}
    (halts : stmt.haltReason? = some reason) :
    self.execStmt stmt loops m = .ok (.halt reason, loops) m := by
  unfold Stmt.haltReason? at halts
  split at halts
  · next kind =>
    cases halts
    simp only [Evaluator.execStmt, Evaluator.plainStmt, kind]
    rfl
  · next kind =>
    cases halts
    simp only [Evaluator.execStmt, Evaluator.plainStmt, kind]
    rfl
  · cases halts

theorem perform (stmt : Stmt) (loops : List ActiveLoop) (m : Machine) :
    halting.Judged Live Earlier (halting.Tells fun ended => ended.1 = .halt halting.reason)
      (fun i => (halting.family bound i).perform stmt
        ((halting.family bound i).execStmt stmt loops) m) := by
  refine .following (halting.congruence.placed stmt.token tick) fun _ next _ => .statement ?_ ?_
  · refine Judged.tellHalt (Judged.placed stmt.token (N.execStmt ?_))
    exact .inr ⟨rfl, rfl⟩
  · intro halts
    refine ⟨.ok (.halt halting.reason, loops), ?_, rfl⟩
    simp only [Exec.halting, Exec.placed, execStmt_halt halts]

theorem execFrom (block : Block) (fuel place : Nat) (loops : List ActiveLoop) (m : Machine) :
    halting.Judged Live Earlier (· = .halt halting.reason)
      (fun i => (halting.family bound i).execFrom block fuel place loops m) := by
  induction fuel generalizing place loops m Live with
  | zero => exact .same _
  | succ fuel ih =>
    refine .observing (by simp) ?_
    cases block[place]? with
    | none => exact .same _
    | some stmt =>
      refine (N.perform stmt loops m).bind (fun result next _ => ?_)
        fun _ _ _ result now _ _ _ unwinds halt => ?_
      · match result with
        | .error reason => exact .same _
        | .ok (signal, loops) =>
          dsimp only
          cases Control.after place signal loops with
          | goto place loops => exact ih place loops next
          | leave signal => exact .same _
      · match result, halt with
        | .error reason, halt =>
          exact .value unwinds (congrArg Signal.halt halt)
        | .ok (signal, loops), halt =>
          cases halt
          exact .value unwinds rfl

end Nests

theorem nests (halting : Halting) (bound : Nat) : halting.Nests bound := by
  induction bound with
  | zero => exact ⟨fun _ _ => .same _, fun _ _ => .same _⟩
  | succ bound N =>
    constructor
    · intro expr
      exact N.joinsCalls.evalExpr fun _ _ => trivial
    · intro block m
      have executed := @Nests.execFrom halting bound (fun _ _ => False) True N block
      simp only [family, observedEvaluator, Evaluator.execBlock, observedEvaluator_fuel]
      exact executed _ 0 [] m

theorem statements (halting : Halting) (bound : Nat) (block : Block) (m : Machine) :
    halting.Judged True (fun _ _ => False) halting.Ends
      (fun i => Run.statements (halting.family bound i) block m) := by
  have N := halting.nests bound
  refine N.scope (.following (halting.refl (Run.hoist block)) fun _ next _ => ?_)
  exact N.execBlock block next

end Halting

namespace Interpreter

variable (interpreter : Interpreter) (bound : Nat) (program : Program)

/-- The halt of a run for a reason at the statement with a number. -/
def haltAt (reason : HaltReason) (count : Nat) : Halting where
  settings := interpreter.settings
  host := interpreter.host
  reason := reason
  count := count

variable {interpreter bound program}

/-- A run whose statements end with a halt is completed. -/
theorem completed_of_halt {reason : HaltReason} {final : Machine}
    (halts : interpreter.work bound program = .ok (.ok (.halt reason)) final) :
    ∃ completion, interpreter.runWithin bound program =
      (.completed completion, { interpreter with machine := Run.finish final }) ∧
        completion.halt = some reason := by
  rw [runWithin_eq, halts]
  exact ⟨_, rfl, rfl⟩

/-- No run fails because the program halted. -/
theorem haltReason?_of_failed {next : Interpreter} {error : RuntimeError}
    (ran : interpreter.runWithin bound program = (.failed error, next)) :
    error.fault.haltReason? = none := by
  have united := Discipline.unrestricted_united
  have sound :
    Discipline.unrestricted.Sound (Run.begin interpreter.settings program interpreter.machine) _
      (Run.statements (evaluator interpreter.settings interpreter.host bound) program.statements)
      _ :=
    (Discipline.unrestricted_silent bound).statements_sound (fun _ _ _ _ => id)
      Discipline.unrestricted_scoping.toDraining
        (Discipline.unrestricted_scoping.registering _) trivial trivial
      fun _ _ _ _ => trivial
  rcases runWithin_failure ran with ⟨final, ended | ended⟩ | ordinary
  · have ends : Discipline.unrestricted.Ends _ _ (interpreter.work bound program) :=
      sound.ends united
    rw [ended] at ends
    exact ends.2.2.1
  · exact (sound.allows united ended).1
  · exact Fault.haltReason?_of_isOrdinary ordinary

end Interpreter

/-- What becomes of a run after a statement has halted the program on a machine: the run is
unfinished; or a block that ran since something was left did not end as it should; or the machine at
the end of the run is come to by leaving constructs and scopes only, and the run is completed for
the reason of that statement. -/
inductive Interpreter.Unwinding (interpreter : Interpreter) (bound : Nat) (program : Program)
    (halting : Halting) (met : Machine) : Prop
  | unfinished (awaits : (interpreter.runWithin bound program).1.isAwaiting = true)
  | diverted (diverted : halting.Diverted (interpreter.Executes bound program) met)
  | halted {final : Machine} {completion : Completion}
      (unwinds : halting.Unwinds (interpreter.Executes bound program) met final)
      (emptied : final.activation.deferred = [])
      (ran : interpreter.runWithin bound program =
        (.completed completion, { interpreter with machine := Run.finish final }))
      (reason : completion.halt = some halting.reason)

/-- A statement that halts the program is not intercepted. Wherever it is executed in a run, only
clean-up blocks of `TRY` statements that the run executed and waiting blocks of scopes run after it,
until one of these does not end as it should; if all do, the run is completed and tells why. No
block breaks off by halting, on whatever machine it is executed, so no `TRY` statement meets a halt
as an error. The work of a run does not break off so either: one that ends by halting is completed,
and none fails with a halt. -/
theorem halts_are_not_intercepted (interpreter : Interpreter) (bound : Nat) (program : Program) :
    (∀ reason count met,
      interpreter.checkedWork (interpreter.haltAt reason count).Unmet bound program =
        .error .stopped met →
      interpreter.Unwinding bound program (interpreter.haltAt reason count) met) ∧
    (∀ block m reason final,
      (evaluator interpreter.settings interpreter.host bound).exec block m ≠
        .error (.broken (.halt reason)) final) ∧
    (∀ reason final, interpreter.work bound program ≠ .ok (.error (.halt reason)) final ∧
      interpreter.work bound program ≠ .error (.broken (.halt reason)) final) ∧
    (∀ reason final, interpreter.work bound program = .ok (.ok (.halt reason)) final →
      ∃ completion, interpreter.runWithin bound program =
        (.completed completion, { interpreter with machine := Run.finish final }) ∧
          completion.halt = some reason) ∧
    ∀ error next, interpreter.runWithin bound program = (.failed error, next) →
      error.fault.haltReason? = none := by
  refine ⟨fun reason count met stopped => ?_,
    fun block m reason final => (evaluator_unhalted _ _ bound block).unbroken, fun reason final =>
      ⟨fun ended => Interpreter.work_unhalting ended reason rfl, Interpreter.work_unbroken⟩,
    fun reason final => Interpreter.completed_of_halt, fun error next =>
      Interpreter.haltReason?_of_failed⟩
  have judged := (interpreter.haltAt reason count).statements bound program.statements
    (Run.begin interpreter.settings program interpreter.machine)
  have more (stmt : Stmt) (start : Machine) (known : False ∨ Halting.Executes
      (fun i => Run.statements ((interpreter.haltAt reason count).family bound i) program.statements
        (Run.begin interpreter.settings program interpreter.machine)) stmt start) :
      interpreter.Executes bound program stmt start :=
    known.resolve_left id
  have follows : (interpreter.haltAt reason count).Follows (interpreter.Executes bound program)
      (interpreter.haltAt reason count).Ends met (interpreter.work bound program) :=
    (judged.follows trivial met stopped).mono more fun _ => id
  cases done : interpreter.work bound program with
  | ok outcome final =>
    rw [done] at follows
    cases follows with
    | diverted diverted => exact .diverted diverted
    | value unwinds ends =>
      rcases ends with rfl | rfl
      · obtain ⟨completion, ran, told⟩ := Interpreter.completed_of_halt done
        exact .halted unwinds (Interpreter.work_stays (.inl ⟨_, done⟩)).2 ran told
      · exact absurd rfl (Interpreter.work_unhalting done reason)
  | error escape final =>
    rw [done] at follows
    cases follows with
    | diverted diverted => exact .diverted diverted
    | broken unwinds => exact absurd done Interpreter.work_unbroken
    | unfinished unbroken =>
      refine .unfinished ?_
      rw [Interpreter.runWithin_eq, done]
      cases escape with
      | broken cause => exact absurd rfl (unbroken cause)
      | awaiting what | stopped => rfl

/-- Whether the statement that halts the program is not executed at a moment. -/
def Halting.isUnmet (halting : Halting) (moment : Moment) (m : Machine) : Bool :=
  match moment with
  | .statement stmt =>
    stmt.haltReason? != some halting.reason || m.steps != halting.count
  | _ => true

theorem Halting.isUnmet_iff (halting : Halting) (moment : Moment) (m : Machine) :
    halting.isUnmet moment m = true ↔ halting.Unmet moment m := by
  unfold isUnmet Unmet
  split
  · next stmt =>
    rw [Bool.or_eq_true, bne_iff_ne, bne_iff_ne]
    constructor
    · rintro (different | different) _ ⟨⟩ ⟨reason, count⟩
      · exact different reason
      · exact different count
    · intro unmet
      by_cases reason : stmt.haltReason? = some halting.reason
      · exact .inr fun count => unmet stmt rfl ⟨reason, count⟩
      · exact .inl reason
  · next other =>
    exact iff_of_true rfl fun stmt same => absurd same (other stmt)

/-- A program that halts in a function called from an expression, with a block waiting and within a
`TRY` statement. -/
def haltingCall : Program :=
  .ofSource ("FUNCTION F()\nDEFER PRINT \"deferred\"\nSTOP\nEND FUNCTION\n" ++
      "TRY\nx = 1 + F()\nCATCH e\nPRINT \"caught\"\nFINALLY\nPRINT \"finally\"\nEND TRY\n" ++
      "PRINT \"after\"")

/-- The fifth statement of a run of that program halts it. Its waiting block and its clean-up block
run, and the run is completed. -/
theorem halts_are_not_intercepted_in_call :
    ∃ met, (Interpreter.new .empty {} .still).checkedWork
        ((Interpreter.new .empty {} .still).haltAt .stopped 5).Unmet 40 haltingCall =
          .error .stopped met ∧
      (Interpreter.new .empty {} .still).Unwinding 40 haltingCall
        ((Interpreter.new .empty {} .still).haltAt .stopped 5) met ∧
      ((Interpreter.new .empty {} .still).runWithin 40 haltingCall).2.outputs =
        ["deferred", "finally"] := by
  have stopped : isStopped ((Interpreter.new .empty {} .still).checkedWork
      ((Interpreter.new .empty {} .still).haltAt .stopped 5).Unmet 40 haltingCall) = true := by
    unfold Interpreter.checkedWork
    rw [assertion_eq (Halting.isUnmet_iff _)]
    decide +kernel
  obtain ⟨met, meets⟩ := exists_of_isStopped stopped
  exact ⟨met, meets, (halts_are_not_intercepted _ 40 haltingCall).1 .stopped 5 met meets,
    by decide +kernel⟩

/-- A program that ends within a `TRY` statement whose clean-up block fails, within another one. -/
def failingCleanUp : Program :=
  .ofSource ("TRY\nTRY\nEND\nFINALLY\nERROR \"x\"\nEND TRY\nCATCH e\nPRINT \"caught\"\nEND TRY\n" ++
      "PRINT \"after\"")

/-- Where a clean-up block fails after the program halted, a handler runs and the program goes on.
-/
theorem failing_clean_up_overtakes_halt :
    isStopped ((Interpreter.new .empty {} .still).checkedWork
        ((Interpreter.new .empty {} .still).haltAt .ended 3).Unmet 40 failingCleanUp) = true ∧
      ((Interpreter.new .empty {} .still).runWithin 40 failingCleanUp).2.outputs =
        ["caught", "after"] := by
  constructor
  · unfold Interpreter.checkedWork
    rw [assertion_eq (Halting.isUnmet_iff _)]
    decide +kernel
  · decide +kernel

end MicroBasic
