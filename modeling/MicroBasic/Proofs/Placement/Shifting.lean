import MicroBasic.Proofs.Congruence
import MicroBasic.Proofs.Loops.Structured

/-!
# Work on shifted machines

Structured evaluation does not read the pairings of loops, and if there is no budget of statements,
it does not matter how many statements were counted. So it does the same on a machine with other
pairings and with more statements counted, and ends on a machine that is shifted like the one it
began on.
-/

namespace MicroBasic

namespace Shift

variable (s : Shift) {α β : Type}

/-- A result with the machine shifted that it leaves. -/
def result : EStateM.Result Escape Machine α → EStateM.Result Escape Machine α
  | .ok value final => .ok value (s.machine final)
  | .error escape final => .error escape (s.machine final)

theorem awaits_of_result {what : Awaited} {final : Machine} {s : Shift}
    {result : EStateM.Result Escape Machine α}
    (awaits : s.result result = .error (.awaiting what) final) :
    ∃ before, result = .error (.awaiting what) before := by
  cases result with
  | ok => cases awaits
  | error escape before =>
    cases awaits
    exact ⟨before, rfl⟩

theorem park (m : Machine) : (s.machine m).park = m.park.map s.machine := by
  have same : (s.machine m).snapshot = m.snapshot := rfl
  unfold Machine.park
  rw [same]
  cases m.snapshot <;> rfl

theorem unpark (m : Machine) : (s.machine m).unpark = s.machine m.unpark := by
  unfold Machine.unpark
  dsimp only [Shift.machine]
  cases m.parked.getLast? <;> rfl

/-- Work does the same on shifted machines. -/
def Keeps (work : Exec α) : Prop :=
  ∀ m, work (s.machine m) = s.result (work m)

namespace Keeps

variable {s}

theorem await (what : Awaited) : s.Keeps (Exec.await what : Exec α) :=
  fun _ => rfl

theorem bind {work : Exec α} {rest : α → Exec β} (first : s.Keeps work)
    (second : ∀ value, s.Keeps (rest value)) : s.Keeps (work >>= rest) := by
  intro m
  simp only [Bind.bind, EStateM.bind, first m]
  cases work m with
  | ok value next => exact second value next
  | error => rfl

theorem get {rest : Machine → Exec α} (same : ∀ m, rest (s.machine m) = rest m)
    (later : ∀ m, s.Keeps (rest m)) : s.Keeps (MonadState.get >>= rest) :=
  fun m => (congrArg (· (s.machine m)) (same m)).trans (later m m)

theorem change {step : Machine → Except Fault Machine}
    (same : ∀ m, step (s.machine m) = (step m).map s.machine) : s.Keeps (Exec.change step) := by
  intro m
  simp only [Exec.change_eq, same]
  cases step m <;> rfl

theorem modified {change : Machine → Machine} {rest : Unit → Exec α}
    (same : ∀ m, change (s.machine m) = s.machine (change m)) (second : s.Keeps (rest ())) :
    s.Keeps (modify change >>= rest) := by
  intro m
  simp only [Exec.modify_bind, same]
  exact second (change m)

theorem attempt {work : Exec α} (keeps : s.Keeps work) : s.Keeps (Exec.attempt work) := by
  intro m
  unfold Exec.attempt
  rw [keeps m]
  cases work m using Exec.byEnd <;> rfl

theorem placed {work : Exec α} (token : Token) (keeps : s.Keeps work) :
    s.Keeps (Exec.placed token work) := by
  intro m
  unfold Exec.placed
  rw [keeps m]
  cases work m using Exec.byEnd <;> rfl

theorem halting {work : Exec α} (keeps : s.Keeps work) : s.Keeps (Exec.halting work) := by
  intro m
  unfold Exec.halting
  rw [keeps m]
  cases work m using Exec.byEnd <;> rfl

end Keeps

/-- What works do the same on shifted machines is kept when they are put together. -/
def congruence : Congruence Unit where
  Rel work := s.Keeps (work ())
  pure _ := rfl
  throw _ := rfl
  get same later := .get (fun m => same s m ()) later
  change _ same := .change (same s)
  making work m := by
    unfold Exec.making
    dsimp only [Shift.machine]
    cases work m.heap <;> rfl
  bind := .bind
  placed token work := .placed token work

/-- An evaluator that nothing limits or observes does the same on shifted machines in the
expressions and blocks that are nested in others. -/
structure Evaluates (worker : Evaluator) : Prop where
  unlimited : worker.settings.maxSteps = none
  silent : ∀ moment m, worker.observe moment m = .ok () m
  eval : ∀ expr, s.Keeps (worker.eval expr)
  exec : ∀ block, s.Keeps (worker.exec block)

namespace Evaluates

variable {s} {worker : Evaluator} (E : s.Evaluates worker)

include E

theorem observing {moment : Moment} {rest : Unit → Exec α} (second : s.Keeps (rest ())) :
    s.Keeps (worker.observe moment >>= rest) := by
  intro m
  simp only [Bind.bind, EStateM.bind, E.silent]
  exact second m

theorem joins : s.congruence.Joins (fun _ => worker) worker.host fun _ => True where
  hosts _ := rfl
  invoke function args m := by
    unfold Exec.hosting
    dsimp only [Shift.machine]
    match worker.host.invoke function args { heap := m.heap, world := m.world } with
    | .ok _ _ | .error (.fault _) _ | .error (.awaiting _) _ => rfl
  takeLine prompt m := by
    unfold Exec.takeLine
    dsimp only [Shift.machine]
    rcases m.world.takeLine prompt with ⟨_ | _ | _, _⟩ <;> rfl
  observe expr m := by
    simp only [E.silent]
    rfl
  eval _ := E.eval _

theorem tick : s.Keeps worker.tick := by
  intro m
  have counted (m : Machine) : worker.tick m = .ok () m.counted := by
    unfold Evaluator.tick
    rw [E.unlimited]
    rfl
  rw [counted, counted]
  simp only [result, Shift.machine, Machine.counted, Nat.add_right_comm]

theorem perform {stmt : Stmt} {work : Exec α} (keeps : s.Keeps work) :
    s.Keeps (worker.perform stmt work) :=
  (E.tick.placed _).bind fun _ => E.observing (keeps.placed _).halting

theorem drain (fuel : Nat) (outcome : Outcome) : s.Keeps (worker.drain fuel outcome) := by
  induction fuel generalizing outcome with
  | zero => exact .await _
  | succ fuel ih =>
    refine .get (fun _ => rfl) fun m => ?_
    dsimp only
    split
    · exact s.congruence.pure
    · refine .modified (fun _ => rfl)
        ((E.exec _).attempt.bind fun result => .modified (fun _ => rfl) ?_)
      split
      · exact ih _
      · exact ih _
      · split
        · exact .modified (fun _ => rfl) s.congruence.pure
        · exact ih _

theorem finishScope (outcome : Outcome) : s.Keeps (worker.finishScope outcome) := by
  unfold Evaluator.finishScope
  split
  · split
    · exact .modified (fun _ => rfl) s.congruence.pure
    · exact E.drain _ _
  · exact E.drain _ _

theorem bindParams (function : String) (params : List Param) (args : List Arg) :
    s.Keeps (worker.bindParams function params args) := by
  induction params generalizing args with
  | nil => exact s.congruence.pure
  | cons param rest ih =>
    unfold Evaluator.bindParams
    split
    · exact (s.congruence.making _).bind fun array => .modified (fun _ => rfl) (ih _)
    · cases args with
      | nil =>
        refine (E.joins.defaultOf param).bind fun value =>
          (s.congruence.checkType _ _ _).bind fun _ => ?_
        exact .modified (fun _ => rfl) (ih _)
      | cons arg args =>
        refine (s.congruence.checkType _ _ _).bind fun _ => ?_
        split
        · exact .modified (fun _ => rfl) (ih _)
        · exact .modified (fun _ => rfl) (ih _)

theorem runBody (overload : Overload) (args : List Arg) :
    s.Keeps (worker.runBody overload args) := by
  refine (Keeps.change s.park).bind fun _ => .get (fun _ => rfl) fun m =>
    .modified (fun _ => rfl) ?_
  refine ((E.bindParams _ _ args).bind fun _ => E.exec _).attempt.bind fun outcome => ?_
  refine (E.finishScope outcome).bind fun outcome => .modified (fun last => ?_) s.congruence.pure
  rw [s.unpark]
  rfl

theorem callUser (overload : Overload) (args : List Arg) :
    s.Keeps (worker.callUser overload args) := by
  refine E.observing (.get (fun _ => rfl) fun m => ?_)
  split
  · exact E.observing (s.congruence.fail _)
  · exact (E.runBody overload args).bind fun outcome => s.congruence.returning overload outcome

theorem joinsCalls : s.congruence.JoinsCalls (fun _ => worker) worker.host fun _ => True :=
  { E.joins with callUser := E.callUser }

theorem execOption (body : Option Block) : s.Keeps (worker.execOption body) := by
  cases body with
  | none => exact s.congruence.pure
  | some body => exact E.exec body

theorem cleanUp (cleanup : Option Block) (outcome : Outcome) :
    s.Keeps (worker.cleanUp cleanup outcome) := by
  cases cleanup with
  | none => exact s.congruence.resume outcome
  | some block =>
    refine E.observing ((E.exec block).bind fun signal => ?_)
    split
    · exact s.congruence.resume outcome
    · exact s.congruence.pure

theorem tryStmt (body : Block) (handler : Option (CatchClause Block)) (cleanup : Option Block) :
    s.Keeps (worker.tryStmt body handler cleanup) := by
  refine (E.exec body).attempt.bind fun result => ?_
  cases result with
  | ok signal => exact E.cleanUp cleanup (.ok signal)
  | error cause =>
    dsimp only
    split
    · exact s.congruence.throw
    · cases handler with
      | none => exact E.cleanUp cleanup (.error cause)
      | some clause =>
        have handled : s.Keeps (worker.handle clause cause.toError) :=
          (s.congruence.enterHandler clause _).bind fun _ => (E.exec clause.body).attempt
        exact handled.bind fun outcome => E.cleanUp cleanup outcome

theorem withStmt (target : Expr) (body : Block) : s.Keeps (worker.withStmt target body) :=
  (E.eval target).bind fun _ => .modified (fun _ => rfl) ((E.exec body).attempt.bind fun outcome =>
    .modified (fun _ => rfl) (s.congruence.resume outcome))

theorem rounds (kind : LoopKind) {before after : Exec Bool} (body : Block) (fuel : Nat)
    (first : s.Keeps before) (last : s.Keeps after) :
    s.Keeps (worker.rounds kind before after body fuel) := by
  induction fuel with
  | zero => exact .await _
  | succ fuel ih =>
    refine first.bind fun decided => ?_
    split
    · refine (E.exec body).bind fun signal => ?_
      split
      · refine last.bind fun decided => ?_
        split
        · exact E.tick.bind fun _ => ih
        · exact s.congruence.pure
      · exact s.congruence.pure
    · exact s.congruence.pure

theorem plainStmt (stmt : Stmt) : s.Keeps (worker.plainStmt stmt) := by
  have J := E.joinsCalls
  have thenDone {work : Exec Unit} (keeps : s.Keeps work) : s.Keeps (Evaluator.thenDone work) :=
    keeps.bind fun _ => s.congruence.pure
  unfold Evaluator.plainStmt
  cases stmt.kind with
  | assign target value explicit =>
    exact (E.eval value).bind fun value => thenDone (J.assign target value)
  | print items newline => exact thenDone (J.print items newline)
  | input prompt targets => exact thenDone (J.input _ targets)
  | branch branches otherwise blockForm =>
    exact (J.chosenBranch otherwise branches).bind fun body => E.execOption body
  | whileLoop condition body => exact E.rounds _ body _ (J.holds trivial) s.congruence.pure
  | doLoop before after body => exact E.rounds _ body _ (J.goesOn before) (J.goesOn after)
  | attempt body handler cleanup => exact E.tryStmt body handler cleanup
  | raise message code => exact J.raise _ message code
  | defer body => exact thenDone (s.congruence.deferBlock body)
  | function decl =>
    exact thenDone (s.congruence.declare stmt (s.congruence.defineFunction decl stmt.id))
  | property decl =>
    exact thenDone (s.congruence.declare stmt (s.congruence.defineProperty decl stmt.id))
  | type decl => exact thenDone (s.congruence.declare stmt (s.congruence.defineType decl))
  | withBlock target body => exact E.withStmt target body
  | select selector clauses otherwise =>
    refine (E.eval selector).bind fun selector => ?_
    exact (J.chosenCase selector otherwise clauses).bind fun body => E.execOption body
  | dim name size type => exact thenDone (J.dim name size type)
  | spawn name => exact thenDone (s.congruence.spawn name)
  | returnValue value =>
    cases value with
    | none => exact s.congruence.pure
    | some value => exact (E.eval value).bind fun value => s.congruence.pure
  | call expr => exact thenDone ((E.eval expr).bind fun _ => s.congruence.pure)
  | _ => exact s.congruence.pure

variable {closing : Closing} {counter : Counter}

theorem runNext {again : Nat → Exec (Signal × Nat)} (onward : ∀ fuel, s.Keeps (again fuel))
    (fuel : Nat) : s.Keeps (worker.runNext closing counter again fuel) := by
  cases fuel with
  | zero => exact .await _
  | succ fuel =>
    refine (E.perform (s.congruence.advanceCounter counter)).bind fun result => ?_
    split
    · exact s.congruence.pure
    · exact onward fuel
    · exact s.congruence.pure

theorem endRound {again : Nat → Exec (Signal × Nat)} (onward : ∀ fuel, s.Keeps (again fuel))
    (ended : Signal × Nat) : s.Keeps (worker.endRound closing counter again ended) := by
  unfold Evaluator.endRound
  split
  iterate 3 · exact E.runNext onward _
  iterate 2 · exact s.congruence.pure

theorem runRounds {body : Nat → Exec (Signal × Nat)} (round : ∀ fuel, s.Keeps (body fuel))
    (limit fuel : Nat) : s.Keeps (worker.runRounds body closing counter limit fuel) := by
  induction limit generalizing fuel with
  | zero => exact .await _
  | succ limit ih => exact (round fuel).bind fun ended => E.endRound ih ended

omit E in
theorem followedBy {rest : Nat → Exec (Signal × Nat)} (onward : ∀ fuel, s.Keeps (rest fuel))
    (ended : Signal × Nat) : s.Keeps (Evaluator.followedBy rest ended) := by
  unfold Evaluator.followedBy
  split
  · exact onward _
  · exact s.congruence.pure

theorem runTree (tree : Folded) (fuel : Nat) : s.Keeps (worker.runTree tree fuel) := by
  induction tree generalizing fuel with
  | done => cases fuel <;> exact fun _ => rfl
  | plain stmt rest ih =>
    cases fuel with
    | zero => exact .await _
    | succ fuel =>
      refine (E.perform (E.plainStmt stmt.stmt)).bind fun result => ?_
      split
      · exact s.congruence.pure
      · exact followedBy ih _
  | loop opening body closing rest inBody inRest =>
    cases fuel with
    | zero => exact .await _
    | succ fuel =>
      refine (E.perform (E.joinsCalls.beginCounter _ _ _ _)).bind fun result => ?_
      split
      · exact s.congruence.pure
      · exact (E.runRounds inBody _ _).bind fun ended => followedBy inRest ended
      · exact inRest _

theorem execTree (block : Block) : s.Keeps (worker.execTree block) := by
  unfold Evaluator.execTree
  split
  · exact (E.runTree _ _).bind fun ended => s.congruence.pure
  · exact s.congruence.fail _

end Evaluates

theorem evaluates_structured {settings : Settings} (host : Host)
    (unlimited : settings.maxSteps = none) (bound : Nat) :
    s.Evaluates (structuredEvaluator settings host bound) := by
  induction bound with
  | zero => exact ⟨unlimited, fun _ _ => rfl, fun _ => .await _, fun _ => .await _⟩
  | succ bound ih =>
    exact ⟨unlimited, fun _ _ => rfl, fun _ => ih.joinsCalls.evalExpr fun _ _ => trivial,
      ih.execTree⟩

end Shift

end MicroBasic
