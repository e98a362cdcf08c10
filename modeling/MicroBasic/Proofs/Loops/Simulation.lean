import MicroBasic.Proofs.Loops.Bindings
import MicroBasic.Proofs.Loops.Structured

/-!
# Blocks run as their trees do

That a block and the tree it is agree is shown by going with the block, statement by statement:
wherever it is, the tree that stands there is still to be executed, and then what is left of the
loops around it, innermost first. So the list of loops that the block is in is the list of those
around its place, which is why `NEXT` always finds its loop there.
-/

namespace MicroBasic

/-- Where the work on one machine is a function of other work, so is that work with errors placed
and halting told. -/
theorem Exec.halting_placed_map {m : Machine} {token : Token} {α β γ : Type} {work : Exec β}
    {inner : Exec α}
    {change : α → β} {rest : Except HaltReason β → Exec γ} (same : work m = (change <$> inner) m) :
    (halting (placed token work) >>= rest) m =
      (halting (placed token inner) >>= fun result => rest (result.map change)) m := by
  simp only [Bind.bind, EStateM.bind, halting, placed, same, Functor.map, EStateM.map]
  cases inner m using byEnd <;> rfl

namespace Evaluator

variable (self : Evaluator)

/-- How a block goes on once the statement at a place has been performed. -/
def proceed (block : Block) (fuel place : Nat) :
    Except HaltReason (Signal × List ActiveLoop) → Exec Signal
  | .error reason => return .halt reason
  | .ok (signal, loops) =>
    match Control.after place signal loops with
    | .goto place loops => self.execFrom block fuel place loops
    | .leave signal => return signal

variable {loops : List ActiveLoop}

theorem execFrom_statement {block : Block} {m : Machine} {stmt : Stmt} {fuel place : Nat}
    (passes : self.observe (.place block place loops) m = .ok () m)
    (found : block[place]? = some stmt) : self.execFrom block (fuel + 1) place loops m =
      (self.perform stmt (self.execStmt stmt loops) >>= self.proceed block fuel place) m := by
  unfold execFrom
  simp only [found, Bind.bind, EStateM.bind, passes]
  rfl

theorem execFrom_end {block : Block} {m : Machine} {fuel place : Nat}
    (passes : self.observe (.place block place loops) m = .ok () m)
    (found : block[place]? = none) :
    self.execFrom block (fuel + 1) place loops m = .ok .done m := by
  unfold execFrom
  simp only [found, Bind.bind, EStateM.bind, passes]
  rfl

/-- Where control goes once a loop has begun to count. -/
def begun (binding : LoopBinding) (loops : List ActiveLoop) :
    Counter × Bool → Signal × List ActiveLoop
  | (counter, true) => (.jump (binding.forIndex + 1), { binding, counter } :: loops)
  | (_, false) => (.jump (binding.nextIndex + 1), loops)

/-- Where control goes once a loop has gone on counting. -/
def advanced (loop : ActiveLoop) (outer : List ActiveLoop) : Bool → Signal × List ActiveLoop
  | true => (.jump (loop.binding.forIndex + 1), loop :: outer)
  | false => (.jump (loop.binding.nextIndex + 1), outer)

variable {m : Machine}

theorem execStmt_plain (plain : Plain) (loops : List ActiveLoop) : self.execStmt plain.stmt loops =
      (fun signal => (signal, loops)) <$> self.plainStmt plain.stmt := by
  unfold execStmt
  split
  · next opens =>
    exact absurd opens plain.not_opens
  · next closes =>
    exact absurd closes plain.not_closes
  · exact (map_eq_pure_bind _ _).symm

theorem pairOf_bind {binding : LoopBinding} {stmt : Stmt} {α : Type} {rest : LoopBinding → Exec α}
    (found : m.bindings.get? stmt.id = some binding) :
    (pairOf stmt >>= rest) m = rest binding m := by
  unfold pairOf
  simp only [bind_assoc, Exec.get_bind, found]
  rfl

theorem execStmt_opening {binding : LoopBinding} {opening : Opening}
    (found : m.bindings.get? opening.stmt.id = some binding)
    (fresh : ∀ loop ∈ loops, loop.binding.forIndex < binding.forIndex) :
    self.execStmt opening.stmt loops m = (begun binding loops <$>
        self.beginCounter opening.var opening.start opening.limit opening.step) m := by
  have outside : ActiveLoop.outside binding.forIndex loops = loops := by
    refine if_neg fun inside => ?_
    obtain ⟨loop, among, began⟩ := List.any_eq_true.mp inside
    have same : loop.binding.forIndex = binding.forIndex := eq_of_beq began
    exact absurd (fresh loop among) (by omega)
  unfold execStmt
  rw [opening.opens]
  simp only [beginFor]
  rw [pairOf_bind found, outside, map_eq_pure_bind]
  refine congrFun (congrArg _ (funext fun begun => ?_)) m
  obtain ⟨counter, _ | _⟩ := begun <;> rfl

theorem execStmt_closing {loop : ActiveLoop} {closing : Closing} {outer : List ActiveLoop}
    (found : m.bindings.get? closing.stmt.id = some loop.binding) :
    self.execStmt closing.stmt (loop :: outer) m =
      (advanced loop outer <$> advanceCounter loop.counter) m := by
  have began : loop.beganAt loop.binding.forIndex = true := beq_self_eq_true _
  have innermost : (loop :: outer).dropWhile (fun other => !other.beganAt loop.binding.forIndex) =
      loop :: outer := List.dropWhile_cons_of_neg (by simp [began])
  unfold execStmt
  rw [closing.closes]
  simp only [nextRound]
  rw [pairOf_bind found, map_eq_pure_bind, innermost]
  dsimp only
  refine congrFun (congrArg _ (funext fun goesOn => ?_)) m
  cases goesOn <;> rfl

end Evaluator

/-- A loop that a block is in: the tree it is, what it counts, and how many rounds may follow this
one. -/
structure Frame extends Enclosing where
  counter : Counter
  limit : Nat

/-- The active loop of a frame. -/
def Frame.active (frame : Frame) : ActiveLoop where
  binding := frame.binding
  counter := frame.counter

/-- Whether a signal leaves all `FOR` loops of a block. -/
def Signal.leavesLoops : Signal → Bool
  | halt _ => true
  | returned _ => true
  | exit (.loop .forLoop) => false
  | exit _ => true
  | continued none => false
  | continued (some .forLoop) => false
  | continued _ => true
  | _ => false

namespace Evaluator

variable (self : Evaluator)

/-- What is left of a loop once its body has ended in one of its rounds, and then what follows it.
-/
def finishLoop (frame : Frame) (ended : Signal × Nat) : Exec (Signal × Nat) := do
  let ended ← self.endRound frame.closing frame.counter
    (self.runRounds (self.runTree frame.body) frame.closing frame.counter frame.limit) ended
  followedBy (self.runTree frame.rest) ended

/-- What is left of the loops that a block is in, innermost first. -/
def unwind : List Frame → Signal × Nat → Exec Signal
  | [], ended => return ended.1
  | frame :: outer, ended => do
    let ended ← self.finishLoop frame ended
    unwind outer ended

theorem runTree_zero (tree : Folded) : self.runTree tree 0 = Exec.await .fuel := by
  cases tree <;> rfl

theorem runTree_done_unwind (frame : Frame) (outer : List Frame) (fuel : Nat) :
    self.runTree .done fuel >>= self.unwind (frame :: outer) =
      self.unwind (frame :: outer) (.done, fuel) := by
  cases fuel with
  | zero | succ fuel => rfl

theorem unwind_leaving {signal : Signal} (leaves : signal.leavesLoops = true) (frames : List Frame)
    (fuel : Nat) : self.unwind frames (signal, fuel) = return signal := by
  induction frames with
  | nil => rfl
  | cons frame outer ih =>
    have handed : self.finishLoop frame (signal, fuel) = return (signal, fuel) := by
      match signal with
      | .halt _ | .returned _ | .exit (.loop .whileLoop) | .exit
        (.loop .doLoop) | .exit .sub | .exit .function
      | .continued (some .whileLoop) | .continued (some .doLoop) => rfl
    unfold unwind
    rw [handed, pure_bind, ih]

end Evaluator

namespace Discipline

section Simulation

variable {D : Discipline} {left right : Evaluator} {m : Machine}

theorem Sound.mapped {α β : Type} {Good : α → Machine → Prop} {change : α → β} {work : Exec β}
    {leftWork rightWork : Exec α} (same : work m = (change <$> leftWork) m)
    (sound : D.Sound m Good leftWork rightWork) :
    D.Sound m Free work (change <$> rightWork) := by
  unfold Sound
  rw [same, map_eq_pure_bind, map_eq_pure_bind]
  exact sound.bind fun _ _ inv _ _ => .pure inv trivial

/-- Performing a statement, and what follows. The work of the first may be a function of work that
the second does as well. -/
theorem Respects.performing {stmt : Stmt} (R : D.Respects left right) {α β γ : Type}
    {Good : α → Machine → Prop}
    {Last : γ → Machine → Prop} {change : α → β} {work : Exec β}
    {leftWork rightWork : Exec α} {leftRest : Except HaltReason β → Exec γ}
    {rightRest : Except HaltReason α → Exec γ} (known : D.Known stmt.token) (inv : D.Inv m)
    (observed : ∀ {m}, D.Inv m →
      D.Sound m Free (left.observe (.statement stmt)) (right.observe (.statement stmt)))
    (same : ∀ {next}, D.Inv next → D.Step m next → work next = (change <$> leftWork) next)
    (sound : ∀ {next}, D.Inv next → D.Step m next → D.Sound next Good leftWork rightWork)
    (rest : ∀ result final, D.Inv final → D.Step m final →
      (∀ value, result = .ok value → Good value final) →
      D.Sound final Last (leftRest (result.map change)) (rightRest result)) :
    D.Sound m Last (left.perform stmt work >>= leftRest)
      (right.perform stmt rightWork >>= rightRest) := by
  unfold Evaluator.perform
  simp only [bind_assoc]
  refine ((R.tick inv).placed known).bind fun _ next inv step _ => ?_
  refine (observed inv).bind fun _ final inv later _ => ?_
  have step := D.step_trans step later
  unfold Sound
  rw [Exec.halting_placed_map (same inv step)]
  refine ((sound inv step).placed known).halting.bind fun result last inv later good => ?_
  exact rest result last inv (D.step_trans step later) good

end Simulation

variable {history : List Program} {left right : Evaluator} {block : Block} {root : Folded}
  {m : Machine} {fuel place : Nat} {frames outer : List Frame}

/-- What it takes to go through a block with its tree. -/
structure Walk (history : List Program) (left right : Evaluator) (block : Block) (root : Folded) :
    Prop where
  respects : (looping history).Respects left right
  known : ∀ program ∈ history, program.IsPaired
  folds : block.fold = some root
  /-- The first observer lets every place of the block pass that it comes to. -/
  placed : ∀ {m place tree} {frames : List Frame}, m.Coherent history →
    Issued history m.activation.loops block →
    root.At place tree (frames.map Frame.toEnclosing) →
    left.observe (.place block place (frames.map Frame.active)) m = .ok () m
  stated : ∀ {m stmt}, m.Coherent history →
    (looping history).Sound m Free (left.observe (.statement stmt))
      (right.observe (.statement stmt))

/-- Two works agree as long as all code is with its pairs, and end in a way that blocks may end in.
-/
abbrev Agreeing (history : List Program) (m : Machine) (first second : Exec Signal) : Prop :=
  (looping history).Sound m (looping history).GoodSignal first second

theorem handedOn {signal : Signal} (coherent : m.Coherent history)
    (good : (looping history).GoodSignal signal m) (leaves : signal.leavesLoops = true) :
    Agreeing history m (pure signal) (right.unwind frames (signal, fuel)) := by
  rw [right.unwind_leaving leaves]
  exact .pure coherent good

/-- With a number of statements left, a block at a place does what is left of its tree. -/
def InStep (history : List Program) (left right : Evaluator) (block : Block) (root : Folded)
    (fuel : Nat) : Prop :=
  ∀ ⦃m place tree frames⦄, m.Coherent history →
    Issued history m.activation.loops block →
    root.At place tree (frames.map Frame.toEnclosing) →
    (∀ frame ∈ frames, fuel ≤ frame.limit + 1) →
    Agreeing history m (left.execFrom block fuel place (frames.map Frame.active))
      (right.runTree tree fuel >>= right.unwind frames)

section

variable (inStep : InStep history left right block root fuel) (coherent : m.Coherent history)
  (issued : Issued history m.activation.loops block)

include inStep coherent issued

theorem InStep.round (loop : Enclosing) {counter : Counter} {limit : Nat}
    (found : root.At place loop.body (loop :: frames.map Frame.toEnclosing))
    (enough : fuel ≤ limit) (limits : ∀ frame ∈ frames, fuel ≤ frame.limit + 1) :
    Agreeing history m (left.execFrom block fuel place
        ({ binding := loop.binding, counter } :: frames.map Frame.active))
      (right.runRounds (right.runTree loop.body) loop.closing counter limit fuel >>= fun ended =>
        Evaluator.followedBy (right.runTree loop.rest) ended >>= right.unwind frames) := by
  cases limit with
  | zero =>
    obtain rfl := Nat.le_zero.mp enough
    exact .awaiting
  | succ limit =>
    let frame : Frame := { loop with counter, limit }
    have sound := @inStep m place loop.body (frame :: frames) coherent issued found
      (List.forall_mem_cons.mpr ⟨enough, limits⟩)
    simp only [Evaluator.runRounds, bind_assoc]
    simp only [Evaluator.unwind, Evaluator.finishLoop, bind_assoc] at sound
    exact sound

theorem InStep.signalled {stmt : Plain} {rest : Folded} {signal : Signal}
    (found : root.At place (.plain stmt rest) (frames.map Frame.toEnclosing))
    (limits : ∀ frame ∈ frames, fuel ≤ frame.limit + 1)
    (good : (looping history).GoodSignal signal m) : Agreeing history m
      (left.proceed block fuel place (.ok (signal, frames.map Frame.active)))
      (Evaluator.followedBy (right.runTree rest) (signal, fuel) >>= right.unwind frames) := by
  -- Signals that no loop consumes end the block; the others are up to the innermost loop.
  match signal, frames with
  | .done, _ => exact inStep coherent issued found.plain limits
  | .jump _, _ => exact good.elim
  | .halt _, _ | .returned _, _ => exact handedOn coherent good rfl
  | .exit (.loop .forLoop), [] => exact .pure coherent good
  | .exit (.loop .forLoop), frame :: outer =>
    exact inStep coherent issued found.leave (List.forall_mem_cons.mp limits).2
  | .exit (.loop .whileLoop), _ | .exit (.loop .doLoop), _ | .exit .sub, _
  | .exit .function, _ => exact handedOn coherent good rfl
  | .continued none, [] => exact .pure coherent good
  | .continued none, frame :: outer =>
    have sound := inStep coherent issued found.next limits
    rw [right.runTree_done_unwind] at sound
    exact sound
  | .continued (some .forLoop), [] => exact .pure coherent good
  | .continued (some .forLoop), frame :: outer =>
    have sound := inStep coherent issued found.next limits
    rw [right.runTree_done_unwind] at sound
    exact sound
  | .continued (some .whileLoop), _ | .continued (some .doLoop), _ =>
    exact handedOn coherent good rfl

end

namespace Walk

section

variable (walk : Walk history left right block root)

include walk

variable {tree rest : Folded}

theorem statement {around : List Enclosing} (found : root.At place tree around) : block[place]? =
      (tree.statements ++ Pending.statements (around.map Enclosing.toPending)).head? := by
  rw [Block.statements_fold walk.folds]
  exact found.getElem?_statements

variable (issued : Issued history m.activation.loops block)

include issued

theorem inner {stmt : Plain} {around : List Enclosing}
    (found : root.At place (.plain stmt rest) around) :
    ∀ part ∈ stmt.stmt.blocks, Issued history m.activation.loops part :=
  fun _ => issued.step (List.mem_of_getElem? (walk.statement found))

variable (coherent : m.Coherent history)

include coherent

theorem paired : root.Paired m.bindings 0 := by
  obtain ⟨tree, folds, paired⟩ := coherent.paired issued walk.known
  rw [walk.folds] at folds
  cases folds
  exact paired

theorem execStmt_next {frame : Frame}
    (found : root.At place .done ((frame :: outer).map Frame.toEnclosing)) :
    left.execStmt frame.closing.stmt ((frame :: outer).map Frame.active) m =
      (Evaluator.advanced frame.active (outer.map Frame.active) <$>
        Evaluator.advanceCounter frame.counter) m :=
  left.execStmt_closing
    (((walk.paired issued coherent).at found).2 frame.toEnclosing List.mem_cons_self)

theorem execStmt_for {opening : Opening} {body : Folded} {closing : Closing}
    (found : root.At place (.loop opening body closing rest) (frames.map Frame.toEnclosing)) :
    left.execStmt opening.stmt (frames.map Frame.active) m =
      (Evaluator.begun (Folded.pairAt place body) (frames.map Frame.active) <$>
        left.beginCounter opening.var opening.start opening.limit opening.step) m := by
  refine left.execStmt_opening ((walk.paired issued coherent).at found).1.1 fun loop among => ?_
  obtain ⟨frame, held, rfl⟩ := List.mem_map.mp among
  exact found.forIndex_lt frame.toEnclosing (List.mem_map_of_mem held)

theorem performed {stmt : Stmt} {work : Exec Signal}
    (found : root.At place tree (frames.map Frame.toEnclosing)) (stands : (tree.statements ++
      Pending.statements ((frames.map Frame.toEnclosing).map Enclosing.toPending)).head? =
        some stmt)
    (sound : Agreeing history m
      (left.perform stmt (left.execStmt stmt (frames.map Frame.active)) >>=
        left.proceed block fuel place) work) :
    Agreeing history m
      (left.execFrom block (fuel + 1) place (frames.map Frame.active)) work := by
  have stands : block[place]? = some stmt := (walk.statement found).trans stands
  unfold Agreeing Sound at sound ⊢
  rw [left.execFrom_statement (walk.placed coherent issued found) stands]
  exact sound

theorem atEnd (found : root.At place .done []) :
    Agreeing history m
      (left.execFrom block (fuel + 1) place [])
      (right.runTree .done (fuel + 1) >>= right.unwind []) := by
  have passes := @walk.placed m place .done [] coherent issued found
  have ended : left.execFrom block (fuel + 1) place [] m = .ok .done m :=
    left.execFrom_end passes (walk.statement found)
  unfold Agreeing Sound
  rw [ended]
  exact .value coherent rfl trivial

theorem execStmt_sound {stmt : Stmt}
    (found : root.At place tree (frames.map Frame.toEnclosing))
    (stands : block[place]? = some stmt) :
    ∃ work, (looping history).Sound m Free (left.execStmt stmt (frames.map Frame.active)) work := by
  have stands := stands.symm.trans (walk.statement found)
  cases tree with
  | done =>
    cases frames with
    | nil => cases stands
    | cons frame outer =>
      cases stands
      exact ⟨_, .mapped (walk.execStmt_next issued coherent found)
        (walk.respects.advanceCounter coherent)⟩
  | plain plain rest =>
    cases stands
    exact ⟨_, .mapped (congrFun (left.execStmt_plain plain _) _)
      (walk.respects.plainStmt (.of_all _) coherent (walk.inner issued found))⟩
  | loop opening body closing rest =>
    cases stands
    exact ⟨_, .mapped (walk.execStmt_for issued coherent found)
      (walk.respects.beginCounter (fun _ _ _ _ => trivial) coherent)⟩

section

variable (inStep : InStep history left right block root fuel)

include inStep

theorem atNext {frame : Frame}
    (found : root.At place .done ((frame :: outer).map Frame.toEnclosing))
    (limits : ∀ other ∈ frame :: outer, fuel + 1 ≤ other.limit + 1) :
    Agreeing history m
      (left.execFrom block (fuel + 1) place ((frame :: outer).map Frame.active))
      (right.runTree .done (fuel + 1) >>= right.unwind (frame :: outer)) := by
  obtain ⟨enough, limits⟩ := List.forall_mem_cons.mp limits
  have limits : ∀ frame ∈ outer, fuel ≤ frame.limit + 1 :=
    fun frame among => Nat.le_of_succ_le (limits frame among)
  refine walk.performed issued coherent found rfl ?_
  rw [right.runTree_done_unwind]
  simp only [Evaluator.unwind, Evaluator.finishLoop, Evaluator.endRound, Evaluator.runNext,
    bind_assoc]
  refine walk.respects.performing trivial coherent walk.stated
    (fun inv step => walk.execStmt_next ((looping history).code_step step issued) inv found)
    (fun inv _ => walk.respects.advanceCounter inv) fun result final inv step _ => ?_
  have issued := (looping history).code_step step issued
  match result with
  | .error reason => exact handedOn inv trivial rfl
  | .ok true =>
    exact inStep.round inv issued frame.toEnclosing found.again
      (Nat.le_of_succ_le_succ enough) limits
  | .ok false => exact inStep inv issued found.leave limits

theorem atPlain {stmt : Plain}
    (found : root.At place (.plain stmt rest) (frames.map Frame.toEnclosing))
    (limits : ∀ frame ∈ frames, fuel + 1 ≤ frame.limit + 1) : Agreeing history m
      (left.execFrom block (fuel + 1) place (frames.map Frame.active))
      (right.runTree (.plain stmt rest) (fuel + 1) >>= right.unwind frames) := by
  have limits : ∀ frame ∈ frames, fuel ≤ frame.limit + 1 :=
    fun frame among => Nat.le_of_succ_le (limits frame among)
  refine walk.performed issued coherent found rfl ?_
  simp only [Evaluator.runTree, bind_assoc]
  refine walk.respects.performing trivial coherent walk.stated
    (fun _ _ => congrFun (left.execStmt_plain stmt _) _)
    (fun inv step => walk.respects.plainStmt (.of_all _) inv
        (walk.inner ((looping history).code_step step issued) found))
    fun result final inv step good => ?_
  have issued := (looping history).code_step step issued
  match result with
  | .error reason => exact handedOn inv trivial rfl
  | .ok signal => exact inStep.signalled inv issued found limits (good signal rfl)

theorem atLoop {opening : Opening} {body : Folded} {closing : Closing}
    (found : root.At place (.loop opening body closing rest) (frames.map Frame.toEnclosing))
    (limits : ∀ frame ∈ frames, fuel + 1 ≤ frame.limit + 1) : Agreeing history m
      (left.execFrom block (fuel + 1) place (frames.map Frame.active))
      (right.runTree (.loop opening body closing rest) (fuel + 1) >>= right.unwind frames) := by
  have limits : ∀ frame ∈ frames, fuel ≤ frame.limit + 1 :=
    fun frame among => Nat.le_of_succ_le (limits frame among)
  refine walk.performed issued coherent found rfl ?_
  simp only [Evaluator.runTree, bind_assoc]
  refine walk.respects.performing trivial coherent walk.stated
    (fun inv step => walk.execStmt_for ((looping history).code_step step issued) inv found)
    (fun inv _ => walk.respects.beginCounter (fun _ _ _ _ => trivial) inv)
    fun result final inv step _ => ?_
  have issued := (looping history).code_step step issued
  match result with
  | .error reason => exact handedOn inv trivial rfl
  | .ok (counter, true) =>
    let loop : Enclosing := { closing, rest, body, binding := Folded.pairAt place body }
    simp only [bind_assoc]
    exact inStep.round inv issued loop found.body (Nat.le_refl fuel) limits
  | .ok (counter, false) =>
    have behind : place + 1 + body.length + 1 = place + body.length + 2 := by omega
    exact inStep inv issued (behind ▸ found.rest) limits

end

omit issued coherent in
theorem inStep (fuel : Nat) : InStep history left right block root fuel := by
  induction fuel with
  | zero =>
    intro m place tree frames coherent issued found limits
    rw [right.runTree_zero]
    exact .awaiting
  | succ fuel ih =>
    intro m place tree frames coherent issued found limits
    cases tree with
    | done =>
      cases frames with
      | nil => exact walk.atEnd issued coherent found
      | cons frame outer => exact walk.atNext issued coherent ih found limits
    | plain stmt rest => exact walk.atPlain issued coherent ih found limits
    | loop opening body closing rest =>
      exact walk.atLoop issued coherent ih found limits

theorem execBlock : Agreeing history m (left.execBlock block) (right.execTree block) := by
  have start : root.At 0 root (([] : List Frame).map Frame.toEnclosing) := .root
  have sound := walk.inStep left.fuel coherent issued start nofun
  unfold Evaluator.execTree
  rw [walk.folds, walk.respects.fuel]
  exact sound

end

end Walk

variable {settings : Settings} {host : Host}

/-- Two evaluators whose nested evaluations keep all code with its pairs respect that, if their
observers let every moment pass. -/
theorem looping_respects (hooks : (looping history).Hooks left right)
    (first : ∀ {moment m}, m.Coherent history → moment.isPlace = false →
      left.observe moment m = .ok () m)
    (second : ∀ moment m, right.observe moment m = .ok () m) :
    (looping history).Respects left right := by
  have exhausted {fault : Fault} {m : Machine} (fatal : left.Exhausted fault m) :
      (looping history).Cause fault := by
    rcases fatal with ⟨limit, _, rfl, _⟩ | ⟨limit, _, rfl, _⟩
    · exact ⟨nofun, nofun⟩
    · exact ⟨nofun, nofun⟩
  have observers : (looping history).Observers left right :=
    .passing (looping_united history) exhausted (fun inv other _ => first inv other) fun _ _ _ =>
      second _ _
  exact .of hooks (looping_scoping history).toSteady observers fun inv callable good done =>
    ⟨_, { bearing_entering inv callable good done with hooks }⟩

/-- An observer lets every moment pass at which all code is with its pairs; a block that goes on at
a place is within the loops around that place. -/
structure Unstopped (history : List Program) (observe : Moment → Exec Unit) : Prop where
  others : ∀ {moment m}, m.Coherent history → moment.isPlace = false → observe moment m = .ok () m
  placed : ∀ {m block root place tree} {frames : List Frame}, m.Coherent history →
    Issued history m.activation.loops block → block.fold = some root →
    root.At place tree (frames.map Frame.toEnclosing) →
    observe (.place block place (frames.map Frame.active)) m = .ok () m

section Levels

variable {observe : Moment → Exec Unit} {bound : Nat}

theorem structuredEvaluator_observe (moment : Moment) (m : Machine) :
    (structuredEvaluator settings host bound).observe moment m = .ok () m := by
  cases bound <;> rfl

section

variable (unstopped : Unstopped history observe)

include unstopped

section

variable (hooks : (looping history).Hooks (observedEvaluator observe settings host bound)
  (structuredEvaluator settings host bound))

include hooks

/-- An evaluator and the structured one respect that all code is with its pairs, if their nested
evaluations keep it. -/
theorem Unstopped.respects :
    (looping history).Respects (observedEvaluator observe settings host bound)
      (structuredEvaluator settings host bound) := by
  refine looping_respects hooks (fun coherent other => ?_) structuredEvaluator_observe
  rw [observedEvaluator_observe]
  exact unstopped.others coherent other

theorem Unstopped.walk (known : ∀ program ∈ history, program.IsPaired)
    (folds : block.fold = some root) : Walk history (observedEvaluator observe settings host bound)
      (structuredEvaluator settings host bound) block root where
  respects := unstopped.respects hooks
  known := known
  folds := folds
  placed coherent issued found := by
    rw [observedEvaluator_observe]
    exact unstopped.placed coherent issued folds found
  stated coherent := by
    refine .passing coherent ?_ (structuredEvaluator_observe _ _)
    rw [observedEvaluator_observe]
    exact unstopped.others coherent rfl

theorem Unstopped.execPaired (known : ∀ program ∈ history, program.IsPaired)
    (coherent : m.Coherent history) (issued : Issued history m.activation.loops block) :
      Agreeing history m ((observedEvaluator observe settings host bound).execBlock block)
      ((structuredEvaluator settings host bound).execTree block) := by
  obtain ⟨root, folds, _⟩ := coherent.paired issued known
  exact (unstopped.walk hooks known folds).execBlock issued coherent

end

theorem Unstopped.pairedHooks (honest : host.Honest) (known : ∀ program ∈ history, program.IsPaired)
    (bound : Nat) : (looping history).Hooks (observedEvaluator observe settings host bound)
      (structuredEvaluator settings host bound) := by
  induction bound with
  | zero =>
    exact {
      laws := bearing_laws _ honest
      host := rfl
      settings := rfl
      fuel := rfl
      eval := fun _ _ => .await
      exec := fun _ _ => .await }
  | succ bound hooks =>
    exact {
      laws := bearing_laws _ honest
      host := rfl
      settings := rfl
      fuel := rfl
      eval := fun fine inv => (unstopped.respects hooks).evalExpr fine inv
      exec := fun inv code => unstopped.execPaired hooks known inv code }

theorem Unstopped.execBlock (parsed : ∀ program ∈ history, program.IsParsed)
    (hooks : (looping history).Hooks (observedEvaluator observe settings host bound)
      (structuredEvaluator settings host bound)) (coherent : m.Coherent history)
    (issued : Issued history m.activation.loops block) : Agreeing history m
      ((observedEvaluator observe settings host bound).execBlock block)
      ((structuredEvaluator settings host bound).execTree block) :=
  unstopped.execPaired hooks (fun program among => (parsed program among).isPaired) coherent issued

theorem Unstopped.hooks (honest : host.Honest) (parsed : ∀ program ∈ history, program.IsParsed)
    (bound : Nat) :
    (looping history).Hooks (observedEvaluator observe settings host bound)
      (structuredEvaluator settings host bound) :=
  unstopped.pairedHooks honest (fun program among => (parsed program among).isPaired) bound

end

theorem unstopped_of_silent (history : List Program) : Unstopped history (fun _ => return) where
  others _ _ := rfl
  placed _ _ _ _ := rfl

end Levels

end Discipline

end MicroBasic
