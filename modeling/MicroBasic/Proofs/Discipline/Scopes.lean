import MicroBasic.Proofs.Discipline.Call

/-!
# Scopes keep a discipline

A call begins a scope and a `WITH` block narrows one; both end in whatever way their work ends, and
so do the blocks that wait for the end of a scope and the parts of a `TRY` statement. What they have
in common is that work is attempted, the machine is put back, and its outcome is taken up again. The
lemmas here are about such work and what follows it, since work that parted has no outcome that both
sides could go on with.
-/

namespace MicroBasic

/-- The places that the parameters of a function are made to stand for by its arguments, up to an
argument that does not have the type of its parameter. -/
def boundPlaces (heap : Heap) : List Param → List Arg → List Place
  | param :: params, arg :: args =>
    if param.variadic then []
    else if arg.value.hasType heap param.effectiveType then
      match arg.place, param.byRef with
      | some place, true => place :: boundPlaces heap params args
      | _, _ => boundPlaces heap params args
    else []
  | _, _ => []

theorem mem_of_mem_boundPlaces {heap : Heap} {params : List Param} {args : List Arg} {place : Place}
    (bound : place ∈ boundPlaces heap params args) : ∃ arg ∈ args, arg.place = some place := by
  induction params generalizing args with
  | nil => cases bound
  | cons param params ih =>
    cases args with
    | nil => cases bound
    | cons arg args =>
      have later (bound : place ∈ boundPlaces heap params args) :
          ∃ other ∈ arg :: args, other.place = some place := by
        obtain ⟨other, among, same⟩ := ih bound
        exact ⟨other, List.mem_cons_of_mem arg among, same⟩
      simp only [boundPlaces] at bound
      split at bound
      · cases bound
      · split at bound
        · split at bound
          · next found _ =>
            rcases List.mem_cons.mp bound with rfl | bound
            · exact ⟨arg, List.mem_cons_self, found⟩
            · exact later bound
          · exact later bound
        · cases bound

/-- The machine on which the body of a function runs whose caller's scope is parked. -/
def Machine.entering (parked : Machine) (overload : Overload) : Machine :=
  { parked with
    activation :=
      { deferred := [], journal := [], targets := [], loops := overload.loops
        depth := parked.activation.depth + 1 } }

theorem Machine.unpark_eq (m : Machine) : ∃ scope parked, m.unpark = { m with scope, parked } := by
  unfold Machine.unpark
  split <;> exact ⟨_, _, rfl⟩

/-- The machine after the body of a function, on which its caller goes on. -/
def Machine.leaving (final : Machine) (caller : Activation) : Machine :=
  { final.unpark with activation := { caller with depth := final.activation.depth - 1 } }

/-- A machine on which a waiting block begins to run. -/
def Machine.starting (m : Machine) (block : Deferred) (others : List Deferred) : Machine :=
  { m with
    activation :=
      { m.activation with
        deferred := others, journal := .begun block :: m.activation.journal
        loops := block.loops } }

/-- The machine after a waiting block, which goes on with the loops there were before. -/
def Machine.concluding (m : Machine) (result : Outcome) (loops : LoopsRef) : Machine :=
  { m with
    activation :=
      { m.activation with
        journal := .ended result :: m.activation.journal
        loops } }

/-- A machine whose waiting blocks are dropped. -/
def Machine.withoutDeferred (m : Machine) : Machine :=
  { m with activation := { m.activation with deferred := [] } }

theorem Exec.bind_eq_bind {m next : Machine} {α β : Type} {first second : Exec α}
    {rest : α → Exec β} (alike : first m = second next) :
    (first >>= rest) m = (second >>= rest) next := by
  simp only [Bind.bind, EStateM.bind, alike]

/-- An outcome that does not tell of an exhausted budget. -/
def Outcome.Unexhausted (outcome : Outcome) : Prop :=
  ∀ cause, outcome = .error cause → cause.isFatal = false

theorem Outcome.unexhausted_or (outcome : Outcome) :
    outcome.Unexhausted ∨ ∃ cause, outcome = .error cause ∧ cause.isFatal = true := by
  cases outcome with
  | ok signal => exact .inl nofun
  | error cause =>
    cases fatal : cause.isFatal with
    | true => exact .inr ⟨cause, rfl, fatal⟩
    | false =>
      refine .inl ?_
      rintro other ⟨⟩
      exact fatal

namespace Evaluator

variable (self : Evaluator) {β : Type} {outcome : Outcome} {rest : Outcome → Exec β} {m : Machine}

theorem drain_none {fuel : Nat} (waiting : m.activation.deferred = []) :
    (self.drain (fuel + 1) outcome >>= rest) m = rest outcome m := by
  simp only [drain, bind_assoc]
  simp only [Exec.get_bind, waiting]
  rfl

/-- How the end of a scope goes on after a waiting block has ended. -/
def drainAfter (fuel : Nat) (outcome : Outcome) (result : Outcome) : Exec Outcome :=
  match result with
  | .ok (.halt reason) => self.drain fuel (.ok (.halt reason))
  | .ok _ => self.drain fuel outcome
  | .error cause =>
    if cause.isFatal then do
      modify Machine.withoutDeferred
      return .error cause
    else self.drain fuel (.error cause)

theorem drainAfter_fatal {fuel : Nat} {cause : Break} (fatal : cause.isFatal = true) :
    (self.drainAfter fuel outcome (.error cause) >>= rest) m =
      rest (.error cause) m.withoutDeferred := by
  simp only [drainAfter, fatal, if_true, bind_assoc]
  rfl

theorem drain_some {fuel : Nat} {block : Deferred} {others : List Deferred}
    (waiting : m.activation.deferred = block :: others) :
    (self.drain (fuel + 1) outcome >>= rest) m =
      (Exec.attempt (self.exec block.body) >>= fun result => do
        modify (fun final => final.concluding result m.activation.loops)
        self.drainAfter fuel outcome result >>= rest) (m.starting block others) := by
  have begun : self.drain (fuel + 1) outcome m =
      (Exec.attempt (self.exec block.body) >>= fun result => do
        modify (fun final => final.concluding result m.activation.loops)
        self.drainAfter fuel outcome result) (m.starting block others) := by
    simp only [drain, Exec.get_bind, waiting]
    rfl
  rw [Exec.bind_eq_bind begun]
  simp only [bind_assoc]

theorem finishScope_fatal {cause : Break} (fatal : cause.isFatal = true) :
    (self.finishScope (.error cause) >>= rest) m = rest (.error cause) m.withoutDeferred := by
  simp only [finishScope, fatal, if_true, bind_assoc]
  rfl

theorem finishScope_drain (ordinary : outcome.Unexhausted) :
    self.finishScope outcome = self.drain self.fuel outcome := by
  match outcome with
  | .ok _ => rfl
  | .error cause => simp [finishScope, ordinary cause rfl]

/-- A budget is exhausted: by one statement or call more than it allows. -/
def Exhausted (fault : Fault) (m : Machine) : Prop :=
  (∃ limit, self.settings.maxSteps = some limit ∧ fault = .stepBudget limit ∧ limit < m.steps) ∨
  ∃ limit, self.settings.maxCallDepth = limit ∧ fault = .callDepth limit ∧
    limit ≤ m.activation.depth

/-- The bound on the work is such that some block fails within it. -/
def Fails : Prop :=
  ∃ block m error final, self.exec block m = .error (.broken (.error error)) final

/-- Calling a declared function, once the observer knows of it. -/
def called (overload : Overload) (args : List Arg) : Exec Value := do
  let limit := self.settings.maxCallDepth
  if limit ≤ (← get).activation.depth then self.exhaust (.callDepth limit)
  else
    let signal ← Exec.resume (← self.runBody overload args)
    let value ← resultOf overload.decl signal
    match overload.decl.returnType with
    | some type => Exec.checkType value type s!"{overload.name} return value"
    | none => pure ()
    return value

theorem callUser_eq (overload : Overload) (args : List Arg) :
    self.callUser overload args = (do
      self.observe (.call overload args)
      self.called overload args) := rfl

theorem runBody_refused {overload : Overload} {args : List Arg} {fault : Fault}
    (refused : m.park = .error fault) :
    (self.runBody overload args >>= rest) m = .error (.broken (.error (.unplaced fault))) m := by
  simp only [runBody, bind_assoc, Exec.change, Exec.ask]
  simp only [Exec.get_bind, refused]
  rfl

theorem runBody_parked {overload : Overload} {args : List Arg} {parked : Machine}
    (done : m.park = .ok parked) : (self.runBody overload args >>= rest) m =
      (Exec.attempt (do
        self.bindParams overload.name overload.params args
        self.exec overload.decl.body) >>= fun outcome =>
          self.finishScope outcome >>= fun outcome => do
            modify (fun final => final.leaving parked.activation)
            rest outcome) (parked.entering overload) := by
  simp only [runBody, bind_assoc, Exec.change, Exec.ask, pure_bind]
  simp only [Exec.get_bind, done]
  rfl

end Evaluator

/-- Whether a statement declares a function, an accessor of a property or a record type. -/
def Stmt.isDeclaration (stmt : Stmt) : Bool :=
  match stmt.kind with
  | .function _ => true
  | .property _ => true
  | .type _ => true
  | _ => false

namespace Discipline

/-- Counting statements and opening `WITH` blocks keeps a discipline, and what is put back after
work does not bring parted work together. -/
structure Steady (D : Discipline) : Prop where
  counted : ∀ {m}, D.Inv m → D.Keeps m { m with steps := m.steps + 1 }
  targeted : ∀ {m} (targets), D.Inv m → (∀ value ∈ targets, D.Val value) →
    D.Keeps m (m.withTargets targets)
  /-- Work parts by an error only if a budget is exhausted. -/
  parted_fatal : ∀ {left leftMachine error rightMachine},
    D.Parted left leftMachine (.broken (.error error)) rightMachine →
      (Break.error error).isFatal = true := by exact False.elim
  parted_activation : ∀ {left leftMachine right rightMachine activation},
    D.Parted left leftMachine right rightMachine →
      D.Parted left leftMachine right { rightMachine with activation } := by exact False.elim
  parted_unpark :
    ∀ {left leftMachine right rightMachine}, D.Parted left leftMachine right rightMachine →
      D.Parted left leftMachine right rightMachine.unpark := by exact False.elim

/-- Ending scopes keeps a discipline. -/
structure Draining (D : Discipline) : Prop extends Steady D where
  emptied : ∀ {m}, D.Inv m → D.Keeps m m.withoutDeferred
  started : ∀ {m block others}, D.Inv m →
    m.activation.deferred = block :: others →
    D.Inv (m.starting block others) ∧ D.Code (m.starting block others) block.body
  ended : ∀ {m block others final} (result), D.Inv m →
    m.activation.deferred = block :: others → D.Inv final →
    D.Step (m.starting block others) final →
    D.Keeps m (final.concluding result m.activation.loops)

/-- Noting that the declarations of a block were registered beforehand keeps a discipline. -/
structure Registering (D : Discipline) (block : Block) : Prop where
  noted : ∀ {m stmt}, stmt ∈ block → stmt.isDeclaration = true → D.Inv m →
    D.Keeps m { m with hoisted := stmt.id :: m.hoisted }

/-- Beginning and ending scopes keeps a discipline, also that of a program, whatever it declares. -/
structure Scoping (D : Discipline) : Prop extends Draining D where
  hoisted : ∀ {m ids}, D.Inv m → D.Keeps m { m with hoisted := ids }

theorem Scoping.registering {D : Discipline} (S : D.Scoping) (block : Block) :
    D.Registering block :=
  ⟨fun _ _ inv => S.hoisted inv⟩

/-- The observers of two evaluators keep a discipline. -/
structure Observers (D : Discipline) (left right : Evaluator) : Prop where
  expression : ∀ {m expr}, D.Inv m →
    D.Sound m Free (left.observe (.expression expr)) (right.observe (.expression expr))
  call : ∀ {m overload args}, D.Inv m → D.Callable overload →
    D.GoodArgs args m →
    D.Sound m Free (left.observe (.call overload args)) (right.observe (.call overload args))
  cleanUp : ∀ {m block outcome}, D.Inv m → D.GoodEnd D.GoodSignal outcome m →
    D.Sound m Free (left.observe (.cleanUp block outcome)) (right.observe (.cleanUp block outcome))
  exhaust : ∀ {α : Type} {Good : α → Machine → Prop} {m fault}, D.Inv m →
    left.Exhausted fault m → D.Sound m Good (left.exhaust fault) (right.exhaust fault)
  /-- Work that parted by an error is not brought together by a clean-up after that error. -/
  cleanUp_parted : ∀ {m escape leftMachine error rightMachine} (block), right.Fails →
    D.Parted escape leftMachine (.broken (.error error)) rightMachine →
    D.Agree m D.GoodSignal (.error escape leftMachine)
      (right.cleanUp (some block) (.error (.error error)) rightMachine)

variable {D E : Discipline} {left right : Evaluator} {m start : Machine} {β : Type}
  {Last : β → Machine → Prop} {leftRest rightRest : Outcome → Exec β}

section

variable (nested : Nested D E) (H : E.Hooks left right) (S : E.Draining) {outcome : Outcome}
    (inv : E.Inv start)
  (good : E.GoodEnd E.GoodSignal outcome start)
  (rest : ∀ outcome final, E.Inv final → E.Step start final → E.GoodEnd E.GoodSignal outcome final →
    D.Agree m Last (leftRest outcome final) (rightRest outcome final))
  (parted : ∀ {escape leftMachine error rightMachine},
    E.Parted escape leftMachine (.broken (.error error)) rightMachine →
        D.Agree m Last (.error escape leftMachine) (rightRest (.error (.error error)) rightMachine))

include nested H S inv good rest parted

theorem Agree.drain {fuel : Nat} :
    D.Agree m Last ((left.drain fuel outcome >>= leftRest) start)
      ((right.drain fuel outcome >>= rightRest) start) := by
  -- Every waiting block is work of its own; the rest of the queue follows it from where it ended.
  induction fuel generalizing start outcome with
  | zero => exact .awaiting
  | succ fuel ih =>
    cases waiting : start.activation.deferred with
    | nil =>
      rw [left.drain_none waiting, right.drain_none waiting]
      exact rest outcome start inv (E.step_refl start) good
    | cons block others =>
      rw [left.drain_some waiting, right.drain_some waiting]
      obtain ⟨entered, code⟩ := S.started inv waiting
      refine Agree.attempt nested (H.exec entered code)
        (fun result final kept step ended => .changed ?_) fun _ differ => ?_
      · obtain ⟨kept, step⟩ := S.ended result inv waiting kept step
        have onward (outcome : Outcome)
            (good : E.GoodEnd E.GoodSignal outcome
                (final.concluding result start.activation.loops)) :=
          ih kept good fun outcome last kept later =>
            rest outcome last kept (E.step_trans step later)
        match result with
        | .ok (.halt reason) => exact onward (.ok (.halt reason)) trivial
        | .ok .done => exact onward outcome good
        | .ok (.jump _) => exact absurd ended id
        | .ok (.returned _) | .ok (.exit _) | .ok (.continued _) => exact onward outcome good
        | .error cause =>
          simp only [Evaluator.drainAfter]
          split
          · obtain ⟨kept, later⟩ := S.emptied kept
            exact rest (.error cause) _ kept (E.step_trans step later) ended
          · exact onward (.error cause) ended
      · rw [Exec.modify_bind, right.drainAfter_fatal (S.parted_fatal differ)]
        exact parted (S.parted_activation (S.parted_activation differ))

theorem Agree.finishScope :
    D.Agree m Last ((left.finishScope outcome >>= leftRest) start)
      ((right.finishScope outcome >>= rightRest) start) := by
  rcases outcome.unexhausted_or with ordinary | ⟨cause, rfl, fatal⟩
  · rw [left.finishScope_drain ordinary, right.finishScope_drain ordinary, H.fuel]
    exact Agree.drain nested H S inv good rest parted
  · rw [left.finishScope_fatal fatal, right.finishScope_fatal fatal]
    obtain ⟨kept, step⟩ := S.emptied inv
    exact rest (.error cause) _ kept step good

end

variable {args : List Arg}

/-- Binding parameters to arguments. The places bound are among those of `bound`. -/
theorem Hooks.bindParams {params : List Param} {function : String} (H : D.Hooks left right)
    {bound : List Place}
    (bindLocal : ∀ {m name value}, D.Inv m → D.Val value → D.Keeps m (m.bindLocal name value))
    (bindPlace : ∀ {m name place}, D.Inv m → D.Step start m → place ∈ bound →
      D.Keeps m (m.bindPlace name place))
    (fine : ∀ expr ∈ params.filterMap Param.default, expr.Among D.Known)
    (inv : D.Inv m) (begun : D.Step start m) (values : ∀ arg ∈ args, D.Val arg.value)
    (places : ∀ place ∈ boundPlaces m.heap params args, place ∈ bound) :
    D.Sound m Free (left.bindParams function params args)
      (right.bindParams function params args) := by
  induction params generalizing args m with
  | nil => exact .pure inv trivial
  | cons param params ih =>
    have others : ∀ expr ∈ params.filterMap Param.default, expr.Among D.Known := fun expr among =>
      fine expr (((List.sublist_cons_self param params).filterMap _).subset among)
    -- However a parameter is bound, the others follow; binding it does not change the heap.
    have onward {m : Machine} {change : Machine → Machine} {args : List Arg}
        (begun : D.Step start m) (same : (change m).heap = m.heap)
        (kept : D.Keeps m (change m))
        (values : ∀ arg ∈ args, D.Val arg.value)
        (places : ∀ place ∈ boundPlaces m.heap params args, place ∈ bound) :
        D.Sound m Free (do modify change; left.bindParams function params args)
          (do modify change; right.bindParams function params args) := by
      refine .changing kept.2 (ih others kept.1 (D.step_trans begun kept.2) values ?_)
      rw [same]
      exact places
    have nothing : ∀ arg ∈ ([] : List Arg), D.Val arg.value := by simp
    have nowhere {heap : Heap} : ∀ place ∈ boundPlaces heap params [], place ∈ bound := by
      cases params <;> simp [boundPlaces]
    simp only [Evaluator.bindParams]
    split
    · have collected : ∀ item ∈ (args.map Arg.value).toArray, D.Val item := by
        intro item among
        obtain ⟨arg, held, rfl⟩ := List.mem_map.mp (List.mem_toArray.mp among)
        exact values arg held
      refine (H.laws.newArray inv collected).bind fun rest next inv step known => ?_
      exact onward (D.step_trans begun step) rfl (bindLocal inv known) nothing nowhere
    · next fixed =>
      cases args with
      | nil =>
        have own (expr : Expr) (given : param.default = some expr) : expr.Among D.Known :=
          fine expr (List.mem_filterMap.mpr ⟨param, List.mem_cons_self, given⟩)
        refine (H.defaultOf own inv).bind fun value next inv step known => ?_
        refine (H.laws.checkType inv).bind fun _ next inv later _ => ?_
        exact onward (D.step_trans (D.step_trans begun step) later) rfl
          (bindLocal inv known) nothing nowhere
      | cons arg args =>
        have known := values arg List.mem_cons_self
        have values : ∀ other ∈ args, D.Val other.value :=
          fun other among => values other (List.mem_cons_of_mem arg among)
        refine .asked inv (fun fault failed => ?_) fun _ passed => ?_
        · exact H.laws.ordinary (Value.ordinary_checkType _ _ _ _ fault failed)
        simp only [boundPlaces, if_neg fixed, Value.hasType_of_checkType passed, if_true] at places
        cases taken : arg.place with
        | none =>
          simp only [taken] at places
          exact onward begun rfl (bindLocal inv known) values places
        | some place =>
          cases flag : param.byRef with
          | false =>
            simp only [taken, flag] at places
            exact onward begun rfl (bindLocal inv known) values places
          | true =>
            simp only [taken, flag] at places
            exact onward begun rfl (bindPlace inv begun (places place List.mem_cons_self)) values
              fun other among => places other (List.mem_cons_of_mem place among)

/-- The body of a function keeps the discipline `E` on the machine it is entered on, and coming back
from it keeps the discipline `D` of its caller. -/
structure Entering (D E : Discipline) (caller parked : Machine) (overload : Overload)
    (args : List Arg) : Prop where
  nested : Nested D E
  draining : E.Draining
  entered : E.Inv (parked.entering overload)
  code : E.Code (parked.entering overload) overload.decl.body
  defaults : ∀ expr ∈ overload.params.filterMap Param.default, expr.Among E.Known := by
    exact fun _ _ _ _ => trivial
  values : ∀ arg ∈ args, E.Val arg.value
  bindLocal : ∀ {m name value}, E.Inv m → E.Val value → E.Keeps m (m.bindLocal name value)
  bindPlace : ∀ {m name place}, E.Inv m → E.Step (parked.entering overload) m →
    place ∈ boundPlaces parked.heap overload.params args →
    E.Keeps m (m.bindPlace name place)
  left : ∀ {final}, E.Inv final → E.Step (parked.entering overload) final →
    D.Keeps caller (final.leaving parked.activation)

/-- The body of a function is entered under a discipline that nested evaluation keeps. -/
structure Entry (D E : Discipline) (first second : Evaluator) (caller parked : Machine)
    (overload : Overload) (args : List Arg) : Prop extends
    Entering D E caller parked overload args where
  hooks : E.Hooks first second

theorem Entry.runBody {parked : Machine} {overload : Overload}
    (entry : Entry D E left right start parked overload args) (done : start.park = .ok parked)
    (rest : ∀ outcome final, D.Inv final → D.Step start final →
      D.GoodEnd D.GoodSignal outcome final →
      D.Agree m Last (leftRest outcome final) (rightRest outcome final))
    (parted : ∀ {escape leftMachine error rightMachine},
      D.Parted escape leftMachine (.broken (.error error)) rightMachine →
        D.Agree m Last (.error escape leftMachine)
          (rightRest (.error (.error error)) rightMachine)) :
    D.Agree m Last ((left.runBody overload args >>= leftRest) start)
      ((right.runBody overload args >>= rightRest) start) := by
  rw [left.runBody_parked done, right.runBody_parked done]
  have leaves {escape : Escape} {error : RuntimeError} {leftMachine rightMachine : Machine}
      (differ : E.Parted escape leftMachine (.broken (.error error)) rightMachine) :
      D.Agree m Last (.error escape leftMachine)
        (rightRest (.error (.error error)) (rightMachine.leaving parked.activation)) :=
    parted (entry.nested.parted
      (entry.draining.parted_activation (entry.draining.parted_unpark differ)))
  have body : E.Sound (parked.entering overload) E.GoodSignal
      (do
        left.bindParams overload.name overload.params args
        left.exec overload.decl.body)
      (do
        right.bindParams overload.name overload.params args
        right.exec overload.decl.body) := by
    refine (entry.hooks.bindParams entry.bindLocal entry.bindPlace entry.defaults entry.entered
      (E.step_refl _) entry.values fun place among => among).bind fun _ next inv step _ => ?_
    exact entry.hooks.exec inv (E.code_step step entry.code)
  refine Agree.attempt entry.nested body (fun outcome final kept step good => ?_) fun _ differ => ?_
  · refine Agree.finishScope entry.nested entry.hooks entry.draining kept good
      (fun outcome last kept later good => .changed ?_) fun differ => leaves differ
    obtain ⟨kept, step⟩ := entry.left kept (E.step_trans step later)
    exact rest outcome _ kept step (entry.nested.goodEnd good)
  · rw [right.finishScope_fatal (entry.draining.parted_fatal differ)]
    exact leaves (entry.draining.parted_activation differ)

theorem Makes.called {overload : Overload} (M : D.Makes) (settings : right.settings = left.settings)
    (inv : D.Inv m)
    (exhaust : ∀ {fault}, left.Exhausted fault m →
      D.Sound m D.GoodValue (left.exhaust fault) (right.exhaust fault))
    (entry : ∀ {parked}, m.park = .ok parked → ∃ E, Entry D E left right m parked overload args) :
    D.Sound m D.GoodValue (left.called overload args) (right.called overload args) := by
  have result {signal : Signal} {m : Machine} (inv : D.Inv m)
      (good : D.GoodSignal signal m) :
      D.Sound m D.GoodValue
        (do
          let value ← Evaluator.resultOf overload.decl signal
          match overload.decl.returnType with
          | some type => Exec.checkType value type s!"{overload.name} return value"
          | none => Pure.pure ()
          return value)
        (do
          let value ← Evaluator.resultOf overload.decl signal
          match overload.decl.returnType with
          | some type => Exec.checkType value type s!"{overload.name} return value"
          | none => Pure.pure ()
          return value) := by
    refine (M.resultOf inv good).bind fun value next inv step known => ?_
    split
    · exact (M.checkType inv).bind fun _ next inv step _ => .pure inv known
    · exact .pure inv known
  unfold Evaluator.called
  rw [settings]
  refine .get ?_
  split
  · next deep =>
    exact exhaust (.inr ⟨_, rfl, rfl, deep⟩)
  · cases parks : m.park with
    | error fault =>
      unfold Sound
      rw [left.runBody_refused parks, right.runBody_refused parks]
      exact .error inv (D.step_refl m) (allows_unplaced (M.ordinary (m.ordinary_park fault parks)))
    | ok parked =>
      obtain ⟨E, entry⟩ := entry parks
      refine entry.runBody parks (fun outcome final kept step good => ?_) fun differ =>
        .parted differ
      exact ((Sound.resume kept good).bind fun signal last kept later good =>
        result kept good).after step

namespace Hooks

theorem tick (H : D.Hooks left right) (S : D.Steady) (O : D.Observers left right) (inv : D.Inv m) :
    D.Sound m (fun _ => left.WithinBudget) left.tick right.tick := by
  obtain ⟨kept, step⟩ := S.counted inv
  unfold Evaluator.tick
  rw [H.settings]
  refine .get (.changing step ?_)
  split
  · next limit limited =>
    split
    · next exceeded =>
      exact O.exhaust kept (.inl ⟨limit, limited, rfl, exceeded⟩)
    · next within =>
      refine .pure kept fun other same => ?_
      rw [limited] at same
      cases same
      exact Nat.not_lt.mp within
  · next unlimited =>
    refine .pure kept fun other same => ?_
    rw [unlimited] at same
    cases same

theorem withStmt {body : Block} {target : Expr} (H : D.Hooks left right) (S : D.Steady)
    (fine : target.Among D.Known) (inv : D.Inv m) (code : D.Code m body) :
    D.Sound m D.GoodSignal (left.withStmt target body) (right.withStmt target body) := by
  refine (H.eval fine inv).bind fun value next inv step known => ?_
  have open_ {m : Machine} (inv : D.Inv m) : ∀ other ∈ m.activation.targets, D.Val other :=
    fun _ => H.laws.targets inv
  obtain ⟨entered, later⟩ := S.targeted _ inv (List.forall_mem_cons.mpr ⟨known, open_ inv⟩)
  refine Agree.changed (Agree.attempt (.refl D)
    (H.exec entered (D.code_step later (D.code_step step code)))
    (fun outcome final kept last good => .changed ?_) fun _ differ => ?_)
  · obtain ⟨kept, closed⟩ :=
      S.targeted _ kept fun other among => open_ kept other (List.mem_of_mem_tail among)
    exact (Sound.resume kept good).after (D.step_trans later (D.step_trans last closed))
  · exact .parted (S.parted_activation differ)

theorem cleanUp (H : D.Hooks left right) (O : D.Observers left right) {cleanup : Option Block}
    {outcome : Outcome} (inv : D.Inv m) (good : D.GoodEnd D.GoodSignal outcome m)
    (code : ∀ block, cleanup = some block → D.Code m block) :
    D.Sound m D.GoodSignal (left.cleanUp cleanup outcome) (right.cleanUp cleanup outcome) := by
  cases cleanup with
  | none => exact .resume inv good
  | some block =>
    refine (O.cleanUp inv good).bind fun _ next inv step _ => ?_
    refine (H.exec inv (D.code_step step (code block rfl))).bind fun signal final inv step own => ?_
    match signal with
    | .done => exact .resume inv good
    | .jump _ => exact absurd own id
    | .halt _ | .returned _ | .exit _ | .continued _ => exact .pure inv own

variable {cleanup : Option Block} {error : RuntimeError}

theorem cleanUp_parted {escape : Escape} {leftMachine rightMachine : Machine}
    (O : D.Observers left right) (fails : right.Fails)
    (differ : D.Parted escape leftMachine (.broken (.error error)) rightMachine) :
    D.Agree m D.GoodSignal (.error escape leftMachine)
      (right.cleanUp cleanup (.error (.error error)) rightMachine) := by
  cases cleanup with
  | none => exact .parted differ
  | some block => exact O.cleanUp_parted block fails differ

theorem enterHandler {clause : CatchClause Block} (H : D.Hooks left right) (inv : D.Inv m) :
    D.Sound m Free (Evaluator.enterHandler clause error) (Evaluator.enterHandler clause error) := by
  unfold Evaluator.enterHandler
  cases clause.errorName with
  | none => exact .pure inv trivial
  | some name =>
    have texts : ∀ field ∈ (Evaluator.errorRecord error).fields, D.Val field.2 := by
      simp [Evaluator.errorRecord, H.laws.number, H.laws.text]
    refine (H.laws.newRecord inv texts rfl).bind fun record next inv step known => ?_
    refine .change inv (fun fault failed => ?_) fun final assigned => ?_
    · exact H.laws.ordinary (next.ordinary_setVariable name record fault failed)
    · exact H.laws.setVariable inv known assigned

theorem handle (H : D.Hooks left right) (O : D.Observers left right) {clause : CatchClause Block}
    (inv : D.Inv m) (code : D.Code m clause.body)
    (cleanupCode : ∀ block, cleanup = some block → D.Code m block) :
    D.Sound m D.GoodSignal
      (do
        let outcome ← left.handle clause error
        left.cleanUp cleanup outcome)
      (do
        let outcome ← right.handle clause error
        right.cleanUp cleanup outcome) := by
  have handled {next : Machine} (inv : D.Inv next) (step : D.Step m next) :
    D.Sound next D.GoodSignal
        (do
          let outcome ← Exec.attempt (left.exec clause.body)
          left.cleanUp cleanup outcome)
        (do
          let outcome ← Exec.attempt (right.exec clause.body)
          right.cleanUp cleanup outcome) := by
    refine Agree.attempt (.refl D) (H.exec inv (D.code_step step code))
      (fun outcome final kept later good => ?_) fun ended differ => ?_
    · have kept := H.cleanUp O kept good fun block same =>
        D.code_step (D.step_trans step later) (cleanupCode block same)
      exact kept.after later
    · exact cleanUp_parted O ⟨clause.body, next, _, _, ended⟩ differ
  unfold Evaluator.handle
  simp only [bind_assoc]
  exact (H.enterHandler inv).bind fun _ next inv step _ => handled inv step

theorem tryStmt (H : D.Hooks left right) (S : D.Steady) (O : D.Observers left right) {body : Block}
    {handler : Option (CatchClause Block)} (inv : D.Inv m)
    (code : D.Code m body)
    (handlerCode : ∀ clause, handler = some clause → D.Code m clause.body)
    (cleanupCode : ∀ block, cleanup = some block → D.Code m block) :
    D.Sound m D.GoodSignal (left.tryStmt body handler cleanup)
      (right.tryStmt body handler cleanup) := by
  refine Agree.attempt (.refl D) (H.exec inv code) (fun outcome final kept step good => ?_)
    fun {escape leftMachine error rightMachine} _ differ => ?_
  · have cleaned :=
      H.cleanUp O kept good fun block same => D.code_step step (cleanupCode block same)
    cases outcome with
    | ok signal => exact cleaned.after step
    | error cause =>
      dsimp only
      split
      · cases cause with
        | error error => exact .error kept step good
        | halt reason => exact .halt kept step
      · cases handler with
        | none => exact cleaned.after step
        | some clause =>
          refine Agree.after step (H.handle O kept ?_ fun block same => ?_)
          · exact D.code_step step (handlerCode clause rfl)
          · exact D.code_step step (cleanupCode block same)
  · dsimp only
    rw [if_pos (S.parted_fatal differ)]
    exact .parted differ

end Hooks

/-- Two evaluators respect a discipline if their nested evaluations keep it, beginning and ending
scopes does, their observers do, and calling a function does. -/
theorem Respects.of (H : D.Hooks left right) (S : D.Steady) (O : D.Observers left right)
    (entry : ∀ {m parked overload args}, D.Inv m → D.Callable overload → D.GoodArgs args m →
      m.park = .ok parked →
      ∃ E, Entry D E left right m parked overload args) : D.Respects left right where
  toHooks := H
  expression := O.expression
  tick := H.tick S O
  callUser inv callable good :=
    (O.call inv callable good).bind fun _ _ inv step _ =>
      H.laws.called H.settings inv (O.exhaust inv) fun parks =>
        entry inv callable (good.after step) parks
  tryStmt := H.tryStmt S O
  withStmt := H.withStmt S

end Discipline

end MicroBasic
