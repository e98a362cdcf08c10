import MicroBasic.Proofs.Concord.Stmt

/-!
# Blocks, scopes and programs of several evaluators

A block counts its first statement before it does anything else, so what is inside of it has one
statement less to spend. A function is one call deeper than its caller. The end of a scope runs the
blocks that wait: each of them counts a statement, or else leaves fewer blocks waiting than before.
-/

namespace MicroBasic

/-- The outcome of a waiting block that takes the place of the one so far, if it does. -/
def DeferEvent.breaking? : DeferEvent → Option Outcome
  | ended (.ok (.halt reason)) => some (.ok (.halt reason))
  | ended (.error cause) => some (.error cause)
  | _ => none

namespace Evaluator

variable {self : Evaluator} {outcome : Outcome} {m : Machine}

theorem drain_idle {fuel : Nat} (waiting : m.activation.deferred = []) :
    self.drain (fuel + 1) outcome m = .ok outcome m := by
  have idle := @drain_none self _ outcome pure m fuel waiting
  rw [bind_pure] at idle
  exact idle

theorem drain_waiting {block : Deferred} {others : List Deferred} {fuel : Nat}
    (waiting : m.activation.deferred = block :: others) :
    self.drain (fuel + 1) outcome m = (Exec.attempt (self.exec block.body) >>= fun result => do
        modify (fun final => final.concluding result m.activation.loops)
        self.drainAfter fuel outcome result) (m.starting block others) := by
  have taken := @drain_some self _ outcome pure m fuel block others waiting
  simp only [bind_pure] at taken
  exact taken

theorem drainAfter_exhausted {cause : Break} {fuel : Nat} (fatal : cause.isFatal = true) :
    self.drainAfter fuel outcome (.error cause) m = .ok (.error cause) m.withoutDeferred := by
  have stops := @drainAfter_fatal self _ outcome pure m fuel cause fatal
  rw [bind_pure] at stops
  exact stops

theorem finishScope_exhausted {cause : Break} (fatal : cause.isFatal = true) :
    self.finishScope (.error cause) m = .ok (.error cause) m.withoutDeferred := by
  have stops := @finishScope_fatal self _ pure m cause fatal
  rw [bind_pure] at stops
  exact stops

theorem drainAfter_ordinary {result : Outcome} {fuel : Nat} (ordinary : result.Unexhausted) :
    self.drainAfter fuel outcome result =
      self.drain fuel ((DeferEvent.ended result).breaking?.getD outcome) := by
  match result with
  | .ok .done => rfl
  | .ok (.jump _) => rfl
  | .ok (.halt _) => rfl
  | .ok (.returned _) => rfl
  | .ok (.exit _) => rfl
  | .ok (.continued _) => rfl
  | .error cause => simp [drainAfter, ordinary cause rfl, DeferEvent.breaking?]

theorem runBody_scope {parked : Machine} {overload : Overload} {args : List Arg}
    (done : m.park = .ok parked) : self.runBody overload args m = ((Exec.attempt (do
        self.bindParams overload.name overload.params args
        self.exec overload.decl.body) >>= self.finishScope) >>= fun outcome => do
          modify (fun final => final.leaving m.activation) return outcome)
            (parked.entering overload) := by
  have entered := @runBody_parked self _ pure m overload args parked done
  rw [bind_pure, (Machine.control_of_park done).1] at entered
  rw [entered, bind_assoc]

end Evaluator

theorem Machine.grows_of_park {m parked : Machine} (done : m.park = .ok parked) :
    m.Grows parked ∧ m.world.SameSources parked.world ∧
      parked.activation = m.activation ∧ parked.parked = m.parked ++ [m.scope] := by
  obtain ⟨vars, _, done⟩ := Results.of_bind done
  cases done
  exact ⟨⟨Nat.le_refl _, .refl _⟩, ⟨rfl, rfl⟩, rfl, rfl⟩

theorem Machine.grows_leaving (final : Machine) (caller : Activation) :
    final.Grows (final.leaving caller) ∧
      final.world.SameSources (final.leaving caller).world := by
  unfold leaving unpark
  split
  · exact ⟨⟨Nat.le_refl _, .refl _⟩, rfl, rfl⟩
  · exact ⟨⟨Nat.le_refl _, .refl _⟩, rfl, rfl⟩

theorem Machine.activation_leaving {overload : Overload} {m parked final : Machine}
    (done : m.park = .ok parked) (framed : (parked.entering overload).Framed final) :
    (final.leaving m.activation).activation = m.activation := by
  show { m.activation with depth := final.activation.depth - 1 } = m.activation
  rw [framed.depth, ← (grows_of_park done).2.2.1]
  rfl

theorem Machine.onward_of_leaving {overload : Overload} {m parked final : Machine}
    (done : m.park = .ok parked) (framed : (parked.entering overload).Framed final) :
    m.Onward (final.leaving m.activation) := by
  obtain ⟨grown, _, _, behind⟩ := grows_of_park done
  have frames : final.parked.map Scope.places = m.parked.map Scope.places ++ [m.scope.places] := by
    rw [framed.frames]
    show parked.parked.map Scope.places = _
    rw [behind, List.map_append, List.map_singleton]
  have grows : m.Grows final :=
    ⟨Nat.le_trans grown.steps framed.steps, grown.console.trans framed.console⟩
  rcases List.eq_nil_or_concat final.parked with unparked | ⟨outer, scope, last⟩
  · rw [unparked] at frames
    exact absurd frames.symm (by simp)
  · rw [List.concat_eq_append] at last
    rw [last, List.map_append, List.map_singleton] at frames
    obtain ⟨same, own⟩ := List.append_inj' frames rfl
    have left : final.leaving m.activation =
        { final with scope, parked := outer, activation := m.activation } := by
      have back := activation_leaving done framed
      unfold leaving unpark at back ⊢
      rw [last, List.getLast?_concat, List.dropLast_concat] at back ⊢
      exact congrArg (fun activation => { final with scope, parked := outer, activation }) back
    rw [left]
    exact ⟨⟨⟨⟨grows.steps, grows.console⟩, same, rfl⟩, List.singleton_inj.mp own, rfl, rfl⟩,
      .of_activation rfl⟩

theorem Evaluator.perform_bind (self : Evaluator) {α β : Type} (stmt : Stmt) (work : Exec α)
    (rest : Except HaltReason α → Exec β) :
    self.perform stmt work >>= rest =
      (do
        Exec.placed stmt.token self.tick
        self.observe (.statement stmt)) >>= fun _ =>
          Exec.halting (Exec.placed stmt.token work) >>= rest := by
  simp only [perform, bind_assoc]

namespace Concord

variable {ι : Type} {C : Concord ι} {family : ι → Evaluator} {host : Host} {limit : Nat}
  {Ok Inner : Machine → Prop} {m : Machine}

theorem Keeps.counted {next : Machine} {α : Type} {work : ι → Exec α} (step : m.Onward next)
    (spent : C.Spent m next) (keeps : C.Keeps next work) :
    C.Holds next (fun _ => C.Reaches m) (C.BreaksOff m) (fun i => work i next) := by
  refine C.weaken keeps (fun _ final later => ?_) fun _ final later => ?_
  · exact ⟨step.trans later, .inr (C.spent_after spent later.toGrows)⟩
  · exact ⟨step.trans later, fun _ => .inr (C.spent_after spent later.toGrows)⟩

theorem Setting.counting (S : C.Setting family host limit Ok) {α : Type} (stmt : Stmt)
    {rest : ι → Unit → Exec α} (ok : Ok m)
    (onward : ∀ next, m.Onward next → C.Spent m next → C.Keeps next (fun i => rest i ())) :
    C.Runs m (fun i =>
      (do
        Exec.placed stmt.token (family i).tick
        (family i).observe (.statement stmt)) >>= rest i) := by
  have counted : C.Holds m (fun _ final => m.Onward final ∧ C.Spent m final)
      (C.BreaksOff m) (fun i => (do
        Exec.placed stmt.token (family i).tick
        (family i).observe (.statement stmt)) m) := by
    refine C.weaken (S.counts stmt ok) (fun _ _ kept => kept) fun cause final kept => ⟨kept.1, ?_⟩
    intro ordinary
    rw [kept.2] at ordinary
    cases ordinary
  exact C.bind counted fun _ next kept => (onward next kept.1 kept.2).counted kept.1 kept.2

theorem Setting.execFrom (S : C.Setting family host limit Ok)
    (inner : C.Serves family host limit Inner (fun _ => True))
    (enters : ∀ {m next}, Ok m → m.Onward next → C.Spent m next → Inner next) {block : Block}
    {fuels : ι → Nat} (room : C.Room fuels) (place : Nat) (loops : List ActiveLoop) (ok : Ok m) :
    C.Runs m (fun i => (family i).execFrom block (fuels i) place loops) := by
  have rounds := @C.rounds Signal (Nat × List ActiveLoop)
    (fun i fuel state => (family i).execFrom block fuel state.1 state.2) Ok
    (fun m _ => C.Reaches m) C.BreaksOff
  refine rounds (fun _ _ => rfl) (fun {fuels m} state room ok again => ?_) (place, loops) room ok
  obtain ⟨place, loops⟩ := state
  refine S.observing ok rfl ?_
  cases block[place]? with
  | none => exact C.value (.refl m) ⟨.refl m, .inl ⟨rfl, rfl⟩⟩
  | some stmt =>
    simp only [Evaluator.perform_bind]
    refine S.counting stmt ok fun next step spent => ?_
    refine (inner.execStmt (enters ok step spent)).placed.halting.bind fun ended last later => ?_
    match ended with
    | .error reason => exact .pure
    | .ok (signal, loops) =>
      dsimp only
      cases Control.after place signal loops with
      | leave signal => exact .pure
      | goto place loops =>
        have nearer : m.Nearer C.Spent last := .inl (C.spent_after spent later.toGrows)
        have ok : Ok last := S.after ok (step.trans later)
        exact Runs.keeps (again (place, loops) last ok nearer)

theorem Setting.execBlock (S : C.Setting family host limit Ok)
    (inner : C.Serves family host limit Inner (fun _ => True))
    (enters : ∀ {m next}, Ok m → m.Onward next → C.Spent m next → Inner next)
    {block : Block} (ok : Ok m) : C.Runs m (fun i => (family i).execBlock block) :=
  S.execFrom inner enters S.room 0 [] ok

namespace Hooks

variable {Small : Expr → Prop}

theorem stays_of_concluding {block : Deferred} {others : List Deferred} {last : Machine}
    (result : Outcome) (onward : (m.starting block others).Onward last) :
    m.Stays (last.concluding result m.activation.loops) :=
  ⟨⟨⟨onward.steps, onward.console⟩, onward.frames, onward.depth⟩, onward.places,
    onward.targets, rfl⟩

theorem stays_of_emptying (m : Machine) : m.Stays m.withoutDeferred :=
  ⟨⟨⟨Nat.le_refl _, .refl _⟩, rfl, rfl⟩, rfl, rfl, rfl⟩

section

variable (H : C.Hooks family host limit Ok Small)

include H

theorem drain {Bad : Break → Machine → Prop} (outcome : Outcome) (ok : Ok m) :
    C.Holds m (fun _ final => m.Stays final ∧ final.activation.deferred = []) Bad
      (fun i => (family i).drain (family i).fuel outcome m) := by
  have rounds := @C.rounds Outcome Outcome (fun i fuel outcome => (family i).drain fuel outcome) Ok
    (fun m _ final => m.Stays final ∧ final.activation.deferred = []) (fun _ => Bad)
  refine rounds (fun _ _ => rfl) (fun {fuels m} outcome room ok again => ?_) outcome H.room ok
  cases waiting : m.activation.deferred with
  | nil =>
    simp only [Evaluator.drain_idle waiting]
    exact C.value (.refl m) ⟨.refl m, waiting⟩
  | cons block others =>
    simp only [Evaluator.drain_waiting waiting]
    have begun : m.Framed (m.starting block others) :=
      ⟨⟨Nat.le_refl _, .refl _⟩, rfl, rfl⟩
    -- A block that does not exhaust a budget is followed by the others, which are fewer unless the
    -- block counted a statement.
    have onward {result : Outcome} {last : Machine} (ordinary : result.Unexhausted)
        (reached : C.Reaches (m.starting block others) last) :
        C.Holds last (fun _ final => m.Stays final ∧ final.activation.deferred = []) Bad
          (fun i => (do
            modify (fun final : Machine => final.concluding result m.activation.loops)
            (family i).drainAfter (fuels i) outcome result) last) := by
      obtain ⟨step, moves⟩ := reached
      have stays := stays_of_concluding result step
      have nearer : m.Nearer C.Spent (last.concluding result m.activation.loops) := by
        rcases moves with ⟨steps, same⟩ | spent
        · refine .inr ⟨steps, ?_⟩
          show last.activation.deferred.length < _
          rw [same, waiting]
          exact Nat.lt_succ_self _
        · have later : C.Spent m last := C.spent_before begun.toGrows spent
          exact .inl (C.spent_after later ⟨Nat.le_refl _, .refl _⟩)
      refine changing ⟨Nat.le_refl _, .refl _⟩ ⟨rfl, rfl⟩ ?_
      simp only [Evaluator.drainAfter_ordinary ordinary]
      refine C.weaken (again _ _ (H.stable ok stays.toFramed) nearer)
        (fun _ final kept => ?_) fun _ _ bad => bad
      exact ⟨stays.trans kept.1, kept.2⟩
    refine C.rebase begun.toGrows ⟨rfl, rfl⟩ ?_
    refine attempting (H.exec (H.stable ok begun))
      (fun signal last reached => ?_) fun cause last broke => ?_
    · exact @onward (.ok signal) last nofun reached
    · cases fatal : cause.isFatal with
      | false =>
        refine onward (fun other same => ?_) ⟨broke.1, broke.2 fatal⟩
        cases same
        exact fatal
      | true =>
        refine changing ⟨Nat.le_refl _, .refl _⟩ ⟨rfl, rfl⟩ ?_
        simp only [Evaluator.drainAfter_exhausted fatal]
        have stays := stays_of_concluding (.error cause) broke.1
        have emptied := stays_of_emptying (last.concluding (.error cause) m.activation.loops)
        exact C.rebase emptied.toGrows ⟨rfl, rfl⟩ (C.value (.refl _) ⟨stays.trans emptied, rfl⟩)

theorem finishScope {Bad : Break → Machine → Prop}
    (outcome : Outcome) (ok : Ok m) :
    C.Holds m (fun _ final => m.Stays final ∧ final.activation.deferred = []) Bad
      (fun i => (family i).finishScope outcome m) := by
  rcases outcome.unexhausted_or with ordinary | ⟨cause, rfl, fatal⟩
  · simp only [Evaluator.finishScope_drain _ ordinary]
    exact H.drain outcome ok
  · simp only [Evaluator.finishScope_exhausted fatal]
    have stays := stays_of_emptying m
    exact C.rebase stays.toGrows ⟨rfl, rfl⟩ (C.value (.refl _) ⟨stays, rfl⟩)

theorem scope {Bad : Break → Machine → Prop} {work : ι → Exec Signal} (ok : Ok m)
    (within : C.Holds m (fun _ => m.Within) (fun _ => m.Within) (fun i => work i m)) :
    C.Holds m (fun _ => m.Framed) Bad
      (fun i => (Exec.attempt (work i) >>= (family i).finishScope) m) := by
  have ended (outcome : Outcome) {next : Machine} (within : m.Within next) :
      C.Holds next (fun _ => m.Framed) Bad (fun i => (family i).finishScope outcome next) :=
    C.weaken (H.finishScope outcome (H.stable ok within.toFramed))
      (fun _ _ kept => within.toFramed.trans kept.1.toFramed) fun _ _ bad => bad
  exact attempting within (fun _ _ => ended _) fun _ _ => ended _

end

end Hooks

theorem Keeps.within {α : Type} {work : ι → Exec α} {start : Machine} (within : start.Within m)
    (keeps : C.Keeps m work) :
    C.Holds m (fun _ => start.Within) (fun _ => start.Within) (fun i => work i m) :=
  C.weaken keeps (fun _ _ step => within.trans step.within) fun _ _ step => within.trans step.within

namespace Hooks

theorem bindParams {start : Machine} {function : String} {params : List Param} {args : List Arg}
    (H : C.Hooks family host limit Ok (fun _ => True)) (ok : Ok start) (within : start.Within m) :
    C.Holds m (fun _ => start.Within) (fun _ => start.Within)
      (fun i => (family i).bindParams function params args m) := by
  induction params generalizing m args with
  | nil => exact Keeps.within within .pure
  | cons param params ih =>
    -- Every way to bind a parameter changes the scope of the call only, and the others follow.
    have bound {m : Machine} (bind : Machine → Machine) (args : List Arg)
        (within : start.Within m) (inside : m.Within (bind m))
        (same : m.world.SameSources (bind m).world) :
        C.Holds m (fun _ => start.Within) (fun _ => start.Within) (fun i => (do
          modify bind
          (family i).bindParams function params args) m) :=
      changing inside.toGrows same (ih (within.trans inside))
    have local_ {m : Machine} (value : Value) (args : List Arg) (within : start.Within m) :
        C.Holds m (fun _ => start.Within) (fun _ => start.Within) (fun i => (do
          modify (fun m : Machine => m.bindLocal param.name value)
          (family i).bindParams function params args) m) :=
      bound _ args within ⟨⟨⟨Nat.le_refl _, .refl _⟩, rfl, rfl⟩, .of_activation rfl⟩ ⟨rfl, rfl⟩
    have checked {m : Machine} (value : Value) : C.Keeps m (fun _ =>
        Exec.checkType value param.effectiveType s!"parameter {param.name} of {function}") :=
      (C.congruence fun _ _ => trivial).checkType _ _ _ m trivial
    unfold Evaluator.bindParams
    split
    · exact C.bind ((Keeps.making _).within within) fun rest next later => local_ rest [] later
    · cases args with
      | cons arg args =>
        refine C.bind ((checked arg.value).within within) fun _ next later => ?_
        cases arg.place with
        | none => exact local_ arg.value args later
        | some place =>
          cases param.byRef with
          | false => exact local_ arg.value args later
          | true =>
            exact bound _ args later ⟨⟨⟨Nat.le_refl _, .refl _⟩, rfl, rfl⟩, .of_activation rfl⟩
              ⟨rfl, rfl⟩
      | nil =>
        have default : C.Keeps m (fun i => (family i).defaultOf param) :=
          H.joins.defaultOf param m (H.stable ok within.toFramed)
        refine C.bind (default.within within) fun value next later => ?_
        exact C.bind ((checked value).within later) fun _ last later => local_ value [] later

theorem body (H : C.Hooks family host limit Ok (fun _ => True)) {overload : Overload}
    {args : List Arg} (ok : Ok m) : C.Holds m (fun _ => m.Within) (fun _ => m.Within) (fun i => (do
      (family i).bindParams overload.name overload.params args
      (family i).exec overload.decl.body) m) := by
  refine C.bind (H.bindParams ok (.refl m)) fun _ next within => ?_
  exact (H.exec (H.stable ok within.toFramed)).keeps.within within

theorem runBody {overload : Overload} {args : List Arg}
    (inner : C.Hooks family host limit Inner (fun _ => True))
    (enters : ∀ {parked}, m.park = .ok parked → Inner (parked.entering overload)) :
    C.Keeps m (fun i => (family i).runBody overload args) := by
  cases parks : m.park with
  | error fault =>
    have refused (i : ι) :
        (family i).runBody overload args m = .error (.broken (.error (.unplaced fault))) m := by
      have refused := @Evaluator.runBody_refused (family i) _ pure m overload args fault parks
      rw [bind_pure] at refused
      exact refused
    unfold Keeps
    simp only [refused]
    exact C.broken (.refl m) (.refl m)
  | ok parked =>
    obtain ⟨grown, same, _⟩ := Machine.grows_of_park parks
    have entered := enters parks
    unfold Keeps
    simp only [Evaluator.runBody_scope parks]
    have begun : m.Grows (parked.entering overload) := ⟨grown.steps, grown.console⟩
    refine C.rebase begun same
      (C.bind (inner.scope entered (inner.body entered)) fun outcome final framed => ?_)
    have back := Machine.grows_leaving final m.activation
    exact changing back.1 back.2 (C.value (.refl _) (Machine.onward_of_leaving parks framed))

end Hooks

theorem Setting.callUser (S : C.Setting family host limit Ok)
    (inner : C.Hooks family host limit Inner (fun _ => True))
    (enters : ∀ {m parked overload}, Ok m → m.activation.depth < limit →
      m.park = .ok parked → Inner (parked.entering overload))
    {overload : Overload} {args : List Arg} (ok : Ok m) :
    C.Keeps m (fun i => (family i).callUser overload args) := by
  refine S.observing ok rfl (Keeps.get ?_)
  simp only [S.limits]
  split
  · exact S.exhaust ok ‹_›
  · next within =>
    have body : C.Keeps m (fun i => (family i).runBody overload args) :=
      inner.runBody fun parks => enters ok (Nat.lt_of_not_le within) parks
    exact body.bind fun outcome next step =>
      S.congruence.returning overload outcome next (S.after ok step)

theorem Keeps.hoist {block : Block} : C.Keeps m (fun _ => Run.hoist block) :=
  (C.congruence fun _ _ => trivial).hoist block m trivial

theorem Hooks.program {Small : Expr → Prop} (H : C.Hooks family host limit Ok Small) {block : Block}
    (ok : Ok m) : C.Keeps m (fun i => do
      Run.hoist block
      (family i).exec block) :=
  Keeps.hoist.bind fun _ _ step => (H.exec (H.after ok step)).keeps

theorem Hooks.statements {Small : Expr → Prop} (H : C.Hooks family host limit Ok Small)
    {Bad : Break → Machine → Prop} {block : Block} (ok : Ok m) :
    C.Holds m (fun _ final => m.Stays final ∧ final.activation.deferred = []) Bad
      (fun i => Run.statements (family i) block m) := by
  have ended (outcome : Outcome) {next : Machine} (step : m.Onward next) :
      C.Holds next (fun _ final => m.Stays final ∧ final.activation.deferred = []) Bad
        (fun i => (family i).finishScope outcome next) :=
    C.weaken (H.finishScope outcome (H.after ok step))
      (fun _ _ kept => ⟨step.toStays.trans kept.1, kept.2⟩) fun _ _ bad => bad
  exact attempting (H.program ok) (fun _ _ => ended _) fun _ _ => ended _

end Concord

end MicroBasic
