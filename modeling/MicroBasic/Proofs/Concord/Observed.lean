import MicroBasic.Proofs.Concord.Paired

/-!
# Two observed evaluators

Two evaluators with the same host and the same limit of calls are in concord at all bounds, if they
are in concord about counting statements and their observers let every other moment pass.
-/

namespace MicroBasic

@[simp] theorem observedEvaluator_fuel (observe : Moment → Exec Unit) (settings : Settings)
    (host : Host) (bound : Nat) :
    (observedEvaluator observe settings host bound).fuel = bound - 1 := by
  cases bound <;> rfl

theorem observedEvaluator_eval {host : Host} {bound : Nat} {expr : Expr} {m : Machine}
    {observe : Moment → Exec Unit} {settings : Settings} :
    (observedEvaluator observe settings host bound).eval expr m = if bound =
      0 then .error (.awaiting .fuel) m
      else (observedEvaluator observe settings host (bound - 1)).evalExpr expr m := by
  cases bound <;> rfl

theorem observedEvaluator_exec {host : Host} {bound : Nat} {block : Block} {m : Machine}
    {observe : Moment → Exec Unit} {settings : Settings} :
    (observedEvaluator observe settings host bound).exec block m = if bound =
      0 then .error (.awaiting .fuel) m
      else (observedEvaluator observe settings host (bound - 1)).execBlock block m := by
  cases bound <;> rfl

/-- The budget allows one more statement. -/
def Settings.Affords (settings : Settings) (m : Machine) : Prop :=
  ∀ limit, settings.maxSteps = some limit → m.steps < limit

theorem Settings.affords_or (settings : Settings) (m : Machine) :
    settings.Affords m ∨ ∃ limit, settings.maxSteps = some limit ∧ limit ≤ m.steps := by
  cases limited : settings.maxSteps with
  | none =>
    refine .inl fun limit same => ?_
    rw [limited] at same
    cases same
  | some limit =>
    rcases Nat.lt_or_ge m.steps limit with within | spent
    · refine .inl fun other same => ?_
      rw [limited] at same
      cases same
      exact within
    · exact .inr ⟨limit, rfl, spent⟩

namespace Evaluator

variable {self : Evaluator} {m : Machine}

theorem exhaust_passed {fault : Fault} {α : Type}
    (passes : self.observe (.exhausted fault) m = .ok () m) :
    (self.exhaust fault : Exec α) m = .error (.broken (.error (.unplaced fault))) m := by
  simp only [exhaust, Bind.bind, EStateM.bind, passes]
  rfl

theorem exhaust_stopped {fault : Fault} {α : Type}
    (stops : self.observe (.exhausted fault) m = .error .stopped m) :
    (self.exhaust fault : Exec α) m = .error .stopped m := by
  simp only [exhaust, Bind.bind, EStateM.bind, stops]

theorem tick_afforded (affords : self.settings.Affords m) : self.tick m = .ok () m.counted := by
  unfold tick
  simp only [Exec.get_bind, Exec.modify_bind]
  cases limited : self.settings.maxSteps with
  | none => rfl
  | some limit =>
    have within : ¬ limit < m.steps + 1 := Nat.not_lt.mpr (affords limit limited)
    simp only [if_neg within]
    rfl

theorem tick_exhausts {limit : Nat} (limited : self.settings.maxSteps = some limit)
    (spent : limit ≤ m.steps) :
    self.tick m = self.exhaust (.stepBudget limit) m.counted := by
  have exceeded : limit < m.steps + 1 := Nat.lt_succ_of_le spent
  unfold tick
  simp only [Exec.get_bind, Exec.modify_bind, limited, if_pos exceeded]
  rfl

theorem count_afforded {stmt : Stmt} (affords : self.settings.Affords m) :
    (do
      Exec.placed stmt.token self.tick
      self.observe (.statement stmt)) m = self.observe (.statement stmt) m.counted := by
  simp only [Bind.bind, EStateM.bind, Exec.placed, tick_afforded affords]

theorem count_refused {stmt : Stmt} {limit : Nat} (limited : self.settings.maxSteps = some limit)
    (spent : limit ≤ m.steps)
    (passes : self.observe (.exhausted (.stepBudget limit)) m.counted = .ok () m.counted) :
    (do
      Exec.placed stmt.token self.tick
      self.observe (.statement stmt)) m =
      .error (.broken (.error ((RuntimeError.unplaced (.stepBudget limit)).placedAt stmt.token)))
        m.counted := by
  have refused :
      self.tick m = .error (.broken (.error (.unplaced (.stepBudget limit)))) m.counted :=
    (tick_exhausts limited spent).trans (exhaust_passed passes)
  simp only [Bind.bind, EStateM.bind, Exec.placed, refused]

end Evaluator

/-- Two evaluators under observers of their own, with limits and bounds of their own. -/
def duo (observe : Bool → Moment → Exec Unit) (settings : Bool → Settings) (host : Host)
    (bounds : Bool → Nat) (i : Bool) : Evaluator :=
  observedEvaluator (observe i) (settings i) host (bounds i)

section

variable {T : Stopping} {observe : Bool → Moment → Exec Unit} {settings : Bool → Settings}
  {host : Host} {limit : Nat} {Ok : Machine → Prop} {bounds : Bool → Nat} {m : Machine}

@[simp] theorem duo_host (i : Bool) : (duo observe settings host bounds i).host = host := by
  simp only [duo, observedEvaluator_host]

@[simp] theorem duo_settings (i : Bool) :
    (duo observe settings host bounds i).settings = settings i := by
  simp only [duo, observedEvaluator_settings]

@[simp] theorem duo_observe (i : Bool) :
    (duo observe settings host bounds i).observe = observe i := by
  simp only [duo, observedEvaluator_observe]

@[simp] theorem duo_fuel (i : Bool) : (duo observe settings host bounds i).fuel = bounds i - 1 := by
  simp only [duo, observedEvaluator_fuel]

/-- Two evaluators are in concord about counting statements, and let every other moment pass, on
machines that stay among themselves. -/
structure Counting (T : Stopping) (observe : Bool → Moment → Exec Unit) (settings : Bool → Settings)
    (host : Host) (limit : Nat) (Ok : Machine → Prop) : Prop where
  limits : ∀ i, (settings i).maxCallDepth = limit
  stable : ∀ {m next : Machine}, Ok m → m.Framed next → Ok next
  enters : ∀ {m parked : Machine} {overload : Overload}, Ok m →
    m.activation.depth < limit → m.park = .ok parked → Ok (parked.entering overload)
  quiet : ∀ {i m moment}, Ok m → moment.isQuiet = true → observe i moment m = .ok () m
  depth : ∀ {i m}, Ok m → observe i (.exhausted (.callDepth limit)) m = .ok () m
  tick : ∀ {bounds m}, Ok m → (paired T).Holds m (fun _ final => m.Onward final ∧ True)
      (fun cause final => m.Onward final ∧ cause.isFatal = true)
      (fun i => (duo observe settings host bounds i).tick m)
  counts : ∀ {bounds m} (stmt : Stmt), Ok m →
    (paired T).Holds m (fun _ final => m.Onward final ∧ True)
      (fun cause final => m.Onward final ∧ cause.isFatal = true)
      (fun i => (do
        Exec.placed stmt.token (duo observe settings host bounds i).tick
        (duo observe settings host bounds i).observe (.statement stmt)) m)

theorem paired_invoke {function : HostRef} {args : List Value} :
    (paired T).Keeps m (fun _ => Exec.hosting function (host.invoke function args)) := by
  have ends (i : Bool) : (T.manner i).Ends m (fun _ => m.Onward)
      (fun _ => m.Onward) (Exec.hosting function (host.invoke function args) m) := by
    unfold Exec.hosting
    match host.invoke function args { heap := m.heap, world := m.world } with
    | .ok _ _ => exact .value (Machine.Onward.world ..).toGrows (.world ..)
    | .error (.fault _) _ => exact .broken (Machine.Onward.world ..).toGrows (.world ..)
    | .error (.awaiting _) _ => exact .awaiting trivial
  refine Pair.same ends fun final => ?_
  unfold Exec.hosting
  match host.invoke function args { heap := m.heap, world := m.world } with
  | .ok _ _ | .error (.fault _) _ | .error (.awaiting _) _ => exact nofun

theorem paired_tick {shared : Settings}
    (passes : ∀ i fault, observe i (.exhausted fault) m.counted = .ok () m.counted) :
    (paired T).Holds m (fun _ final => m.Onward final ∧ True)
      (fun cause final => m.Onward final ∧ cause.isFatal = true)
      (fun i => (duo observe (fun _ => shared) host bounds i).tick m) := by
  have calm := Machine.Calm.counted m
  rcases shared.affords_or m with affords | ⟨limit, limited, spent⟩
  · have ticked (i : Bool) :
        (duo observe (fun _ => shared) host bounds i).tick m = .ok () m.counted := by
      refine Evaluator.tick_afforded ?_
      rw [duo_settings]
      exact affords
    simp only [ticked]
    exact .same (fun _ => .value calm.toGrows ⟨calm.toOnward, trivial⟩) nofun
  · have refused (i : Bool) : (duo observe (fun _ => shared) host bounds i).tick m =
        .error (.broken (.error (.unplaced (.stepBudget limit)))) m.counted := by
      rw [Evaluator.tick_exhausts (by rw [duo_settings]; exact limited) spent]
      refine Evaluator.exhaust_passed ?_
      rw [duo_observe]
      exact passes i _
    simp only [refused]
    exact .same (fun _ => .broken calm.toGrows ⟨calm.toOnward, rfl⟩) nofun

namespace Counting

theorem setting (K : Counting T observe settings host limit Ok)
    (room : bounds false ≤ bounds true) :
    (paired T).Setting (duo observe settings host bounds) host limit Ok where
  hosts _ := duo_host _
  limits i := by rw [duo_settings, K.limits]
  room := by
    show (duo observe settings host bounds false).fuel ≤
      (duo observe settings host bounds true).fuel
    rw [duo_fuel, duo_fuel]
    omega
  stable := K.stable
  invoke := paired_invoke
  observe {m moment} ok quiet := by
    simp only [duo_observe, K.quiet ok quiet]
    exact .same (fun _ => .value (.refl m) rfl) nofun
  exhaust {m} ok _ := by
    have exhausted (i : Bool) :
      ((duo observe settings host bounds i).exhaust (.callDepth limit) : Exec Value) m =
          .error (.broken (.error (.unplaced (.callDepth limit)))) m := by
      refine Evaluator.exhaust_passed ?_
      rw [duo_observe]
      exact K.depth ok
    unfold Concord.Keeps
    simp only [exhausted]
    exact .same (fun _ => .broken (.refl m) (.refl m)) nofun
  tick := K.tick
  counts := K.counts

theorem raised {Bad : Break → Machine → Prop} {α : Type} {Good : α → Machine → Prop}
    {lower upper : Bool → EStateM.Result Escape Machine α} (room : bounds false ≤ bounds true)
    (raise : ∀ i, upper i = if bounds i = 0 then .error (.awaiting .fuel) m else lower i)
    (holds : (paired T).Holds m Good Bad lower) : (paired T).Holds m Good Bad upper := by
  by_cases least : bounds false = 0
  · have first : upper false = .error (.awaiting .fuel) m := by
      rw [raise, if_pos least]
    by_cases most : bounds true = 0
    · have second : upper true = .error (.awaiting .fuel) m := by
        rw [raise, if_pos most]
      refine ⟨fun i => ?_, .inl ⟨m, first⟩⟩
      cases i with
      | false =>
        rw [first]
        exact .awaiting trivial
      | true =>
        rw [second]
        exact .awaiting trivial
    · exact Pair.starved holds (by rw [raise, if_neg most]) (.inr ⟨m, first⟩)
  · have most : bounds true ≠ 0 := by omega
    exact Pair.starved holds (by rw [raise, if_neg most]) (.inl (by rw [raise, if_neg least]))

theorem hooks (K : Counting T observe settings host limit Ok) (room : bounds false ≤ bounds true) :
    (paired T).Hooks (duo observe settings host bounds) host limit Ok (fun _ => True) := by
  generalize bound : bounds true = most
  induction most generalizing bounds with
  | zero =>
    have out (i : Bool) : bounds i = 0 := by
      cases i with
      | false => omega
      | true => exact bound
    refine { K.setting room with
      eval := fun {m expr} _ _ => ?_
      exec := fun {m block} _ => ?_ }
    · unfold Concord.Keeps duo
      simp only [observedEvaluator_eval, out, if_true]
      exact .same (fun _ => .awaiting trivial) nofun
    · unfold Concord.Runs duo
      simp only [observedEvaluator_exec, out, if_true]
      exact .same (fun _ => .awaiting trivial) nofun
  | succ most ih =>
    have lower : bounds false - 1 ≤ bounds true - 1 := by omega
    have inner := @ih (fun i => bounds i - 1) lower (by simp [bound])
    have serves : (paired T).Serves
        (duo observe settings host (fun i => bounds i - 1)) host limit Ok (fun _ => True) :=
      { inner with call := inner.callUser inner K.enters }
    refine { K.setting room with
      eval := fun {m expr} _ ok => raised room (fun i => observedEvaluator_eval) ?_
      exec := fun {m block} ok => raised room (fun i => observedEvaluator_exec) ?_ }
    · exact serves.evalExpr (fun _ _ => trivial) ok
    · exact inner.execBlock serves (fun ok step _ => K.stable ok step.toFramed) ok

theorem serves (K : Counting T observe settings host limit Ok) (room : bounds false ≤ bounds true) :
    (paired T).Serves (duo observe settings host bounds) host limit Ok (fun _ => True) :=
  have hooks := K.hooks room
  { hooks with call := hooks.callUser hooks K.enters }

theorem alike {shared : Settings} (stable : ∀ {m next : Machine}, Ok m → m.Framed next → Ok next)
    (enters : ∀ {m parked : Machine} {overload : Overload}, Ok m →
      m.activation.depth < shared.maxCallDepth → m.park = .ok parked →
        Ok (parked.entering overload))
    (passes : ∀ {i m} moment, Ok m → observe i moment m = .ok () m) :
    Counting T observe (fun _ => shared) host shared.maxCallDepth Ok := by
  have tick {bounds : Bool → Nat} {m : Machine} (ok : Ok m) :=
    @paired_tick T observe host bounds m shared fun _ fault =>
      passes (.exhausted fault) (stable ok (Machine.Calm.counted m).toFramed)
  exact {
    limits := fun _ => rfl
    stable := stable
    enters := enters
    quiet := fun ok _ => passes _ ok
    depth := fun ok => passes _ ok
    tick := tick
    counts := fun stmt ok => Concord.counts_of_tick (tick ok) fun i next step => by
      rw [duo_observe]
      exact passes _ (stable ok step.toFramed) }

end Counting

end

end MicroBasic
