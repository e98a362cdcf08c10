import MicroBasic.Proofs.Congruence

/-!
# Evaluators in concord

Evaluators may differ in their budgets, their observers and their bounds. As long as their hosts and
the depth that they allow are the same, and nested evaluation is in concord, they evaluate all
expressions in concord: what is kept on all machines of some kind is kept when works are put
together.
-/

namespace MicroBasic

/-- Whether a moment comes neither with a count nor with an exhausted budget. -/
def Moment.isQuiet : Moment → Bool
  | statement _ => false
  | exhausted _ => false
  | _ => true

namespace Concord

variable {ι : Type}

/-- What a family of evaluators has in common on some machines: the host, the depth of calls, and
that counting, observing and exhausting budgets is in concord. -/
structure Setting (C : Concord ι) (family : ι → Evaluator) (host : Host) (limit : Nat)
    (Ok : Machine → Prop) : Prop where
  hosts : ∀ i, (family i).host = host
  limits : ∀ i, (family i).settings.maxCallDepth = limit
  room : C.Room (fun i => (family i).fuel)
  stable : ∀ {m next : Machine}, Ok m → m.Framed next → Ok next
  invoke : ∀ {m function args},
    C.Keeps m (fun _ => Exec.hosting function (host.invoke function args))
  observe : ∀ {m moment}, Ok m → moment.isQuiet = true →
      C.Holds m (fun _ final => final = m) (fun _ _ => False) (fun i => (family i).observe moment m)
  exhaust : ∀ {m}, Ok m → limit ≤ m.activation.depth →
    C.Keeps m (fun i => ((family i).exhaust (.callDepth limit) : Exec Value))
  tick : ∀ {m}, Ok m → C.Holds m (fun _ final => m.Onward final ∧ C.Spent m final)
      (fun cause final => m.Onward final ∧ cause.isFatal = true)
      (fun i => (family i).tick m)
  /-- A statement is counted and then observed. -/
  counts : ∀ {m} (stmt : Stmt), Ok m → C.Holds m (fun _ final => m.Onward final ∧ C.Spent m final)
      (fun cause final => m.Onward final ∧ cause.isFatal = true)
      (fun i => (do
        Exec.placed stmt.token (family i).tick
        (family i).observe (.statement stmt)) m)

/-- Nested evaluation is in concord: of small enough expressions, and of blocks. -/
structure Hooks (C : Concord ι) (family : ι → Evaluator) (host : Host) (limit : Nat)
    (Ok : Machine → Prop) (Small : Expr → Prop) : Prop extends C.Setting family host limit Ok where
  eval : ∀ {m expr}, Small expr → Ok m → C.Keeps m (fun i => (family i).eval expr)
  exec : ∀ {m block}, Ok m → C.Runs m (fun i => (family i).exec block)

/-- Calls of declared functions are in concord as well. -/
structure Serves (C : Concord ι) (family : ι → Evaluator) (host : Host) (limit : Nat)
    (Ok : Machine → Prop) (Small : Expr → Prop) : Prop
    extends C.Hooks family host limit Ok Small where
  call : ∀ {m overload args}, Ok m → C.Keeps m (fun i => (family i).callUser overload args)

variable {C : Concord ι} {family : ι → Evaluator} {host : Host} {limit : Nat} {Ok : Machine → Prop}
  {Small : Expr → Prop} {m : Machine}

theorem Setting.after {next : Machine} (S : C.Setting family host limit Ok) (ok : Ok m)
    (step : m.Onward next) : Ok next :=
  S.stable ok step.toFramed

theorem counts_of_tick {stmt : Stmt}
    (tick : C.Holds m (fun _ final => m.Onward final ∧ C.Spent m final)
      (fun cause final => m.Onward final ∧ cause.isFatal = true)
      (fun i => (family i).tick m))
    (passes : ∀ i next, m.Onward next → (family i).observe (.statement stmt) next = .ok () next) :
    C.Holds m (fun _ final => m.Onward final ∧ C.Spent m final)
      (fun cause final => m.Onward final ∧ cause.isFatal = true)
      (fun i => (do
        Exec.placed stmt.token (family i).tick
        (family i).observe (.statement stmt)) m) := by
  refine C.bind (placing tick fun error final kept => ⟨kept.1, ?_⟩) fun _ next kept => ?_
  · show (error.placedAt stmt.token).fault.isFatal = true
    rw [RuntimeError.placedAt_fault]
    exact kept.2
  · simp only [passes _ next kept.1]
    exact C.value (.refl next) kept

theorem Setting.observing {Bad : Break → Machine → Prop} {moment : Moment}
    (S : C.Setting family host limit Ok) {α : Type}
    {rest : ι → Unit → Exec α} {Good : α → Machine → Prop} (ok : Ok m)
    (quiet : moment.isQuiet = true) (holds : C.Holds m Good Bad (fun i => rest i () m)) :
    C.Holds m Good Bad (fun i => ((family i).observe moment >>= rest i) m) := by
  have observed : C.Holds m (fun _ final => final = m) Bad (fun i => (family i).observe moment m) :=
    C.weaken (S.observe ok quiet) (fun _ _ same => same) fun _ _ => False.elim
  refine C.bind observed fun _ next same => ?_
  subst same
  exact holds

/-- What is kept on all machines with a property that lasts is kept when works are put together. -/
def congruence (C : Concord ι) {Ok : Machine → Prop}
    (lasts : ∀ {m next}, Ok m → m.Onward next → Ok next) : Congruence ι where
  Rel work := ∀ m, Ok m → C.Keeps m work
  pure _ _ := .pure
  throw _ _ := .throw
  get _ later m ok := .get (later m m ok)
  change calm _ _ _ := .change calm
  making work _ _ := .making work
  bind first rest m ok :=
    (first m ok).bind fun value next step => rest value next (lasts ok step)
  placed _ work m ok := (work m ok).placed

/-- What is kept on all machines of a setting is kept when works are put together. -/
def Setting.congruence (S : C.Setting family host limit Ok) : Congruence ι :=
  C.congruence S.after

theorem Hooks.joins (H : C.Hooks family host limit Ok Small) :
    H.congruence.Joins family host Small where
  hosts := H.hosts
  invoke _ _ _ _ := H.invoke
  takeLine _ _ _ := C.takeLine
  observe _ m ok :=
    C.weaken (H.observe ok rfl) (fun _ _ same => same ▸ .refl m) fun _ _ => False.elim
  eval small _ ok := H.eval small ok

theorem Serves.joins (S : C.Serves family host limit Ok Small) :
    S.congruence.JoinsCalls family host Small :=
  { S.toHooks.joins with callUser := fun _ _ _ ok => S.call ok }

theorem Serves.evalExpr {expr : Expr} (S : C.Serves family host limit Ok Small)
    (small : ∀ inner : Expr, sizeOf inner < sizeOf expr → Small inner) (ok : Ok m) :
    C.Keeps m (fun i => (family i).evalExpr expr) :=
  S.joins.evalExpr small m ok

end Concord

end MicroBasic
