import MicroBasic.Proofs.Concord.Hooks

/-!
# Statements of several evaluators

Statements are executed in concord if expressions and blocks are. A loop goes on only after a
statement was counted, so that the rounds of a loop come nearer to its end.
-/

namespace MicroBasic.Concord

variable {ι : Type} {C : Concord ι} {family : ι → Evaluator} {host : Host} {limit : Nat}
  {Ok : Machine → Prop} {m : Machine}

theorem Setting.ticking {α : Type} {rest : ι → Exec α} (S : C.Setting family host limit Ok)
    (ok : Ok m)
    (onward : ∀ next, m.Onward next → C.Spent m next → C.Keeps next rest) :
    C.Keeps m (fun i => do (family i).tick; rest i) := by
  have ticked : C.Holds m (fun _ final => m.Onward final ∧ C.Spent m final)
      (fun _ => m.Onward) (fun i => (family i).tick m) :=
    C.weaken (S.tick ok) (fun _ _ kept => kept) fun _ _ kept => kept.1
  exact C.bind ticked fun _ next kept => (onward next kept.1 kept.2).after kept.1

theorem Keeps.thenDone {work : ι → Exec Unit} (keeps : C.Keeps m work) :
    C.Keeps m (fun i => Evaluator.thenDone (work i)) :=
  keeps.bind fun _ _ _ => .pure

namespace Serves

section

variable (S : C.Serves family host limit Ok (fun _ => True))

include S

theorem rounds {kind : LoopKind} {before after : ι → Exec Bool} {body : Block}
    (first : ∀ m, Ok m → C.Keeps m before) (last : ∀ m, Ok m → C.Keeps m after) (ok : Ok m) :
    C.Keeps m (fun i => (family i).rounds kind (before i) (after i) body (family i).fuel) := by
  have rounds := @Keeps.rounds ι Signal C m Unit
    (fun i fuel _ => (family i).rounds kind (before i) (after i) body fuel) Ok
  refine rounds (fun _ _ => rfl) (fun {fuels m} _ room ok again => ?_) () S.room ok
  refine (first m ok).bind fun decided next onward => ?_
  have ok := S.after ok onward
  split
  · refine (S.exec ok).keeps.bind fun signal last' later => ?_
    have ok := S.after ok later
    cases signal.afterRound kind with
    | some signal => exact .pure
    | none =>
      refine (last last' ok).bind fun goes next step => ?_
      have ok := S.after ok step
      have grown : m.Grows next := ((onward.trans later).trans step).toGrows
      split
      · exact S.ticking ok fun final later spent =>
          again () final (S.after ok later) (.inl (C.spent_before grown spent))
      · exact .pure
  · exact .pure

theorem execOption {body : Option Block} (ok : Ok m) :
    C.Keeps m (fun i => (family i).execOption body) := by
  cases body with
  | some body => exact (S.exec ok).keeps
  | none => exact .pure

theorem cleanUp {cleanup : Option Block}
    {outcome : Outcome} (ok : Ok m) :
    C.Keeps m (fun i => (family i).cleanUp cleanup outcome) := by
  cases cleanup with
  | none => exact .resume
  | some block =>
    refine S.observing ok rfl ((S.exec ok).keeps.bind fun signal next step => ?_)
    split
    · exact .resume
    · exact .pure

theorem tryStmt {body : Block} {handler : Option (CatchClause Block)} {cleanup : Option Block}
    (ok : Ok m) : C.Keeps m (fun i => (family i).tryStmt body handler cleanup) := by
  refine (S.exec ok).keeps.attempt.bind fun outcome next step => ?_
  have ok := S.after ok step
  cases outcome with
  | ok signal => exact S.cleanUp ok
  | error cause =>
    dsimp only
    split
    · exact .throw
    · cases handler with
      | none => exact S.cleanUp ok
      | some clause =>
        have handled : C.Keeps next (fun i => (family i).handle clause cause.toError) :=
          Keeps.bind (S.congruence.enterHandler clause _ next ok) fun _ last later =>
            (S.exec (S.after ok later)).keeps.attempt
        exact handled.bind fun outcome last later => S.cleanUp (S.after ok later)

theorem withStmt {target : Expr} {body : Block} (ok : Ok m) :
    C.Keeps m (fun i => (family i).withStmt target body) := by
  refine (S.eval trivial ok).bind fun target next step => ?_
  have ok := S.after ok step
  -- The block is work within a scope that is narrowed and leaves its targets, so that the right one
  -- is given up.
  have narrowed : next.Framed (next.withTargets (target :: next.activation.targets)) :=
    ⟨⟨Nat.le_refl _, .refl _⟩, rfl, rfl⟩
  have resumed {last : Machine} (outcome : Outcome)
      (onward : (next.withTargets (target :: next.activation.targets)).Onward last) :
      C.Holds last (fun _ => next.Onward) (fun _ => next.Onward) (fun _ => (do
        modify (fun m => m.withTargets m.activation.targets.tail)
        Exec.resume outcome : Exec Signal) last) := by
    have restored : next.Onward (last.withTargets last.activation.targets.tail) :=
      ⟨⟨⟨⟨onward.steps, onward.console⟩, onward.frames, onward.depth⟩, onward.places,
        congrArg List.tail onward.targets, onward.loops⟩, onward.deferred⟩
    exact changing ⟨Nat.le_refl _, .refl _⟩ ⟨rfl, rfl⟩ (Keeps.after restored .resume)
  refine changing narrowed.toGrows ⟨rfl, rfl⟩ ?_
  exact attempting (S.exec (S.stable ok narrowed)).keeps (fun _ _ => resumed _) fun _ _ => resumed _

theorem plainStmt {stmt : Stmt} (ok : Ok m) : C.Keeps m (fun i => (family i).plainStmt stmt) := by
  unfold Evaluator.plainStmt
  split
  · refine (S.eval trivial ok).bind fun value next step => ?_
    exact Keeps.thenDone (S.joins.assign _ value next (S.after ok step))
  · exact Keeps.thenDone (S.joins.print _ _ m ok)
  · exact Keeps.thenDone (S.joins.input _ _ m ok)
  · exact Keeps.bind (S.joins.chosenBranch _ _ m ok) fun body next step =>
      S.execOption (S.after ok step)
  · exact S.rounds (S.joins.holds trivial) (fun _ _ => .pure) ok
  · exact S.rounds (S.joins.goesOn _) (S.joins.goesOn _) ok
  · exact S.tryStmt ok
  · exact S.joins.raise _ _ _ m ok
  · exact Keeps.thenDone (S.congruence.deferBlock _ m ok)
  · exact Keeps.thenDone (S.congruence.declare _ (S.congruence.defineFunction _ _) m ok)
  · exact Keeps.thenDone (S.congruence.declare _ (S.congruence.defineProperty _ _) m ok)
  · exact Keeps.thenDone (S.congruence.declare _ (S.congruence.defineType _) m ok)
  · exact S.withStmt ok
  · refine (S.eval trivial ok).bind fun selector next step => ?_
    have ok := S.after ok step
    exact Keeps.bind (S.joins.chosenCase _ _ _ next ok) fun body next step =>
      S.execOption (S.after ok step)
  · exact .pure
  · exact .pure
  · exact Keeps.thenDone (S.joins.dim _ _ _ m ok)
  · exact Keeps.thenDone (S.congruence.spawn _ m ok)
  · exact (S.eval trivial ok).bind fun _ _ _ => .pure
  · exact .pure
  · have called (expr : Expr) : C.Keeps m (fun i => discard ((family i).eval expr)) :=
      (S.eval trivial ok).bind fun _ _ _ => .pure
    exact (called _).thenDone
  iterate 4 · exact .pure

theorem execStmt {stmt : Stmt} {loops : List ActiveLoop} (ok : Ok m) :
    C.Keeps m (fun i => (family i).execStmt stmt loops) := by
  have pairs : S.congruence.Rel (fun _ => Evaluator.pairOf stmt) := by
    refine fun m _ => .get ?_
    split
    · exact .pure
    · exact .throw
  unfold Evaluator.execStmt
  split
  · exact S.joins.beginFor pairs _ _ _ _ _ m ok
  · exact S.congruence.nextRound pairs _ m ok
  · exact (S.plainStmt ok).bind fun _ _ _ => .pure

end

end Serves

end MicroBasic.Concord
