import MicroBasic.Proofs.Restated

/-!
# Blocks take up halts

A program that halts in a function breaks off the expression around the call. The block that
executes the statement of that expression takes the halt up and ends with a signal. So no block
breaks off by halting, whatever it is executed on, and neither does a run: `TRY` statements and
waiting blocks never meet such a break.
-/

namespace MicroBasic

/-- A result that does not break off by halting. -/
def Unhalting {α : Type} (result : Except Break α) : Prop :=
  ∀ reason, result ≠ .error (.halt reason)

namespace Exec

variable {α β : Type} {Good : α → Prop} {Last : β → Prop}

/-- Work that does not break off by halting, and whose value is as it should be if it ends with one.
-/
structure Unhalted (Good : α → Prop) (work : Exec α) : Prop where
  unbroken : ∀ {m reason final}, work m ≠ .error (.broken (.halt reason)) final
  good : ∀ {m value final}, work m = .ok value final → Good value

namespace Unhalted

/-- A value is no halt. -/
theorem pure {value : α} (good : Good value) : (Pure.pure value : Exec α).Unhalted Good where
  unbroken := by rintro _ _ _ ⟨⟩
  good := by
    rintro _ _ _ ⟨⟩
    exact good

/-- Looking at the machine does not halt. -/
theorem get : (MonadState.get : Exec Machine).Unhalted (fun _ => True) where
  unbroken := by rintro _ _ _ ⟨⟩
  good _ := trivial

/-- A change of the machine does not halt. -/
theorem modify {change : Machine → Machine} :
    (modify change : Exec Unit).Unhalted (fun _ => True) where
  unbroken := by rintro _ _ _ ⟨⟩
  good _ := trivial

/-- Work that needs something from outside does not halt. -/
theorem await {what : Awaited} : (Exec.await what : Exec α).Unhalted Good where
  unbroken := by rintro _ _ _ ⟨⟩
  good := by rintro _ _ _ ⟨⟩

/-- Work that fails does not halt. -/
theorem fail {fault : Fault} : (Exec.fail fault : Exec α).Unhalted Good where
  unbroken := by rintro _ _ _ ⟨⟩
  good := by rintro _ _ _ ⟨⟩

/-- Two pieces of work one after the other do not halt if neither does. -/
theorem bind {first : Exec α} {rest : α → Exec β} (start : first.Unhalted Good)
    (onward : ∀ value, Good value → (rest value).Unhalted Last) :
    (first >>= rest).Unhalted Last where
  unbroken {m reason final} halted := by
    simp only [Bind.bind, EStateM.bind] at halted
    cases done : first m with
    | ok value next =>
      rw [done] at halted
      exact (onward value (start.good done)).unbroken halted
    | error escape next =>
      rw [done] at halted
      cases halted
      exact start.unbroken done
  good {m value final} ended := by
    simp only [Bind.bind, EStateM.bind] at ended
    cases done : first m with
    | ok value next =>
      rw [done] at ended
      exact (onward value (start.good done)).good ended
    | error escape next =>
      rw [done] at ended
      cases ended

/-- A change of the machine that can fail does not halt. -/
theorem change {change : Machine → Except Fault Machine} :
    (Exec.change change).Unhalted (fun _ => True) := by
  refine .bind (.bind .get fun m _ => ?_ : Unhalted (fun _ => True) (Exec.ask change)) fun next _ =>
    ?_
  · cases change m with
    | ok next => exact .pure trivial
    | error fault => exact .fail
  · exact @modify fun _ => next

/-- Giving errors a place does not make work halt. -/
theorem placed {token : Token} {work : Exec α} (unhalted : work.Unhalted Good) :
    (Exec.placed token work).Unhalted Good where
  unbroken {m reason final} halted := by
    unfold Exec.placed at halted
    split at halted
    · cases halted
    · exact unhalted.unbroken halted
  good {m value final} ended := by
    unfold Exec.placed at ended
    split at ended
    · cases ended
    · exact unhalted.good ended

/-- Attempted work does not halt, and its result is no halt if the work does not halt. -/
theorem attempt {work : Exec α} (unhalted : work.Unhalted Good) :
    (Exec.attempt work).Unhalted Unhalting where
  unbroken {m reason final} halted := by
    unfold Exec.attempt at halted
    split at halted <;> cases halted
  good {m result final} ended := by
    unfold Exec.attempt at ended
    split at ended
    · cases ended
      rintro reason ⟨⟩
    · next cause last broken =>
      cases ended
      rintro reason ⟨⟩
      exact unhalted.unbroken broken
    · cases ended
    · cases ended

/-- Whether the program halted in some work is told, and told without halting. -/
theorem halting {work : Exec α} : (Exec.halting work).Unhalted (fun _ => True) where
  unbroken {m reason final} halted := by
    unfold Exec.halting at halted
    split at halted
    · cases halted
    · cases halted
    · next escape last other broken =>
      cases halted
      exact other reason rfl
  good _ := trivial

end Unhalted

end Exec

namespace Evaluator

variable {self : Evaluator} (observes : ∀ moment, (self.observe moment).Unhalted (fun _ => True))

include observes

/-- Counting a statement does not halt. -/
theorem tick_unhalted : self.tick.Unhalted (fun _ => True) := by
  refine .bind .get fun m _ => ?_
  refine .bind .modify fun _ _ => ?_
  split
  · split
    · exact .bind (observes _) fun _ _ => .fail
    · exact .pure trivial
  · exact .pure trivial

/-- Performing a statement does not halt, whatever its work does. -/
theorem perform_unhalted {α : Type} {stmt : Stmt} {work : Exec α} :
    (self.perform stmt work).Unhalted (fun _ => True) :=
  .bind (tick_unhalted observes).placed fun _ _ => .bind (observes _) fun _ _ => .halting

/-- A block does not halt from any of its places on. -/
theorem execFrom_unhalted {block : Block} {fuel place : Nat} {loops : List ActiveLoop} :
    (self.execFrom block fuel place loops).Unhalted (fun _ => True) := by
  induction fuel generalizing place loops with
  | zero => exact .await
  | succ fuel onward =>
    unfold execFrom
    refine .bind (observes _) fun _ _ => ?_
    cases block[place]? with
    | none => exact .pure trivial
    | some stmt =>
      refine .bind (perform_unhalted observes) fun result _ => ?_
      cases result with
      | error reason => exact .pure trivial
      | ok ended =>
        dsimp only
        split
        · exact onward
        · exact .pure trivial

end Evaluator

/-- No block halts, at whatever bound and on whatever machine, under an observer that does not. -/
theorem observedEvaluator_unhalted {observe : Moment → Exec Unit} {settings : Settings}
    {host : Host} (observes : ∀ moment, (observe moment).Unhalted (fun _ => True)) (bound : Nat)
    (block : Block) :
    ((observedEvaluator observe settings host bound).exec block).Unhalted (fun _ => True) := by
  cases bound with
  | zero => exact .await
  | succ bound =>
    refine Evaluator.execFrom_unhalted fun moment => ?_
    cases bound <;> exact observes moment

/-- No block halts, at whatever bound and on whatever machine. -/
theorem evaluator_unhalted (settings : Settings) (host : Host) (bound : Nat) (block : Block) :
    ((evaluator settings host bound).exec block).Unhalted (fun _ => True) :=
  observedEvaluator_unhalted (fun _ => .pure trivial) bound block

namespace Evaluator

variable {self : Evaluator} (executes : ∀ block, (self.exec block).Unhalted (fun _ => True))

include executes

/-- Waiting blocks do not turn an outcome into a halt. -/
theorem drain_unhalted {fuel : Nat} {outcome : Outcome} (unhalting : Unhalting outcome) :
    (self.drain fuel outcome).Unhalted Unhalting := by
  induction fuel generalizing outcome with
  | zero => exact .await
  | succ fuel onward =>
    unfold drain
    refine .bind .get fun m _ => ?_
    dsimp only
    split
    · exact .pure unhalting
    · refine .bind .modify fun _ _ => ?_
      refine .bind (executes _).attempt fun result ended => ?_
      refine .bind .modify fun _ _ => ?_
      split
      · exact onward (by rintro _ ⟨⟩)
      · exact onward unhalting
      · split
        · exact .bind .modify fun _ _ => .pure ended
        · exact onward ended

/-- Ending a scope does not turn its outcome into a halt. -/
theorem finishScope_unhalted {outcome : Outcome} (unhalting : Unhalting outcome) :
    (self.finishScope outcome).Unhalted Unhalting := by
  unfold finishScope
  split
  · split
    · exact .bind .modify fun _ _ => .pure unhalting
    · exact drain_unhalted executes unhalting
  · exact drain_unhalted executes unhalting

end Evaluator

namespace Run

open Exec (Unhalted)

/-- Registering declarations does not halt. -/
theorem register_unhalted (types : Bool) (statements : List Stmt) :
    (register types statements).Unhalted (fun _ => True) := by
  induction statements with
  | nil => exact .pure trivial
  | cons stmt rest onward =>
    have registers := registers types stmt
    unfold register
    generalize registration? types stmt = entry at registers ⊢
    cases registers with
    | none => exact onward
    | type | function | property =>
      exact .bind Unhalted.change.placed fun _ _ => .bind .modify fun _ _ => onward

/-- The work of a run does not halt, and neither does its outcome. -/
theorem statements_unhalted (settings : Settings) (host : Host) (bound : Nat) (block : Block) :
    (statements (evaluator settings host bound) block).Unhalted Unhalting := by
  have hoists : (hoist block).Unhalted (fun _ => True) :=
    .bind (register_unhalted true block) fun _ _ => register_unhalted false block
  have executes := evaluator_unhalted settings host bound
  exact .bind (hoists.bind fun _ _ => executes block).attempt fun outcome unhalting =>
    Evaluator.finishScope_unhalted executes unhalting

end Run

end MicroBasic
