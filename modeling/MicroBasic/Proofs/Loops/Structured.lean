import MicroBasic.Eval.Block
import MicroBasic.Proofs.Loops.Folding

/-!
# Structured evaluation

A block goes from place to place, by jumps and with a list of the loops it is in. The evaluator here
has neither: it executes the tree that a block is, and a loop is one node of it, with a body that is
executed round by round. Both count the statements that they execute against the same bound.
-/

namespace MicroBasic

namespace Evaluator

variable (self : Evaluator)

/-- Execute the end of a loop: go on counting, and do it again or not. The number is that of the
statements that may still be executed. -/
def runNext (closing : Closing) (counter : Counter) (again : Nat → Exec (Signal × Nat)) :
    Nat → Exec (Signal × Nat)
  | 0 => Exec.await .fuel
  | fuel + 1 => do
    match ← self.perform closing.stmt (advanceCounter counter) with
    | .error reason => return (.halt reason, fuel)
    | .ok true => again fuel
    | .ok false => return (.done, fuel)

/-- How a loop goes on after its body has ended: `CONTINUE` goes to the end of the loop as the end
of its body does, and `EXIT FOR` ends the loop. Every other signal is handed on. -/
def endRound (closing : Closing) (counter : Counter) (again : Nat → Exec (Signal × Nat)) :
    Signal × Nat → Exec (Signal × Nat)
  | (.done, fuel) => self.runNext closing counter again fuel
  | (.continued none, fuel) => self.runNext closing counter again fuel
  | (.continued (some .forLoop), fuel) => self.runNext closing counter again fuel
  | (.exit (.loop .forLoop), fuel) => return (.done, fuel)
  | ended => return ended

/-- Execute the rounds of a loop, of which at most a number may follow. -/
def runRounds (body : Nat → Exec (Signal × Nat)) (closing : Closing) (counter : Counter) :
    Nat → Nat → Exec (Signal × Nat)
  | 0, _ => Exec.await .fuel
  | limit + 1, fuel => do
    let ended ← body fuel
    self.endRound closing counter (runRounds body closing counter limit) ended

/-- Go on after something that ended, unless it ended with a signal to hand on. -/
def followedBy (rest : Nat → Exec (Signal × Nat)) : Signal × Nat → Exec (Signal × Nat)
  | (.done, fuel) => rest fuel
  | ended => return ended

/-- Execute a tree, with the number of statements that may be executed; the result tells how many
are left of them. Every round of a loop is at least one statement. -/
def runTree : Folded → Nat → Exec (Signal × Nat)
  | _, 0 => Exec.await .fuel
  | .done, fuel + 1 => return (.done, fuel + 1)
  | .plain stmt rest, fuel + 1 => do
    match ← self.perform stmt.stmt (self.plainStmt stmt.stmt) with
    | .error reason => return (.halt reason, fuel)
    | .ok signal => followedBy (runTree rest) (signal, fuel)
  | .loop opening body closing rest, fuel + 1 => do
    match ← self.perform opening.stmt
      (self.beginCounter opening.var opening.start opening.limit opening.step) with
    | .error reason => return (.halt reason, fuel)
    | .ok (counter, true) => do
      let ended ← self.runRounds (runTree body) closing counter fuel fuel
      followedBy (runTree rest) ended
    | .ok (_, false) => runTree rest fuel

/-- Execute a block as the tree it is. A block whose loops do not pair is none. -/
def execTree (block : Block) : Exec Signal :=
  match block.fold with
  | some tree => do
    let (signal, _) ← self.runTree tree self.fuel
    return signal
  | none => Exec.fail (.strayControl .unpairedLoop)

end Evaluator

/-- Evaluation by which every block is executed as the tree it is. -/
def structuredEvaluator (settings : Settings) (host : Host) : Nat → Evaluator
  | 0 =>
    { settings
      host
      fuel := 0
      observe := fun _ => return
      eval := fun _ => Exec.await .fuel
      exec := fun _ => Exec.await .fuel }
  | fuel + 1 =>
    { settings
      host
      fuel
      observe := fun _ => return
      eval := fun expr m => (structuredEvaluator settings host fuel).evalExpr expr m
      exec := fun block m => (structuredEvaluator settings host fuel).execTree block m }

end MicroBasic
