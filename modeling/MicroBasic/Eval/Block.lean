import MicroBasic.Eval.Stmt

/-!
# Executing blocks

A block executes its statements from the first on. Signals of `FOR` and `NEXT` move control within
the block, and `EXIT FOR` and `CONTINUE` act on the innermost loop of the block that is active;
every other signal ends the block. A program that halts inside an expression abandons the statement
and ends every block around it.
-/

namespace MicroBasic

/-- How a block goes on after a statement. -/
inductive Control where
  /-- With the statement at a place, within some loops. -/
  | goto (place : Nat) (loops : List ActiveLoop)
  | leave (signal : Signal)

/-- How a block goes on after the statement at a place has ended with a signal. -/
def Control.after (place : Nat) (signal : Signal) (loops : List ActiveLoop) : Control :=
  match signal, loops with
  | .done, _ => goto (place + 1) loops
  | .jump target, _ => goto target loops
  | .exit (.loop .forLoop), loop :: outer => goto (loop.binding.nextIndex + 1) outer
  | .continued none, loop :: _ => goto loop.binding.nextIndex loops
  | .continued (some .forLoop), loop :: _ => goto loop.binding.nextIndex loops
  | _, _ => leave signal

namespace Evaluator

variable (self : Evaluator)

/-- Execute the statement at a place of a block and all that follow. -/
def execFrom (block : Block) : Nat → Nat → List ActiveLoop → Exec Signal
  | 0, _, _ => Exec.await .fuel
  | fuel + 1, place, loops => do
    self.observe (.place block place loops)
    match block[place]? with
    | none => return .done
    | some stmt =>
      match ← self.perform stmt (self.execStmt stmt loops) with
      | .error reason => return .halt reason
      | .ok (signal, loops) =>
        match Control.after place signal loops with
        | .goto place loops => execFrom block fuel place loops
        | .leave signal => return signal

def execBlock (block : Block) : Exec Signal :=
  self.execFrom block self.fuel 0 []

end Evaluator

/-- Evaluation under an observer, with a bound on the nesting of evaluations and on the rounds of
loops. -/
def observedEvaluator (observe : Moment → Exec Unit) (settings : Settings) (host : Host) :
    Nat → Evaluator
  | 0 =>
    { settings
      host
      fuel := 0
      observe
      eval := fun _ => Exec.await .fuel
      exec := fun _ => Exec.await .fuel }
  | fuel + 1 =>
    { settings
      host
      fuel
      observe
      eval := fun expr machine =>
        (observedEvaluator observe settings host fuel).evalExpr expr machine
      exec := fun block machine =>
        (observedEvaluator observe settings host fuel).execBlock block machine }

/-- Evaluation with such bounds and nobody to observe it. -/
def evaluator (settings : Settings) (host : Host) (fuel : Nat) : Evaluator :=
  observedEvaluator (fun _ => return) settings host fuel

end MicroBasic
