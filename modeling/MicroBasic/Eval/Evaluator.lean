import MicroBasic.Eval.Exec

/-!
# Evaluators

An evaluator knows the limits of a run, the host, and how nested expressions and blocks are
evaluated. It tells an observer of the moments of a run, each just before it comes. The observer
sees the machine and may stop the run there; the one of an ordinary run does nothing.
-/

namespace MicroBasic

/-- An evaluated argument and the place it was read from. -/
structure Arg where
  value : Value
  place : Option Place

/-- An argument without a place. -/
def Arg.ofValue (value : Value) : Arg where
  value := value
  place := none

/-- The variable of a `FOR` loop, with the limit and the step that the loop was begun with. -/
structure Counter where
  var : String
  limit : Float
  step : Float

/-- A `FOR` loop between its `FOR` and its `NEXT`. -/
structure ActiveLoop where
  binding : LoopBinding
  counter : Counter

/-- A moment of a run. -/
inductive Moment where
  /-- An expression is evaluated. -/
  | expression (expr : Expr)
  /-- A block goes on at one of its places or ends there, within some loops, innermost first. -/
  | place (block : Block) (index : Nat) (loops : List ActiveLoop)
  /-- A statement, counted already, is executed. -/
  | statement (stmt : Stmt)
  /-- A declared function is called. -/
  | call (overload : Overload) (args : List Arg)
  /-- A budget is found exhausted. -/
  | exhausted (fault : Fault)
  /-- A clean-up block runs after an outcome. -/
  | cleanUp (block : Block) (outcome : Outcome)

/-- What evaluation needs to know: limits, the host, the observer, and how nested expressions and
blocks are evaluated. The fuel bounds the rounds of every loop. -/
structure Evaluator where
  settings : Settings
  host : Host
  fuel : Nat
  observe : Moment → Exec Unit
  eval : Expr → Exec Value
  exec : Block → Exec Signal

namespace Evaluator

variable (self : Evaluator)

/-- Fail because a budget is exhausted. -/
def exhaust {α : Type} (fault : Fault) : Exec α := do
  self.observe (.exhausted fault)
  Exec.fail fault

/-- Count one more statement against the budget. -/
def tick : Exec Unit := do
  let steps := (← get).steps + 1
  modify (fun machine => { machine with steps })
  match self.settings.maxSteps with
  | some limit => if limit < steps then self.exhaust (.stepBudget limit)
  | none => return

/-- Count a statement and do its work. A program that halts inside an expression abandons the
statement. -/
def perform {α : Type} (stmt : Stmt) (work : Exec α) : Exec (Except HaltReason α) := do
  Exec.placed stmt.token self.tick
  self.observe (.statement stmt)
  Exec.halting (Exec.placed stmt.token work)

end Evaluator

end MicroBasic
