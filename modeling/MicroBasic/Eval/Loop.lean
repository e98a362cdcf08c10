import MicroBasic.Eval.Assign

/-!
# Loops

`FOR` and `NEXT` are statements of one block that send control to each other. A block keeps the list
of the loops it is in, innermost first. `WHILE` and `DO` hold their bodies. Each round of these
after the first counts as a statement.
-/

namespace MicroBasic

/-- Whether a loop goes on with a value of its variable. -/
def Counter.continues (counter : Counter) (value : Float) : Bool :=
  if 0 < counter.step then value ≤ counter.limit else counter.limit ≤ value

def ActiveLoop.beganAt (loop : ActiveLoop) (index : Nat) : Bool :=
  loop.binding.forIndex == index

/-- The loops around one that began at a place, or all if none did. -/
def ActiveLoop.outside (index : Nat) (loops : List ActiveLoop) : List ActiveLoop :=
  if loops.any (fun loop => loop.beganAt index) then
    (loops.dropWhile (fun loop => !loop.beganAt index)).tail
  else loops

/-- What becomes of a loop of a kind after its body: nothing if another round may follow, or how it
is left. -/
def Signal.afterRound (kind : LoopKind) : Signal → Option Signal
  | .done | .continued none => none
  | .continued (some other) => if other = kind then none else some (.continued (some other))
  | .exit (.loop other) => some (if other = kind then .done else .exit (.loop other))
  | signal => some signal

namespace Evaluator

variable (self : Evaluator)

def pairOf (stmt : Stmt) : Exec LoopBinding := do
  match (← get).bindings.get? stmt.id with
  | some binding => return binding
  | none => Exec.fail (.strayControl .unpairedLoop)

def evalNumber (expr : Expr) : Exec Float := do
  let value ← self.eval expr
  Exec.placed expr.token (numberOf value)

/-- Begin counting: the variable gets its first value. The flag tells whether the loop goes on with
it. -/
def beginCounter (var : String) (start limit : Expr) (step : Option Expr) :
    Exec (Counter × Bool) := do
  let start ← self.evalNumber start
  let limit ← self.evalNumber limit
  let step ← match step with
    | some step => self.evalNumber step
    | none => pure 1
  if step == 0 then Exec.fail (.zeroStep var)
  else
    assignVariable var (.number start)
    let counter : Counter := { var, limit, step }
    return (counter, counter.continues start)

/-- Go on counting: the variable goes one step further from the value it has. The result tells
whether the loop goes on with the new value. -/
def advanceCounter (counter : Counter) : Exec Bool := do
  match ← Exec.ask (fun machine => machine.readVariable counter.var) with
  | none => Exec.fail (.unknownName counter.var none)
  | some value =>
    let next := (← numberOf value) + counter.step
    assignVariable counter.var (.number next)
    return counter.continues next

/-- Begin a loop: control goes behind `FOR` or behind `NEXT`. -/
def beginFor (stmt : Stmt) (var : String) (start limit : Expr) (step : Option Expr)
    (loops : List ActiveLoop) : Exec (Signal × List ActiveLoop) := do
  let binding ← pairOf stmt
  let (counter, enters) ← self.beginCounter var start limit step
  let loops := ActiveLoop.outside binding.forIndex loops
  if enters then return (.jump (binding.forIndex + 1), { binding, counter } :: loops)
  else return (.jump (binding.nextIndex + 1), loops)

/-- Go on with a loop: control goes behind `FOR` or on. -/
def nextRound (stmt : Stmt) (loops : List ActiveLoop) : Exec (Signal × List ActiveLoop) := do
  let binding ← pairOf stmt
  match loops.dropWhile (fun loop => !loop.beganAt binding.forIndex) with
  | [] => Exec.fail (.strayControl .inactiveNext)
  | loop :: outer =>
    if ← advanceCounter loop.counter then return (.jump (binding.forIndex + 1), loop :: outer)
    else return (.jump (binding.nextIndex + 1), outer)

/-- Whether a `DO` loop goes on at one of its ends; without a condition it does. -/
def goesOn (condition : Option LoopCondition) : Exec Bool := do
  match condition with
  | some condition => return (← self.holds condition.condition) != condition.untilTrue
  | none => return true

/-- The rounds of a `WHILE` or a `DO` loop, with what decides before and after the body whether the
loop goes on. -/
def rounds (kind : LoopKind) (before after : Exec Bool) (body : Block) : Nat → Exec Signal
  | 0 => Exec.await .fuel
  | fuel + 1 => do
    if ← before then
      match (← self.exec body).afterRound kind with
      | none =>
        if ← after then
          self.tick
          rounds kind before after body fuel
        else return .done
      | some signal => return signal
    else return .done

end Evaluator

end MicroBasic
