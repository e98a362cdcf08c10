import MicroBasic.Eval.Loop

/-!
# Executing statements

A statement ends with a signal that tells the block around it how to go on. Handlers, clean-up
blocks, branches and case bodies hand on the signals they do not consume.
-/

namespace MicroBasic.Evaluator

variable (self : Evaluator)

/-- The text of printed items. A comma after an item is a tab. -/
def printedText : String → List PrintItem → Exec String
  | text, [] => return text
  | text, item :: rest => do
    let value ← self.eval item.expr
    let shown := value.display (← Exec.heap)
    let tab := if item.separator = some .comma then "\t" else ""
    printedText (text ++ shown ++ tab) rest

/-- Print items, and end the line or not. -/
def print (items : List PrintItem) (newline : Bool) : Exec Unit := do
  let text ← self.printedText "" items
  modify (fun machine => if newline then machine.writeLine text else machine.write text)

/-- Whether a place asks for a text: a variable whose name is marked so. -/
def wantsText : Expr → Bool
  | .name _ name => name.toList.getLast? == some '$'
  | _ => false

def inputValue (target : Expr) (line : String) : Value :=
  if wantsText target then .text line
  else
    match Decimal.readChars (Text.trimChars line.toList) with
    | some n => .number n
    | none => .text line

/-- Fill places with lines of input. The first line is asked for with the given prompt. -/
def input (prompt : String) : List Expr → Exec Unit
  | [] => return
  | target :: rest => do
    let line ← Exec.takeLine prompt
    self.assign target (inputValue target line)
    input "? " rest

/-- The branch of an `IF` whose condition is the first to hold. -/
def chosenBranch (otherwise : Option Block) : List (IfBranch Block) → Exec (Option Block)
  | [] => return otherwise
  | branch :: rest => do
    if ← self.holds branch.condition then return some branch.body else chosenBranch otherwise rest

def execOption : Option Block → Exec Signal
  | some body => self.exec body
  | none => return .done

def passes (heap : Heap) (op : BinaryOp) (selector operand : Value) : Except Fault Bool :=
  let order := Value.looseOrder selector operand
  match op with
  | .equal => return Value.looselyEqual heap selector operand
  | .notEqual => return !Value.looselyEqual heap selector operand
  | .less => return Value.ordered order Ordering.isLT
  | .greater => return Value.ordered order Ordering.isGT
  | .lessEqual => return Value.ordered order Ordering.isLE
  | .greaterEqual => return Value.ordered order Ordering.isGE
  | _ => throw (.notACaseTest op)

def caseMatches (selector : Value) : CaseTest → Exec Bool
  | .value expr => do
    let operand ← self.eval expr
    return Value.looselyEqual (← Exec.heap) selector operand
  | .range low high => do
    let low ← self.eval low
    let high ← self.eval high
    return Value.ordered (Value.looseOrder selector low) Ordering.isGE &&
      Value.ordered (Value.looseOrder selector high) Ordering.isLE
  | .compare op expr => do
    let operand ← self.eval expr
    Exec.ask (fun machine => passes machine.heap op selector operand)

def anyMatches (selector : Value) : List CaseTest → Exec Bool
  | [] => return false
  | test :: rest => do
    if ← self.caseMatches selector test then return true else anyMatches selector rest

/-- The body of the first case that a value passes. -/
def chosenCase (selector : Value) (otherwise : Option Block) :
    List (CaseClause Block) → Exec (Option Block)
  | [] => return otherwise
  | clause :: rest => do
    if ← Exec.placed clause.token (self.anyMatches selector clause.tests) then
      return some clause.body
    else chosenCase selector otherwise rest

def errorRecord (error : RuntimeError) : Record :=
  let position := match error.location with
    | some location => location.position
    | none => { line := 0, column := 0 }
  { typeName := errorType
    fields :=
      [("message", .text error.fault.message), ("code", .text error.fault.code),
        ("line", .number position.line.toFloat), ("column", .number position.column.toFloat)] }

/-- Enter a handler: its variable, if it has one, gets the description of the error. -/
def enterHandler (clause : CatchClause Block) (error : RuntimeError) : Exec Unit := do
  match clause.errorName with
  | some name =>
    let record ← Exec.newRecord (errorRecord error)
    Exec.change (fun machine => machine.setVariable name record)
  | none => pure ()

def handle (clause : CatchClause Block) (error : RuntimeError) : Exec Outcome := do
  enterHandler clause error
  Exec.attempt (self.exec clause.body)

/-- Run a clean-up block after an outcome. A signal or an error of its own takes the place of the
outcome. -/
def cleanUp (cleanup : Option Block) (outcome : Outcome) : Exec Signal := do
  match cleanup with
  | none => Exec.resume outcome
  | some block =>
    self.observe (.cleanUp block outcome)
    match ← self.exec block with
    | .done => Exec.resume outcome
    | signal => return signal

/-- A `TRY` statement. An exhausted budget is not handled and skips the clean-up. -/
def tryStmt (body : Block) (handler : Option (CatchClause Block)) (cleanup : Option Block) :
    Exec Signal := do
  match ← Exec.attempt (self.exec body) with
  | .ok signal => self.cleanUp cleanup (.ok signal)
  | .error cause =>
    if cause.isFatal then throw (.broken cause)
    else
      match handler with
      | some clause =>
        let outcome ← self.handle clause cause.toError
        self.cleanUp cleanup outcome
      | none => self.cleanUp cleanup (.error cause)

/-- Raise an error of the program's own. -/
def raise (token : Token) (message : Expr) (code : Option Expr) : Exec Signal := do
  let message ← self.eval message
  let message := message.display (← Exec.heap)
  let code ← match code with
    | some code => do
      let code ← self.eval code
      pure (some (code.display (← Exec.heap)))
    | none => pure none
  Exec.placed token (Exec.fail (.raised message code))

/-- Let a block wait for the end of its call. -/
def deferBlock (body : Block) : Exec Unit :=
  modify (fun machine => machine.defer body)

def withStmt (target : Expr) (body : Block) : Exec Signal := do
  let target ← self.eval target
  modify (fun machine => machine.withTargets (target :: machine.activation.targets))
  let outcome ← Exec.attempt (self.exec body)
  modify (fun machine => machine.withTargets machine.activation.targets.tail)
  Exec.resume outcome

def defineFunction (decl : FunctionDecl Block) (origin : Nat) : Exec Unit :=
  Exec.change (fun machine => do
    let overload : Overload := { decl, origin, loops := machine.activation.loops }
    return { machine with functions := ← machine.functions.define overload })

def defineProperty (decl : PropertyDecl Block) (origin : Nat) : Exec Unit :=
  Exec.change (fun machine => do
    let loops := machine.activation.loops
    return { machine with properties := ← machine.properties.define decl origin loops })

def defineType (decl : TypeDecl) : Exec Unit :=
  Exec.change (fun machine => do return { machine with types := ← machine.types.define decl })

/-- A declaration takes effect when it is reached, unless it was registered beforehand. -/
def declare (stmt : Stmt) (define : Exec Unit) : Exec Unit := do
  if (← get).hoisted.contains stmt.id then return else define

/-- Initial values of a type, after some made already. -/
def initials (type : TypeSpec) : Nat → Array Value → Exec (Array Value)
  | 0, items => return items
  | count + 1, items => do
    let item ← initialOf type
    initials type count (items.push item)

/-- The greatest index of a dimensioned array. -/
def dimSize (name : String) (size : Expr) : Exec Nat := do
  let value ← self.eval size
  let n ← numberOf value
  match Decimal.natural? n with
  | none => Exec.fail (.dimSizeNotWhole name)
  | some size => if size < maxDimElements then return size else Exec.fail (.dimSizeTooLarge name n)

/-- Give a variable the initial value of a type, or an array of such values. -/
def dim (name : String) (size : Option Expr) (type : Option TypeSpec) : Exec Unit := do
  let type := type.getD (TypeSpec.ofSuffix name)
  let value ← match size with
    | some size => do
      let size ← self.dimSize name size
      let items ← initials type (size + 1) #[]
      Exec.making (Making.newArray items)
    | none => initialOf type
  Exec.change (fun machine => machine.setVariable name value)

/-- Do something after which the next statement follows. -/
def thenDone (work : Exec Unit) : Exec Signal := do
  work
  return .done

/-- Execute a statement that is not part of a `FOR` loop's frame. -/
def plainStmt (stmt : Stmt) : Exec Signal := do
  match stmt.kind with
  | .assign target value _ => do
    let value ← self.eval value
    thenDone (self.assign target value)
  | .print items newline => thenDone (self.print items newline)
  | .input prompt targets => thenDone (self.input (prompt.getD "? ") targets)
  | .branch branches otherwise _ => do
    let body ← self.chosenBranch otherwise branches
    self.execOption body
  | .whileLoop condition body =>
    self.rounds .whileLoop (self.holds condition) (return true) body self.fuel
  | .doLoop before after body =>
    self.rounds .doLoop (self.goesOn before) (self.goesOn after) body self.fuel
  | .attempt body handler cleanup => self.tryStmt body handler cleanup
  | .raise message code => self.raise stmt.token message code
  | .defer body => thenDone (deferBlock body)
  | .function decl => thenDone (declare stmt (defineFunction decl stmt.id))
  | .property decl => thenDone (declare stmt (defineProperty decl stmt.id))
  | .type decl => thenDone (declare stmt (defineType decl))
  | .withBlock target body => self.withStmt target body
  | .select selector cases otherwise => do
    let selector ← self.eval selector
    let body ← self.chosenCase selector otherwise cases
    self.execOption body
  | .exit kind => return .exit kind
  | .continueLoop kind => return .continued kind
  | .dim name size type => thenDone (self.dim name size type)
  | .spawn name => thenDone (modify (fun machine => machine.spawn name))
  | .returnValue (some value) => do
    let value ← self.eval value
    return .returned (some value)
  | .returnValue none => return .returned none
  | .call expr => thenDone (discard (self.eval expr))
  | .halt => return .halt .ended
  | .stop => return .halt .stopped
  | .openFor _ _ _ _ => return .done
  | .next _ => return .done

/-- Execute a statement within the loops that its block is in. -/
def execStmt (stmt : Stmt) (loops : List ActiveLoop) : Exec (Signal × List ActiveLoop) := do
  match stmt.kind with
  | .openFor var start limit step => self.beginFor stmt var start limit step loops
  | .next _ => nextRound stmt loops
  | _ => return (← self.plainStmt stmt, loops)

end MicroBasic.Evaluator
