import MicroBasic.Eval.Call

/-!
# Evaluating expressions

The operands of an operator are evaluated from left to right; `AND` and `OR` leave the second one
out when the first decides. An error without a place gets that of the innermost expression around
it.
-/

namespace MicroBasic.Evaluator

variable (self : Evaluator)

/-- What a name stands for: a variable, a declared function, or an entry of the host. -/
def lookup (name : String) : Exec Value := do
  match ← Exec.ask (fun machine => machine.readVariable name) with
  | some value => return value
  | none =>
    match (← get).functions.get? name with
    | some set => return .function set.name
    | none =>
      match self.host.entry? name with
      | some entry => return entry.value
      | none => self.failUnknown name

def holds (expr : Expr) : Exec Bool := do
  let value ← self.eval expr
  return value.isTruthy (← Exec.heap)

/-- A record without a declared type. -/
def objectOf : Record → List (String × Expr) → Exec Record
  | record, [] => return record
  | record, (name, expr) :: rest => do
    let value ← self.eval expr
    objectOf (record.insert name value) rest

def typeNamed (name : String) : Exec TypeDecl := do
  match (← get).types.get? name with
  | some decl => return decl
  | none => Exec.fail (.unknownType name)

def givenFields (decl : TypeDecl) : List (String × Expr) → Exec (List (String × Value))
  | [] => return []
  | (name, expr) :: rest => do
    if (decl.field? name).isSome then
      let value ← self.eval expr
      return (name, value) :: (← givenFields decl rest)
    else Exec.placed expr.token (Exec.fail (.noDeclaredField decl.name name))

def fieldValue (decl : TypeDecl) (field : FieldDecl) (given : Option Value) :
    Exec (String × Value) := do
  let value ← match given with
    | some value => pure value
    | none => initialOf field.type
  Exec.checkType value field.type s!"field {decl.name}.{field.name}"
  return (field.name, value)

def givenTo (field : FieldDecl) (given : List (String × Value)) : Option Value :=
  (given.reverse.find? (fun entry => Text.sameName entry.1 field.name)).map Prod.snd

def recordOf (typeName : String) (fields : List (String × Expr)) : Exec Value := do
  let decl ← typeNamed typeName
  let given ← self.givenFields decl fields
  let fields ← decl.fields.mapM (fun field => fieldValue decl field (givenTo field given))
  Exec.newRecord (decl.record fields)

def filledFields (decl : TypeDecl) : List FieldDecl → List Value → Exec (List (String × Value))
  | [], _ => return []
  | field :: fields, values => do
    let first ← fieldValue decl field values.head?
    return first :: (← filledFields decl fields values.tail)

/-- A record of a declared type with the values of its first fields. -/
def newOf (typeName : String) (exprs : List Expr) : Exec Value := do
  let decl ← typeNamed typeName
  let values ← self.values exprs
  if decl.fields.length < values.length then
    Exec.fail (.tooManyFieldValues decl.name decl.fields.length values.length)
  else
    let fields ← filledFields decl decl.fields values
    Exec.newRecord (decl.record fields)

def numberOf (value : Value) : Exec Float :=
  Exec.ask (fun machine => value.asNumber machine.heap)

def applyUnary (op : UnaryOp) (value : Value) : Exec Value := do
  match op with
  | .negate => return .number (-(← numberOf value))
  | .plus => return .number (← numberOf value)
  | .not => return .ofBool (!value.isTruthy (← Exec.heap))

def binary (op : BinaryOp) (left right : Expr) : Exec Value := do
  match op with
  | .and => if ← self.holds left then return .ofBool (← self.holds right) else return .ofBool false
  | .or => if ← self.holds left then return .ofBool true else return .ofBool (← self.holds right)
  | _ =>
    let left ← self.eval left
    let right ← self.eval right
    Exec.ask (fun machine => Value.apply machine.heap op left right)

/-- The value of an expression, without a place for its own errors. -/
def expression (expr : Expr) : Exec Value := do
  match expr with
  | .number _ value => return .number value
  | .text _ value => return .text value
  | .name _ name => self.lookup name
  | .array _ items =>
    let values ← self.values items
    Exec.newArray values
  | .object _ fields =>
    let record ← self.objectOf { typeName := objectType, fields := [] } fields
    Exec.newRecord record
  | .record _ typeName fields => self.recordOf typeName fields
  | .withField _ name =>
    let target ← withTarget
    self.memberValue target name
  | .unary _ op operand =>
    let value ← self.eval operand
    applyUnary op value
  | .binary _ op left right => self.binary op left right
  | .conditional _ condition yes no =>
    if ← self.holds condition then self.eval yes else self.eval no
  | .call _ callee args => self.call callee args
  | .member _ object name =>
    let object ← self.eval object
    self.memberValue object name
  | .index _ object index =>
    let object ← self.eval object
    let index ← self.eval index
    Exec.ask (fun machine => Value.indexed machine.heap object index)
  | .spread _ _ => Exec.fail .misplacedSpread
  | .await _ inner => self.eval inner
  | .new _ typeName args => self.newOf typeName (args.getD [])

def evalExpr (expr : Expr) : Exec Value :=
  Exec.placed expr.token (do
    self.observe (.expression expr)
    self.expression expr)

end MicroBasic.Evaluator
