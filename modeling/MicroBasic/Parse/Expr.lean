import MicroBasic.Parse.Cursor

/-!
# Parsing expressions

Binary operators stand on levels from the loosest to the tightest, each associating to the left.
Below them are the signs and other operators in front of an operand, and below those the chain of
calls, members and indices behind one. The only way back up is through brackets, arguments and
operands, where the parser for nested expressions is used.
-/

namespace MicroBasic.Parse

open MicroBasic.Parser

abbrev Level := TokenKind → Option BinaryOp

/-- The levels of binary operators, loosest first. -/
def levels : List Level :=
  [fun kind => match kind with
    | .keyword .OR => some .or
    | _ => none,
   fun kind => match kind with
    | .keyword .AND => some .and
    | _ => none,
   fun kind => match kind with
    | .symbol .equal => some .equal
    | .symbol .notEqual => some .notEqual
    | _ => none,
   fun kind => match kind with
    | .symbol .less => some .less
    | .symbol .greater => some .greater
    | .symbol .lessEqual => some .lessEqual
    | .symbol .greaterEqual => some .greaterEqual
    | _ => none,
   fun kind => match kind with
    | .symbol .plus => some .add
    | .symbol .minus => some .subtract
    | .symbol .ampersand => some .concat
    | _ => none,
   fun kind => match kind with
    | .symbol .star => some .multiply
    | .symbol .slash => some .divide
    | .symbol .backslash => some .wholeDivide
    | .keyword .MOD => some .modulo
    | _ => none,
   fun kind => match kind with
    | .symbol .caret => some .power
    | _ => none]

/-- Items separated by commas up to a closing symbol; line ends may stand between them. At least one
item is read. -/
def listItems {α : Type} (item : Parser α) (close : Symbol) (what : String) : Nat → Parser (List α)
  | 0 => fail .tooDeep
  | fuel + 1 => do
    skipNewlines
    let first ← item
    skipNewlines
    if ← accept .comma then return first :: (← listItems item close what fuel)
    else
      discard (expect close what)
      return [first]

/-- A list of items up to its closing symbol, possibly empty. The opening symbol has been passed. -/
def list {α : Type} (item : Parser α) (close : Symbol) (what : String) : Parser (List α) := do
  skipNewlines
  if ← accept close then return []
  else listItems item close what (← rounds)

def arguments (nested : Nested) : Parser (List Expr) := do
  discard (expect .leftParen "'('")
  list nested.expression .rightParen "')' after arguments"

/-- The name of a field in a literal; it may be quoted. -/
def fieldName : Parser String := do
  match (← get).kind with
  | .text value =>
    discard advance
    return value
  | _ => return (← expectAnyName "field name").1

/-- A field of a record or object literal with its value. -/
def fieldInit (nested : Nested) : Parser (String × Expr) := do
  let name ← fieldName
  discard (expect .colon "':' after field name")
  return (name, ← nested.expression)

def primary (nested : Nested) : Parser Expr := do
  let token ← current
  match token.kind with
  | .number value =>
    discard advance
    return .number token value
  | .text value =>
    discard advance
    return .text token value
  | .keyword .TRUE =>
    discard advance
    return .number token (-1.0)
  | .keyword .FALSE =>
    discard advance
    return .number token 0.0
  | .name name =>
    discard advance
    if ← accept .leftBrace then
      return .record token name (← list (fieldInit nested) .rightBrace "'\x7d' after record fields")
    else return .name token name
  | .symbol .leftParen =>
    discard advance
    skipNewlines
    let inner ← nested.expression
    skipNewlines
    discard (expect .rightParen "')'")
    return inner
  | .symbol .leftBracket =>
    discard advance
    return .array token (← list nested.expression .rightBracket "']' after array elements")
  | .symbol .leftBrace =>
    discard advance
    return .object token (← list (fieldInit nested) .rightBrace "'\x7d' after object fields")
  | .symbol .dot =>
    discard advance
    let (name, _) ← expectAnyName "field name after '.'"
    return .withField token name
  | _ => failExpected "expression"

/-- Calls, members, indices and a spread mark behind an expression. -/
def chain (nested : Nested) : Nat → Expr → Parser Expr
  | 0, _ => fail .tooDeep
  | fuel + 1, expr => do
    let token ← current
    match token.kind with
    | .symbol .leftParen =>
      let args ← arguments nested
      chain nested fuel (.call token expr args)
    | .symbol .dot =>
      discard advance
      let (name, nameToken) ← expectAnyName "member name after '.'"
      chain nested fuel (.member nameToken expr name)
    | .symbol .leftBracket =>
      discard advance
      skipNewlines
      let index ← nested.expression
      skipNewlines
      discard (expect .rightBracket "']' after index")
      chain nested fuel (.index token expr index)
    | .symbol .ellipsis =>
      discard advance
      return .spread token expr
    | _ => return expr

def operand (nested : Nested) : Parser Expr := do
  let expr ← primary nested
  chain nested (← rounds) expr

def newRecord (nested : Nested) (token : Token) : Parser Expr := do
  let (typeName, _) ← expectName "type name after NEW"
  let args ← if (← get).isAt .leftParen then some <$> arguments nested else pure none
  chain nested (← rounds) (.new token typeName args)

/-- An operand with the operators in front of it. -/
def unary (nested : Nested) : Parser Expr := do
  let token ← current
  match token.kind with
  | .symbol .minus =>
    discard advance
    return .unary token .negate (← nested.unary)
  | .symbol .plus =>
    discard advance
    return .unary token .plus (← nested.unary)
  | .keyword .NOT =>
    discard advance
    return .unary token .not (← nested.unary)
  | .keyword .AWAIT =>
    discard advance
    return .await token (← nested.unary)
  | .symbol .ellipsis =>
    discard advance
    return .spread token (← nested.unary)
  | .keyword .NEW =>
    discard advance
    newRecord nested token
  | _ => operand nested

/-- Further operands of one level behind the first. -/
def moreOperands (level : Level) (next : Parser Expr) : Nat → Expr → Parser Expr
  | 0, _ => fail .tooDeep
  | fuel + 1, left => do
    let token ← current
    match level token.kind with
    | some op =>
      discard advance
      let right ← next
      moreOperands level next fuel (.binary token op left right)
    | none => return left

/-- Operators of the given levels over operands. -/
def ladder (nested : Nested) : List Level → Parser Expr
  | [] => unary nested
  | level :: tighter => do
    let left ← ladder nested tighter
    moreOperands level (ladder nested tighter) (← rounds) left

/-- A whole expression: operators, and the choice between two expressions. -/
def expression (nested : Nested) : Parser Expr := do
  let condition ← ladder nested levels
  let token ← current
  if (← get).isAt .question then
    discard advance
    let yes ← nested.expression
    discard (expect .colon "':' in conditional expression")
    let no ← nested.expression
    return .conditional token condition yes no
  else return condition

end MicroBasic.Parse
