import MicroBasic.Decimal.Binary
import MicroBasic.Parse.Expr

/-!
# Parsing statements

A statement begins with the word that names it, or is an assignment or a call. Blocks end at a word
that closes or divides the construct they belong to. The statements behind `THEN` and `ELSE` on one
line go up to the end of that line, or up to a `NEXT` that belongs to a loop opened before the `IF`.
-/

namespace MicroBasic

/-- The words that `END` may close. -/
def Keyword.closesBlock : Keyword → Bool
  | .IF => true
  | .TRY => true
  | .FUNCTION => true
  | .SUB => true
  | .WITH => true
  | .SELECT => true
  | .DEFER => true
  | .TYPE => true
  | .PROPERTY => true
  | .WHILE => true
  | _ => false

namespace Cursor

/-- Whether the current token closes or divides an enclosing block. -/
def isAtBlockClose (cursor : Cursor) : Bool :=
  match cursor.kind with
  | .keyword .CATCH => true
  | .keyword .FINALLY => true
  | .keyword .WEND => true
  | .keyword .LOOP => true
  | .keyword .CASE => true
  | .keyword .ELSE => true
  | .keyword .ELSEIF => true
  | .keyword .END =>
    match cursor.second.kind with
    | .keyword word => word.closesBlock
    | _ => false
  | _ => false

def blockCloseWords (cursor : Cursor) : String :=
  if cursor.isAtWord .END then s!"END {Text.foldName cursor.second.lexeme}"
  else Text.foldName cursor.current.lexeme

/-- Whether the current token ends the source. -/
def isAtFinish (cursor : Cursor) : Bool :=
  cursor.kind.isFinish

/-- Whether a statement can end before the current token. -/
def isAtStatementEnd (cursor : Cursor) : Bool :=
  cursor.kind.isSeparator || cursor.isAtFinish || cursor.isAtBlockClose

/-- Whether the statements of a one-line `IF` end before the current token; `openFors` loops have
been opened among them. -/
def isAtInlineEnd (cursor : Cursor) (openFors : Nat) : Bool :=
  if cursor.kind.isNewline || cursor.isAtFinish then true
  else if cursor.isAtWord .NEXT then openFors == 0
  else cursor.isAtBlockClose

end Cursor

namespace Parse

open MicroBasic.Parser

def expectEnd (word : Keyword) (opener : Token) : Parser Unit := do
  if (← get).isAtEndOf word then
    discard advance
    discard advance
  else
    fail (.unclosedBlock (Text.foldName opener.lexeme) opener.position.line (← current).mention)

def maxLineNumber : Nat := Nat.pow 2 32 - 1

def lineNumber : Parser (Option Nat) := do
  match (← get).kind with
  | .number value =>
    match Decimal.natural? value with
    | some n =>
      if n ≤ maxLineNumber then
        discard advance
        return some n
      else fail .badLineNumber
    | none => fail .badLineNumber
  | _ => return none

def label : Parser (Option String) := do
  let cursor ← get
  match cursor.kind with
  | .name name =>
    if cursor.second.kind.isSymbol .colon then
      discard advance
      discard advance
      return some name
    else return none
  | _ => return none

/-- The line number and the label at the start of a line. -/
def linePrefix : Parser (Option Nat × Option String) := do
  if (← get).atLineStart then
    let number ← lineNumber
    return (number, ← label)
  else return (none, none)

/-- A statement with its line number and label, or nothing where these stand alone. -/
def lineStatement (nested : Nested) : StmtParser (Option Stmt) := do
  let (number, name) ← linePrefix
  let cursor ← here
  if (cursor.kind.isSeparator || cursor.isAtFinish) && (number.isSome || name.isSome) then
    return none
  else
    match ← nested.statement with
    | .mk id token _ _ kind => return some (.mk id token number name kind)

/-- The statements of a block up to a cursor where it ends. -/
def blockFrom (nested : Nested) (ends : Cursor → Bool) : Nat → StmtParser Block
  | 0 => fail .tooDeep
  | fuel + 1 => do
    skipSeparators
    let cursor ← here
    if cursor.isAtFinish || ends cursor then return []
    else if cursor.isAtBlockClose then fail (.unexpected cursor.blockCloseWords)
    else
      match ← lineStatement nested with
      | none => blockFrom nested ends fuel
      | some stmt =>
        let cursor ← here
        if cursor.isAtStatementEnd || ends cursor then
          return stmt :: (← blockFrom nested ends fuel)
        else failExpected "end of statement"

def block (nested : Nested) (ends : Cursor → Bool) : StmtParser Block := do
  blockFrom nested ends (← rounds)

/-- How a statement changes the number of loops opened on a line. -/
def countFor (openFors : Nat) (stmt : Stmt) : Nat :=
  match stmt.kind with
  | .openFor _ _ _ _ => openFors + 1
  | .next _ => openFors - 1
  | _ => openFors

/-- The statements of a one-line `IF`. Where a `NEXT` ends them, the separator before it is left for
the enclosing block. -/
def inlineFrom (nested : Nested) : Nat → Nat → StmtParser Block
  | 0, _ => fail .tooDeep
  | fuel + 1, openFors => do
    let separator := (← here).ahead
    skipColons
    let cursor ← here
    if cursor.isAtInlineEnd openFors then
      if cursor.isAtWord .NEXT then back separator
      return []
    else
      let stmt ← nested.statement
      let openFors := countFor openFors stmt
      let cursor ← here
      if cursor.isAt .colon || cursor.isAtInlineEnd openFors then
        return stmt :: (← inlineFrom nested fuel openFors)
      else failExpected "end of statement"

def inlineBlock (nested : Nested) : StmtParser Block := do
  inlineFrom nested (← rounds) 0

def letStatement (nested : Nested) (token : Token) : StmtParser Stmt := do
  let target ← operand nested
  if target.isPlace then
    discard (expect .equal "'=' after LET target")
    let value ← expression nested
    finish token (.assign target value true)
  else failAt target.token .notAssignable

/-- An expression as a statement. A name or a member alone is a call without arguments. -/
def asCall (expr : Expr) : Parser Expr :=
  match expr with
  | .call _ _ _ => return expr
  | .name token _ => return .call token expr []
  | .member token _ _ => return .call token expr []
  | _ => failAt expr.token (.notStatement expr.token.lexeme)

def assignOrCall (nested : Nested) : StmtParser Stmt := do
  let token ← current
  let target ← operand nested
  if ← accept .equal then
    if target.isPlace then
      let value ← expression nested
      finish token (.assign target value false)
    else failAt target.token .notAssignable
  else
    let call ← asCall target
    finish token (.call call)

/-- The separator behind a printed item, if there is one. -/
def printSeparator : Parser (Option Separator) := do
  if ← accept .semicolon then return some .semicolon
  else if ← accept .comma then return some .comma
  else return none

/-- The items of a `PRINT` statement; the flag tells whether the line ends. -/
def printItems (nested : Nested) : Nat → Parser (List PrintItem × Bool)
  | 0 => fail .tooDeep
  | fuel + 1 => do
    let expr ← expression nested
    let separator ← printSeparator
    let item : PrintItem := { expr, separator }
    if separator.isNone then return ([item], true)
    else
      let cursor ← get
      if cursor.isAtStatementEnd || cursor.isAtWord .NEXT then return ([item], false)
      else
        let (items, newline) ← printItems nested fuel
        return (item :: items, newline)

def printStatement (nested : Nested) (token : Token) : StmtParser Stmt := do
  let cursor ← here
  if cursor.isAtStatementEnd || cursor.isAtWord .NEXT then finish token (.print [] true)
  else
    let (items, newline) ← printItems nested (← rounds)
    finish token (.print items newline)

/-- The places that an `INPUT` statement fills. -/
def inputTargets (nested : Nested) : Nat → Parser (List Expr)
  | 0 => fail .tooDeep
  | fuel + 1 => do
    let target ← operand nested
    if target.isPlace then
      if ← accept .comma then return target :: (← inputTargets nested fuel)
      else return [target]
    else failAt target.token .inputNeedsVariable

/-- The text that an `INPUT` statement shows first. -/
def inputPrompt : Parser (Option String) := do
  let cursor ← get
  match cursor.kind with
  | .text value =>
    if cursor.second.kind.isSymbol .semicolon || cursor.second.kind.isSymbol .comma then
      discard advance
      discard advance
      return some value
    else return none
  | _ => return none

def inputStatement (nested : Nested) (token : Token) : StmtParser Stmt := do
  let prompt ← inputPrompt
  let targets ← inputTargets nested (← rounds)
  finish token (.input prompt targets)

def endsBranch (cursor : Cursor) : Bool :=
  cursor.isAtWord .ELSEIF || cursor.isAtWord .ELSE || cursor.isAtEndOf .IF

def elseIfBranches (nested : Nested) : Nat → StmtParser (List (IfBranch Block))
  | 0 => fail .tooDeep
  | fuel + 1 => do
    if ← acceptWord .ELSEIF then
      let condition ← expression nested
      discard (expectWord .THEN "THEN after ELSEIF")
      let body ← block nested endsBranch
      return { condition, body } :: (← elseIfBranches nested fuel)
    else return []

/-- An `IF` statement on one line, behind `THEN`. -/
def inlineIf (nested : Nested) (token : Token) (condition : Expr) : StmtParser Stmt := do
  let body ← inlineBlock nested
  let otherwise ← if ← acceptWord .ELSE then some <$> inlineBlock nested else pure none
  finish token (.branch [{ condition, body }] otherwise false)

/-- An `IF` statement over several lines, behind `THEN`. -/
def blockIf (nested : Nested) (token : Token) (condition : Expr) : StmtParser Stmt := do
  let body ← block nested endsBranch
  let more ← elseIfBranches nested (← rounds)
  let otherwise ←
    if ← acceptWord .ELSE then some <$> block nested (fun cursor => cursor.isAtEndOf .IF)
    else pure none
  expectEnd .IF token
  finish token (.branch ({ condition, body } :: more) otherwise true)

def ifStatement (nested : Nested) (token : Token) : StmtParser Stmt := do
  let condition ← expression nested
  discard (expectWord .THEN "THEN")
  let cursor ← here
  if cursor.kind.isNewline || cursor.isAtFinish then blockIf nested token condition
  else inlineIf nested token condition

def forStatement (nested : Nested) (token : Token) : StmtParser Stmt := do
  let (var, _) ← expectName "loop variable after FOR"
  discard (expect .equal "'=' after FOR variable")
  let start ← expression nested
  discard (expectWord .TO "TO")
  let limit ← expression nested
  let step ← if ← acceptWord .STEP then some <$> expression nested else pure none
  finish token (.openFor var start limit step)

def optionalName : Parser (Option String) := do
  match (← get).kind with
  | .name value =>
    discard advance
    return some value
  | _ => return none

def nextStatement (token : Token) : StmtParser Stmt := do
  let var ← optionalName
  finish token (.next var)

/-- A `WHILE` loop, closed by `WEND` or `END WHILE`. -/
def whileStatement (nested : Nested) (token : Token) : StmtParser Stmt := do
  let condition ← expression nested
  let body ← block nested (fun cursor => cursor.isAtWord .WEND || cursor.isAtEndOf .WHILE)
  if !(← acceptWord .WEND) then expectEnd .WHILE token
  finish token (.whileLoop condition body)

def loopCondition (nested : Nested) : Parser (Option LoopCondition) := do
  match (← get).kind with
  | .keyword .WHILE =>
    discard advance
    return some { untilTrue := false, condition := ← expression nested }
  | .keyword .UNTIL =>
    discard advance
    return some { untilTrue := true, condition := ← expression nested }
  | _ => return none

def doStatement (nested : Nested) (token : Token) : StmtParser Stmt := do
  let before ← loopCondition nested
  let body ← block nested (fun cursor => cursor.isAtWord .LOOP)
  let loopToken ← expectWord .LOOP "LOOP to close DO"
  let after ← loopCondition nested
  if before.isSome && after.isSome then failAt loopToken .conditionAtBothEnds
  else finish token (.doLoop before after body)

/-- The `CATCH` part of a `TRY` statement. -/
def catchClause (nested : Nested) : StmtParser (Option (CatchClause Block)) := do
  if ← acceptWord .CATCH then
    let errorName ← optionalName
    let body ← block nested (fun cursor => cursor.isAtWord .FINALLY || cursor.isAtEndOf .TRY)
    return some { errorName, body }
  else return none

def tryStatement (nested : Nested) (token : Token) : StmtParser Stmt := do
  let body ← block nested (fun cursor =>
    cursor.isAtWord .CATCH || cursor.isAtWord .FINALLY || cursor.isAtEndOf .TRY)
  let handler ← catchClause nested
  let cleanup ←
    if ← acceptWord .FINALLY then some <$> block nested (fun cursor => cursor.isAtEndOf .TRY)
    else pure none
  expectEnd .TRY token
  finish token (.attempt body handler cleanup)

def raiseStatement (nested : Nested) (token : Token) : StmtParser Stmt := do
  let message ← expression nested
  let code ← if ← accept .comma then some <$> expression nested else pure none
  finish token (.raise message code)

/-- A `DEFER` statement: a block over several lines, or one statement. -/
def deferStatement (nested : Nested) (token : Token) : StmtParser Stmt := do
  if (← here).kind.isNewline then
    let body ← block nested (fun cursor => cursor.isAtEndOf .DEFER)
    expectEnd .DEFER token
    finish token (.defer body)
  else
    skipColons
    let stmt ← nested.statement
    finish token (.defer [stmt])

def typeSpec : Parser TypeSpec := do
  let (name, _) ← expectAnyName "type name after AS"
  return TypeSpec.ofName name

/-- A declared type, if `AS` stands here. -/
def optionalType : Parser (Option TypeSpec) := do
  if ← acceptWord .AS then some <$> typeSpec else return none

/-- One parameter, after those already read. -/
def parameter (nested : Nested) (earlier : List Param) : Parser Param := do
  skipNewlines
  let byRef ← acceptWord .REF
  if !byRef && (← get).isAtSoftWord "BYVAL" then discard advance
  let (name, nameToken) ← expectName "parameter name"
  if earlier.any (fun param => param.variadic) then failAt nameToken .variadicNotLast
  else if earlier.any (fun param => Text.sameName param.name name) then
    failAt nameToken (.duplicateParameter name)
  else
    let variadic ← accept .ellipsis
    let type ← optionalType
    let default ← if ← accept .equal then some <$> expression nested else pure none
    if variadic && (byRef || default.isSome) then failAt nameToken .variadicForm
    else return { name, byRef, type, default, variadic }

/-- Parameters up to the closing bracket, after those already read. -/
def parametersFrom (nested : Nested) : Nat → List Param → Parser (List Param)
  | 0, _ => fail .tooDeep
  | fuel + 1, earlier => do
    let param ← parameter nested earlier
    let params := earlier ++ [param]
    skipNewlines
    if ← accept .comma then parametersFrom nested fuel params
    else
      discard (expect .rightParen "')' after parameters")
      return params

/-- The parameters of a declaration; there need be none. -/
def parameters (nested : Nested) : Parser (List Param) := do
  if ← accept .leftParen then
    skipNewlines
    if ← accept .rightParen then return []
    else parametersFrom nested (← rounds) []
  else return []

def functionStatement (nested : Nested) (token : Token) (isSub : Bool) : StmtParser Stmt := do
  let (name, _) ← expectName (if isSub then "SUB name" else "FUNCTION name")
  let params ← parameters nested
  let returnType ← optionalType
  let closer := if isSub then Keyword.SUB else Keyword.FUNCTION
  let body ← block nested (fun cursor => cursor.isAtEndOf closer)
  expectEnd closer token
  finish token (.function { name, params, returnType, body, isSub })

/-- Which accessor a property declaration is; reading without a word for it. -/
def accessor : Parser Accessor := do
  let cursor ← get
  if cursor.isAtSoftWord "GET" then
    discard advance
    return .get
  else if cursor.isAtSoftWord "SET" then
    discard advance
    return .set
  else return .get

/-- Whether the first parameter of a property may have a declared type. -/
def receiverFits (typeName : String) (params : List Param) : Bool :=
  match params with
  | { type := some (.named name), .. } :: _ => Text.sameName name typeName
  | { type := some _, .. } :: _ => false
  | _ => true

def propertyStatement (nested : Nested) (token : Token) : StmtParser Stmt := do
  let (typeName, _) ← expectName "type name after PROPERTY"
  discard (expect .dot "'.' between type and property name")
  let (name, _) ← expectAnyName "property name"
  let params ← parameters nested
  let returnType ← optionalType
  let which ← accessor
  if params.length ≠ which.arity then
    failAt token (.propertyArity typeName name (which.arity))
  else if !receiverFits typeName params then failAt token (.propertyReceiver typeName name)
  else
    let body ← block nested (fun cursor => cursor.isAtEndOf .PROPERTY)
    expectEnd .PROPERTY token
    finish token (.property { typeName, name, params, returnType, accessor := which, body })

def withStatement (nested : Nested) (token : Token) : StmtParser Stmt := do
  let target ← expression nested
  let body ← block nested (fun cursor => cursor.isAtEndOf .WITH)
  expectEnd .WITH token
  finish token (.withBlock target body)

def caseOperator : Parser BinaryOp := do
  let op ← match (← get).kind with
    | .symbol .equal => pure BinaryOp.equal
    | .symbol .notEqual => pure BinaryOp.notEqual
    | .symbol .less => pure BinaryOp.less
    | .symbol .greater => pure BinaryOp.greater
    | .symbol .lessEqual => pure BinaryOp.lessEqual
    | .symbol .greaterEqual => pure BinaryOp.greaterEqual
    | _ => fail .caseNeedsComparison
  discard advance
  return op

def caseTest (nested : Nested) : Parser CaseTest := do
  if (← get).isAtSoftWord "IS" then
    discard advance
    let op ← caseOperator
    return .compare op (← expression nested)
  else
    let value ← expression nested
    if ← acceptWord .TO then return .range value (← expression nested)
    else return .value value

def caseTests (nested : Nested) : Nat → Parser (List CaseTest)
  | 0 => fail .tooDeep
  | fuel + 1 => do
    let test ← caseTest nested
    if ← accept .comma then return test :: (← caseTests nested fuel) else return [test]

def endsCase (cursor : Cursor) : Bool :=
  cursor.isAtWord .CASE || cursor.isAtEndOf .SELECT

/-- The cases of a `SELECT`, after those already read, and the body of `CASE ELSE`. -/
def casesFrom (nested : Nested) :
    Nat → List (CaseClause Block) → Option Block →
      StmtParser (List (CaseClause Block) × Option Block)
  | 0, _, _ => fail .tooDeep
  | fuel + 1, cases, otherwise => do
    skipSeparators
    if (← here).isAtEndOf .SELECT then return (cases, otherwise)
    else
      let token ← expectWord .CASE "CASE"
      if otherwise.isSome then failAt token .caseAfterElse
      else if ← acceptWord .ELSE then
        let body ← block nested endsCase
        casesFrom nested fuel cases (some body)
      else
        let tests ← caseTests nested (← rounds)
        let body ← block nested endsCase
        casesFrom nested fuel (cases ++ [{ token, tests, body }]) otherwise

def selectStatement (nested : Nested) (token : Token) : StmtParser Stmt := do
  discard (expectWord .CASE "CASE after SELECT")
  let selector ← expression nested
  let (cases, otherwise) ← casesFrom nested (← rounds) [] none
  expectEnd .SELECT token
  finish token (.select selector cases otherwise)

def exitStatement (token : Token) : StmtParser Stmt := do
  let kind ← match (← here).kind with
    | .keyword .FOR => pure (ExitKind.loop .forLoop)
    | .keyword .WHILE => pure (ExitKind.loop .whileLoop)
    | .keyword .DO => pure (ExitKind.loop .doLoop)
    | .keyword .SUB => pure ExitKind.sub
    | .keyword .FUNCTION => pure ExitKind.function
    | _ => fail .exitNeedsKind
  discard advance
  finish token (.exit kind)

def continueKind (kind : TokenKind) : Option LoopKind :=
  match kind with
  | .keyword .FOR => some .forLoop
  | .keyword .WHILE => some .whileLoop
  | .keyword .DO => some .doLoop
  | _ => none

def continueStatement (token : Token) : StmtParser Stmt := do
  let kind := continueKind (← here).kind
  if kind.isSome then discard advance
  finish token (.continueLoop kind)

def spreadNames : Nat → Parser (List (String × Token))
  | 0 => fail .tooDeep
  | fuel + 1 => do
    let name ← expectAnyName "field name in SPREAD"
    if ← accept .comma then return name :: (← spreadNames fuel) else return [name]

def spreadClause : Parser (Option (List (String × Token))) := do
  if (← get).isAtSoftWord "SPREAD" then
    discard advance
    discard (expect .leftParen "'(' after SPREAD")
    let names ← spreadNames (← rounds)
    discard (expect .rightParen "')' after SPREAD fields")
    return some names
  else return none

/-- The fields of a type, after those already read. -/
def fieldsFrom (typeName : String) : Nat → List FieldDecl → Parser (List FieldDecl)
  | 0, _ => fail .tooDeep
  | fuel + 1, fields => do
    skipSeparators
    let cursor ← get
    if cursor.isAtEndOf .TYPE || cursor.isAtFinish then return fields
    else
      let (name, token) ← expectAnyName "field name"
      if fields.any (fun field => field.name == name) then
        failAt token (.duplicateField name typeName)
      else
        let type ← optionalType
        let field : FieldDecl := { name, type := type.getD (TypeSpec.ofSuffix name) }
        fieldsFrom typeName fuel (fields ++ [field])

/-- Every name of a `SPREAD` clause has to be a field. -/
def checkSpread (typeName : String) (fields : List FieldDecl) :
    List (String × Token) → Parser Unit
  | [] => return
  | (name, token) :: rest =>
    if fields.any (fun field => field.name == name) then checkSpread typeName fields rest
    else failAt token (.unknownSpreadField name typeName)

def typeStatement (token : Token) : StmtParser Stmt := do
  let (name, _) ← expectName "type name after TYPE"
  let spread ← spreadClause
  let fields ← fieldsFrom name (← rounds) []
  expectEnd .TYPE token
  checkSpread name fields (spread.getD [])
  finish token (.type { name, fields, spread := spread.map (fun names => names.map Prod.fst) })

def dimStatement (nested : Nested) (token : Token) : StmtParser Stmt := do
  let (name, _) ← expectName "variable name after DIM"
  let size ←
    if ← accept .leftParen then
      let size ← expression nested
      discard (expect .rightParen "')' after DIM size")
      pure (some size)
    else pure none
  let type ← optionalType
  finish token (.dim name size type)

def spawnStatement (token : Token) : StmtParser Stmt := do
  match (← here).kind with
  | .name name =>
    discard advance
    finish token (.spawn name)
  | .text name =>
    discard advance
    finish token (.spawn name)
  | _ => fail .spawnNeedsName

def returnStatement (nested : Nested) (token : Token) : StmtParser Stmt := do
  let cursor ← here
  if cursor.isAtStatementEnd || cursor.isAtWord .NEXT then finish token (.returnValue none)
  else
    let value ← expression nested
    finish token (.returnValue (some value))

def callStatement (nested : Nested) (token : Token) : StmtParser Stmt := do
  let target ← operand nested
  let call ← asCall target
  finish token (.call call)

/-- The statement that a reserved word begins, if it begins one. -/
def wordStatement? (nested : Nested) : Keyword → Option (Token → StmtParser Stmt)
  | .LET => some (letStatement nested)
  | .PRINT => some (printStatement nested)
  | .INPUT => some (inputStatement nested)
  | .IF => some (ifStatement nested)
  | .FOR => some (forStatement nested)
  | .NEXT => some nextStatement
  | .WHILE => some (whileStatement nested)
  | .DO => some (doStatement nested)
  | .TRY => some (tryStatement nested)
  | .ERROR => some (raiseStatement nested)
  | .DEFER => some (deferStatement nested)
  | .FUNCTION => some (fun token => functionStatement nested token false)
  | .SUB => some (fun token => functionStatement nested token true)
  | .PROPERTY => some (propertyStatement nested)
  | .WITH => some (withStatement nested)
  | .SELECT => some (selectStatement nested)
  | .EXIT => some exitStatement
  | .CONTINUE => some continueStatement
  | .TYPE => some typeStatement
  | .DIM => some (dimStatement nested)
  | .SPAWN => some spawnStatement
  | .RETURN => some (returnStatement nested)
  | .CALL => some (callStatement nested)
  | .END => some (fun token => finish token .halt)
  | .STOP => some (fun token => finish token .stop)
  | _ => none

def statementParser (nested : Nested) (kind : TokenKind) : StmtParser Stmt :=
  match kind with
  | .symbol .question => do printStatement nested (← advance)
  | .keyword word =>
    match wordStatement? nested word with
    | some parser => do parser (← advance)
    | none => assignOrCall nested
  | _ => assignOrCall nested

def statement (nested : Nested) : StmtParser Stmt := do
  statementParser nested (← here).kind

/-- Parsers for constructs nested at most so deep. -/
def nestedTo : Nat → Nested
  | 0 => Nested.exhausted
  | depth + 1 =>
    { expression := fun cursor => expression (nestedTo depth) cursor
      unary := fun cursor => unary (nestedTo depth) cursor
      statement := fun id => statement (nestedTo depth) id }

end Parse

end MicroBasic
