import MicroBasic.Token.Scan

/-!
# Syntax errors

What can keep a sequence of tokens from being a program, and the message for each cause. A syntax
error is a scanning or a parsing error together with the place it points to.
-/

namespace MicroBasic

/-- The causes of parsing errors. -/
inductive ParseFault where
  /-- Something else was needed than the token that was found. -/
  | expected (what found : String)
  /-- A token or a block end that nothing is waiting for. -/
  | unexpected (what : String)
  | notAssignable
  /-- An expression that stands as a statement and is not a call. -/
  | notStatement (lexeme : String)
  | inputNeedsVariable
  | badLineNumber
  /-- A block whose end is missing. -/
  | unclosedBlock (name : String) (line : Nat) (found : String)
  | conditionAtBothEnds
  | variadicNotLast
  | duplicateParameter (name : String)
  | variadicForm
  | propertyArity (typeName name : String) (count : Nat)
  | propertyReceiver (typeName name : String)
  | caseAfterElse
  | caseNeedsComparison
  | exitNeedsKind
  | duplicateField (field typeName : String)
  | unknownSpreadField (field typeName : String)
  | spawnNeedsName
  | zeroStep (var : String)
  | nextWithoutFor (var : Option String)
  | forWithoutNext (var : String)
  /-- A named `NEXT` that closes an outer loop while an inner one is open. -/
  | crossedNext (var next : String)
  /-- The nesting bound was reached; the bound that `parse` sets never is. -/
  | tooDeep
  deriving Repr, DecidableEq

def ParseFault.message : ParseFault → String
  | expected what found => s!"expected {what}, found {found}"
  | unexpected what => s!"unexpected {what}"
  | notAssignable => "cannot assign to this expression"
  | notStatement lexeme => s!"expected a statement, found '{lexeme}'"
  | inputNeedsVariable => "INPUT needs a variable"
  | badLineNumber => "line numbers must be non-negative integers"
  | unclosedBlock name line found =>
    s!"expected END {name} to close {name} at line {line}, found {found}"
  | conditionAtBothEnds => "DO loop cannot test a condition at both ends"
  | variadicNotLast => "a variadic parameter must be last"
  | duplicateParameter name => s!"duplicate parameter '{name}'"
  | variadicForm => "a variadic parameter cannot be REF or have a default"
  | propertyArity typeName name count =>
    s!"property {typeName}.{name} must take {count} parameter(s)"
  | propertyReceiver typeName name =>
    s!"first parameter of property {typeName}.{name} must be AS {typeName}"
  | caseAfterElse => "CASE after CASE ELSE"
  | caseNeedsComparison => "expected comparison operator after CASE IS"
  | exitNeedsKind => "expected FOR, WHILE, DO, SUB or FUNCTION after EXIT"
  | duplicateField field typeName => s!"duplicate field '{field}' in TYPE {typeName}"
  | unknownSpreadField field typeName => s!"SPREAD names unknown field '{field}' of TYPE {typeName}"
  | spawnNeedsName => "expected routine name after SPAWN"
  | zeroStep var => s!"FOR {var} has STEP 0"
  | nextWithoutFor (some name) => s!"NEXT {name} without FOR"
  | nextWithoutFor none => "NEXT without FOR"
  | forWithoutNext var => s!"FOR {var} without NEXT"
  | crossedNext var next => s!"FOR {var} without NEXT (found NEXT {next})"
  | tooDeep => "nesting too deep"

/-- A parsing error and where it stands. -/
structure ParseError where
  cause : ParseFault
  span : Span
  position : Position
  deriving Repr, DecidableEq

def ParseError.at (token : Token) (cause : ParseFault) : ParseError :=
  { cause, span := token.span, position := token.position }

/-- What can be wrong with a source text. -/
inductive SyntaxError where
  | scanning (error : ScanError)
  | parsing (error : ParseError)
  deriving Repr, DecidableEq

namespace SyntaxError

def message : SyntaxError → String
  | scanning error => error.cause.message
  | parsing error => error.cause.message

def span : SyntaxError → Span
  | scanning error => error.span
  | parsing error => error.span

/-- The line and column that an error is about. -/
def position : SyntaxError → Position
  | scanning error => error.position
  | parsing error => error.position

def stage : SyntaxError → String
  | scanning _ => "Lexer"
  | parsing _ => "Parser"

def report (error : SyntaxError) : String :=
  s!"{error.stage} error at {error.position.text}: {error.message}"

end SyntaxError

end MicroBasic
