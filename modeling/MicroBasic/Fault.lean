import MicroBasic.Ast.Stmt
import MicroBasic.Decimal.Layout
import MicroBasic.Text.Spelling

/-!
# Runtime errors

What can go wrong while a program runs, with the code that handlers see and the message. A runtime
error is such a cause with the place of the token it is about, which the innermost construct that
knows one supplies.
-/

namespace MicroBasic

/-- How many arguments a host function takes. -/
inductive Arity where
  | exactly (count : Nat)
  | atLeast (count : Nat)
  | between (low high : Nat)
  deriving Repr, DecidableEq

namespace Arity

/-- Whether a number of arguments fits. -/
def accepts (arity : Arity) (count : Nat) : Bool :=
  match arity with
  | exactly wanted => count == wanted
  | atLeast low => Nat.ble low count
  | between low high => Nat.ble low count && Nat.ble count high

/-- The number of arguments in words. -/
def text : Arity → String
  | exactly count => toString count
  | atLeast count => s!"at least {count}"
  | between low high => s!"{low} to {high}"

end Arity

/-- Why a host function fails. -/
inductive HostFault where
  | argumentCount (function : String) (arity : Arity) (got : Nat)
  /-- An argument of another kind than the function takes. -/
  | argumentKind (function wanted got : String)
  | notACount (function : String) (value : Float)
  | negativeRoot (value : Float)
  | emptyArray (function : String)
  | startNotPositive
  | badCharacterCode (code : Nat)
  | emptyText
  | repeatTooLong
  | popEmpty
  /-- A reason given by a function outside the library. -/
  | custom (message : String)

/-- The greatest number of bytes that repeating a text may give. -/
def maxRepeatedBytes : Nat := Nat.pow 2 28

def HostFault.message : HostFault → String
  | argumentCount function arity got =>
    s!"{function} expects {arity.text} argument(s), got {got}"
  | argumentKind function wanted got => s!"{function} expects {wanted}, got {got}"
  | notACount function value =>
    s!"{function} expects a non-negative integer, got {Decimal.numberText value}"
  | negativeRoot value => s!"SQRT of negative number {Decimal.numberText value}"
  | emptyArray function => s!"{function} of an empty array"
  | startNotPositive => "MID$ start position is 1-based"
  | badCharacterCode code => s!"CHR$: invalid character code {code}"
  | emptyText => "ASC of an empty string"
  | repeatTooLong => s!"REPEAT result would exceed {maxRepeatedBytes} bytes"
  | popEmpty => "POP from an empty array"
  | custom message => message

/-- The reasons why a run stops before its last statement. -/
inductive HaltReason where
  | ended
  | stopped
  deriving Repr, DecidableEq

def HaltReason.word : HaltReason → String
  | ended => "END"
  | stopped => "STOP"

def LoopKind.word : LoopKind → String
  | forLoop => "FOR"
  | whileLoop => "WHILE"
  | doLoop => "DO"

def Accessor.word : Accessor → String
  | get => "GET"
  | set => "SET"

/-- Control that leaves the construct it belongs to. -/
inductive StrayControl where
  | exitOutsideLoop (kind : LoopKind)
  | continueOutsideLoop
  | exitEscaped (function : String)
  | continueEscaped (function : String)
  | fieldOutsideWith
  | unpairedLoop
  | inactiveNext
  deriving Repr, DecidableEq

def StrayControl.message : StrayControl → String
  | exitOutsideLoop kind => s!"EXIT {kind.word} outside of a loop"
  | continueOutsideLoop => "CONTINUE outside of a loop"
  | exitEscaped function => s!"EXIT loop escaped from {function}"
  | continueEscaped function => s!"CONTINUE escaped from {function}"
  | fieldOutsideWith => "'.field' used outside of a WITH block"
  | unpairedLoop => "FOR/NEXT without a loop binding"
  | inactiveNext => "NEXT reached without an active FOR"

/-- The greatest number of elements that `DIM` makes. -/
def maxDimElements : Nat := Nat.pow 2 24

/-- Why a running program fails. -/
inductive Fault where
  | wrongType (expected got : String)
  /-- A value that does not have the type declared for something. -/
  | unfit (what : String) (type : TypeSpec) (got : String)
  | unknownType (name : String)
  | typeNestsItself (name : String)
  | incomparable (left : String) (op : BinaryOp) (right : String)
  | notNumeric (op : BinaryOp)
  | notACaseTest (op : BinaryOp)
  | notAssignable
  | misplacedSpread
  | notSpreadable (type : String)
  | tooManyFieldValues (type : String) (most got : Nat)
  | notIndexable (type : String)
  | notIndexableBy (type index : String)
  | unknownName (name : String) (suggestion : Option String)
  | lostField (name : String)
  | noField (type name : String)
  | noDeclaredField (type name : String)
  | noFieldToSpread (type name : String)
  | unknownMethod (name type : String) (suggestion : Option String)
  | ambiguousMethod (name type : String) (candidates : List String)
  | ambiguousCall (name : String) (arguments candidates : List String)
  | noOverload (name : String) (arguments candidates : List String)
  | notAccepted (overload : String) (arguments : List String)
  | notCallable (what : String)
  | divisionByZero
  | indexOutOfRange (index : Float) (length : Nat)
  | dimSizeNotWhole (name : String)
  | dimSizeTooLarge (name : String) (size : Float)
  | typeDefinedTwice (name : String)
  | overloadDefinedTwice (overload : String)
  | propertyDefinedTwice (type name : String) (accessor : Accessor)
  | zeroStep (var : String)
  | strayControl (cause : StrayControl)
  | host (function : String) (cause : HostFault)
  | noInput
  /-- Raised by the program itself. -/
  | raised (message : String) (code : Option String)
  | stepBudget (limit : Nat)
  | callDepth (limit : Nat)
  /-- The program halted in a function, and no block has taken that up. -/
  | halted (reason : HaltReason)

namespace Fault

/-- The code of a runtime error, which programs can tell causes apart by. -/
def code : Fault → String
  | wrongType _ _ => "TYPE_MISMATCH"
  | unfit _ _ _ => "TYPE_MISMATCH"
  | unknownType _ => "TYPE_MISMATCH"
  | typeNestsItself _ => "TYPE_MISMATCH"
  | incomparable _ _ _ => "TYPE_MISMATCH"
  | notNumeric _ => "TYPE_MISMATCH"
  | notACaseTest _ => "TYPE_MISMATCH"
  | notAssignable => "TYPE_MISMATCH"
  | misplacedSpread => "TYPE_MISMATCH"
  | notSpreadable _ => "TYPE_MISMATCH"
  | tooManyFieldValues _ _ _ => "TYPE_MISMATCH"
  | notIndexable _ => "TYPE_MISMATCH"
  | notIndexableBy _ _ => "TYPE_MISMATCH"
  | unknownName _ _ => "UNKNOWN_IDENTIFIER"
  | lostField _ => "UNKNOWN_FIELD"
  | noField _ _ => "UNKNOWN_FIELD"
  | noDeclaredField _ _ => "UNKNOWN_FIELD"
  | noFieldToSpread _ _ => "UNKNOWN_FIELD"
  | unknownMethod _ _ _ => "UNKNOWN_METHOD"
  | ambiguousMethod _ _ _ => "AMBIGUOUS_METHOD"
  | ambiguousCall _ _ _ => "AMBIGUOUS_METHOD"
  | noOverload _ _ _ => "NO_OVERLOAD"
  | notAccepted _ _ => "NO_OVERLOAD"
  | notCallable _ => "NOT_CALLABLE"
  | divisionByZero => "DIVISION_BY_ZERO"
  | indexOutOfRange _ _ => "INDEX_OUT_OF_RANGE"
  | dimSizeNotWhole _ => "INDEX_OUT_OF_RANGE"
  | dimSizeTooLarge _ _ => "INDEX_OUT_OF_RANGE"
  | typeDefinedTwice _ => "DUPLICATE_DEFINITION"
  | overloadDefinedTwice _ => "DUPLICATE_DEFINITION"
  | propertyDefinedTwice _ _ _ => "DUPLICATE_DEFINITION"
  | zeroStep _ => "INVALID_STEP"
  | strayControl _ => "INVALID_CONTROL"
  | host _ _ => "HOST_ERROR"
  | noInput => "INPUT_ERROR"
  | raised _ (some code) => code
  | raised _ none => "USER_ERROR"
  | stepBudget _ => "STEP_BUDGET"
  | callDepth _ => "CALL_DEPTH"
  | halted reason => reason.word

def message : Fault → String
  | wrongType expected got => s!"type mismatch: expected {expected}, got {got}"
  | unfit what type got => s!"type mismatch: {what} expects {type.title}, got {got}"
  | unknownType name => s!"unknown TYPE {name}"
  | typeNestsItself name => s!"TYPE {name} nests itself too deeply to default-initialise"
  | incomparable left op right => s!"type mismatch: cannot compare {left} {op.mark} {right}"
  | notNumeric op => s!"operator {op.mark} is not numeric"
  | notACaseTest op => s!"CASE IS does not support {op.mark}"
  | notAssignable => "cannot assign to this expression"
  | misplacedSpread => "spread '...' is only allowed in argument and array lists"
  | notSpreadable type => s!"cannot spread {type}"
  | tooManyFieldValues type most got => s!"NEW {type} takes at most {most} argument(s), got {got}"
  | notIndexable type => s!"cannot index {type}"
  | notIndexableBy type index => s!"cannot assign into {type} by {index} index"
  | unknownName name suggestion => s!"unknown identifier '{name}'" ++ Text.suggestionHint suggestion
  | lostField name => s!"unknown field '{name}'"
  | noField type name => s!"{type} has no field '{name}'"
  | noDeclaredField type name => s!"TYPE {type} has no field '{name}'"
  | noFieldToSpread type name => s!"{type} has no field '{name}' to spread"
  | unknownMethod name type suggestion =>
    s!"unknown method '{name}' for {type}" ++ Text.suggestionHint suggestion
  | ambiguousMethod name type candidates =>
    s!"ambiguous method '{name}' for {type}: candidates " ++ Text.join ", " candidates
  | ambiguousCall name arguments candidates =>
    s!"ambiguous call to {name}(" ++ Text.join ", " arguments ++ "): candidates " ++
      Text.join ", " candidates
  | noOverload name arguments candidates =>
    s!"no overload of {name} accepts (" ++ Text.join ", " arguments ++ "); candidates: " ++
      Text.join ", " candidates
  | notAccepted overload arguments =>
    s!"{overload} does not accept (" ++ Text.join ", " arguments ++ ")"
  | notCallable what => s!"{what} is not callable"
  | divisionByZero => "division by zero"
  | indexOutOfRange index length =>
    s!"index {Decimal.plain.write index} out of range for length {length}"
  | dimSizeNotWhole name => s!"DIM {name} size must be a non-negative integer"
  | dimSizeTooLarge name size =>
    s!"DIM {name} size {Decimal.numberText size} exceeds the limit of {maxDimElements} elements"
  | typeDefinedTwice name => s!"TYPE {name} is already defined"
  | overloadDefinedTwice overload => s!"{overload} is already defined"
  | propertyDefinedTwice type name accessor =>
    s!"PROPERTY {type}.{name} {accessor.word} is already defined"
  | zeroStep var => s!"FOR {var} has STEP 0"
  | strayControl cause => cause.message
  | host function cause => s!"{function}: {cause.message}"
  | noInput => "INPUT: no more input"
  | raised message _ => message
  | stepBudget limit => s!"step budget of {limit} statements exceeded"
  | callDepth limit => s!"call depth limit of {limit} exceeded"
  | halted reason => s!"{reason.word} inside a function"

/-- Whether an error ends the run whatever handlers there are: an exhausted budget does. -/
def isFatal : Fault → Bool
  | stepBudget _ => true
  | callDepth _ => true
  | _ => false

/-- Why the program halted, if that is what a fault tells. -/
def haltReason? : Fault → Option HaltReason
  | halted reason => some reason
  | _ => none

end Fault

/-- The place of a token in its source. -/
structure Location where
  span : Span
  position : Position
  deriving Repr, DecidableEq

def Token.location (token : Token) : Location where
  span := token.span
  position := token.position

/-- A failure of a running program. -/
structure RuntimeError where
  fault : Fault
  location : Option Location

namespace RuntimeError

/-- An error whose place is not known yet. -/
def unplaced (fault : Fault) : RuntimeError where
  fault := fault
  location := none

/-- An error at a token, unless it has a place already. -/
def placedAt (error : RuntimeError) (token : Token) : RuntimeError :=
  match error.location with
  | some _ => error
  | none => { error with location := some token.location }

def report (error : RuntimeError) : String :=
  match error.location with
  | some location => s!"Runtime error at {location.position.text}: {error.fault.message}"
  | none => s!"Runtime error: {error.fault.message}"

end RuntimeError

end MicroBasic
