import MicroBasic.Token.Basic

/-!
# Expressions

The tree of an expression. Every node carries the token that errors about it point to: an operator
for an operation, the opening bracket for a call or an index, the member name for a member.
-/

namespace MicroBasic

/-- Operators with one operand. -/
inductive UnaryOp where
  | negate | plus | not
  deriving Repr, DecidableEq

/-- Operators with two operands. -/
inductive BinaryOp where
  | add | subtract | multiply | divide | wholeDivide | modulo | power | concat
  | equal | notEqual | less | greater | lessEqual | greaterEqual | and | or
  deriving Repr, DecidableEq

def BinaryOp.mark : BinaryOp → String
  | add => "+"
  | subtract => "-"
  | multiply => "*"
  | divide => "/"
  | wholeDivide => "\\"
  | modulo => "MOD"
  | power => "^"
  | concat => "&"
  | equal => "="
  | notEqual => "<>"
  | less => "<"
  | greater => ">"
  | lessEqual => "<="
  | greaterEqual => ">="
  | and => "AND"
  | or => "OR"

/-- An expression. -/
inductive Expr where
  | number (token : Token) (value : Float)
  | text (token : Token) (value : String)
  /-- A variable, a function or a host entry by name. -/
  | name (token : Token) (name : String)
  | array (token : Token) (items : List Expr)
  /-- A record without a declared type. -/
  | object (token : Token) (fields : List (String × Expr))
  | record (token : Token) (typeName : String) (fields : List (String × Expr))
  /-- A field of the record that the innermost `WITH` block is about. -/
  | withField (token : Token) (name : String)
  | unary (token : Token) (op : UnaryOp) (operand : Expr)
  | binary (token : Token) (op : BinaryOp) (left right : Expr)
  | conditional (token : Token) (condition yes no : Expr)
  | call (token : Token) (callee : Expr) (args : List Expr)
  | member (token : Token) (object : Expr) (name : String)
  | index (token : Token) (object index : Expr)
  /-- The parts of a value in place of the value, in a list of arguments or elements. -/
  | spread (token : Token) (inner : Expr)
  | await (token : Token) (inner : Expr)
  | new (token : Token) (typeName : String) (args : Option (List Expr))

namespace Expr

/-- The token that errors about an expression point to. -/
def token : Expr → Token
  | number token _ => token
  | text token _ => token
  | name token _ => token
  | array token _ => token
  | object token _ => token
  | record token _ _ => token
  | withField token _ => token
  | unary token _ _ => token
  | binary token _ _ _ => token
  | conditional token _ _ _ => token
  | call token _ _ => token
  | member token _ _ => token
  | index token _ _ => token
  | spread token _ => token
  | await token _ => token
  | new token _ _ => token

/-- Whether an expression names something that can be assigned to. A call of a name with one
argument is an element of an array variable. -/
def isPlace : Expr → Bool
  | name _ _ => true
  | member _ _ _ => true
  | index _ _ _ => true
  | withField _ _ => true
  | call _ (name _ _) [_] => true
  | _ => false

/-- The value of a numeric literal under any number of signs. -/
def constant? : Expr → Option Float
  | number _ value => some value
  | unary _ .negate operand => operand.constant?.map (fun value => -value)
  | unary _ .plus operand => operand.constant?
  | _ => none

end Expr

end MicroBasic
