import MicroBasic.Source.Location
import MicroBasic.Text.Basic

/-!
# Tokens

A source text is a sequence of tokens: numbers, quoted texts, names, comments, reserved words,
symbols and line ends, closed by one end token. A token keeps its text as written and where it
stands.
-/

namespace MicroBasic

/-- The reserved words. -/
inductive Keyword where
  | LET | PRINT | INPUT | IF | THEN | ELSE | ELSEIF | END | FOR | TO | STEP | NEXT | WHILE | WEND
  | DO | LOOP | UNTIL | TRY | CATCH | FINALLY | ERROR | DEFER | FUNCTION | SUB | RETURN | CALL
  | REF | AS | PROPERTY | WITH | SELECT | CASE | EXIT | CONTINUE | TYPE | DIM | SPAWN | STOP
  | AWAIT | NEW | AND | OR | NOT | MOD | TRUE | FALSE
  deriving Repr, DecidableEq

namespace Keyword

/-- Every reserved word. -/
def all : List Keyword :=
  [.LET, .PRINT, .INPUT, .IF, .THEN, .ELSE, .ELSEIF, .END, .FOR, .TO, .STEP, .NEXT, .WHILE, .WEND,
    .DO, .LOOP, .UNTIL, .TRY, .CATCH, .FINALLY, .ERROR, .DEFER, .FUNCTION, .SUB, .RETURN, .CALL,
    .REF, .AS, .PROPERTY, .WITH, .SELECT, .CASE, .EXIT, .CONTINUE, .TYPE, .DIM, .SPAWN, .STOP,
    .AWAIT, .NEW, .AND, .OR, .NOT, .MOD, .TRUE, .FALSE]

/-- A reserved word in upper case. -/
def word : Keyword → String
  | .LET => "LET"
  | .PRINT => "PRINT"
  | .INPUT => "INPUT"
  | .IF => "IF"
  | .THEN => "THEN"
  | .ELSE => "ELSE"
  | .ELSEIF => "ELSEIF"
  | .END => "END"
  | .FOR => "FOR"
  | .TO => "TO"
  | .STEP => "STEP"
  | .NEXT => "NEXT"
  | .WHILE => "WHILE"
  | .WEND => "WEND"
  | .DO => "DO"
  | .LOOP => "LOOP"
  | .UNTIL => "UNTIL"
  | .TRY => "TRY"
  | .CATCH => "CATCH"
  | .FINALLY => "FINALLY"
  | .ERROR => "ERROR"
  | .DEFER => "DEFER"
  | .FUNCTION => "FUNCTION"
  | .SUB => "SUB"
  | .RETURN => "RETURN"
  | .CALL => "CALL"
  | .REF => "REF"
  | .AS => "AS"
  | .PROPERTY => "PROPERTY"
  | .WITH => "WITH"
  | .SELECT => "SELECT"
  | .CASE => "CASE"
  | .EXIT => "EXIT"
  | .CONTINUE => "CONTINUE"
  | .TYPE => "TYPE"
  | .DIM => "DIM"
  | .SPAWN => "SPAWN"
  | .STOP => "STOP"
  | .AWAIT => "AWAIT"
  | .NEW => "NEW"
  | .AND => "AND"
  | .OR => "OR"
  | .NOT => "NOT"
  | .MOD => "MOD"
  | .TRUE => "TRUE"
  | .FALSE => "FALSE"

/-- The reserved word with a given spelling, in any case. -/
def ofWord? (text : String) : Option Keyword :=
  let folded := Text.foldName text
  all.find? (fun keyword => keyword.word == folded)

end Keyword

/-- The operators and punctuation marks. -/
inductive Symbol where
  | plus | minus | star | slash | backslash | caret | ampersand | equal | notEqual | less | greater
  | lessEqual | greaterEqual | leftParen | rightParen | leftBracket | rightBracket | leftBrace
  | rightBrace | comma | semicolon | colon | dot | ellipsis | question
  deriving Repr, DecidableEq

namespace Symbol

def mark : Symbol → String
  | .plus => "+"
  | .minus => "-"
  | .star => "*"
  | .slash => "/"
  | .backslash => "\\"
  | .caret => "^"
  | .ampersand => "&"
  | .equal => "="
  | .notEqual => "<>"
  | .less => "<"
  | .greater => ">"
  | .lessEqual => "<="
  | .greaterEqual => ">="
  | .leftParen => "("
  | .rightParen => ")"
  | .leftBracket => "["
  | .rightBracket => "]"
  | .leftBrace => "\x7b"
  | .rightBrace => "\x7d"
  | .comma => ","
  | .semicolon => ";"
  | .colon => ":"
  | .dot => "."
  | .ellipsis => "..."
  | .question => "?"

end Symbol

/-- What a token is. -/
inductive TokenKind where
  | number (value : Float)
  | text (value : String)
  | name (value : String)
  | comment (value : String)
  | keyword (word : Keyword)
  | symbol (mark : Symbol)
  | newline
  | finish

namespace TokenKind

def isComment : TokenKind → Bool
  | comment _ => true
  | _ => false

def isNewline : TokenKind → Bool
  | newline => true
  | _ => false

def isFinish : TokenKind → Bool
  | finish => true
  | _ => false

def isSymbol (wanted : Symbol) : TokenKind → Bool
  | symbol mark => mark = wanted
  | _ => false

/-- Whether the token is a given reserved word. -/
def isKeyword (wanted : Keyword) : TokenKind → Bool
  | keyword word => word = wanted
  | _ => false

end TokenKind

/-- A token: what it is, its text as written, and where it stands. -/
structure Token where
  kind : TokenKind
  lexeme : String
  span : Span
  position : Position

namespace Token

/-- The name that a token can serve as: a name itself, or a reserved word where any word may stand.
-/
def name? (token : Token) : Option String :=
  match token.kind with
  | .name value => some value
  | .keyword _ => some token.lexeme
  | _ => none

def mention (token : Token) : String :=
  match token.kind with
  | .newline => "end of line"
  | .finish => "end of input"
  | _ => s!"'{token.lexeme}'"

end Token

end MicroBasic
