import MicroBasic.Ast.Stmt
import MicroBasic.Parse.Fault

/-!
# The parser's view of the tokens

The parser walks forward through the tokens. The last token always ends the source and is never
passed: looking beyond it finds it again, and moving on from it does nothing. Besides its place the
parser keeps whether it stands at the start of a line. Only a parser of statements also counts, to
number them.
-/

namespace MicroBasic

/-- Where a parser stands. -/
structure Cursor where
  /-- The tokens not yet passed, without the last. -/
  ahead : List Token
  /-- The token that ends the source. -/
  last : Token
  /-- Whether the token just passed ended a line. -/
  atLineStart : Bool

/-- A parser reads tokens from the cursor and fails with the first error. -/
abbrev Parser := StateT Cursor (Except ParseError)

/-- A parser of statements also keeps the number of the next statement to be finished. -/
abbrev StmtParser := StateT Nat Parser

namespace Cursor

def current (cursor : Cursor) : Token :=
  cursor.ahead.headD cursor.last

def second (cursor : Cursor) : Token :=
  cursor.ahead.tail.headD cursor.last

def kind (cursor : Cursor) : TokenKind :=
  cursor.current.kind

/-- The cursor behind the current token. -/
def next (cursor : Cursor) : Cursor :=
  { cursor with ahead := cursor.ahead.tail, atLineStart := cursor.kind.isNewline }

def isAt (cursor : Cursor) (mark : Symbol) : Bool :=
  cursor.kind.isSymbol mark

/-- Whether the current token is a reserved word. -/
def isAtWord (cursor : Cursor) (word : Keyword) : Bool :=
  cursor.kind.isKeyword word

/-- Whether the current token is a name with a meaning in its context, in any case. -/
def isAtSoftWord (cursor : Cursor) (word : String) : Bool :=
  match cursor.kind with
  | .name value => Text.sameName value word
  | _ => false

/-- Whether the current and the next token are `END` and a given word. -/
def isAtEndOf (cursor : Cursor) (word : Keyword) : Bool :=
  cursor.isAtWord .END && cursor.second.kind.isKeyword word

/-- The cursor behind all tokens of a kind that follow each other here. -/
def skip (cursor : Cursor) (skips : TokenKind → Bool) : Cursor :=
  match (cursor.ahead.takeWhile (fun t => skips t.kind)).getLast? with
  | some passed =>
    { cursor with
      ahead := cursor.ahead.dropWhile (fun t => skips t.kind)
      atLineStart := passed.kind.isNewline }
  | none => cursor

end Cursor

/-- Line ends and colons separate statements. -/
def TokenKind.isSeparator (kind : TokenKind) : Bool :=
  kind.isNewline || kind.isSymbol .colon

namespace Parser

def here : Parser Cursor :=
  get

def current : Parser Token :=
  return (← get).current

def advance : Parser Token := do
  let cursor ← get
  set cursor.next
  return cursor.current

def failAt {α : Type} (token : Token) (cause : ParseFault) : Parser α :=
  throw (ParseError.at token cause)

def fail {α : Type} (cause : ParseFault) : Parser α := do
  failAt (← current) cause

/-- Fail because something else was needed than the current token. -/
def failExpected {α : Type} (what : String) : Parser α := do
  fail (.expected what (← current).mention)

/-- Pass a symbol if it is the current token, and tell whether it was. -/
def accept (mark : Symbol) : Parser Bool := do
  if (← get).isAt mark then
    discard advance
    return true
  else return false

/-- Pass a reserved word if it is the current token, and tell whether it was. -/
def acceptWord (word : Keyword) : Parser Bool := do
  if (← get).isAtWord word then
    discard advance
    return true
  else return false

/-- Pass a symbol that has to stand here. -/
def expect (mark : Symbol) (what : String) : Parser Token := do
  if (← get).isAt mark then advance else failExpected what

/-- Pass a reserved word that has to stand here. -/
def expectWord (word : Keyword) (what : String) : Parser Token := do
  if (← get).isAtWord word then advance else failExpected what

/-- Pass a name that has to stand here. -/
def expectName (what : String) : Parser (String × Token) := do
  match (← get).kind with
  | .name value => return (value, ← advance)
  | _ => failExpected what

/-- Pass a name or a reserved word used as one. -/
def expectAnyName (what : String) : Parser (String × Token) := do
  match (← current).name? with
  | some value => return (value, ← advance)
  | none => failExpected what

/-- Pass line ends. -/
def skipNewlines : Parser Unit :=
  modify (fun cursor => cursor.skip TokenKind.isNewline)

/-- Pass line ends and colons. -/
def skipSeparators : Parser Unit :=
  modify (fun cursor => cursor.skip TokenKind.isSeparator)

def skipColons : Parser Unit :=
  modify (fun cursor => cursor.skip (TokenKind.isSymbol .colon))

/-- Stand before some tokens again that were passed. -/
def back (ahead : List Token) : Parser Unit :=
  modify (fun cursor => { cursor with ahead })

/-- A finished statement: it takes the next number. -/
def finish (token : Token) (kind : StmtKind Block) : StmtParser Stmt := do
  let id ← get
  set (id + 1)
  return .mk id token none none kind

/-- A bound on the number of rounds of a loop that passes a token in each. -/
def rounds : Parser Nat :=
  return (← get).ahead.length + 1

end Parser

/-- The parsers that stand for nested expressions and statements inside others. -/
structure Nested where
  expression : Parser Expr
  unary : Parser Expr
  statement : StmtParser Stmt

def Nested.exhausted : Nested where
  expression := Parser.fail .tooDeep
  unary := Parser.fail .tooDeep
  statement := Parser.fail .tooDeep

end MicroBasic
