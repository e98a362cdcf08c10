import MicroBasic.Decimal.Reading
import MicroBasic.Text.Basic
import MicroBasic.Token.Basic

/-!
# Scanning

The scanner cuts a source into lexemes, each as long as possible, and skips the blanks between them.
One step takes a lexeme off the front of the remaining characters: `Lexeme` says what it is and how
many characters it has. Reserved words are names of a fixed spelling, and the word `REM` turns the
rest of its line into a comment.
-/

namespace MicroBasic

/-- What can be wrong with a source before it is a sequence of tokens. -/
inductive ScanFault where
  /-- An exponent mark without digits after it. -/
  | malformedNumber (text : String)
  /-- A quoted text that does not end on its line. -/
  | unclosedText
  /-- A character that starts no token. -/
  | strayCharacter (text : String)
  deriving Repr, DecidableEq

def ScanFault.message : ScanFault → String
  | malformedNumber text => s!"invalid numeric literal: {text}"
  | unclosedText => "unterminated string literal"
  | strayCharacter text => s!"unexpected character: {Text.quoted text}"

namespace Scan

/-- The blanks that separate tokens. -/
def isSpace (c : Char) : Bool :=
  c == ' ' || c == '\t' || c == '\r' || c == '\x0c'

def startsName (c : Char) : Bool :=
  c.isAlpha || c == '_' || c == '#'

def continuesName (c : Char) : Bool :=
  c.isAlphanum || c == '_' || c == '#'

/-- The result of one step: a token of a kind, or a fault, and the length of its lexeme in
characters. -/
inductive Lexeme where
  | token (kind : TokenKind) (length : Nat)
  | fault (cause : ScanFault) (length : Nat)

/-- The length of a name's body and of the type suffix that may follow it. -/
def nameLength (cs : List Char) : Nat :=
  let body := (cs.takeWhile continuesName).length
  match cs.drop body with
  | c :: _ => if Text.isTypeSuffix c then body + 1 else body
  | [] => body

def lineLength (cs : List Char) : Nat :=
  (cs.takeWhile (· != '\n')).length

def commentKind (cs : List Char) : TokenKind :=
  .comment (String.ofList (Text.trimChars cs))

/-- A name, a reserved word, or a comment after `REM`. -/
def scanName (cs : List Char) : Lexeme :=
  let length := nameLength cs
  let word := String.ofList (cs.take length)
  if Text.sameName word "REM" then
    let rest := cs.drop length
    .token (commentKind (rest.take (lineLength rest))) (length + lineLength rest)
  else
    match Keyword.ofWord? word with
    | some keyword => .token (.keyword keyword) length
    | none => .token (.name word) length

/-- The characters of a quoted text after its opening quote: its value and the number of characters
up to and with the closing quote, or the number of characters up to the end of the line. -/
def quotedBody : List Char → Except Nat (List Char × Nat)
  | [] => .error 0
  | '"' :: '"' :: rest =>
    match quotedBody rest with
    | .ok (value, length) => .ok ('"' :: value, length + 2)
    | .error length => .error (length + 2)
  | '"' :: _ => .ok ([], 1)
  | '\n' :: _ => .error 0
  | c :: rest =>
    match quotedBody rest with
    | .ok (value, length) => .ok (c :: value, length + 1)
    | .error length => .error (length + 1)

/-- A quoted text, given the characters after its opening quote. -/
def scanQuoted (cs : List Char) : Lexeme :=
  match quotedBody cs with
  | .ok (value, length) => .token (.text (String.ofList value)) (length + 1)
  | .error length => .fault .unclosedText (length + 1)

/-- The length of a point with digits after it, zero if there is none. -/
def fractionLength : List Char → Nat
  | '.' :: rest =>
    match (rest.takeWhile Char.isDigit).length with
    | 0 => 0
    | digits => digits + 1
  | _ => 0

/-- The exponent that follows a mantissa: its length, and whether digits follow its mark. -/
def exponentLength : List Char → Option (Nat × Bool)
  | mark :: rest =>
    if mark == 'e' || mark == 'E' then
      let sign := match rest with
        | '+' :: _ => 1
        | '-' :: _ => 1
        | _ => 0
      let digits := ((rest.drop sign).takeWhile Char.isDigit).length
      some (1 + sign + digits, digits != 0)
    else none
  | [] => none

/-- The float that a number lexeme denotes. -/
def literalValue (cs : List Char) : Float :=
  match Decimal.readWritten cs with
  | some written => written.value
  | none => 0.0

def numberOf (cs : List Char) (length : Nat) : Lexeme :=
  .token (.number (literalValue (cs.take length))) length

/-- A number, given that the characters begin with a digit or with a point and a digit. -/
def scanNumber (cs : List Char) : Lexeme :=
  let whole := (cs.takeWhile Char.isDigit).length
  let mantissa := whole + fractionLength (cs.drop whole)
  match exponentLength (cs.drop mantissa) with
  | some (length, true) => numberOf cs (mantissa + length)
  | some (length, false) =>
    let total := mantissa + length
    .fault (.malformedNumber (String.ofList (cs.take total))) total
  | none => numberOf cs mantissa

/-- A symbol and its length, the longest that the characters begin with. -/
def symbol? : List Char → Option (Symbol × Nat)
  | '<' :: '>' :: _ => some (.notEqual, 2)
  | '<' :: '=' :: _ => some (.lessEqual, 2)
  | '>' :: '=' :: _ => some (.greaterEqual, 2)
  | '.' :: '.' :: '.' :: _ => some (.ellipsis, 3)
  | '+' :: _ => some (.plus, 1)
  | '-' :: _ => some (.minus, 1)
  | '*' :: _ => some (.star, 1)
  | '/' :: _ => some (.slash, 1)
  | '\\' :: _ => some (.backslash, 1)
  | '^' :: _ => some (.caret, 1)
  | '&' :: _ => some (.ampersand, 1)
  | '=' :: _ => some (.equal, 1)
  | '<' :: _ => some (.less, 1)
  | '>' :: _ => some (.greater, 1)
  | '(' :: _ => some (.leftParen, 1)
  | ')' :: _ => some (.rightParen, 1)
  | '[' :: _ => some (.leftBracket, 1)
  | ']' :: _ => some (.rightBracket, 1)
  | '\x7b' :: _ => some (.leftBrace, 1)
  | '\x7d' :: _ => some (.rightBrace, 1)
  | ',' :: _ => some (.comma, 1)
  | ';' :: _ => some (.semicolon, 1)
  | ':' :: _ => some (.colon, 1)
  | '.' :: _ => some (.dot, 1)
  | '?' :: _ => some (.question, 1)
  | _ => none

def startsNumber : List Char → Bool
  | '.' :: c :: _ => c.isDigit
  | c :: _ => c.isDigit
  | [] => false

/-- The lexeme at the front of characters that begin with no blank. -/
def lexeme (c : Char) (rest : List Char) : Lexeme :=
  let cs := c :: rest
  if c == '\n' then .token .newline 1
  else if c == '\'' then
    let length := lineLength rest
    .token (commentKind (rest.take length)) (length + 1)
  else if c == '"' then scanQuoted rest
  else if startsNumber cs then scanNumber cs
  else if startsName c then scanName cs
  else
    match symbol? cs with
    | some (mark, length) => .token (.symbol mark) length
    | none => .fault (.strayCharacter (String.singleton c)) 1

end Scan

/-- A scanning fault and where it stands. -/
structure ScanError where
  cause : ScanFault
  span : Span
  position : Position
  deriving Repr, DecidableEq

namespace Scan

/-- A lexeme of a source that begins at an offset. -/
structure Piece where
  chars : List Char
  span : Span

/-- The first `length` characters of a text as a piece that begins at an offset. -/
def Piece.of (cs : List Char) (length offset : Nat) : Piece :=
  let chars := cs.take length
  { chars, span := ⟨offset, offset + byteLength chars⟩ }

/-- The tokens of the characters from an offset on, comments included. The fuel bounds the number of
steps; one more than the number of characters is always enough. -/
def scanFrom (index : LineIndex) (source : List Char) :
    Nat → List Char → Nat → Except ScanError (List Token)
  | 0, _, _ => .ok []
  | _, [], offset =>
    .ok [{ kind := .finish, lexeme := "", span := ⟨offset, offset⟩,
           position := index.position source offset }]
  | fuel + 1, c :: rest, offset =>
    if isSpace c then scanFrom index source fuel rest (offset + c.utf8Size)
    else
      match lexeme c rest with
      | .token kind length => do
        let piece := Piece.of (c :: rest) length offset
        let token : Token :=
          { kind, lexeme := String.ofList piece.chars, span := piece.span,
            position := index.position source offset }
        let tokens ← scanFrom index source fuel ((c :: rest).drop length) piece.span.stop
        return token :: tokens
      | .fault cause length =>
        .error { cause, span := (Piece.of (c :: rest) length offset).span,
                 position := index.position source offset }

end Scan

/-- How a source is scanned. -/
structure ScanOptions where
  /-- Whether comments stay among the tokens. -/
  keepComments : Bool := false
  deriving Repr, DecidableEq

def scanAll (source : String) : Except ScanError (List Token) :=
  let cs := source.toList
  Scan.scanFrom (LineIndex.of cs) cs (cs.length + 1) cs 0

def scan (options : ScanOptions) (source : String) : Except ScanError (List Token) := do
  let tokens ← scanAll source
  return if options.keepComments then tokens else tokens.filter (fun t => !t.kind.isComment)

end MicroBasic
