import MicroBasic.Decimal.Layout
import MicroBasic.Text.Basic
import MicroBasic.Token.Basic

/-!
# Listing tokens

How tokens appear in descriptions and in the listing of a scanned source, one line for each.
-/

namespace MicroBasic

/-- The title of a reserved word in token listings. -/
def Keyword.title : Keyword → String
  | .LET => "Let"
  | .PRINT => "Print"
  | .INPUT => "Input"
  | .IF => "If"
  | .THEN => "Then"
  | .ELSE => "Else"
  | .ELSEIF => "ElseIf"
  | .END => "End"
  | .FOR => "For"
  | .TO => "To"
  | .STEP => "Step"
  | .NEXT => "Next"
  | .WHILE => "While"
  | .WEND => "Wend"
  | .DO => "Do"
  | .LOOP => "Loop"
  | .UNTIL => "Until"
  | .TRY => "Try"
  | .CATCH => "Catch"
  | .FINALLY => "Finally"
  | .ERROR => "Error"
  | .DEFER => "Defer"
  | .FUNCTION => "Function"
  | .SUB => "Sub"
  | .RETURN => "Return"
  | .CALL => "Call"
  | .REF => "Ref"
  | .AS => "As"
  | .PROPERTY => "Property"
  | .WITH => "With"
  | .SELECT => "Select"
  | .CASE => "Case"
  | .EXIT => "Exit"
  | .CONTINUE => "Continue"
  | .TYPE => "Type"
  | .DIM => "Dim"
  | .SPAWN => "Spawn"
  | .STOP => "Stop"
  | .AWAIT => "Await"
  | .NEW => "New"
  | .AND => "And"
  | .OR => "Or"
  | .NOT => "Not"
  | .MOD => "Mod"
  | .TRUE => "True"
  | .FALSE => "False"

/-- The title of a symbol in token listings. -/
def Symbol.title : Symbol → String
  | .plus => "Plus"
  | .minus => "Minus"
  | .star => "Star"
  | .slash => "Slash"
  | .backslash => "Backslash"
  | .caret => "Caret"
  | .ampersand => "Amp"
  | .equal => "Eq"
  | .notEqual => "NotEq"
  | .less => "Lt"
  | .greater => "Gt"
  | .lessEqual => "LtEq"
  | .greaterEqual => "GtEq"
  | .leftParen => "LParen"
  | .rightParen => "RParen"
  | .leftBracket => "LBracket"
  | .rightBracket => "RBracket"
  | .leftBrace => "LBrace"
  | .rightBrace => "RBrace"
  | .comma => "Comma"
  | .semicolon => "Semi"
  | .colon => "Colon"
  | .dot => "Dot"
  | .ellipsis => "Ellipsis"
  | .question => "Question"

namespace TokenKind

/-- The title of a kind of tokens in listings. -/
def title : TokenKind → String
  | number _ => "Number"
  | text _ => "Str"
  | name _ => "Ident"
  | comment _ => "Comment"
  | keyword word => word.title
  | symbol mark => mark.title
  | newline => "Newline"
  | finish => "Eof"

/-- What a token is, in words. -/
def description : TokenKind → String
  | number value => "number " ++ Decimal.plain.write value
  | text value => "string \"" ++ value ++ "\""
  | name value => "identifier '" ++ value ++ "'"
  | comment _ => "comment"
  | newline => "end of line"
  | finish => "end of input"
  | kind => kind.title

/-- What a token is and what it holds. -/
def listing : TokenKind → String
  | number value => "Number(" ++ Decimal.listed.write value ++ ")"
  | text value => "Str(" ++ Text.quoted value ++ ")"
  | name value => "Ident(" ++ Text.quoted value ++ ")"
  | comment value => "Comment(" ++ Text.quoted value ++ ")"
  | kind => kind.title

end TokenKind

/-- The line of a token in the listing of a source. -/
def Token.listing (token : Token) : String :=
  s!"{token.kind.listing} {Text.quoted token.lexeme} @ {token.position.text} " ++
    s!"({token.span.start}..{token.span.stop})"

end MicroBasic
