import MicroBasic.Pairing
import MicroBasic.Parse.Stmt

/-!
# Parsing programs

A program is a block up to the end of the source, whose loops pair. Comments are no part of the
grammar. The depth to which constructs can nest is bounded by the number of tokens, because every
nested construct stands behind a token of the one around it.
-/

namespace MicroBasic

/-- The end of a token sequence that lacks one. -/
def Token.missingFinish (tokens : List Token) : Token :=
  let stop := (tokens.getLast?.map (fun token => token.span.stop)).getD 0
  { kind := .finish, lexeme := "", span := { start := stop, stop },
    position := { line := 0, column := 0 } }

def Cursor.before (tokens : List Token) : Cursor :=
  let tokens := tokens.filter (fun token => !token.kind.isComment)
  match tokens.getLast? with
  | some last =>
    if last.kind.isFinish then
      { ahead := tokens.dropLast, last, atLineStart := true }
    else
      { ahead := tokens, last := .missingFinish tokens, atLineStart := true }
  | none => { ahead := [], last := .missingFinish [], atLineStart := true }

def Parse.statements (nested : Nested) : StmtParser Block := do
  let body ← Parse.block nested (fun _ => false)
  if (← Parser.here).isAtFinish then return body
  else Parser.fail (.unexpected (← Parser.here).current.mention)

def Program.ofTokens (tokens : List Token) : Except ParseError Program := do
  let cursor := Cursor.before tokens
  let nested := Parse.nestedTo (cursor.ahead.length + 1)
  let ((statements, _), _) ← ((Parse.statements nested).run 0).run cursor
  return { statements, bindings := ← statements.pairing }

def Program.parseWith (options : ScanOptions) (source : String) : Except SyntaxError Program := do
  let tokens ← (scan options source).mapError SyntaxError.scanning
  (Program.ofTokens tokens).mapError SyntaxError.parsing

def Program.parse (source : String) : Except SyntaxError Program :=
  Program.parseWith {} source

/-- The program of a source, which is empty if there is an error in it. -/
def Program.ofSource (source : String) : Program :=
  (Program.parse source).toOption.getD { statements := [], bindings := .empty }

end MicroBasic
