import MicroBasic.Ast.Stmt
import MicroBasic.Json.Basic
import MicroBasic.Token.Listing

/-!
# Listing programs

A program as a JSON document, field by field in the order in which the parts of the tree are
described. How tokens and numeric literals appear is a choice of the listing.
-/

namespace MicroBasic

/-- The choices of a listing. -/
structure ListingStyle where
  token : Token → Json
  number : Float → Json

namespace Listing

/-- A token's kind with what it holds. -/
def tokenKind : TokenKind → Json
  | .number value => Json.variant "Number" (.number value)
  | .text value => Json.variant "Str" (.text value)
  | .name value => Json.variant "Ident" (.text value)
  | .comment value => Json.variant "Comment" (.text value)
  | kind => .text kind.title

def token (token : Token) : Json :=
  .object [("kind", tokenKind token.kind), ("lexeme", .text token.lexeme),
    ("span", .object [("start", .whole token.span.start), ("end", .whole token.span.stop)]),
    ("line", .whole token.position.line), ("column", .whole token.position.column)]

def full : ListingStyle where
  token := token
  number := .number

def unaryTitle : UnaryOp → String
  | .negate => "Neg"
  | .plus => "Plus"
  | .not => "Not"

/-- The title of an operator with two operands. -/
def binaryTitle : BinaryOp → String
  | .add => "Add"
  | .subtract => "Sub"
  | .multiply => "Mul"
  | .divide => "Div"
  | .wholeDivide => "IntDiv"
  | .modulo => "Mod"
  | .power => "Pow"
  | .concat => "Concat"
  | .equal => "Eq"
  | .notEqual => "NotEq"
  | .less => "Lt"
  | .greater => "Gt"
  | .lessEqual => "LtEq"
  | .greaterEqual => "GtEq"
  | .and => "And"
  | .or => "Or"

def node (style : ListingStyle) (token : Token) (title : String) (held : Json) : Json :=
  .object [("token", style.token token), ("kind", Json.variant title held)]

mutual

def expr (style : ListingStyle) : Expr → Json
  | .number token value => node style token "Number" (style.number value)
  | .text token value => node style token "Str" (.text value)
  | .name token name => node style token "Variable" (.text name)
  | .array token items => node style token "Array" (.array (exprs style items))
  | .object token fields => node style token "Object" (.array (fieldInits style fields))
  | .record token typeName fields =>
    node style token "Record"
      (.object [("type_name", .text typeName), ("fields", .array (fieldInits style fields))])
  | .withField token name => node style token "WithField" (.text name)
  | .unary token op operand =>
    node style token "Unary"
      (.object [("op", .text (unaryTitle op)), ("operand", expr style operand)])
  | .binary token op left right =>
    node style token "Binary"
      (.object [("op", .text (binaryTitle op)), ("left", expr style left),
        ("right", expr style right)])
  | .conditional token condition yes no =>
    node style token "Ternary"
      (.object [("cond", expr style condition), ("then_branch", expr style yes),
        ("else_branch", expr style no)])
  | .call token callee args =>
    node style token "Call"
      (.object [("callee", expr style callee), ("args", .array (exprs style args))])
  | .member token object name =>
    node style token "Member" (.object [("object", expr style object), ("name", .text name)])
  | .index token object index =>
    node style token "Index" (.object [("object", expr style object), ("index", expr style index)])
  | .spread token inner => node style token "Spread" (expr style inner)
  | .await token inner => node style token "Await" (expr style inner)
  | .new token typeName args =>
    node style token "New"
      (.object [("type_name", .text typeName), ("args", optionalExprs style args)])

def exprs (style : ListingStyle) : List Expr → List Json
  | [] => []
  | item :: rest => expr style item :: exprs style rest

def optionalExprs (style : ListingStyle) : Option (List Expr) → Json
  | none => .null
  | some items => .array (exprs style items)

/-- Every field of a literal with its value. -/
def fieldInits (style : ListingStyle) : List (String × Expr) → List Json
  | [] => []
  | (name, value) :: rest => .array [.text name, expr style value] :: fieldInits style rest

end

def typeSpec : TypeSpec → Json
  | .number => .text "Number"
  | .text => .text "String"
  | .bool => .text "Bool"
  | .array => .text "Array"
  | .function => .text "Function"
  | .any => .text "Any"
  | .named name => Json.variant "Named" (.text name)

/-- What follows a printed item. -/
def separator : Separator → Json
  | .semicolon => .text "Semicolon"
  | .comma => .text "Comma"

def printItem (style : ListingStyle) (item : PrintItem) : Json :=
  .object [("expr", expr style item.expr), ("separator", Json.ofOption separator item.separator)]

def loopCondition (style : ListingStyle) (condition : LoopCondition) : Json :=
  .object [("until", .bool condition.untilTrue), ("cond", expr style condition.condition)]

def caseTest (style : ListingStyle) : CaseTest → Json
  | .value value => Json.variant "Value" (expr style value)
  | .range low high => Json.variant "Range" (.array [expr style low, expr style high])
  | .compare op value =>
    Json.variant "Is" (.array [.text (binaryTitle op), expr style value])

def loopKind : LoopKind → Json
  | .forLoop => .text "For"
  | .whileLoop => .text "While"
  | .doLoop => .text "Do"

def exitKind : ExitKind → Json
  | .loop kind => Json.variant "Loop" (loopKind kind)
  | .sub => .text "Sub"
  | .function => .text "Function"

def param (style : ListingStyle) (param : Param) : Json :=
  .object [("name", .text param.name), ("by_ref", .bool param.byRef),
    ("ty", Json.ofOption typeSpec param.type),
      ("default", Json.ofOption (expr style) param.default),
    ("variadic", .bool param.variadic)]

def fieldDecl (field : FieldDecl) : Json :=
  .object [("name", .text field.name), ("ty", typeSpec field.type)]

def typeDecl (decl : TypeDecl) : Json :=
  .object [("name", .text decl.name), ("fields", .array (decl.fields.map fieldDecl)),
    ("spread", Json.ofOption (fun names => .array (names.map .text)) decl.spread)]

def accessor : Accessor → Json
  | .get => .text "Get"
  | .set => .text "Set"

mutual

def stmt (style : ListingStyle) : Stmt → Json
  | .mk id token lineNumber label kind =>
    .object [("id", .whole id), ("token", style.token token),
      ("line_number", Json.ofOption .whole lineNumber), ("label", Json.ofOption .text label),
      ("kind", stmtKind style kind)]

def block (style : ListingStyle) : List Stmt → List Json
  | [] => []
  | first :: rest => stmt style first :: block style rest

def optionalBlock (style : ListingStyle) : Option (List Stmt) → Json
  | none => .null
  | some body => .array (block style body)

def branches (style : ListingStyle) : List (IfBranch (List Stmt)) → List Json
  | [] => []
  | ⟨condition, body⟩ :: rest =>
    .object [("cond", expr style condition), ("body", .array (block style body))] ::
      branches style rest

def handler (style : ListingStyle) : Option (CatchClause (List Stmt)) → Json
  | none => .null
  | some ⟨errorName, body⟩ =>
    .object [("var", Json.ofOption .text errorName), ("body", .array (block style body))]

def cases (style : ListingStyle) : List (CaseClause (List Stmt)) → List Json
  | [] => []
  | ⟨token, tests, body⟩ :: rest =>
    .object [("token", style.token token), ("tests", .array (tests.map (caseTest style))),
      ("body", .array (block style body))] :: cases style rest

/-- What a statement does. -/
def stmtKind (style : ListingStyle) : StmtKind (List Stmt) → Json
  | .assign target value explicit =>
    Json.variant "Assign" (.object [("target", expr style target), ("value", expr style value),
      ("explicit_let", .bool explicit)])
  | .print items newline =>
    Json.variant "Print" (.object [("items", .array (items.map (printItem style))),
      ("newline", .bool newline)])
  | .input prompt targets =>
    Json.variant "Input" (.object [("prompt", Json.ofOption .text prompt),
      ("targets", .array (exprs style targets))])
  | .branch parts otherwise blockForm =>
    Json.variant "If" (.object [("branches", .array (branches style parts)),
      ("else_branch", optionalBlock style otherwise), ("block_form", .bool blockForm)])
  | .openFor var start limit step =>
    Json.variant "For" (.object [("var", .text var), ("start", expr style start),
      ("end", expr style limit), ("step", Json.ofOption (expr style) step)])
  | .next var => Json.variant "Next" (.object [("var", Json.ofOption .text var)])
  | .whileLoop condition body =>
    Json.variant "While"
      (.object [("cond", expr style condition), ("body", .array (block style body))])
  | .doLoop before after body =>
    Json.variant "DoLoop" (.object [("pre", Json.ofOption (loopCondition style) before),
      ("post", Json.ofOption (loopCondition style) after), ("body", .array (block style body))])
  | .attempt body clause cleanup =>
    Json.variant "Try"
      (.object [("body", .array (block style body)), ("catch", handler style clause),
      ("finally", optionalBlock style cleanup)])
  | .raise message code =>
    Json.variant "Raise" (.object [("message", expr style message),
      ("code", Json.ofOption (expr style) code)])
  | .defer body => Json.variant "Defer" (.object [("body", .array (block style body))])
  | .function ⟨name, params, returnType, body, isSub⟩ =>
    Json.variant "Function"
      (.object [("name", .text name), ("params", .array (params.map (param style))),
      ("return_type", Json.ofOption typeSpec returnType), ("body", .array (block style body)),
      ("is_sub", .bool isSub)])
  | .property ⟨typeName, name, params, returnType, which, body⟩ =>
    Json.variant "Property" (.object [("type_name", .text typeName), ("name", .text name),
      ("params", .array (params.map (param style))),
        ("return_type", Json.ofOption typeSpec returnType),
      ("accessor", accessor which), ("body", .array (block style body))])
  | .withBlock target body =>
    Json.variant "With"
      (.object [("target", expr style target), ("body", .array (block style body))])
  | .select selector clauses otherwise =>
    Json.variant "Select" (.object [("selector", expr style selector),
      ("cases", .array (cases style clauses)), ("else_body", optionalBlock style otherwise)])
  | .exit kind => Json.variant "Exit" (exitKind kind)
  | .continueLoop kind => Json.variant "Continue" (Json.ofOption loopKind kind)
  | .type decl => Json.variant "TypeDecl" (typeDecl decl)
  | .dim name size type =>
    Json.variant "Dim" (.object [("name", .text name), ("size", Json.ofOption (expr style) size),
      ("ty", Json.ofOption typeSpec type)])
  | .spawn name => Json.variant "Spawn" (.object [("name", .text name)])
  | .returnValue value => Json.variant "Return" (Json.ofOption (expr style) value)
  | .call call => Json.variant "Call" (expr style call)
  | .halt => .text "End"
  | .stop => .text "Stop"

end

def loopBinding (binding : LoopBinding) : Json :=
  .object [("for_index", .whole binding.forIndex), ("next_index", .whole binding.nextIndex)]

end Listing

/-- A program as a document that shows everything. -/
def Program.listing (program : Program) : Json :=
  .object [("statements", .array (Listing.block Listing.full program.statements)),
    ("loop_bindings", .object [("bindings", .object
      (program.bindings.sorted.map
        (fun entry => (toString entry.1, Listing.loopBinding entry.2))))])]

end MicroBasic
