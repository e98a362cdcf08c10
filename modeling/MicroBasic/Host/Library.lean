import MicroBasic.Decimal.Reading
import MicroBasic.Host.Basic
import MicroBasic.Host.Calendar
import MicroBasic.Text.Basic
import MicroBasic.Text.Case
import MicroBasic.Text.Search
import MicroBasic.Value.Show

/-!
# The standard library

The functions that every program can use: those with a name of their own, and the groups `MATH`,
`STR`, `ARR` and `TIME`. A function checks how many arguments it gets before it looks at any of
them, and looks at them from left to right.
-/

namespace MicroBasic

namespace Library

open HostFault

def fail {α : Type} (cause : HostFault) : HostAction α :=
  throw (.fault cause)

def getHeap : HostAction Heap :=
  return (← get).heap

def modifyHeap (change : Heap → Heap) : HostAction Unit :=
  modify (fun state => { state with heap := change state.heap })

def newArray (items : Array Value) : HostAction Value := fun state =>
  let (ref, heap) := state.heap.newArray items
  .ok (.array ref) { state with heap }

/-- A function without arguments. -/
def nullary (name : String) (body : HostAction Value) : HostBody
  | [] => body
  | args => fail (argumentCount name (.exactly 0) args.length)

def unary (name : String) (body : Value → HostAction Value) : HostBody
  | [a] => body a
  | args => fail (argumentCount name (.exactly 1) args.length)

/-- A function of one argument and perhaps a second. -/
def unaryOrBinary (name : String) (body : Value → Option Value → HostAction Value) : HostBody
  | [a] => body a none
  | [a, b] => body a (some b)
  | args => fail (argumentCount name (.between 1 2) args.length)

/-- A function of two arguments. -/
def binary (name : String) (body : Value → Value → HostAction Value) : HostBody
  | [a, b] => body a b
  | args => fail (argumentCount name (.exactly 2) args.length)

/-- A function of two arguments and perhaps a third. -/
def binaryOrTernary (name : String) (body : Value → Value → Option Value → HostAction Value) :
    HostBody
  | [a, b] => body a b none
  | [a, b, c] => body a b (some c)
  | args => fail (argumentCount name (.between 2 3) args.length)

/-- A function of three arguments. -/
def ternary (name : String) (body : Value → Value → Value → HostAction Value) : HostBody
  | [a, b, c] => body a b c
  | args => fail (argumentCount name (.exactly 3) args.length)

/-- Fail because an argument is of another kind. -/
def failKind {α : Type} (name wanted : String) (value : Value) : HostAction α := do
  fail (argumentKind name wanted (value.typeName (← getHeap)))

def number (name : String) : Value → HostAction Float
  | .number value => return value
  | value => failKind name "a number" value

def text (name : String) : Value → HostAction String
  | .text value => return value
  | value => failKind name "a string" value

def array (name : String) : Value → HostAction ArrayRef
  | .array ref => return ref
  | value => failKind name "an array" value

/-- The largest count; greater numbers count as this. -/
def maxCount : Nat := Nat.pow 2 64 - 1

def count (name : String) (value : Value) : HostAction Nat := do
  let n ← number name value
  match Decimal.natural? n with
  | some count => return Nat.min count maxCount
  | none => fail (notACount name n)

def numeric (name : String) (f : Float → Float) : HostBody :=
  unary name (fun a => return .number (f (← number name a)))

def abs : HostBody := numeric "ABS" Float.abs

/-- The greatest whole number that is not greater. -/
def floor : HostBody := numeric "INT" Float.floor

/-- The least whole number that is not less. -/
def ceil : HostBody := numeric "CEIL" Float.ceil

def sin : HostBody := numeric "SIN" Float.sin

def cos : HostBody := numeric "COS" Float.cos

/-- The square root of a number that is not negative. -/
def sqrt : HostBody :=
  unary "SQRT" (fun a => do
    let n ← number "SQRT" a
    if n < 0 then fail (negativeRoot n) else return .number n.sqrt)

/-- The nearest number with some decimal places; a half goes away from zero. -/
def round : HostBody :=
  unaryOrBinary "ROUND" (fun a places => do
    let n ← number "ROUND" a
    let digits ← match places with
      | some places => Decimal.clampedWhole (-0x80000000) 0x7fffffff <$> number "ROUND" places
      | none => pure 0
    let scale := Decimal.powerOfTen digits
    return .number ((n * scale).round / scale))

def pow : HostBody :=
  binary "POW" (fun a b => do
    let base ← number "POW" a
    return .number (base.pow (← number "POW" b)))

/-- The numbers that are the elements of the only argument, or the arguments. -/
def operands (name : String) : List Value → HostAction (List Float)
  | [.array ref] => do ((← getHeap).items ref).toList.mapM (number name)
  | args => args.mapM (number name)

/-- Numbers combined from left to right. -/
def combined (name : String) (pick : Float → Float → Float) : HostBody
  | [] => fail (argumentCount name (.atLeast 1) 0)
  | args => do
    match ← operands name args with
    | [] => fail (emptyArray name)
    | first :: rest => return .number (rest.foldl pick first)

def least : HostBody := combined "MIN" Decimal.lesser

def greatest : HostBody := combined "MAX" Decimal.greater

/-- A random number from zero up to one. The argument, if there is one, does not matter. -/
def random : HostBody := fun args =>
  if args.length ≤ 1 then fun state =>
    let (value, world) := state.world.random
    .ok (.number value) { state with world }
  else fail (argumentCount "RND" (.between 0 1) args.length)

/-- The number that a text begins with. -/
def val : HostBody :=
  unary "VAL" (fun a => do
    return .number (Decimal.leadingValue (Text.trimChars (← text "VAL" a).toList)))

def str : HostBody :=
  unary "STR$" (fun a => do return .text (Decimal.numberText (← number "STR$" a)))

/-- The number of characters of a text or of elements of an array. -/
def length : HostBody :=
  unary "LEN" (fun a => do
    match a with
    | .text s => return .number s.length.toFloat
    | .array ref => return .number ((← getHeap).items ref).size.toFloat
    | _ => failKind "LEN" "a string or array" a)

def upper : HostBody :=
  unary "UPPER" (fun a => do return .text (Text.upper (← text "UPPER" a)))

def lower : HostBody :=
  unary "LOWER" (fun a => do return .text (Text.lower (← text "LOWER" a)))

/-- A text without the blanks at its ends. -/
def trim : HostBody :=
  unary "TRIM" (fun a => do return .text (Text.trim (← text "TRIM" a)))

/-- The first characters of a text. -/
def left : HostBody :=
  binary "LEFT$" (fun a b => do
    let s ← text "LEFT$" a
    let n ← count "LEFT$" b
    return .text (String.ofList (s.toList.take n)))

/-- The last characters of a text. -/
def right : HostBody :=
  binary "RIGHT$" (fun a b => do
    let s ← text "RIGHT$" a
    let n ← count "RIGHT$" b
    return .text (String.ofList (s.toList.drop (s.length - n))))

/-- The characters of a text from a place on, which counts from one; all of them or some. -/
def mid : HostBody :=
  binaryOrTernary "MID$" (fun a b c => do
    let s ← text "MID$" a
    let start ← count "MID$" b
    if start = 0 then fail startNotPositive
    else
      let rest := s.toList.drop (start - 1)
      match c with
      | some c =>
        let n ← count "MID$" c
        return .text (String.ofList (rest.take n))
      | none => return .text (String.ofList rest))

def chr : HostBody :=
  unary "CHR$" (fun a => do
    let code ← count "CHR$" a
    if code.isValidChar then return .text (String.singleton (Char.ofNat code))
    else fail (badCharacterCode code))

/-- The code of the first character of a text. -/
def asc : HostBody :=
  unary "ASC" (fun a => do
    match (← text "ASC" a).toList with
    | c :: _ => return .number c.toNat.toFloat
    | [] => fail emptyText)

/-- Whether a text occurs in another. -/
def contains : HostBody :=
  binary "CONTAINS" (fun a b => do
    let s ← text "CONTAINS" a
    return .ofBool (Text.contains s (← text "CONTAINS" b)))

/-- The pieces of a text between separators, which are blanks unless given. -/
def split : HostBody :=
  unaryOrBinary "SPLIT" (fun a b => do
    let s ← text "SPLIT" a
    let separator ← match b with
      | some b => text "SPLIT" b
      | none => pure " "
    newArray ((Text.split separator s).map .text).toArray)

/-- A text several times over. -/
def repeated : HostBody :=
  binary "REPEAT" (fun a b => do
    let s ← text "REPEAT" a
    let n ← count "REPEAT" b
    if s.utf8ByteSize * n ≤ maxRepeatedBytes then
      return .text (String.join (List.replicate (if s.isEmpty then 0 else n) s))
    else fail repeatTooLong)

/-- A text with every occurrence of a second text exchanged for a third. -/
def replace : HostBody :=
  ternary "REPLACE" (fun a b c => do
    let s ← text "REPLACE" a
    let pattern ← text "REPLACE" b
    return .text (Text.replace s pattern (← text "REPLACE" c)))

/-- Add elements at the end of an array; the result is its new length. -/
def push : HostBody
  | first :: second :: rest => do
    let ref ← array "PUSH" first
    let items := (← getHeap).items ref ++ (second :: rest)
    modifyHeap (fun heap => heap.setItems ref items)
    return .number items.size.toFloat
  | args => fail (argumentCount "PUSH" (.atLeast 2) args.length)

/-- Take the last element off an array. -/
def pop : HostBody :=
  unary "POP" (fun a => do
    let ref ← array "POP" a
    let items := (← getHeap).items ref
    match items.back? with
    | some last =>
      modifyHeap (fun heap => heap.setItems ref items.pop)
      return last
    | none => fail popEmpty)

/-- The texts of the elements of an array with a separator between them. -/
def join : HostBody :=
  unaryOrBinary "JOIN" (fun a b => do
    let separator ← match b with
      | some b => text "JOIN" b
      | none => pure ""
    let ref ← array "JOIN" a
    let heap ← getHeap
    return .text (Text.join separator ((heap.items ref).toList.map (Value.display heap))))

/-- An array or a text backwards. -/
def reverse : HostBody :=
  unary "REVERSE" (fun a => do
    match a with
    | .array ref => newArray ((← getHeap).items ref).reverse
    | .text s => return .text (String.ofList s.toList.reverse)
    | _ => failKind "REVERSE" "an array or string" a)

def readClock : HostAction Nat := fun state =>
  match state.world.readClock with
  | (.ok reading, world) => .ok reading { state with world }
  | (.error what, world) => .error (.awaiting what) { state with world }

def now : HostBody :=
  nullary "NOW" (do return .text (Calendar.stamp (← readClock)))

def millis : HostBody :=
  nullary "MILLIS" (do return .number (← readClock).toFloat)

/-- The functions with a name of their own. -/
def functions : List (String × HostBody) :=
  [("LEN", length), ("ABS", abs), ("INT", floor), ("SQR", sqrt), ("STR$", str), ("VAL", val),
    ("UCASE$", upper), ("LCASE$", lower), ("LEFT$", left), ("RIGHT$", right), ("MID$", mid),
    ("CHR$", chr), ("ASC", asc), ("RND", random)]

def groups : List (String × List (String × HostBody)) :=
  [("MATH",
      [("SQRT", sqrt), ("ABS", abs), ("FLOOR", floor), ("CEIL", ceil), ("ROUND", round),
        ("MIN", least), ("MAX", greatest), ("POW", pow), ("SIN", sin), ("COS", cos)]),
    ("STR",
      [("UPPER", upper), ("LOWER", lower), ("TRIM", trim), ("LEN", length), ("CONTAINS", contains),
        ("SPLIT", split), ("REPEAT", repeated), ("REPLACE", replace)]),
    ("ARR",
      [("LEN", length), ("PUSH", push), ("POP", pop), ("JOIN", join), ("REVERSE", reverse)]),
    ("TIME", [("NOW", now), ("MILLIS", millis)])]

end Library

def Host.standard : Host :=
  let host :=
    Library.functions.foldl (fun host entry => host.registerFunction entry.1 entry.2) .empty
  Library.groups.foldl
    (fun host group =>
      host.registerGroup group.1 (group.2.map (fun entry => (entry.1, .function entry.2))))
    host

end MicroBasic
