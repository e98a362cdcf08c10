import MicroBasic.Decimal.Reading
import MicroBasic.Text.Basic
import MicroBasic.Types
import MicroBasic.Value.Equality
import MicroBasic.Value.Show

/-!
# Operators

What operators, comparisons, indexing and spreading do with values that are already known.
-/

namespace MicroBasic.Value

/-- A value as a number. A text that is a decimal converts. -/
def asNumber (heap : Heap) (value : Value) : Except Fault Float :=
  match value with
  | number n => return n
  | text s =>
    match Decimal.readChars (Text.trimChars s.toList) with
    | some n => return n
    | none => throw (.wrongType "NUMBER" ("STRING " ++ Text.quoted s))
  | _ => throw (.wrongType "NUMBER" (value.typeName heap))

/-- The order of two numbers, if they have one. -/
def orderNumbers (a b : Float) : Option Ordering :=
  if a < b then some .lt else if a == b then some .eq else if b < a then some .gt else none

/-- The order of two values in comparison operators. -/
def strictOrder (heap : Heap) (op : BinaryOp) (a b : Value) : Except Fault (Option Ordering) :=
  match a, b with
  | number x, number y => return orderNumbers x y
  | text x, text y => return some (Text.order x y)
  | _, _ => throw (.incomparable (a.typeName heap) op (b.typeName heap))

/-- The order of two values in case selection, where texts are compared in lower case. -/
def looseOrder (a b : Value) : Option Ordering :=
  match a, b with
  | number x, number y => orderNumbers x y
  | text x, text y => some (Text.order (Text.lower x) (Text.lower y))
  | _, _ => none

/-- Whether an order satisfies a test; without an order it does not. -/
def ordered (order : Option Ordering) (test : Ordering → Bool) : Bool :=
  match order with
  | some order => test order
  | none => false

/-- The text of two values one after the other. -/
def concat (heap : Heap) (a b : Value) : Value :=
  text (a.display heap ++ b.display heap)

def compare (heap : Heap) (op : BinaryOp) (test : Ordering → Bool) (a b : Value) :
    Except Fault Value :=
  return ofBool (ordered (← strictOrder heap op a b) test)

def calculate (heap : Heap) (f : Float → Float → Except Fault Float) (a b : Value) :
    Except Fault Value := do
  let x ← a.asNumber heap
  let y ← b.asNumber heap
  return number (← f x y)

/-- A calculation whose second operand must not be zero. -/
def dividing (f : Float → Float → Float) (x y : Float) : Except Fault Float :=
  if y == 0 then throw .divisionByZero else return f x y

/-- An operator on two values. Adding a text to anything joins the texts. -/
def apply (heap : Heap) (op : BinaryOp) (a b : Value) : Except Fault Value :=
  match op with
  | .concat => return concat heap a b
  | .add =>
    match a, b with
    | text _, _ => return concat heap a b
    | _, text _ => return concat heap a b
    | _, _ => calculate heap (fun x y => return x + y) a b
  | .equal => return ofBool (strictlyEqual heap a b)
  | .notEqual => return ofBool (!strictlyEqual heap a b)
  | .less => compare heap op Ordering.isLT a b
  | .greater => compare heap op Ordering.isGT a b
  | .lessEqual => compare heap op Ordering.isLE a b
  | .greaterEqual => compare heap op Ordering.isGE a b
  | .subtract => calculate heap (fun x y => return x - y) a b
  | .multiply => calculate heap (fun x y => return x * y) a b
  | .power => calculate heap (fun x y => return x.pow y) a b
  | .divide => calculate heap (dividing (fun x y => x / y)) a b
  | .wholeDivide => calculate heap (dividing (fun x y => (x / y).floor)) a b
  | .modulo => calculate heap (dividing Decimal.remainder) a b
  | .and => calculate heap (fun _ _ => throw (.notNumeric op)) a b
  | .or => calculate heap (fun _ _ => throw (.notNumeric op)) a b

def asIndex (heap : Heap) (index : Value) (length : Nat) : Except Fault Nat := do
  let n ← index.asNumber heap
  match Decimal.natural? n with
  | some place => if place < length then return place else throw (.indexOutOfRange n length)
  | none => throw (.indexOutOfRange n length)

def elementAt (heap : Heap) (items : Array Value) (index : Value) : Except Fault Value := do
  let place ← index.asIndex heap items.size
  match items[place]? with
  | some item => return item
  | none => throw (.indexOutOfRange place.toFloat items.size)

/-- An element of an array, a character of a text, or a field of a record. -/
def indexed (heap : Heap) (object index : Value) : Except Fault Value :=
  match object with
  | array ref => elementAt heap (heap.items ref) index
  | text s => elementAt heap (s.toList.map (fun c => text (String.singleton c))).toArray index
  | record ref =>
    let record := heap.record ref
    match index with
    | text key =>
      match record.get? key with
      | some value => return value
      | none => throw (.noField record.typeName key)
    | _ => throw (.wrongType "STRING key" (index.typeName heap))
  | _ => throw (.notIndexable (object.typeName heap))

def fieldsNamed (record : Record) (names : List String) : Except Fault (List Value) :=
  names.mapM (fun name =>
    match record.get? name with
    | some value => return value
    | none => throw (.noFieldToSpread record.typeName name))

/-- The parts of a value: the elements of an array or the fields of a record. -/
def parts (types : TypeTable) (heap : Heap) (value : Value) : Except Fault (List Value) :=
  match value with
  | array ref => return (heap.items ref).toList
  | record ref =>
    let record := heap.record ref
    match types.get? record.typeName with
    | some decl => fieldsNamed record decl.spreadOrder
    | none => fieldsNamed record (record.fields.map Prod.fst)
  | _ => throw (.notSpreadable (value.typeName heap))

end MicroBasic.Value
