import MicroBasic.Eval.Expr

/-!
# Assignment

Where values go: variables, fields of records, properties, and elements of arrays. A variable whose
name ends in a type mark takes values of that type only, and so does a field with a declared type.
-/

namespace MicroBasic.Evaluator

variable (self : Evaluator)

def assignVariable (name : String) (value : Value) : Exec Unit := do
  Exec.checkType value (TypeSpec.ofSuffix name) s!"variable {name}"
  Exec.change (fun machine => machine.setVariable name value)

/-- The check that a field of a record may have a value. -/
def checkField (typeName name : String) (value : Value) : Exec Unit := do
  match ((← get).types.get? typeName).bind (fun decl => decl.fieldType? name) with
  | some type => Exec.checkType value type s!"field {typeName}.{name}"
  | none => return

def updateRecord (ref : RecordRef) (update : Record → Record) : Exec Unit :=
  modify (fun machine =>
    { machine with heap := machine.heap.setRecord ref (update (machine.heap.record ref)) })

/-- Give a member of a value a value: a field, a property, or a new field of an untyped record. -/
def setMember (object : Value) (name : String) (value : Value) : Exec Unit := do
  match object with
  | .record ref =>
    let record := (← Exec.heap).record ref
    if record.has name then
      checkField record.typeName name value
      updateRecord ref (fun record => record.set name value)
    else
      match (← get).properties.setter? record.typeName name with
      | some setter => discard (self.callOverload setter [Arg.ofValue object, Arg.ofValue value])
      | none =>
        if record.isObject then updateRecord ref (fun record => record.insert name value)
        else Exec.fail (.noField record.typeName name)
  | _ => Exec.fail (.wrongType "record" (object.typeName (← Exec.heap)))

/-- Give an element of an array or a field of a record a value. -/
def setIndex (object index : Value) (value : Value) : Exec Unit := do
  let heap ← Exec.heap
  match object, index with
  | .array ref, _ =>
    let place ← Exec.ofExcept (index.asIndex heap (heap.items ref).size)
    modify (fun machine => { machine with heap := machine.heap.setItem ref place value })
  | .record _, .text key => self.setMember object key value
  | _, _ => Exec.fail (.notIndexableBy (object.typeName heap) (index.typeName heap))

/-- Give what an expression names a value. -/
def assign (target : Expr) (value : Value) : Exec Unit := do
  match target with
  | .name token name => Exec.placed token (assignVariable name value)
  | .member token object name =>
    let object ← self.eval object
    Exec.placed token (self.setMember object name value)
  | .withField token name =>
    let object ← withTarget
    Exec.placed token (self.setMember object name value)
  | .index token object index =>
    let object ← self.eval object
    let index ← self.eval index
    Exec.placed token (self.setIndex object index value)
  | .call token (.name nameToken name) [index] =>
    let object ← self.eval (.name nameToken name)
    let index ← self.eval index
    Exec.placed token (self.setIndex object index value)
  | _ => Exec.placed target.token (Exec.fail .notAssignable)

end MicroBasic.Evaluator
