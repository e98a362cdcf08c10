import MicroBasic.Eval.Evaluator
import MicroBasic.Eval.Operators
import MicroBasic.Member

/-!
# Calls

Arguments are evaluated from left to right. An argument that is a variable, a field or an array
element remembers its place, for a parameter passed by reference. A declared function runs on a copy
of its caller's variables; when it ends, in whatever way, its deferred blocks run and the caller's
scope and activation come back.
-/

namespace MicroBasic.Evaluator

variable (self : Evaluator)

/-- What members are looked up in. -/
def tables : Exec Lookup := do
  let machine ← get
  return {
    functions := machine.functions, properties := machine.properties, host := self.host,
    heap := machine.heap }

def memberOf (receiver : Value) (name : String) : Exec Member := do
  Exec.ofExcept ((← self.tables).member receiver name)

/-- Fail because a name is not known, with the nearest known name. -/
def failUnknown {α : Type} (name : String) : Exec α := do
  let machine ← get
  let known := machine.variableNames ++ machine.functions.names ++ self.host.names
  Exec.fail (.unknownName name (Text.nearest? name known Text.suggestionThreshold))

/-- Fail because a member is not known. -/
def failMissing {α : Type} (receiver : Value) (name : String) (suggestion : Option String) :
    Exec α := do
  Exec.fail (.unknownMethod name (receiver.typeName (← Exec.heap)) suggestion)

/-- The value that the innermost `WITH` block is about. -/
def withTarget : Exec Value := do
  match (← get).activation.targets with
  | target :: _ => return target
  | [] => Exec.fail (.strayControl .fieldOutsideWith)

def partsOf (value : Value) : Exec (List Value) :=
  Exec.ask (fun machine => value.parts machine.types machine.heap)

/-- The values of a list of expressions, with the parts of a spread value in its place. -/
def values : List Expr → Exec (List Value)
  | [] => return []
  | .spread token inner :: rest => do
    let value ← self.eval inner
    let parts ← Exec.placed token (partsOf value)
    return parts ++ (← values rest)
  | item :: rest => do
    let value ← self.eval item
    return value :: (← values rest)

/-- Run the waiting blocks of the current activation, latest first. An error or a halt in one of
them takes the place of the outcome so far, and the remaining ones still run. -/
def drain : Nat → Outcome → Exec Outcome
  | 0, _ => Exec.await .fuel
  | fuel + 1, outcome => do
    let activation := (← get).activation
    match activation.deferred with
    | [] => return outcome
    | block :: rest =>
      modify (fun machine =>
        { machine with
          activation :=
            { activation with
              deferred := rest, journal := .begun block :: activation.journal
              loops := block.loops } })
      let result ← Exec.attempt (self.exec block.body)
      modify (fun machine =>
        { machine with
          activation :=
            { machine.activation with
              journal := .ended result :: machine.activation.journal
              loops := activation.loops } })
      match result with
      | .ok (.halt reason) => drain fuel (.ok (.halt reason))
      | .ok _ => drain fuel outcome
      | .error cause =>
        if cause.isFatal then
          modify (fun machine =>
            { machine with activation := { machine.activation with deferred := [] } })
          return .error cause
        else drain fuel (.error cause)

/-- End the current scope with an outcome: its waiting blocks run, unless a budget is exhausted. -/
def finishScope (outcome : Outcome) : Exec Outcome :=
  match outcome with
  | .error cause =>
    if cause.isFatal then do
      modify (fun machine =>
        { machine with activation := { machine.activation with deferred := [] } })
      return outcome
    else self.drain self.fuel outcome
  | .ok _ => self.drain self.fuel outcome

def initialOf (type : TypeSpec) : Exec Value := do
  let types := (← get).types
  Exec.making (types.initial type)

/-- The value of a parameter that no argument was given for. -/
def defaultOf (param : Param) : Exec Value :=
  match param.default with
  | some expr => self.eval expr
  | none => initialOf param.effectiveType

/-- Bind parameters to arguments from left to right. A default sees the parameters before it. -/
def bindParams (function : String) : List Param → List Arg → Exec Unit
  | [], _ => return
  | param :: params, args => do
    if param.variadic then
      let rest ← Exec.newArray (args.map Arg.value)
      modify (fun machine => machine.bindLocal param.name rest)
      bindParams function params []
    else
      let what := s!"parameter {param.name} of {function}"
      match args with
      | arg :: args =>
        Exec.checkType arg.value param.effectiveType what
        match arg.place, param.byRef with
        | some place, true => modify (fun machine => machine.bindPlace param.name place)
        | _, _ => modify (fun machine => machine.bindLocal param.name arg.value)
        bindParams function params args
      | [] =>
        let value ← self.defaultOf param
        Exec.checkType value param.effectiveType what
        modify (fun machine => machine.bindLocal param.name value)
        bindParams function params []

def defaultResult (decl : FunctionDecl Block) : Exec Value :=
  initialOf (decl.returnType.getD (TypeSpec.ofSuffix decl.name))

def resultOf (decl : FunctionDecl Block) : Signal → Exec Value
  | .returned (some value) => return value
  | .halt reason => throw (.broken (.halt reason))
  | .exit (.loop _) => Exec.fail (.strayControl (.exitEscaped decl.name))
  | .continued _ => Exec.fail (.strayControl (.continueEscaped decl.name))
  | _ => defaultResult decl

/-- Run the body of a function on a copy of the caller's variables and come back. -/
def runBody (overload : Overload) (args : List Arg) : Exec Outcome := do
  Exec.change Machine.park
  let caller := (← get).activation
  modify (fun machine =>
    { machine with
      activation :=
        { deferred := [], journal := [], targets := [], loops := overload.loops
          depth := caller.depth + 1 } })
  let outcome ← Exec.attempt (do
    self.bindParams overload.name overload.params args
    self.exec overload.decl.body)
  let outcome ← self.finishScope outcome
  modify (fun machine =>
    { machine.unpark with activation := { caller with depth := machine.activation.depth - 1 } })
  return outcome

/-- Call a declared function that accepts its arguments. -/
def callUser (overload : Overload) (args : List Arg) : Exec Value := do
  self.observe (.call overload args)
  let limit := self.settings.maxCallDepth
  if limit ≤ (← get).activation.depth then self.exhaust (.callDepth limit)
  else
    let signal ← Exec.resume (← self.runBody overload args)
    let value ← resultOf overload.decl signal
    match overload.decl.returnType with
    | some type => Exec.checkType value type s!"{overload.name} return value"
    | none => pure ()
    return value

/-- Call a declared function, if it accepts its arguments. -/
def callOverload (overload : Overload) (args : List Arg) : Exec Value := do
  let heap ← Exec.heap
  let values := args.map Arg.value
  if overload.accepts heap values then self.callUser overload args
  else Exec.fail (.notAccepted overload.description (values.map (Value.typeName heap)))

def callHost (function : HostRef) (args : List Value) : Exec Value :=
  Exec.hosting function (self.host.invoke function args)

def memberValue (receiver : Value) (name : String) : Exec Value := do
  match ← self.memberOf receiver name with
  | .field value => return value
  | .property getter => self.callUser getter [Arg.ofValue receiver]
  | .method overload => return .boundFunction overload receiver
  | .hosted (.function ref) true => return .boundHost ref receiver
  | .hosted entry _ => return entry.value
  | .missing suggestion => failMissing receiver name suggestion

/-- The field of a record with its place, if a value is a record that has it. -/
def fieldArg? (heap : Heap) (object : Value) (name : String) : Option Arg :=
  match object with
  | .record ref =>
    ((heap.record ref).field? name).map (fun field =>
      { value := field.2, place := some (.field ref field.1) })
  | _ => none

def fieldArg (object : Value) (name : String) : Exec Arg := do
  match fieldArg? (← Exec.heap) object name with
  | some arg => return arg
  | none => return Arg.ofValue (← self.memberValue object name)

def elementArg (object index : Value) : Exec Arg := do
  let heap ← Exec.heap
  let value ← Exec.ofExcept (Value.indexed heap object index)
  match object with
  | .array ref =>
    let place ← Exec.ofExcept (index.asIndex heap (heap.items ref).size)
    return { value, place := some (.element ref place) }
  | _ => return Arg.ofValue value

def arrayVariable? (callee : Expr) : Exec (Option Value) :=
  match callee with
  | .name _ name => do
    match ← Exec.ask (fun machine => machine.readVariable name) with
    | some (.array ref) => return some (.array ref)
    | _ => return none
  | _ => return none

def arg (expr : Expr) : Exec Arg := do
  match expr with
  | .name _ name =>
    let place := (← get).placeOf? name
    return { value := ← self.eval expr, place }
  | .member _ object name =>
    let object ← self.eval object
    self.fieldArg object name
  | .withField _ name =>
    let object ← withTarget
    self.fieldArg object name
  | .index _ object index =>
    let object ← self.eval object
    let index ← self.eval index
    elementArg object index
  | .call _ callee [index] =>
    match ← arrayVariable? callee with
    | some object =>
      let index ← self.eval index
      elementArg object index
    | none => return Arg.ofValue (← self.eval expr)
  | _ => return Arg.ofValue (← self.eval expr)

/-- Arguments with their places. -/
def args : List Expr → Exec (List Arg)
  | [] => return []
  | .spread token inner :: rest => do
    let value ← self.eval inner
    let parts ← Exec.placed token (partsOf value)
    return parts.map Arg.ofValue ++ (← args rest)
  | item :: rest => do
    let first ← Exec.placed item.token (self.arg item)
    return first :: (← args rest)

/-- Call the declared function with a name that accepts the arguments. -/
def callNamed (name : String) (exprs : List Expr) : Exec Value := do
  match (← get).functions.get? name with
  | none => self.failUnknown name
  | some set =>
    let args ← self.args exprs
    let heap ← Exec.heap
    let overload ← Exec.ofExcept (set.select heap (args.map Arg.value))
    self.callUser overload args

def callValue (callee : Value) (exprs : List Expr) : Exec Value := do
  match callee, exprs with
  | .function name, _ => self.callNamed name exprs
  | .boundFunction overload receiver, _ =>
    let args ← self.args exprs
    self.callOverload overload (Arg.ofValue receiver :: args)
  | .hostFunction ref, _ =>
    let values ← self.values exprs
    self.callHost ref values
  | .boundHost ref receiver, _ =>
    let values ← self.values exprs
    self.callHost ref (receiver :: values)
  | .array _, [index] =>
    let index ← self.eval index
    Exec.ask (fun machine => Value.indexed machine.heap callee index)
  | _, _ => Exec.fail (.notCallable (callee.typeName (← Exec.heap)))

/-- Call a name: a variable that holds something to call, a declared function, or the host's. -/
def callName (name : String) (exprs : List Expr) : Exec Value := do
  match ← Exec.ask (fun machine => machine.readVariable name) with
  | some value =>
    if value.isCallable || value.isArray then self.callValue value exprs
    else Exec.fail (.notCallable s!"'{name}' ({value.typeName (← Exec.heap)})")
  | none =>
    if ((← get).functions.get? name).isSome then self.callNamed name exprs
    else
      match self.host.entry? name with
      | some (.function ref) =>
        let values ← self.values exprs
        self.callHost ref values
      | some (.group _) => Exec.fail (.notCallable s!"namespace {name}")
      | none => self.failUnknown name

def callMember (receiver : Value) (name : String) (exprs : List Expr) : Exec Value := do
  match ← self.memberOf receiver name with
  | .field value => self.callValue value exprs
  | .property getter =>
    let value ← self.callUser getter [Arg.ofValue receiver]
    self.callValue value exprs
  | .method overload =>
    let args ← self.args exprs
    self.callOverload overload (Arg.ofValue receiver :: args)
  | .hosted (.function ref) binds =>
    let values ← self.values exprs
    self.callHost ref (if binds then receiver :: values else values)
  | .hosted (.group ref) _ => Exec.fail (.notCallable s!"namespace {ref.name}")
  | .missing suggestion => failMissing receiver name suggestion

def call (callee : Expr) (exprs : List Expr) : Exec Value := do
  match callee with
  | .name _ name => self.callName name exprs
  | .member _ object name =>
    let object ← self.eval object
    self.callMember object name exprs
  | _ =>
    let value ← self.eval callee
    self.callValue value exprs

end MicroBasic.Evaluator
