import MicroBasic.Proofs.Discipline.Making

/-!
# What a discipline has to provide

The functions of the evaluator are built from a few ways to look at the machine and to change it,
and from the evaluation of what is nested in them. The laws of a discipline say that each of these
keeps it. Evaluators respect a discipline when their nested evaluations do, and the constructs that
call functions, handle errors or keep something on the activation.
-/

namespace MicroBasic

/-- The statements counted do not exceed the budget. -/
def Evaluator.WithinBudget (self : Evaluator) (m : Machine) : Prop :=
  ∀ limit, self.settings.maxSteps = some limit → m.steps ≤ limit

/-- The declaration of a type, if there is one, allows a value for a field. -/
def Machine.Allows (m : Machine) (typeName name : String) (value : Value) : Prop :=
  ∀ decl type, m.types.get? typeName = some decl → decl.fieldType? name = some type →
    value.hasType m.heap type = true

namespace Discipline

/-- Numbers, texts, arrays and records may occur, arrays and records may be made, and ordinary
failures are allowed. -/
structure Makes (D : Discipline) : Prop extends Value.Plain D.Val where
  ordinary : ∀ {fault}, fault.isOrdinary = true → D.Cause fault := by exact fun _ => trivial
  declared : ∀ {m name decl}, D.Inv m → m.types.get? name = some decl → D.Declared m decl := by
    exact fun _ _ => trivial
  grown : ∀ {m heap}, D.Inv m → m.heap.Grows (D.Declared m) D.Val heap → D.Keeps m { m with heap }

namespace Makes

variable {D : Discipline} {m : Machine}

theorem built {α : Type} {Good : α → Heap → Prop} {work : Exec α} (M : D.Makes) (inv : D.Inv m)
    (builds : Exec.Builds (D.Declared m) D.Val Good m work) :
    D.Sound m (fun value final => Good value final.heap) work work := by
  unfold Exec.Builds at builds
  unfold Sound
  revert builds
  generalize work m = result
  intro builds
  cases builds with
  | value grows good =>
    obtain ⟨inv, step⟩ := M.grown inv grows
    exact .value inv step good
  | error grows ordinary =>
    obtain ⟨inv, step⟩ := M.grown inv grows
    exact .error inv step (allows_unplaced (M.ordinary ordinary))

theorem newArray (M : D.Makes) {items : Array Value} (inv : D.Inv m)
    (known : ∀ item ∈ items, D.Val item) :
    D.Sound m D.GoodValue (Exec.making (Making.newArray items))
      (Exec.making (Making.newArray items)) := by
  refine (M.built inv (Exec.Builds.newArray known)).weaken ?_
  rintro _ _ _ _ ⟨ref, rfl⟩
  exact M.array

theorem newRecord (M : D.Makes) {record : Record} (inv : D.Inv m)
    (known : ∀ field ∈ record.fields, D.Val field.2) (undeclared : record.declared = none) :
    D.Sound m D.GoodValue (Exec.making (Making.newRecord record))
      (Exec.making (Making.newRecord record)) := by
  refine (M.built inv (Exec.Builds.newRecord known undeclared)).weaken ?_
  rintro _ _ _ _ ⟨ref, rfl⟩
  exact M.record

theorem newTyped {decl : TypeDecl} {fields : List (String × Value)} (M : D.Makes) (inv : D.Inv m)
    (declared : D.Declared m decl)
    (filled : Evaluator.FilledFields D.Val decl.fields fields m.heap) :
    D.Sound m D.GoodValue (Exec.making (Making.newRecord (decl.record fields)))
      (Exec.making (Making.newRecord (decl.record fields))) := by
  refine (M.built inv (Exec.Builds.newTyped filled.2 declared filled.1)).weaken ?_
  rintro _ _ _ _ ⟨ref, rfl, _⟩
  exact M.record

end Makes

/-- The blocks of a statement may be executed where the block may that the statement is part of. -/
structure Hereditary (D : Discipline) : Prop where
  parts : ∀ {m block stmt inner}, D.Code m block → stmt ∈ block → inner ∈ stmt.blocks →
    D.Code m inner
  among : ∀ {m block stmt}, D.Code m block → stmt ∈ block → stmt.Among D.Known

theorem Hereditary.of_all {D : Discipline} (all : ∀ m block, D.Code m block)
    (known : ∀ token, D.Known token := by exact fun _ => trivial) : D.Hereditary :=
  ⟨fun _ _ _ => all _ _, fun _ _ => .of_all _ known⟩

/-- The ways to look at the machine and to change it keep a discipline. -/
structure Laws (D : Discipline) (host : Host) : Prop extends Makes D where
  functionName : ∀ {name}, D.Val (.function name) := by exact trivial
  hostEntry : ∀ {entry : HostEntry}, D.Val entry.value := by exact trivial
  boundFunction : ∀ {overload receiver},
    D.Val (.boundFunction overload receiver) ↔ D.Callable overload ∧ D.Val receiver := by
    exact ⟨fun _ => ⟨trivial, trivial⟩, fun _ => trivial⟩
  boundHost : ∀ {ref receiver}, D.Val (.boundHost ref receiver) ↔ D.Val receiver := by exact .rfl
  readVariable : ∀ {m name value}, D.Inv m → m.readVariable name = .ok (some value) →
    D.Val value := by exact fun _ _ => trivial
  items : ∀ {m ref value}, D.Inv m → value ∈ m.heap.items ref → D.Val value := by
    exact fun _ _ => trivial
  fields : ∀ {m ref field}, D.Inv m → field ∈ (m.heap.record ref).fields → D.Val field.2 := by
    exact fun _ _ => trivial
  targets : ∀ {m value}, D.Inv m → value ∈ m.activation.targets → D.Val value := by
    exact fun _ _ => trivial
  functions : ∀ {m name set overload}, D.Inv m → m.functions.get? name = some set →
    overload ∈ set.overloads → D.Callable overload := by exact fun _ _ _ => trivial
  getters : ∀ {m typeName name overload}, D.Inv m →
    m.properties.getter? typeName name = some overload → D.Callable overload := by
    exact fun _ _ => trivial
  setters : ∀ {m typeName name overload}, D.Inv m →
    m.properties.setter? typeName name = some overload → D.Callable overload := by
    exact fun _ _ => trivial
  spot_name : ∀ {m name place}, D.Inv m → m.placeOf? name = some place → D.Spot m place := by
    exact fun _ _ => trivial
  spot_field : ∀ {m ref name field}, D.Inv m → (m.heap.record ref).field? name = some field →
    D.Spot m (.field ref field.1) := by exact fun _ _ => trivial
  spot_element : ∀ {m ref index}, D.Inv m → index < (m.heap.items ref).size →
    D.Spot m (.element ref index) := by exact fun _ _ => trivial
  /-- What stands outside of a program, its input and output, may change. -/
  outside : ∀ {m world console spawned}, D.Inv m → D.Keeps m { m with world, console, spawned }
  invoke : ∀ {m ref args}, D.Inv m → (∀ value ∈ args, D.Val value) →
    match host.invoke ref args { heap := m.heap, world := m.world } with
    | .ok value state => D.Val value ∧ D.Keeps m { m with heap := state.heap, world := state.world }
    | .error (.fault _) state => D.Keeps m { m with heap := state.heap, world := state.world }
    | .error (.awaiting _) _ => True
  setVariable : ∀ {m name value next}, D.Inv m → D.Val value → m.setVariable name value = .ok next →
    D.Keeps m next
  setField : ∀ {m ref name value}, D.Inv m → D.Val value →
    m.Allows (m.heap.record ref).typeName name value →
    D.Keeps m { m with heap := m.heap.setRecord ref ((m.heap.record ref).set name value) }
  insertField : ∀ {m ref name value}, D.Inv m → D.Val value →
    (m.heap.record ref).isObject = true →
    D.Keeps m { m with heap := m.heap.setRecord ref ((m.heap.record ref).insert name value) }
  setItem : ∀ {m ref index value}, D.Inv m → D.Val value →
    D.Keeps m { m with heap := m.heap.setItem ref index value }
  defineFunction : ∀ {m decl origin functions}, D.Inv m → D.Code m decl.body →
    (∀ expr ∈ decl.params.filterMap Param.default, expr.Among D.Known) →
    m.functions.define { decl, origin, loops := m.activation.loops } = .ok functions →
    D.Keeps m { m with functions }
  defineProperty : ∀ {m decl origin properties}, D.Inv m → D.Code m decl.body →
    (∀ expr ∈ decl.params.filterMap Param.default, expr.Among D.Known) →
    m.properties.define decl origin m.activation.loops = .ok properties →
    D.Keeps m { m with properties }
  defineType :
    ∀ {m decl types}, D.Inv m → m.types.define decl = .ok types → D.Keeps m { m with types }
  deferBlock : ∀ {m body}, D.Inv m → D.Code m body → D.Keeps m (m.defer body)

namespace Laws

variable {D : Discipline} {host : Host} {m : Machine} (L : D.Laws host) (inv : D.Inv m)

include L inv

theorem spawn {name : String} : D.Keeps m (m.spawn name) := by
  unfold Machine.spawn
  dsimp only
  split
  · exact L.outside inv
  · exact L.outside inv

theorem takeLine {prompt : String} : D.Sound m Free (Exec.takeLine prompt)
    (Exec.takeLine prompt) := by
  have kept (world : World) : D.Keeps m { m with world } := L.outside inv
  unfold Sound Exec.takeLine
  match m.world.takeLine prompt with
  | (.ok (some _), world) => exact .value (kept world).1 (kept world).2 trivial
  | (.ok none, world) =>
    exact .error (kept world).1 (kept world).2 (allows_unplaced (L.ordinary rfl))
  | (.error _, _) => exact .awaiting

theorem hosting {args : List Value} {ref : HostRef} (good : ∀ value ∈ args, D.Val value) :
    D.Sound m D.GoodValue (Exec.hosting ref (host.invoke ref args))
      (Exec.hosting ref (host.invoke ref args)) := by
  have invoked := @L.invoke m ref args inv good
  unfold Sound Exec.hosting
  match host.invoke ref args { heap := m.heap, world := m.world }, invoked with
  | .ok _ _, ⟨good, kept⟩ => exact .value kept.1 kept.2 good
  | .error (.fault _) _, kept => exact .error kept.1 kept.2 (allows_unplaced (L.ordinary rfl))
  | .error (.awaiting _) _, _ => exact .awaiting

theorem defining {α : Type} {table : Machine → Except Fault α} {enter : Machine → α → Machine}
    (ordinary : Ordinary (table m))
    (kept : ∀ {entered}, table m = .ok entered → D.Keeps m (enter m entered)) :
    D.Sound m Free (Exec.change (fun m => do return enter m (← table m)))
      (Exec.change (fun m => do return enter m (← table m))) := by
  unfold Sound Exec.change Exec.ask
  simp only [bind_assoc, Exec.get_bind]
  cases taken : table m with
  | error fault =>
    exact .error inv (D.step_refl m) (allows_unplaced (L.ordinary (ordinary fault taken)))
  | ok entered => exact .value (kept taken).1 (kept taken).2 trivial

theorem functionDefined {decl : FunctionDecl Block} {origin : Nat} (code : D.Code m decl.body)
    (fine : ∀ expr ∈ decl.params.filterMap Param.default, expr.Among D.Known) :
    D.Sound m Free (Evaluator.defineFunction decl origin) (Evaluator.defineFunction decl origin) :=
  L.defining inv (m.functions.ordinary_define _) (L.defineFunction inv code fine)

theorem propertyDefined {decl : PropertyDecl Block} {origin : Nat} (code : D.Code m decl.body)
    (fine : ∀ expr ∈ decl.params.filterMap Param.default, expr.Among D.Known) :
    D.Sound m Free (Evaluator.defineProperty decl origin) (Evaluator.defineProperty decl origin) :=
  L.defining inv (m.properties.ordinary_define _ _ _) (L.defineProperty inv code fine)

theorem typeDefined {decl : TypeDecl} : D.Sound m Free (Evaluator.defineType decl)
    (Evaluator.defineType decl) :=
  L.defining inv (m.types.ordinary_define _) (L.defineType inv)

end Laws

/-- The nested evaluations of two evaluators keep a discipline. -/
structure Hooks (D : Discipline) (left right : Evaluator) : Prop where
  laws : Laws D left.host
  host : right.host = left.host
  settings : right.settings = left.settings
  fuel : right.fuel = left.fuel
  eval : ∀ {m expr}, expr.Among D.Known → D.Inv m →
    D.Sound m D.GoodValue (left.eval expr) (right.eval expr)
  exec : ∀ {m block}, D.Inv m → D.Code m block →
    D.Sound m D.GoodSignal (left.exec block) (right.exec block)

/-- Two evaluators keep a discipline in whatever the constructs of the language are built from. -/
structure Respects (D : Discipline) (left right : Evaluator) : Prop extends Hooks D left right where
  expression : ∀ {m expr}, D.Inv m →
    D.Sound m Free (left.observe (.expression expr)) (right.observe (.expression expr))
  tick : ∀ {m}, D.Inv m → D.Sound m (fun _ => left.WithinBudget) left.tick right.tick
  callUser : ∀ {m overload args}, D.Inv m → D.Callable overload →
    D.GoodArgs args m →
    D.Sound m D.GoodValue (left.callUser overload args) (right.callUser overload args)
  tryStmt : ∀ {m body handler cleanup}, D.Inv m → D.Code m body →
    (∀ clause, handler = some clause → D.Code m clause.body) →
    (∀ block, cleanup = some block → D.Code m block) →
    D.Sound m D.GoodSignal (left.tryStmt body handler cleanup) (right.tryStmt body handler cleanup)
  withStmt : ∀ {m target body}, target.Among D.Known → D.Inv m → D.Code m body →
    D.Sound m D.GoodSignal (left.withStmt target body) (right.withStmt target body)

end Discipline

end MicroBasic
