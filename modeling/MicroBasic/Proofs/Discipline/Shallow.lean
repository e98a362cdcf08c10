import MicroBasic.Proofs.Discipline.Block

/-!
# Disciplines about scopes and control

Many disciplines are not about what the parts of a program share, its heap, tables and outputs: any
value, block and function may occur, and work may fail for any cause. For such a discipline only
assignments and waiting blocks remain to be looked at, and only assignments if it is about the
scopes alone.
-/

namespace MicroBasic

/-- Two machines have the same scopes. -/
def Machine.SameScopes (before after : Machine) : Prop :=
  after.scope = before.scope ∧ after.parked = before.parked

theorem TypeTable.get?_define {decl : TypeDecl} {name : String} {other : TypeDecl}
    {types defined : TypeTable}
    (done : types.define decl = .ok defined) (found : types.get? name = some other) :
    defined.get? name = some other := by
  unfold define at done
  split at done
  · cases done
  · next absent =>
    cases done
    unfold get? at found ⊢
    refine Table.get?_insert.trans ((if_neg fun same => absent ?_).trans found)
    rw [← same, Table.contains, found]
    rfl

/-- No type is lost. -/
def Machine.KeepsTypes (before after : Machine) : Prop :=
  ∀ {name decl}, before.types.get? name = some decl → after.types.get? name = some decl

theorem Machine.KeepsTypes.refl (m : Machine) : m.KeepsTypes m :=
  id

/-- Two machines differ at most in what the parts of a program share: they have the same scopes, the
same activation, the same count of statements and the same declarations registered beforehand. No
type is lost. -/
structure Machine.SameControl (before after : Machine) : Prop where
  scopes : before.SameScopes after
  activation : after.activation = before.activation
  steps : after.steps = before.steps
  hoisted : after.hoisted = before.hoisted
  types : before.KeepsTypes after

theorem Machine.SameControl.shared (m : Machine) (functions : FunctionTable)
    (properties : PropertyTable) (console : Console) (spawned : List String) (heap : Heap)
    (world : World) :
    m.SameControl { m with functions, properties, console, spawned, heap, world } :=
  ⟨⟨rfl, rfl⟩, rfl, rfl, rfl, id⟩

/-- What a machine becomes when a variable gets a value: the value goes to the variable itself, or
to the place that the variable stands for. -/
inductive Machine.Assigns (m : Machine) (name : String) (value : Value) : Machine → Prop
  | own (free : m.scope.places.get? (Text.stripSuffix name) = none) :
      Assigns m name value
        { m with scope := m.scope.assign (Text.stripSuffix name) value }
  | slot {frame : Nat} {key : String}
      (stands : m.scope.places.get? (Text.stripSuffix name) = some (.slot frame key))
      (parked : frame < m.parked.length) :
      Assigns m name value
        { m with
          parked := m.parked.modify frame (fun scope => scope.assign key value) }
  | field {record : RecordRef} {field : String}
      (stands : m.scope.places.get? (Text.stripSuffix name) = some (.field record field)) :
      Assigns m name value
        { m with
          heap :=
            m.heap.setRecord record ((m.heap.record record).setReferenced field value) }
  | element {array : ArrayRef} {index : Nat}
      (stands : m.scope.places.get? (Text.stripSuffix name) = some (.element array index))
      (inside : index < (m.heap.items array).size) :
      Assigns m name value { m with heap := m.heap.setItem array index value }

theorem Machine.assigns_of_setVariable {name : String} {value : Value} {m next : Machine}
    (assigned : m.setVariable name value = .ok next) : m.Assigns name value next := by
  unfold setVariable at assigned
  dsimp only at assigned
  split at assigned
  · next place stands =>
    cases place with
    | slot frame key =>
      simp only [writePlace] at assigned
      split at assigned
      · next parked =>
        cases assigned
        exact .slot stands parked
      · cases assigned
    | field record field =>
      cases assigned
      exact .field stands
    | element array index =>
      simp only [writePlace] at assigned
      split at assigned
      · next inside =>
        cases assigned
        exact .element stands inside
      · cases assigned
  · next free =>
    cases assigned
    exact .own free

theorem Machine.control_of_setVariable {name : String} {value : Value} {m next : Machine}
    (assigned : m.setVariable name value = .ok next) :
    next.activation = m.activation ∧ next.hoisted = m.hoisted ∧ next.types = m.types ∧
      next.pairings = m.pairings := by
  cases assigns_of_setVariable assigned <;> exact ⟨rfl, rfl, rfl, rfl⟩

theorem Machine.control_of_park {m parked : Machine} (done : m.park = .ok parked) :
    parked.activation = m.activation ∧ parked.hoisted = m.hoisted ∧ parked.types = m.types ∧
      parked.pairings = m.pairings := by
  obtain ⟨vars, _, done⟩ := Results.of_bind done
  cases done
  exact ⟨rfl, rfl, rfl, rfl⟩

namespace Discipline

/-- A discipline that asks nothing of values, functions and types, and of causes only that they are
not fatal and tell of no halt. -/
structure Open (D : Discipline) : Prop where
  val : ∀ value, D.Val value
  callable : ∀ overload, D.Callable overload
  declared : ∀ m decl, D.Declared m decl := by exact fun _ _ => trivial
  known : ∀ token, D.Known token := by exact fun _ => trivial
  cause : ∀ {fault}, fault.isFatal = false → fault.haltReason? = none → D.Cause fault

/-- A discipline that only looks at scopes and control. -/
structure Controlling (D : Discipline) : Prop extends D.Open where
  /-- Whatever leaves scopes and control as they are is a step. -/
  shared : ∀ {m next : Machine}, m.SameControl next → D.Inv m → D.Keeps m next

theorem Controlling.makes {D : Discipline} (controlling : D.Controlling) : D.Makes where
  ordinary ordinary := controlling.cause (Fault.not_isFatal_of_isOrdinary ordinary)
    (Fault.haltReason?_of_isOrdinary ordinary)
  number := controlling.val _
  text := controlling.val _
  array := controlling.val _
  record := controlling.val _
  declared _ _ := controlling.declared _ _
  grown inv _ := controlling.shared (.shared ..) inv

theorem Controlling.laws {D : Discipline} (controlling : D.Controlling) {host : Host}
    (spot_name : ∀ {m name place}, D.Inv m → m.placeOf? name = some place → D.Spot m place)
    (spot_field : ∀ {m ref name}, D.Spot m (.field ref name))
    (spot_element : ∀ {m ref index}, D.Spot m (.element ref index))
    (setVariable : ∀ {m name value next}, D.Inv m → m.setVariable name value = .ok next →
      D.Keeps m next)
    (defer : ∀ {m body}, D.Inv m → D.Keeps m (m.defer body)) : D.Laws host where
  toMakes := controlling.makes
  functionName := controlling.val _
  hostEntry := controlling.val _
  boundFunction :=
    ⟨fun _ => ⟨controlling.callable _, controlling.val _⟩, fun _ => controlling.val _⟩
  boundHost := ⟨fun _ => controlling.val _, fun _ => controlling.val _⟩
  readVariable _ _ := controlling.val _
  items _ _ := controlling.val _
  fields _ _ := controlling.val _
  targets _ _ := controlling.val _
  functions _ _ _ := controlling.callable _
  getters _ _ := controlling.callable _
  setters _ _ := controlling.callable _
  spot_name := spot_name
  spot_field _ _ := spot_field
  spot_element _ _ := spot_element
  outside inv := controlling.shared (.shared ..) inv
  invoke inv _ := by
    split
    · exact ⟨controlling.val _, controlling.shared (.shared ..) inv⟩
    · exact controlling.shared (.shared ..) inv
    · trivial
  setVariable inv _ assigned := setVariable inv assigned
  setField inv _ _ := controlling.shared (.shared ..) inv
  insertField inv _ _ := controlling.shared (.shared ..) inv
  setItem inv _ := controlling.shared (.shared ..) inv
  defineFunction inv _ _ _ := controlling.shared (.shared ..) inv
  defineProperty inv _ _ _ := controlling.shared (.shared ..) inv
  defineType inv defined :=
    controlling.shared ⟨⟨rfl, rfl⟩, rfl, rfl, rfl, TypeTable.get?_define defined⟩ inv
  deferBlock inv _ := defer inv

/-- A discipline that only looks at scopes. -/
structure Shallow (D : Discipline) : Prop extends D.Open where
  /-- Whatever leaves the scopes as they are and loses no type is a step. -/
  same : ∀ {m next : Machine}, m.SameScopes next → m.KeepsTypes next → D.Inv m → D.Keeps m next
  code : ∀ m block, D.Code m block

namespace Shallow

variable {D : Discipline} {m : Machine}

theorem controlling (shallow : D.Shallow) : D.Controlling where
  toOpen := shallow.toOpen
  shared same := shallow.same same.scopes same.types

theorem laws {host : Host} (shallow : D.Shallow)
    (spot_name : ∀ {m name place}, D.Inv m → m.placeOf? name = some place →
      D.Spot m place) (spot_field : ∀ {m ref name}, D.Spot m (.field ref name))
    (spot_element : ∀ {m ref index}, D.Spot m (.element ref index))
    (setVariable : ∀ {m name value next}, D.Inv m → m.setVariable name value = .ok next →
      D.Keeps m next) :
    D.Laws host :=
  shallow.controlling.laws spot_name spot_field spot_element setVariable fun inv =>
    shallow.same ⟨rfl, rfl⟩ id inv

theorem scoping (shallow : D.Shallow) (parted_fatal : ∀ {left leftMachine error rightMachine},
      D.Parted left leftMachine (.broken (.error error)) rightMachine →
        (Break.error error).isFatal = true := by exact False.elim)
    (parted_activation : ∀ {left leftMachine right rightMachine activation},
      D.Parted left leftMachine right rightMachine →
        D.Parted left leftMachine right { rightMachine with activation } := by exact False.elim)
    (parted_unpark : ∀ {left leftMachine right rightMachine},
      D.Parted left leftMachine right rightMachine →
        D.Parted left leftMachine right rightMachine.unpark := by
          exact False.elim) : D.Scoping where
  counted inv := shallow.same ⟨rfl, rfl⟩ id inv
  hoisted inv := shallow.same ⟨rfl, rfl⟩ id inv
  targeted _ inv _ := shallow.same ⟨rfl, rfl⟩ id inv
  emptied inv := shallow.same ⟨rfl, rfl⟩ id inv
  started {m block others} inv _ :=
    ⟨(@shallow.same m (m.starting block others) ⟨rfl, rfl⟩ id inv).1, shallow.code _ _⟩
  ended {m block others final} result inv _ kept step := by
    obtain ⟨_, first⟩ := @shallow.same m (m.starting block others) ⟨rfl, rfl⟩ id inv
    obtain ⟨kept, last⟩ :=
      @shallow.same final (final.concluding result m.activation.loops) ⟨rfl, rfl⟩ id kept
    exact ⟨kept, D.step_trans first (D.step_trans step last)⟩
  parted_fatal := parted_fatal
  parted_activation := parted_activation
  parted_unpark := parted_unpark

end Shallow

/-- A discipline that says little about machines, only about types and how work ends. -/
structure Loose (D : Discipline) : Prop extends D.Open where
  inv : ∀ m, D.Inv m
  step : ∀ {before after}, before.KeepsTypes after → D.Step before after
  spot : ∀ m place, D.Spot m place
  code : ∀ m block, D.Code m block

namespace Loose

variable {D : Discipline}

theorem shallow (loose : D.Loose) : D.Shallow where
  toOpen := loose.toOpen
  same _ kept _ := ⟨loose.inv _, loose.step kept⟩
  code := loose.code

theorem laws (loose : D.Loose) (host : Host) : D.Laws host := by
  refine loose.shallow.laws (fun _ _ => loose.spot _ _) (loose.spot _ _)
    (loose.spot _ _) fun _ assigned => ?_
  obtain ⟨_, _, types, _⟩ := Machine.control_of_setVariable assigned
  exact ⟨loose.inv _, loose.step fun {_ _} found => by rwa [types]⟩

theorem entry (loose : D.Loose) {left right : Evaluator} (hooks : D.Hooks left right)
    (scoping : D.Scoping) {caller parked : Machine} {overload : Overload} {args : List Arg}
    (done : caller.park = .ok parked) : Entry D D left right caller parked overload args where
  nested := .refl D
  hooks := hooks
  draining := scoping.toDraining
  entered := loose.inv _
  code := loose.code _ _
  defaults _ _ _ _ := loose.known _
  values _ _ := loose.val _
  bindLocal _ _ := ⟨loose.inv _, loose.step id⟩
  bindPlace _ _ _ := ⟨loose.inv _, loose.step id⟩
  left {final} _ step := by
    obtain ⟨_, _, types, _⟩ := Machine.control_of_park done
    obtain ⟨_, _, unparked⟩ := final.unpark_eq
    have begun : D.Step caller (parked.entering overload) := loose.step fun {_ _} found => by
      show parked.types.get? _ = _
      rwa [types]
    have ended : D.Step final (final.leaving parked.activation) := loose.step fun {_ _} found => by
      unfold Machine.leaving
      rwa [unparked]
    exact ⟨loose.inv _, D.step_trans begun (D.step_trans step ended)⟩

theorem hooks (loose : D.Loose) (scoping : D.Scoping)
    {leftObserve rightObserve : Moment → Exec Unit} {settings : Settings} {host : Host}
    (observers : ∀ bound, D.Observers (observedEvaluator leftObserve settings host bound)
        (observedEvaluator rightObserve settings host bound))
    (placed : ∀ {m block place loops}, D.Sound m Free (leftObserve (.place block place loops))
        (rightObserve (.place block place loops)))
    (stated : ∀ {m stmt bound}, (observedEvaluator leftObserve settings host bound).WithinBudget m →
      D.Sound m Free (leftObserve (.statement stmt)) (rightObserve (.statement stmt)))
    (bound : Nat) :
    D.Hooks (observedEvaluator leftObserve settings host bound)
      (observedEvaluator rightObserve settings host bound) := by
  induction bound with
  | zero => exact .zero (loose.laws host)
  | succ bound hooks =>
    have respects : D.Respects (observedEvaluator leftObserve settings host bound)
        (observedEvaluator rightObserve settings host bound) :=
      .of hooks scoping.toSteady (observers bound) fun _ _ _ done =>
        ⟨D, loose.entry hooks scoping done⟩
    refine .succ respects fun inv code => respects.execBlock (loose.cause rfl rfl)
      (.of_all loose.code loose.known) (fun _ _ => ?_) (fun _ _ within => ?_) inv code
    · simp only [observedEvaluator_observe]
      exact placed
    · simp only [observedEvaluator_observe]
      exact stated within

end Loose

end Discipline

end MicroBasic
