import MicroBasic.Proofs.Concord.Observed
import MicroBasic.Proofs.Runs

/-!
# Arguments of declared functions and of the host's

Arguments for declared functions are evaluated with their places: the forms that have one are taken
apart, and their parts evaluated, where the evaluator would have been asked for the whole. The
values, the errors and their places, and everything else that happens, are the same as for the
host's functions, which are given values only. The bound on nesting does not tell the two apart
either, except that what is taken apart is nested one level less.

A place that was found for an argument has the value of the argument, as long as nothing else is
evaluated.
-/

namespace MicroBasic

namespace Exec

variable {α β : Type}

/-- A work that does not run out of fuel ends as another one does. -/
def Reaches (work other : Exec α) : Prop :=
  ∀ m, (∃ final, work m = .error (.awaiting .fuel) final) ∨ other m = work m

namespace Reaches

theorem refl (work : Exec α) : Reaches work work :=
  fun _ => .inr rfl

theorem bind {first other : Exec α} {rest onward : α → Exec β} (begun : Reaches first other)
    (later : ∀ value, Reaches (rest value) (onward value)) :
    Reaches (first >>= rest) (other >>= onward) := by
  intro m
  simp only [Bind.bind, EStateM.bind]
  rcases begun m with ⟨final, fuel⟩ | same
  · rw [fuel]
    exact .inl ⟨final, rfl⟩
  · rw [same]
    cases first m with
    | ok value next => exact later value next
    | error escape next => exact .inr rfl

theorem ended {γ : Type} {work other : Exec γ} {m : Machine} (reaches : Reaches work other)
    (ended : ∀ final, work m ≠ .error (.awaiting .fuel) final) : other m = work m := by
  rcases reaches m with ⟨final, fuel⟩ | same
  · exact absurd fuel (ended final)
  · exact same

end Reaches

theorem map_placed (token : Token) (change : α → β) (work : Exec α) :
    change <$> placed token work = placed token (change <$> work) := by
  funext m
  simp only [Functor.map, EStateM.map, placed]
  cases work m using byEnd <;> rfl

theorem placed_placed (token : Token) (work : Exec α) :
    placed token (placed token work) = placed token work := by
  funext m
  simp only [placed]
  cases work m using byEnd with
  | error error final => obtain ⟨_, _ | _⟩ := error <;> rfl
  | _ => rfl

theorem of_placed {token : Token} {work : Exec α} {m final : Machine} {value : α}
    (done : placed token work m = .ok value final) : work m = .ok value final := by
  unfold placed at done
  split at done
  · cases done
  · exact done

end Exec

namespace Evaluator

variable {self : Evaluator} {settings : Settings} {host : Host} {bound : Nat} {m : Machine}

/-- The values of expressions, each taken as one function says, and the parts of spread values as
another one does. -/
def gather (nested each : Expr → Exec Value) : List Expr → Exec (List Value)
  | [] => return []
  | .spread token inner :: rest => do
    let value ← nested inner
    let parts ← Exec.placed token (partsOf value)
    return parts ++ (← gather nested each rest)
  | item :: rest => do
    let value ← each item
    return value :: (← gather nested each rest)

theorem gather_cons {item : Expr} {nested each : Expr → Exec Value} {rest : List Expr}
    (plain : ∀ token inner, item ≠ .spread token inner) : gather nested each (item :: rest) = do
      let value ← each item return value :: (← gather nested each rest) := by
  cases item <;> first | rfl | exact absurd rfl (plain _ _)

theorem gather_reaches {nested each others otherEach : Expr → Exec Value}
    (inner : ∀ expr, (nested expr).Reaches (others expr))
    (own : ∀ expr, (each expr).Reaches (otherEach expr)) (exprs : List Expr) :
    (gather nested each exprs).Reaches (gather others otherEach exprs) := by
  induction exprs with
  | nil => exact .refl _
  | cons item rest ih =>
    rcases item.spread_or with ⟨token, expr, rfl⟩ | plain
    · exact (inner expr).bind fun value => (Exec.Reaches.refl _).bind fun parts =>
        ih.bind fun values => .refl _
    · rw [gather_cons plain, gather_cons plain]
      exact (own item).bind fun value => ih.bind fun values => .refl _

theorem values_eq_gather (exprs : List Expr) :
    self.values exprs = gather self.eval self.eval exprs := by
  induction exprs with
  | nil => rfl
  | cons item rest ih => cases item <;> simp only [values, gather, ih]

/-- The value of an argument that is evaluated with its place. -/
def argValue (self : Evaluator) (item : Expr) : Exec Value :=
  Arg.value <$> Exec.placed item.token (self.arg item)

theorem args_eq_gather (exprs : List Expr) :
    List.map Arg.value <$> self.args exprs = gather self.eval self.argValue exprs := by
  induction exprs with
  | nil => rfl
  | cons item rest ih =>
    rcases item.spread_or with ⟨token, expr, rfl⟩ | plain
    · rw [args, gather, ← ih]
      have bare (parts : List Value) : (parts.map Arg.ofValue).map Arg.value = parts := by
        simp [Function.comp_def, Arg.ofValue]
      simp [bare]
    · rw [args_cons self plain, gather_cons plain, ← ih]
      simp [argValue]

theorem value_fieldArg (object : Value) (name : String) :
    Arg.value <$> self.fieldArg object name = self.memberValue object name := by
  funext m
  rw [fieldArg, map_bind, Exec.heap_bind]
  cases found : fieldArg? m.heap object name with
  | none => simp [Arg.ofValue]
  | some arg =>
    cases object with
    | record ref =>
      obtain ⟨field, held, rfl⟩ := Option.map_eq_some_iff.mp found
      have member : self.memberOf (.record ref) name m = .ok (.field field.2) m := by
        change Exec.ofExcept (Lookup.member _ (.record ref) name) m = _
        rw [Lookup.member, Record.get?, held]
        rfl
      rw [memberValue, Exec.bind_of_ok member]
      rfl
    | _ => cases found

theorem asIndex_of_indexed {heap : Heap} {ref : ArrayRef} {index value : Value}
    (found : Value.indexed heap (.array ref) index = .ok value) :
    ∃ place, index.asIndex heap (heap.items ref).size = .ok place ∧
      (heap.items ref)[place]? = some value := by
  obtain ⟨place, counted, found⟩ := Results.of_bind found
  refine ⟨place, counted, ?_⟩
  split at found
  · next held =>
    cases found
    exact held
  · cases found

theorem value_elementArg (object index : Value) :
    Arg.value <$> elementArg object index =
      Exec.ask (fun m => Value.indexed m.heap object index) := by
  funext m
  rw [elementArg, map_bind, Exec.heap_bind]
  change _ = Exec.ofExcept (Value.indexed m.heap object index) m
  cases found : Value.indexed m.heap object index with
  | error fault => rfl
  | ok value =>
    cases object with
    | array ref =>
      obtain ⟨place, counted, _⟩ := asIndex_of_indexed found
      simp only [counted]
      rfl
    | _ => rfl

theorem value_arg_call {token nameToken : Token} {name : String} {index : Expr} :
    (Arg.value <$> self.arg (.call token (.name nameToken name) [index])) m =
        self.eval (.call token (.name nameToken name) [index]) m ∨
      (Arg.value <$> self.arg (.call token (.name nameToken name) [index])) m =
        self.expression (.call token (.name nameToken name) [index]) m := by
  have asked {β : Type} (rest : Option Value → Exec β) :
      (Exec.ask (fun m => m.readVariable name) >>= rest) m =
          (Exec.ofExcept (m.readVariable name) >>= rest) m := rfl
  have whole : Arg.value <$>
    (do return Arg.ofValue (← self.eval (.call token (.name nameToken name) [index]))) =
      self.eval (.call token (.name nameToken name) [index]) := by
    simp [Arg.ofValue]
  rw [arg, expression, call, callName, asked, map_bind]
  simp only [arrayVariable?, bind_assoc]
  rw [asked]
  cases m.readVariable name with
  | error fault => exact .inr rfl
  | ok found =>
    cases found with
    | none => exact .inl (congrFun whole m)
    | some value =>
      cases value with
      | array ref =>
        right
        change (Arg.value <$> (self.eval index >>= elementArg (.array ref))) m =
          (self.eval index >>=
            fun index => Exec.ask (fun m => Value.indexed m.heap (.array ref) index)) m
        simp only [map_bind, value_elementArg]
      | _ => exact .inl (congrFun whole m)

/-- An argument is evaluated as a whole, or taken apart like the expression that it is. -/
theorem value_arg (item : Expr) (m : Machine) : (Arg.value <$> self.arg item) m = self.eval item m ∨
      (Arg.value <$> self.arg item) m = self.expression item m := by
  cases item with
  | name token name =>
    left
    simp only [arg, map_bind, map_pure, bind_pure]
    rfl
  | member | withField =>
    right
    simp only [arg, expression, map_bind, value_fieldArg]
  | index =>
    right
    simp only [arg, expression, map_bind, value_elementArg]
  | call token callee args =>
    cases args with
    | nil => exact .inl (by simp [arg, Arg.ofValue])
    | cons index more =>
      cases more with
      | cons => exact .inl (by simp [arg, Arg.ofValue])
      | nil =>
        cases callee with
        | name => exact value_arg_call
        | _ => exact .inl (by simp [arg, Arg.ofValue, arrayVariable?])
  | _ => exact .inl (by simp [arg, Arg.ofValue])

/-- A larger bound does not change what is not out of fuel. -/
theorem eval_reaches (expr : Expr) :
    ((evaluator settings host bound).eval expr).Reaches
      ((evaluator settings host (bound + 1)).eval expr) := by
  intro m
  let bounds : Bool → Nat
    | false => bound
    | true => bound + 1
  have counting : Counting .never (fun _ _ => return)
      (fun _ => settings) host settings.maxCallDepth (fun _ => True) :=
    .alike (fun _ _ => trivial) (fun _ _ _ => trivial) fun _ _ => rfl
  have kept : (paired .never).Keeps m (fun i => (evaluator settings host (bounds i)).eval expr) :=
    (@Counting.hooks _ _ _ _ _ _ bounds counting (Nat.le_succ bound)).eval trivial trivial
  rcases kept.compared with fuel | ⟨same, _⟩ | ⟨i, met, stopped, _⟩
  · exact .inl fuel
  · exact .inr same.symm
  · have ends := kept.ends i
    rw [stopped] at ends
    cases ends with
    | stopped never => exact never.elim

theorem placed_eval (expr : Expr) :
    Exec.placed expr.token ((evaluator settings host bound).eval expr) =
      (evaluator settings host bound).eval expr := by
  cases bound with
  | zero => rfl
  | succ bound => exact Exec.placed_placed _ _

theorem evalExpr_eq (expr : Expr) : (evaluator settings host (bound + 1)).eval expr =
      Exec.placed expr.token ((evaluator settings host bound).expression expr) := by
  change Exec.placed expr.token _ = _
  congr 1
  funext m
  exact Exec.bind_of_ok Discipline.evaluator_observe

/-- An argument with its place has the value that the expression has within a bound, or within the
next one. -/
theorem argValue_eq (item : Expr) (m : Machine) :
    (evaluator settings host bound).argValue item m = (evaluator settings host bound).eval item m ∨
      (evaluator settings host bound).argValue item m =
        (evaluator settings host (bound + 1)).eval item m := by
  have alike {work other : Exec Value} (same : work m = other m) :
      Exec.placed item.token work m = Exec.placed item.token other m := by
    simp only [Exec.placed, same]
  rw [argValue, Exec.map_placed, evalExpr_eq, ← placed_eval]
  exact (value_arg item m).imp alike alike

theorem eval_reaches_argValue (item : Expr) :
    ((evaluator settings host bound).eval item).Reaches
      ((evaluator settings host bound).argValue item) := by
  intro m
  rcases argValue_eq item m with same | same
  · exact .inr same
  · rw [same]
    exact eval_reaches item m

theorem argValue_reaches_eval (item : Expr) :
    ((evaluator settings host bound).argValue item).Reaches
      ((evaluator settings host (bound + 1)).eval item) := by
  intro m
  rcases argValue_eq item m with same | same
  · rw [same]
    exact eval_reaches item m
  · exact .inr same.symm

end Evaluator

/-- Once the current scope is parked, the place of an argument is found to have its value. -/
def Arg.Stands (arg : Arg) (m : Machine) : Prop :=
  ∀ place parked, arg.place = some place → m.park = .ok parked →
    parked.readPlace place = .ok arg.value

theorem Arg.Stands.ofValue (value : Value) (m : Machine) : (Arg.ofValue value).Stands m :=
  nofun

theorem Record.field?_own {name : String} {field : String × Value} {record : Record}
    (held : record.field? name = some field) : record.field? field.1 = some field := by
  unfold field? at held ⊢
  have named := List.find?_some held
  have same : Text.foldName field.1 = Text.foldName name := beq_iff_eq.mp named
  simp only [Text.sameName] at held ⊢
  rw [same]
  exact held

namespace Machine

variable {m parked : Machine} {name : String} {place : Place} {value : Value}

theorem readPlace_park (done : m.park = .ok parked) (read : m.readPlace place = .ok value) :
    parked.readPlace place = .ok value := by
  obtain ⟨vars, _, done⟩ := Results.of_bind done
  cases done
  cases place with
  | field | element => exact read
  | slot frame key =>
    simp only [readPlace] at read ⊢
    cases held : m.parked[frame]? with
    | none =>
      rw [held] at read
      cases read
    | some scope =>
      obtain ⟨inside, _⟩ := List.getElem?_eq_some_iff.mp held
      rw [List.getElem?_append_left inside, held]
      rw [held] at read
      exact read

/-- The place of a variable has its value. -/
theorem readPlace_of_readVariable (done : m.park = .ok parked)
    (found : m.placeOf? name = some place) (read : m.readVariable name = .ok (some value)) :
    parked.readPlace place = .ok value := by
  unfold placeOf? at found
  unfold readVariable at read
  dsimp only at found read
  cases stands : m.scope.places.get? (Text.stripSuffix name) with
  | some other =>
    rw [stands] at found read
    dsimp only at read
    cases found
    refine readPlace_park done ?_
    cases held : m.readPlace place with
    | error fault =>
      rw [held] at read
      cases read
    | ok other =>
      rw [held] at read
      cases read
      rfl
  | none =>
    rw [stands] at found read
    dsimp only at found
    split at found
    · cases found
      obtain ⟨vars, _, done⟩ := Results.of_bind done
      cases done
      have held : m.scope.vars.get? (Text.stripSuffix name) = some value := Except.ok.inj read
      simp [readPlace, held]
      rfl
    · cases found

theorem readVariable_of_placeOf? (found : m.placeOf? name = some place) :
    m.readVariable name ≠ .ok none := by
  intro read
  unfold placeOf? at found
  unfold readVariable at read
  dsimp only at found read
  split at found
  · next other stands =>
    rw [stands] at read
    dsimp only at read
    cases held : m.readPlace other with
    | error fault =>
      rw [held] at read
      cases read
    | ok value =>
      rw [held] at read
      cases read
  · next stands =>
    rw [stands] at read
    split at found
    · next contains =>
      rw [Table.contains, Except.ok.inj read] at contains
      cases contains
    · cases found

end Machine

namespace Evaluator

variable {self : Evaluator} {settings : Settings} {host : Host} {bound : Nat} {m final : Machine}
    {arg : Arg}

theorem stands_fieldArg {object : Value} {name : String}
    (done : self.fieldArg object name m = .ok arg final) : arg.Stands final := by
  rw [fieldArg, Exec.heap_bind] at done
  cases found : fieldArg? m.heap object name with
  | none =>
    rw [found] at done
    obtain ⟨value, next, _, done⟩ := Exec.of_bind done
    cases done
    exact .ofValue _ _
  | some own =>
    rw [found] at done
    cases done
    cases object with
    | record ref =>
      obtain ⟨field, held, rfl⟩ := Option.map_eq_some_iff.mp found
      rintro _ parked ⟨⟩ done
      refine Machine.readPlace_park done ?_
      rw [Machine.readPlace, Record.get?, Record.field?_own held]
      rfl
    | _ => cases found

theorem stands_elementArg {object index : Value}
    (done : elementArg object index m = .ok arg final) : arg.Stands final := by
  obtain ⟨value, next, found, done⟩ :=
    @Exec.of_bind _ m _ (Exec.ofExcept (Value.indexed m.heap object index)) _ _ _ done
  cases read : Value.indexed m.heap object index with
  | error fault =>
    rw [read] at found
    cases found
  | ok own =>
    rw [read] at found
    cases found
    cases object with
    | array ref =>
      obtain ⟨place, counted, held⟩ := asIndex_of_indexed read
      dsimp only at done
      rw [counted] at done
      cases done
      rintro _ parked ⟨⟩ done
      refine Machine.readPlace_park done ?_
      simp only [Machine.readPlace, held]
      rfl
    | _ =>
      cases done
      exact .ofValue _ _

theorem readVariable_of_eval {name : String} {place : Place} {token : Token} {value : Value}
    (found : m.placeOf? name = some place)
    (done : (evaluator settings host bound).eval (.name token name) m = .ok value final) :
    final = m ∧ m.readVariable name = .ok (some value) := by
  cases bound with
  | zero => cases done
  | succ bound =>
    rw [evalExpr_eq] at done
    have looked := Exec.of_placed done
    change (Exec.ofExcept (m.readVariable name) >>= _) m = _ at looked
    cases read : m.readVariable name with
    | error fault =>
      rw [read] at looked
      cases looked
    | ok held =>
      cases held with
      | none => exact absurd read (Machine.readVariable_of_placeOf? found)
      | some own =>
        rw [read] at looked
        cases looked
        exact ⟨rfl, rfl⟩

/-- The place that was found for an argument has its value when the argument has been evaluated. -/
theorem stands_arg {item : Expr}
    (done : (evaluator settings host bound).arg item m = .ok arg final) : arg.Stands final := by
  have whole {work : Exec Value} {m : Machine}
      (done : (do return Arg.ofValue (← work) : Exec Arg) m = .ok arg final) :
      arg.Stands final := by
    obtain ⟨value, next, _, done⟩ := Exec.of_bind done
    cases done
    exact .ofValue _ _
  cases item with
  | name token name =>
    obtain ⟨_, _, got, done⟩ := Exec.of_bind done
    cases got
    obtain ⟨value, next, read, done⟩ := Exec.of_bind done
    cases done
    intro place parked found taken
    obtain ⟨rfl, read⟩ := readVariable_of_eval found read
    exact Machine.readPlace_of_readVariable taken found read
  | member =>
    obtain ⟨object, next, _, done⟩ := Exec.of_bind done
    exact stands_fieldArg done
  | withField =>
    obtain ⟨object, next, _, done⟩ := Exec.of_bind done
    exact stands_fieldArg done
  | index =>
    obtain ⟨object, next, _, done⟩ := Exec.of_bind done
    obtain ⟨index, next, _, done⟩ := Exec.of_bind done
    exact stands_elementArg done
  | call token callee args =>
    cases args with
    | nil => exact whole done
    | cons index more =>
      cases more with
      | cons => exact whole done
      | nil =>
        obtain ⟨array, next, _, done⟩ := Exec.of_bind done
        cases array with
        | none => exact whole done
        | some object =>
          obtain ⟨index, next, _, done⟩ := Exec.of_bind done
          exact stands_elementArg done
  | _ => exact whole done

theorem args_append (front rest : List Expr) :
    self.args (front ++ rest) = (do return (← self.args front) ++ (← self.args rest)) := by
  induction front with
  | nil => simp [args]
  | cons item front ih =>
    rw [List.cons_append]
    rcases item.spread_or with ⟨token, inner, rfl⟩ | plain
    · simp only [args, ih, bind_assoc, pure_bind, List.append_assoc]
    · rw [args_cons self plain, args_cons self plain, ih]
      simp

theorem stands_args {item : Expr} {args : List Arg}
    (done : (evaluator settings host bound).args [item] m = .ok args final) :
    ∀ arg ∈ args, arg.Stands final := by
  rcases item.spread_or with ⟨token, inner, rfl⟩ | plain
  · obtain ⟨value, next, _, done⟩ := Exec.of_bind done
    obtain ⟨parts, next, _, done⟩ := Exec.of_bind done
    cases done
    rw [List.append_nil, List.forall_mem_map]
    exact fun part _ => .ofValue part _
  · rw [args_cons _ plain] at done
    obtain ⟨arg, next, taken, done⟩ := Exec.of_bind done
    cases done
    rw [List.forall_mem_singleton]
    exact stands_arg (Exec.of_placed taken)

end Evaluator

/-- Arguments are evaluated alike with and without their places, to the same values or the same
error and with the same effects. What ends within a bound without places ends so with them, and what
ends with places ends so without them within the next bound. The places of the last argument have
its value when a call begins. -/
theorem arguments_evaluate_alike (settings : Settings) (host : Host) (exprs : List Expr)
    (m : Machine) (bound : Nat) :
    ((∀ final, (evaluator settings host bound).values exprs m ≠ .error (.awaiting .fuel) final) →
      (List.map Arg.value <$> (evaluator settings host bound).args exprs) m =
        (evaluator settings host bound).values exprs m) ∧
    ((∀ final, (evaluator settings host bound).args exprs m ≠ .error (.awaiting .fuel) final) →
      (evaluator settings host (bound + 1)).values exprs m =
        (List.map Arg.value <$> (evaluator settings host bound).args exprs) m) ∧
    ∀ {front : List Expr} {item : Expr} {args : List Arg} {final : Machine}, exprs =
      front ++ [item] → (evaluator settings host bound).args exprs m = .ok args final →
      ∃ given own next, args = given ++ own ∧
        (evaluator settings host bound).args front m = .ok given next ∧
        (evaluator settings host bound).args [item] next = .ok own final ∧
          ∀ arg ∈ own, arg.Stands final := by
  refine ⟨fun ended => ?_, fun ended => ?_, fun last done => ?_⟩
  · rw [Evaluator.values_eq_gather] at ended ⊢
    rw [Evaluator.args_eq_gather]
    exact (Evaluator.gather_reaches (fun _ => .refl _) Evaluator.eval_reaches_argValue exprs).ended
      ended
  · have ended : ∀ final, (List.map Arg.value <$> (evaluator settings host bound).args exprs) m ≠
        .error (.awaiting .fuel) final := by
      intro final fuel
      cases done : (evaluator settings host bound).args exprs m with
      | ok args last => simp [Functor.map, EStateM.map, done] at fuel
      | error escape last =>
        simp only [Functor.map, EStateM.map, done, EStateM.Result.error.injEq] at fuel
        exact ended last (done.trans (by rw [fuel.1]))
    rw [Evaluator.values_eq_gather]
    rw [Evaluator.args_eq_gather] at ended ⊢
    exact (Evaluator.gather_reaches Evaluator.eval_reaches Evaluator.argValue_reaches_eval
      exprs).ended ended
  · rw [last, Evaluator.args_append] at done
    obtain ⟨given, next, first, done⟩ := Exec.of_bind done
    obtain ⟨own, next, later, done⟩ := Exec.of_bind done
    cases done
    exact ⟨given, own, _, rfl, first, later, Evaluator.stands_args later⟩

/-- A machine with a record that a `WITH` block is about. -/
def recordMachine : Machine :=
  { (Interpreter.new .empty {} .still).machine with
    heap := (Heap.empty.newRecord { typeName := objectType, fields := [("note", .text "even")] }).2
    activation := { Activation.initial with targets := [.record ⟨0⟩] } }

/-- A text and a field of the value that a `WITH` block is about. -/
def noteArguments : List Expr :=
  let token : Token := ⟨.newline, "", ⟨0, 0⟩, ⟨1, 1⟩⟩
  [.text token "size"] ++ [.withField token "NOTE"]

theorem note_arguments_evaluate_alike :
    (List.map Arg.value <$> (evaluator {} .empty 3).args noteArguments) recordMachine =
        .ok [.text "size", .text "even"] recordMachine ∧
      (evaluator {} .empty 4).values noteArguments recordMachine =
        .ok [.text "size", .text "even"] recordMachine ∧
      (Arg.mk (.text "even") (some (.field ⟨0⟩ "note"))).Stands recordMachine := by
  have values : (evaluator {} .empty 3).values noteArguments recordMachine =
      .ok [.text "size", .text "even"] recordMachine := rfl
  have args : (evaluator {} .empty 3).args noteArguments recordMachine =
      .ok [⟨.text "size", none⟩, ⟨.text "even", some (.field ⟨0⟩ "note")⟩] recordMachine := rfl
  obtain ⟨placed, bare, stands⟩ := arguments_evaluate_alike {} .empty noteArguments recordMachine 3
  have placed := placed (by rw [values]; nofun)
  have bare := bare (by rw [args]; nofun)
  obtain ⟨given, own, next, split, first, last, stands⟩ := stands rfl args
  cases first
  cases last
  exact ⟨placed.trans values, bare.trans (placed.trans values),
    stands _ (List.mem_singleton_self _)⟩

end MicroBasic
