import MicroBasic.Proofs.Arguments
import MicroBasic.Proofs.Records
import MicroBasic.Proofs.Typing

/-!
# Two ways to say the same

A call of a member does what taking the member as a value and calling that value does. Only the
words differ in which a group of the host's functions is said not to be callable.

Parts of a value that are spread into a list may be written out one by one: the elements of an array
by their indices, the fields of a record by their names. The names come from the declaration of the
record, or from the record itself if it has none, and every one of them has a field at any moment of
a session.
-/

namespace MicroBasic

/-- Two results are the same, or tell in different words that something cannot be called. -/
inductive Exec.SameButWording {α : Type} :
    EStateM.Result Escape Machine α → EStateM.Result Escape Machine α → Prop
  | same {result : EStateM.Result Escape Machine α} : SameButWording result result
  | notCallable {what other : String} {m : Machine} :
    SameButWording (Exec.fail (.notCallable what) m) (Exec.fail (.notCallable other) m)

/-- A member is called as its value is. -/
theorem Evaluator.method_calls_take_values (self : Evaluator) (receiver : Value) (name : String)
    (exprs : List Expr) (m : Machine) :
    Exec.SameButWording (self.callMember receiver name exprs m)
      ((do let callee ← self.memberValue receiver name; self.callValue callee exprs) m) := by
  unfold callMember memberValue
  rw [bind_assoc]
  cases found : self.memberOf receiver name m with
  | error escape next =>
    simp only [Bind.bind, EStateM.bind, found]
    exact .same
  | ok member next =>
    rw [Exec.bind_of_ok found, Exec.bind_of_ok found]
    match member with
    | .field value => exact .same
    | .property getter => exact .same
    | .method overload => exact .same
    | .hosted (.function ref) true => exact .same
    | .hosted (.function ref) false => exact .same
    | .hosted (.group ref) true => exact .notCallable
    | .hosted (.group ref) false => exact .notCallable
    | .missing suggestion => exact .same

/-- A declaration of a record type stands somewhere in a program. -/
def TypeDecl.IsWritten (decl : TypeDecl) : Prop :=
  ∃ (program : Program) (block : Block) (stmt : Stmt),
    program.IsParsed ∧ block.Within program.statements ∧ stmt ∈ block ∧ stmt.kind = .type decl

theorem TypeDecl.IsWritten.spreadOrder {decl : TypeDecl} (written : decl.IsWritten) :
    decl.spreadOrder ⊆ decl.fields.map FieldDecl.name := by
  obtain ⟨program, block, stmt, parsed, within, own, declares⟩ := written
  have orderly := parsed.orderly within own
  rw [declares] at orderly
  unfold TypeDecl.spreadOrder
  cases named : decl.spread with
  | none => exact List.Subset.refl _
  | some names =>
    have known := orderly.2
    rwa [named] at known

/-- Literals, variables, and spread variables. -/
inductive Expr.IsPlain : Expr → Prop
  | number (token : Token) (value : Float) : IsPlain (.number token value)
  | text (token : Token) (value : String) : IsPlain (.text token value)
  | name (token : Token) (name : String) : IsPlain (.name token name)
  | spread (token nameToken : Token) (name : String) :
    IsPlain (.spread token (.name nameToken name))

/-- An expression names a field of a variable. -/
inductive Expr.NamesField (name : String) : String → Expr → Prop
  | member (token nameToken : Token) (field : String) :
    NamesField name field (.member token (.name nameToken name) field)

theorem Expr.NamesField.plain {name field : String} {part : Expr}
    (names : part.NamesField name field) : ∀ token inner, part ≠ .spread token inner := by
  cases names
  nofun

/-- An expression names an element of a variable by a literal. -/
inductive Expr.NamesElement (name : String) : Nat → Expr → Prop
  | index (token nameToken numberToken : Token) {place : Nat} {value : Float}
    (counts : Decimal.natural? value = some place) :
    NamesElement name place (.index token (.name nameToken name) (.number numberToken value))

theorem Expr.NamesElement.plain {place : Nat} {name : String} {part : Expr}
    (names : part.NamesElement name place) :
    ∀ token inner, part ≠ .spread token inner := by
  cases names
  nofun

/-- Expressions that say what an item of a list does: the item itself, or the parts of a variable
that it spreads. -/
inductive Machine.WritesOut (m : Machine) : Expr → List Expr → Prop
  | kept {item : Expr} (plain : item.IsPlain) : WritesOut m item [item]
  | array {token nameToken : Token} {name : String} {ref : ArrayRef} {parts : List Expr}
    (holds : m.readVariable name = .ok (some (.array ref)))
    (parts_name : List.Forall₂ (Expr.NamesElement name)
      (List.range (m.heap.items ref).size) parts) :
    WritesOut m (.spread token (.name nameToken name)) parts
  /-- A record that was made as one of a declared type. -/
  | typed {token nameToken : Token} {name : String} {ref : RecordRef} {record : Record}
    {decl : TypeDecl} {parts : List Expr} (holds : m.readVariable name = .ok (some (.record ref)))
    (held : m.heap.record? ref = some record) (declared : record.declared = some decl)
    (written : decl.IsWritten)
    (parts_name : List.Forall₂ (Expr.NamesField name) decl.spreadOrder parts) :
    WritesOut m (.spread token (.name nameToken name)) parts
  | object {token nameToken : Token} {name : String} {ref : RecordRef} {parts : List Expr}
    (holds : m.readVariable name = .ok (some (.record ref)))
    (object : (m.heap.record ref).isObject = true)
    (undeclared : m.types.get? objectType = none)
    (parts_name : List.Forall₂ (Expr.NamesField name)
      ((m.heap.record ref).fields.map Prod.fst) parts) :
    WritesOut m (.spread token (.name nameToken name)) parts

/-- Work that only looks at a machine: it gives a value or fails. -/
def Exec.Looks {α : Type} (work : Exec α) (m : Machine) : Prop :=
  (∃ value, work m = .ok value m) ∨ ∃ error, work m = .error (.broken (.error error)) m

namespace Exec.Looks

variable {α β : Type} {work : Exec α} {m : Machine}

theorem ofExcept (result : Except Fault α) : (Exec.ofExcept result).Looks m := by
  cases result with
  | ok value => exact .inl ⟨value, rfl⟩
  | error fault => exact .inr ⟨_, rfl⟩

theorem placed {token : Token} (looks : work.Looks m) : (Exec.placed token work).Looks m := by
  unfold Looks Exec.placed
  rcases looks with ⟨value, done⟩ | ⟨error, failed⟩
  · rw [done]
    exact .inl ⟨value, rfl⟩
  · rw [failed]
    exact .inr ⟨_, rfl⟩

theorem bind {rest : α → Exec β} (looks : work.Looks m) (later : ∀ value, (rest value).Looks m) :
    (work >>= rest).Looks m := by
  rcases looks with ⟨value, done⟩ | ⟨error, failed⟩
  · rw [Looks, Exec.bind_of_ok done]
    exact later value
  · exact .inr ⟨error, by simp only [Bind.bind, EStateM.bind, failed]⟩

theorem unstarved (looks : work.Looks m) (final : Machine) :
    work m ≠ .error (.awaiting .fuel) final := by
  rcases looks with ⟨value, done⟩ | ⟨error, failed⟩
  · simp [done]
  · simp [failed]

end Exec.Looks

namespace Evaluator

variable {self : Evaluator} {settings : Settings} {host : Host} {bound : Nat} {m : Machine}
  {nested each : Expr → Exec Value}

theorem looks_lookup (name : String) : (self.lookup name).Looks m := by
  refine (Exec.Looks.ofExcept (m.readVariable name)).bind fun value => ?_
  cases value with
  | some value => exact .inl ⟨value, rfl⟩
  | none =>
    simp only [Exec.Looks, Exec.get_bind]
    cases m.functions.get? name with
    | some set => exact .inl ⟨_, rfl⟩
    | none =>
      cases self.host.entry? name with
      | some entry => exact .inl ⟨_, rfl⟩
      | none => exact .inr ⟨_, rfl⟩

theorem gather_append (first second : List Expr) :
    gather nested each (first ++ second) = do
      let values ← gather nested each first
      let others ← gather nested each second
      return values ++ others := by
  induction first with
  | nil => simp [gather]
  | cons item rest ih =>
    rcases item.spread_or with ⟨token, expr, rfl⟩ | plain
    · simp only [List.cons_append, gather, ih, bind_assoc, pure_bind, List.append_assoc]
    · simp only [List.cons_append, gather_cons plain, ih, bind_assoc, pure_bind]

theorem looks_literal {item : Expr} (plain : item.IsPlain)
    (own : ∀ token inner, item ≠ .spread token inner) :
    ((evaluator settings host (bound + 1)).eval item).Looks m := by
  rw [evalExpr_eq]
  apply Exec.Looks.placed
  cases plain with
  | number token value | text token value => exact .inl ⟨_, rfl⟩
  | name token name => exact looks_lookup name
  | spread token nameToken name => exact absurd rfl (own _ _)

variable {value : Value} {name : String}

theorem eval_of_expression {item : Expr}
    (done : (evaluator settings host bound).expression item m = .ok value m) :
    (evaluator settings host (bound + 1)).eval item m = .ok value m := by
  rw [evalExpr_eq, Exec.placed, done]

theorem eval_name {token : Token} (holds : m.readVariable name = .ok (some value)) :
    (evaluator settings host (bound + 1)).eval (.name token name) m = .ok value m := by
  apply eval_of_expression
  have asked : Exec.ask (fun machine => machine.readVariable name) m = .ok (some value) m := by
    change Exec.ofExcept (m.readVariable name) m = _
    rw [holds]
    rfl
  rw [expression, lookup, Exec.bind_of_ok asked]
  rfl

theorem eval_field {ref : RecordRef} {field : String} {part : Expr}
    (holds : m.readVariable name = .ok (some (.record ref))) (names : part.NamesField name field)
    (held : (m.heap.record ref).get? field = some value) :
    (evaluator settings host (bound + 2)).eval part m = .ok value m := by
  cases names with
  | member token nameToken =>
    apply eval_of_expression
    have found : (evaluator settings host (bound + 1)).memberOf (.record ref) field m =
        .ok (.field value) m := by
      change Exec.ofExcept (Lookup.member _ (.record ref) field) m = _
      rw [Lookup.member, held]
      rfl
    rw [expression, Exec.bind_of_ok (eval_name holds), memberValue, Exec.bind_of_ok found]
    rfl

theorem eval_element {ref : ArrayRef} {place : Nat} {part : Expr}
    (holds : m.readVariable name = .ok (some (.array ref))) (names : part.NamesElement name place)
    (held : (m.heap.items ref)[place]? = some value) :
    (evaluator settings host (bound + 2)).eval part m = .ok value m := by
  cases names with
  | @index token nameToken numberToken _ index counts =>
    have counted : Value.asIndex m.heap (.number index) (m.heap.items ref).size = .ok place := by
      have inside : place < (m.heap.items ref).size := (Array.getElem?_eq_some_iff.mp held).1
      simp only [Value.asIndex, Value.asNumber, Pure.pure, Except.pure, Bind.bind,
        Except.bind, counts]
      exact if_pos inside
    have found := Value.indexed_of_asIndex counted held
    have literal : (evaluator settings host (bound + 1)).eval (.number numberToken index) m =
        .ok (.number index) m :=
      eval_of_expression rfl
    apply eval_of_expression
    rw [expression, Exec.bind_of_ok (eval_name holds), Exec.bind_of_ok literal]
    change Exec.ofExcept (Value.indexed m.heap (.array ref) (.number index)) m = _
    rw [found]
    rfl

/-- Elements or fields are named one by one by expressions that have their values. -/
def NamesParts (self : Evaluator) (m : Machine) (parts : List Expr) (values : List Value) : Prop :=
  List.Forall₂
    (fun part value => (∀ token inner, part ≠ .spread token inner) ∧ self.eval part m = .ok value m)
    parts values

theorem namesParts_elements {ref : ArrayRef} {parts : List Expr}
    (holds : m.readVariable name = .ok (some (.array ref)))
    (names : List.Forall₂ (Expr.NamesElement name) (List.range (m.heap.items ref).size) parts) :
    (evaluator settings host (bound + 2)).NamesParts m parts (m.heap.items ref).toList := by
  obtain ⟨length, names⟩ := List.forall₂_iff_get.mp names
  rw [List.length_range] at length
  refine List.forall₂_iff_get.mpr ⟨length.symm, fun place inside within => ?_⟩
  have named : Expr.NamesElement name place (parts.get ⟨place, inside⟩) := by
    simpa using names place (by simpa [length] using inside) inside
  have held :
      (m.heap.items ref)[place]? = some ((m.heap.items ref).toList.get ⟨place, within⟩) := by
    simp
  exact ⟨named.plain, eval_element holds named held⟩

theorem namesParts_fields {ref : RecordRef} {names : List String} {parts : List Expr}
    (holds : m.readVariable name = .ok (some (.record ref)))
    (has : ∀ field ∈ names, (m.heap.record ref).has field = true)
    (named : List.Forall₂ (Expr.NamesField name) names parts) :
    ∃ values, Value.fieldsNamed (m.heap.record ref) names = .ok values ∧
      (evaluator settings host (bound + 2)).NamesParts m parts values := by
  induction named with
  | nil => exact ⟨[], rfl, .nil⟩
  | @cons field part names parts first _ ih =>
    obtain ⟨values, found, later⟩ := ih fun other among => has other (List.mem_cons_of_mem _ among)
    obtain ⟨value, held⟩ : ∃ value, (m.heap.record ref).get? field = some value := by
      have held := has field List.mem_cons_self
      rw [Record.has, ← @Option.isSome_map _ _ Prod.snd] at held
      exact Option.isSome_iff_exists.mp held
    refine ⟨value :: values, ?_, .cons ⟨first.plain, eval_field holds first held⟩ later⟩
    rw [Value.fieldsNamed] at found ⊢
    rw [List.mapM_cons, found, held]
    rfl

section Written

variable (reaches : ∀ item, ((evaluator settings host (bound + 2)).eval item).Reaches (each item))

include reaches

variable {parts : List Expr}

theorem gather_parts {values : List Value}
    (names : (evaluator settings host (bound + 2)).NamesParts m parts values) :
    gather nested each parts m = .ok values m := by
  induction names with
  | nil => rfl
  | @cons part value _ _ first _ ih =>
    obtain ⟨plain, done⟩ := first
    have given : each part m = .ok value m := by
      rw [(reaches part).ended (by simp [done]), done]
    rw [gather_cons plain, Exec.bind_of_ok given, Exec.bind_of_ok ih]
    rfl

theorem gather_spread {token nameToken : Token} {values : List Value}
    (holds : m.readVariable name = .ok (some value))
    (spread : value.parts m.types m.heap = .ok values)
    (names : (evaluator settings host (bound + 2)).NamesParts m parts values) :
    (gather (evaluator settings host (bound + 2)).eval each
      [.spread token (.name nameToken name)]).Looks m ∧
      gather (evaluator settings host (bound + 2)).eval each parts m =
        gather (evaluator settings host (bound + 2)).eval each
          [.spread token (.name nameToken name)] m := by
  have taken : partsOf value m = .ok values m := by
    change Exec.ofExcept (value.parts m.types m.heap) m = _
    rw [spread]
    rfl
  have placed : Exec.placed token (partsOf value) m = .ok values m := by
    rw [Exec.placed, taken]
  have whole : gather
    (evaluator settings host (bound + 2)).eval each [.spread token (.name nameToken name)] m =
      .ok (values ++ []) m := by
    rw [gather, Exec.bind_of_ok (eval_name holds), Exec.bind_of_ok placed]
    rfl
  rw [List.append_nil] at whole
  exact ⟨.inl ⟨values, whole⟩, (gather_parts reaches names).trans whole.symm⟩

theorem looks_kept {item : Expr} (plain : item.IsPlain) :
    (gather (evaluator settings host (bound + 2)).eval each [item]).Looks m := by
  rcases item.spread_or with ⟨token, expr, rfl⟩ | own
  · cases plain with
    | spread token nameToken name =>
      apply (looks_literal (.name nameToken name) (by simp)).bind
      intro value
      apply (Exec.Looks.ofExcept (value.parts m.types m.heap)).placed.bind
      exact fun parts => .inl ⟨_, rfl⟩
  · have looks := @looks_literal settings host (bound + 1) m item plain own
    have given : (each item).Looks m := by
      rwa [Exec.Looks, (reaches item).ended looks.unstarved]
    rw [gather_cons own]
    exact given.bind fun value => .inl ⟨_, rfl⟩

theorem gather_writesOut {item : Expr} (complies : m.Complies) (writes : m.WritesOut item parts) :
    (gather (evaluator settings host (bound + 2)).eval each [item]).Looks m ∧
      gather (evaluator settings host (bound + 2)).eval each parts m =
        gather (evaluator settings host (bound + 2)).eval each [item] m := by
  cases writes with
  | kept plain => exact ⟨looks_kept reaches plain, rfl⟩
  | array holds names => exact gather_spread reaches holds rfl (namesParts_elements holds names)
  | @typed _ _ _ ref record decl _ holds held declared written names =>
    obtain ⟨known, meets⟩ := complies ref record decl held declared
    have same : m.heap.record ref = record := by
      unfold Heap.record? at held
      rw [Heap.record, Array.getD_eq_getD_getElem?, held]
      rfl
    have has (field : String) (among : field ∈ decl.spreadOrder) :
        (m.heap.record ref).has field = true := by
      obtain ⟨declaration, own, rfl⟩ := List.mem_map.mp (written.spreadOrder among)
      rw [same]
      exact meets.complete declaration own
    obtain ⟨values, found, named⟩ := namesParts_fields holds has names
    refine gather_spread reaches holds ?_ named
    rw [Value.parts, same, meets.typeName, known]
    rwa [same] at found
  | @object _ _ _ ref _ holds object undeclared names =>
    have has (field : String) (among : field ∈ (m.heap.record ref).fields.map Prod.fst) :
        (m.heap.record ref).has field = true :=
      Record.has_iff.mpr ⟨field, among, beq_self_eq_true _⟩
    obtain ⟨values, found, named⟩ := namesParts_fields holds has names
    refine gather_spread reaches holds ?_ named
    rw [Value.parts, beq_iff_eq.mp object, undeclared]
    exact found

theorem gather_written {items : List Expr} {written : List (List Expr)} (complies : m.Complies)
    (writes : List.Forall₂ m.WritesOut items written) :
    gather (evaluator settings host (bound + 2)).eval each written.flatten m =
      gather (evaluator settings host (bound + 2)).eval each items m := by
  induction writes with
  | nil => rfl
  | @cons item parts items written first _ ih =>
    obtain ⟨looks, same⟩ := gather_writesOut reaches complies first
    rw [List.flatten_cons, gather_append, ← List.singleton_append, gather_append]
    simp only [Bind.bind, EStateM.bind, same]
    rcases looks with ⟨values, done⟩ | ⟨error, failed⟩
    · simp only [done, ih]
    · simp only [failed]

end Written

end Evaluator

/-- At a moment of a run, lists with spread variables have the values that they have with the parts
written out: the values that go into an array or to the host, and the arguments of a declared
function. -/
def SpreadsWriteOut (settings : Settings) (host : Host) (m : Machine) : Prop :=
  ∀ (bound : Nat) (items : List Expr) (written : List (List Expr)),
    List.Forall₂ m.WritesOut items written →
    (evaluator settings host (bound + 2)).values written.flatten m =
        (evaluator settings host (bound + 2)).values items m ∧
      (List.map Arg.value <$> (evaluator settings host (bound + 2)).args written.flatten) m =
        (List.map Arg.value <$> (evaluator settings host (bound + 2)).args items) m

theorem Machine.Complies.spreadsWriteOut {m : Machine} (complies : m.Complies) (settings : Settings)
    (host : Host) :
    SpreadsWriteOut settings host m := by
  intro bound items written writes
  constructor
  · simp only [Evaluator.values_eq_gather]
    exact Evaluator.gather_written (fun item => .refl _) complies writes
  · simp only [Evaluator.args_eq_gather]
    exact Evaluator.gather_written Evaluator.eval_reaches_argValue complies writes

/-- In every session, between runs and at every moment of every run, spreading is writing the parts
out. -/
theorem spreading_is_writing_out {history : List Program} {interpreter : Interpreter}
    (reached : Reached history interpreter) (spares : interpreter.host.SparesRecords)
    (program : Program) :
    SpreadsWriteOut interpreter.settings interpreter.host interpreter.machine ∧
      interpreter.Always program fun _ m =>
        SpreadsWriteOut interpreter.settings interpreter.host m := by
  refine ⟨(reached.complies spares).spreadsWriteOut _ _, reached.always_complies spares ?_ program⟩
  exact fun complies => complies.spreadsWriteOut _ _

/-- Whether a variable holds an array of some length. -/
def Machine.holdsArray (m : Machine) (name : String) (size : Nat) : Bool :=
  match m.readVariable name with
  | .ok (some (.array ref)) => (m.heap.items ref).size == size
  | _ => false

/-- The run of a program that assigns an array. -/
def pairRun : RunResult × Interpreter :=
  (Interpreter.new .standard {} .still).runWithin 20
    (.ofSource "a = [7, 8]")

/-- After a run that made an array of two elements, a list with this array spread twice has the
values that it has with four elements written out, and another run is no different at any moment. -/
theorem pair_is_written_out :
    let token : Token := ⟨.newline, "", ⟨0, 0⟩, ⟨1, 1⟩⟩
    let element (place : Float) : Expr := .index token (.name token "a") (.number token place)
    pairRun.2.machine.holdsArray "a" 2 = true ∧
      (evaluator {} pairRun.2.host 9).values
          [element 0, element 1, .number token 5, element 0, element 1] pairRun.2.machine =
        (evaluator {} pairRun.2.host 9).values
          [.spread token (.name token "a"), .number token 5, .spread token (.name token "a")]
          pairRun.2.machine ∧
      ∀ program, pairRun.2.Always program fun _ m =>
          SpreadsWriteOut pairRun.2.settings pairRun.2.host m := by
  intro token element
  have ended : pairRun.2.machine.holdsArray "a" 2 = true ∧ pairRun.2.settings = {} ∧
      pairRun.1.isAwaiting = false := by decide +kernel
  have ran : (Interpreter.new .standard {} .still).runWithin 20 _ = (pairRun.1, pairRun.2) :=
    (Prod.eta pairRun).symm
  obtain ⟨held, settings, finished⟩ := ended
  -- From here on only what is known of the run matters, not what it computes.
  generalize pairRun.2 = next at ran held settings ⊢
  have reached := Reached.run (.new .standard {} .still) ran finished
  have spares : next.host.SparesRecords := by
    rw [Interpreter.host_runWithin ran]
    exact Host.standard_sparesRecords
  refine ⟨held, ?_, fun program => (spreading_is_writing_out reached spares program).2⟩
  have array : next.machine.WritesOut (.spread token (.name token "a")) [element 0, element 1] := by
    unfold Machine.holdsArray at held
    split at held
    · next ref holds =>
      refine .array holds ?_
      rw [beq_iff_eq.mp held]
      exact .cons (.index token token token (by decide +kernel))
          (.cons (.index token token token (by decide +kernel)) .nil)
    · cases held
  have writes := (spreading_is_writing_out reached spares ⟨[], .empty⟩).1 7 _ _
    (.cons array (.cons (.kept (.number token 5)) (.cons array .nil)))
  rw [settings] at writes
  exact writes.1

end MicroBasic
