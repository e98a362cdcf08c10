import MicroBasic.Proofs.Discipline.Noting
import MicroBasic.Proofs.Loops.Session

/-!
# Declarations take effect

The declarations among the statements of a program are registered before its first statement runs,
and control passes them by when it comes to them. A declaration further inside, in a body or another
block, is registered when control comes to it, or refused because something else has its name.

Which declarations are passed by is decided by their numbers. The numbers of one program are all
different, so no declaration inside a program is taken for one of its statements. Numbers do repeat
from program to program, though: a function that an earlier program declared may have a declaration
in its body with the number of one that the running program registered. That one is passed by, and
takes no effect.
-/

namespace MicroBasic

/-- A function from the same declaration, with the same parameter list, is known by its name. -/
def FunctionTable.Holds (functions : FunctionTable) (overload : Overload) : Prop :=
  ∃ set other, functions.get? overload.name = some set ∧ other ∈ set.overloads ∧
    other.signature = overload.signature ∧ other.sameOrigin overload = true

/-- The getter or the setter of a property. -/
def PropertyTable.accessor? (properties : PropertyTable) (accessor : Accessor)
    (typeName name : String) : Option Overload :=
  match accessor with
  | .get => properties.getter? typeName name
  | .set => properties.setter? typeName name

/-- What a statement declares is in the tables of a machine. -/
def Stmt.IsRegistered (stmt : Stmt) (m : Machine) : Prop :=
  match stmt.kind with
  | .function decl =>
    m.functions.Holds { decl, origin := stmt.id, loops := m.activation.loops }
  | .property decl =>
    ∃ other, m.properties.accessor? decl.accessor decl.typeName decl.name = some other ∧
      other.sameOrigin
        { decl := decl.asFunction, origin := stmt.id, loops := m.activation.loops } = true
  | .type decl => m.types.get? decl.name = some decl
  | _ => False

theorem Overload.sameOrigin_self (overload : Overload) : overload.sameOrigin overload = true := by
  simp [sameOrigin]

/-- Something fails only because a declaration was met that is already there. -/
def RefusesDuplicates {α : Type} (result : Except Fault α) : Prop :=
  ∀ fault, result = .error fault → fault.code = "DUPLICATE_DEFINITION"

namespace OverloadSet

variable {set next : OverloadSet} {overload : Overload}

theorem mem_of_define (done : set.define overload = .ok next) :
    ∃ other ∈ next.overloads, other.signature = overload.signature ∧
      other.sameOrigin overload = true := by
  unfold define at done
  split at done
  · next existing found =>
    have alike : existing.signature = overload.signature := by
      have passed := List.find?_some found
      exact beq_iff_eq.mp passed
    split at done
    · next origin =>
      cases done
      exact ⟨existing, List.mem_of_find?_eq_some found, alike, origin⟩
    · cases done
  · cases done
    refine ⟨overload, List.mem_append_right _ List.mem_cons_self, rfl, overload.sameOrigin_self⟩

theorem define_refuses (set : OverloadSet) (overload : Overload) :
    RefusesDuplicates (set.define overload) := by
  intro fault failed
  unfold define at failed
  split at failed
  · split at failed
    · cases failed
    · cases failed
      rfl
  · cases failed

end OverloadSet

namespace FunctionTable

variable {functions next : FunctionTable} {overload : Overload}

theorem holds_of_define (done : functions.define overload = .ok next) : next.Holds overload := by
  obtain ⟨set, entered, done⟩ := Results.of_bind done
  cases done
  obtain ⟨other, among, alike, origin⟩ := OverloadSet.mem_of_define entered
  exact ⟨set, other, Table.get?_insert.trans (if_pos rfl), among, alike, origin⟩

theorem define_refuses (functions : FunctionTable) (overload : Overload) :
    RefusesDuplicates (functions.define overload) := by
  intro fault failed
  unfold define at failed
  dsimp only at failed
  cases entered : ((functions.byName.get? (Text.foldName overload.name)).getD
      { name := overload.name, overloads := [] }).define overload with
  | ok set =>
    rw [entered] at failed
    cases failed
  | error cause =>
    rw [entered] at failed
    cases failed
    exact OverloadSet.define_refuses _ _ _ entered

end FunctionTable

namespace PropertyTable

variable {properties next : PropertyTable} {decl : PropertyDecl Block} {origin : Nat}
    {loops : LoopsRef}

theorem entry_insert {typeName name : String} {entry : PropertyEntry} :
    PropertyTable.entry ⟨properties.byName.insert (key typeName name) entry⟩ typeName name =
      entry := by
  unfold PropertyTable.entry
  rw [Table.get?_insert, if_pos rfl]
  rfl

theorem accessor?_insert {typeName name : String} {overload : Overload} {entry : PropertyEntry}
    (accessor : Accessor) :
    PropertyTable.accessor? ⟨properties.byName.insert (key typeName name) (match accessor with
          | .get =>
            { entry with getter := some overload } | .set =>
            { entry with setter := some overload })⟩
      accessor typeName name = some overload := by
  cases accessor with
  | get => exact congrArg PropertyEntry.getter entry_insert
  | set => exact congrArg PropertyEntry.setter entry_insert

theorem accessor?_of_define (done : properties.define decl origin loops = .ok next) :
    ∃ other, next.accessor? decl.accessor decl.typeName decl.name = some other ∧
      other.sameOrigin { decl := decl.asFunction, origin, loops } = true := by
  unfold define at done
  dsimp only at done
  split at done
  · next other found =>
    split at done
    · next same =>
      cases done
      exact ⟨other, found, same⟩
    · cases done
  · cases done
    exact ⟨_, accessor?_insert decl.accessor, Overload.sameOrigin_self _⟩

theorem define_refuses (properties : PropertyTable) (decl : PropertyDecl Block) (origin : Nat)
    (loops : LoopsRef) : RefusesDuplicates (properties.define decl origin loops) := by
  intro fault failed
  unfold define at failed
  dsimp only at failed
  split at failed
  · split at failed
    · cases failed
    · cases failed
      rfl
  · cases failed

end PropertyTable

namespace TypeTable

variable {types next : TypeTable} {decl : TypeDecl}

theorem get?_of_define (done : types.define decl = .ok next) : next.get? decl.name = some decl := by
  unfold define at done
  split at done
  · cases done
  · cases done
    exact Table.get?_insert.trans (if_pos rfl)

theorem define_refuses (types : TypeTable) (decl : TypeDecl) :
    RefusesDuplicates (types.define decl) := by
  intro fault failed
  unfold define at failed
  split at failed
  · cases failed
    rfl
  · cases failed

end TypeTable

namespace Evaluator

variable {self : Evaluator} {m : Machine} {stmt : Stmt}

theorem declared {α : Type} {table : Machine → Except Fault α} {enter : Machine → α → Machine}
    (fresh : stmt.id ∉ m.hoisted) (refuses : RefusesDuplicates (table m))
    (registers : ∀ entered, table m = .ok entered → stmt.IsRegistered (enter m entered)) :
    (∃ final, thenDone (declare stmt (Exec.change fun m => do
        return enter m (← table m))) m = .ok .done final ∧
        stmt.IsRegistered final) ∨
      ∃ error : RuntimeError, thenDone (declare stmt (Exec.change fun m => do
          return enter m (← table m))) m =
          .error (.broken (.error error)) m ∧
        error.fault.code = "DUPLICATE_DEFINITION" := by
  have unnoted : ¬ m.hoisted.contains stmt.id = true := by
    rw [List.contains_iff_mem]
    exact fresh
  have declares : thenDone (declare stmt (Exec.change fun m => do
      return enter m (← table m))) m =
      thenDone (Exec.change fun m => do return enter m (← table m)) m := by
    simp only [thenDone, declare, bind_assoc, Exec.get_bind, if_neg unnoted]
  rw [declares]
  simp only [thenDone, Exec.change, Exec.ask, bind_assoc, Exec.get_bind]
  cases taken : table m with
  | ok entered => exact .inl ⟨_, rfl, registers entered taken⟩
  | error fault => exact .inr ⟨_, rfl, refuses fault taken⟩

theorem plainStmt_declares (declares : stmt.isDeclaration = true) (fresh : stmt.id ∉ m.hoisted) :
    (∃ final, self.plainStmt stmt m = .ok .done final ∧ stmt.IsRegistered final) ∨
      ∃ error : RuntimeError, self.plainStmt stmt m = .error (.broken (.error error)) m ∧
        error.fault.code = "DUPLICATE_DEFINITION" := by
  unfold Stmt.isDeclaration at declares
  unfold plainStmt
  split at declares
  · next decl kind =>
    simp only [kind]
    refine declared fresh (FunctionTable.define_refuses _ _) fun entered done => ?_
    simp only [Stmt.IsRegistered, kind]
    exact FunctionTable.holds_of_define done
  · next decl kind =>
    simp only [kind]
    refine declared fresh (PropertyTable.define_refuses _ _ _ _) fun entered done => ?_
    simp only [Stmt.IsRegistered, kind]
    exact PropertyTable.accessor?_of_define done
  · next decl kind =>
    simp only [kind]
    refine declared fresh (TypeTable.define_refuses _ _) fun entered done => ?_
    simp only [Stmt.IsRegistered, kind]
    exact TypeTable.get?_of_define done
  · cases declares

theorem plainStmt_passes (declares : stmt.isDeclaration = true) (noted : stmt.id ∈ m.hoisted) :
    self.plainStmt stmt m = .ok .done m := by
  have noted : m.hoisted.contains stmt.id = true := List.contains_iff_mem.mpr noted
  have passes (define : Exec Unit) : thenDone (declare stmt define) m = .ok .done m := by
    simp only [thenDone, declare, bind_assoc, Exec.get_bind, if_pos noted]
    rfl
  unfold Stmt.isDeclaration at declares
  unfold plainStmt
  split at declares
  · next decl kind =>
    simp only [kind]
    exact passes _
  · next decl kind =>
    simp only [kind]
    exact passes _
  · next decl kind =>
    simp only [kind]
    exact passes _
  · cases declares

end Evaluator

theorem Numbered.apart {known : Token → Prop} {top holder stmt : Stmt} {first next : Nat}
    {outer block part : Block}
    (numbered : Numbered known first [outer] next) (among : top ∈ outer) (holds : holder ∈ outer)
    (held : part ∈ holder.blocks) (within : block.Within part) (own : stmt ∈ block) :
    stmt.id ≠ top.id := by
  induction outer generalizing first with
  | nil => cases among
  | cons head rest ih =>
    cases numbered with
    | cons _ inner others =>
      rcases List.mem_cons.mp holds with rfl | later
      · -- What is inside the first statement has smaller numbers than it and all that follow.
        have below := (inner.bounds held within own).2
        rcases List.mem_cons.mp among with rfl | among
        · omega
        · have above := (others.bounds List.mem_cons_self .self among).1
          omega
      · rcases List.mem_cons.mp among with rfl | among
        · have above := (others.bounds List.mem_cons_self (.inner within held later) own).1
          omega
        · exact ih others among later

theorem Program.IsParsed.eq_of_id {block : Block} {stmt top : Stmt} {program : Program}
    (parsed : program.IsParsed) (within : block.Within program.statements) (own : stmt ∈ block)
    (among : top ∈ program.statements) (same : top.id = stmt.id) : block = program.statements := by
  obtain ⟨tokens, parsed⟩ := parsed
  obtain ⟨⟨count, numbered⟩, _⟩ := Program.numbered parsed
  cases within with
  | self => rfl
  | inner within held holds =>
    exact absurd same.symm (numbered.apart among holds held within own)

/-- How a declaration ends that control has come to, in a block of a session that has run some
programs and is running another. -/
inductive DeclarationEnds (history : List Program) (program : Program) (block : Block) (stmt : Stmt)
    (m : Machine) : EStateM.Result Escape Machine Signal → Prop
  /-- It is registered. -/
  | registered {final : Machine} (registered : stmt.IsRegistered final) :
      DeclarationEnds history program block stmt m (.ok .done final)
  /-- It is refused. -/
  | refused {error : RuntimeError} (duplicate : error.fault.code = "DUPLICATE_DEFINITION") :
      DeclarationEnds history program block stmt m (.error (.broken (.error error)) m)
  /-- It is passed by: it has the number of a statement of the program that is running, and either
  is that statement or lies in an earlier program and not in this one. -/
  | passed {top : Stmt} (among : top ∈ program.statements) (declares : top.isDeclaration = true)
      (same : top.id = stmt.id)
      (elsewhere : block = program.statements ∨
        ¬ block.Within program.statements ∧ ∃ earlier ∈ history, block.Within earlier.statements) :
      DeclarationEnds history program block stmt m (.ok .done m)

/-- The numbers are those of declarations among some statements. -/
def Block.Declares (block : Block) (ids : List Nat) : Prop :=
  ∀ id ∈ ids, ∃ top ∈ block, top.isDeclaration = true ∧ top.id = id

variable {history : List Program} {program : Program} {m : Machine}

theorem declarationEnds {loops : LoopsRef} {block : Block} {stmt : Stmt} {self : Evaluator}
    (parsed : ∀ known ∈ history ++ [program], known.IsParsed)
    (issued : Issued (history ++ [program]) loops block)
    (notes : program.statements.Declares m.hoisted) (own : stmt ∈ block)
    (declares : stmt.isDeclaration = true) :
    DeclarationEnds history program block stmt m (self.plainStmt stmt m) := by
  by_cases noted : stmt.id ∈ m.hoisted
  · rw [Evaluator.plainStmt_passes declares noted]
    obtain ⟨top, among, likewise, same⟩ := notes stmt.id noted
    refine .passed among likewise same ?_
    by_cases within : block.Within program.statements
    · have own := (parsed program (by simp)).eq_of_id within own among same
      exact .inl own
    · obtain ⟨earlier, known, inside⟩ := issued
      rcases List.mem_append.mp (List.mem_of_getElem? known) with known | known
      · exact .inr ⟨within, earlier, known, inside⟩
      · rw [List.mem_singleton.mp known] at inside
        exact absurd inside within
  · rcases @Evaluator.plainStmt_declares self m stmt declares noted with
      ⟨final, ends, registered⟩ | ⟨error, ends, duplicate⟩
    · rw [ends]
      exact .registered registered
    · rw [ends]
      exact .refused duplicate

namespace Discipline

/-- All code keeps the pairs of its program, and what is noted are declarations of the program that
is running. -/
def declaring (history : List Program) (program : Program) : Discipline :=
  (looping (history ++ [program])).noting program.statements.Declares

theorem declaring_registering (history : List Program) (program : Program) :
    (declaring history program).Registering program.statements := by
  refine noting_registering (looping_scoping _) fun {ids stmt} among declares noted id known => ?_
  rcases List.mem_cons.mp known with rfl | known
  · exact ⟨stmt, among, declares, rfl⟩
  · exact noted id known

theorem looping_noting_hooks {Noted : List Nat → Prop} {observe : Moment → Exec Unit}
    {settings : Settings} {host : Host} (honest : host.Honest)
    (passes : ∀ {moment m}, ((looping history).noting Noted).Inv m →
      ((looping history).noting Noted).Arises moment m → observe moment m = .ok () m)
        (bound : Nat) :
    ((looping history).noting Noted).Hooks (observedEvaluator observe settings host bound)
      (observedEvaluator observe settings host bound) :=
  noting_hooks (bearing_laws _ honest) (looping_scoping _).toDraining (looping_united _)
    ⟨fun issued among held => issued.step among held, fun _ _ => .of_all _⟩ bearing_entering
      passes bound

theorem declaring_hooks {observe : Moment → Exec Unit} {settings : Settings} {host : Host}
    (honest : host.Honest) (passes : ∀ {moment m}, (declaring history program).Inv m →
      (declaring history program).Arises moment m → observe moment m = .ok () m)
    (bound : Nat) :
    (declaring history program).Hooks (observedEvaluator observe settings host bound)
      (observedEvaluator observe settings host bound) :=
  looping_noting_hooks honest passes bound

end Discipline

theorem Reached.always_declaring {interpreter : Interpreter} {asserted : Moment → Machine → Prop}
    (reached : Reached history interpreter)
    (parsed : ∀ known ∈ history ++ [program], known.IsParsed) (honest : interpreter.host.Honest)
    (holds : ∀ {moment m}, (Discipline.declaring history program).Inv m →
      (Discipline.declaring history program).Arises moment m → asserted moment m) :
    interpreter.Always program asserted := by
  intro bound final stopped
  have coherent :=
    reached.coherent (fun known among => parsed known (List.mem_append_left _ among)) honest
  have begun : (Discipline.declaring history program).Inv
      (Run.begin interpreter.settings program interpreter.machine) :=
    ⟨coherent.begin interpreter.settings program, nofun⟩
  have issued := Run.begin_issued coherent interpreter.settings program
  have united : (Discipline.declaring history program).United :=
    Discipline.noting_united (Discipline.looping_united _)
  have hooks := @Discipline.declaring_hooks history program (assertion asserted)
    interpreter.settings _ honest (fun inv arises => assertion_holds (holds inv arises)) bound
  have sound := hooks.statements_sound united.1
    (Discipline.noting_draining (Discipline.looping_scoping _).toDraining)
    (Discipline.declaring_registering history program) begun issued
    fun _ among _ held => issued.step among held
  exact sound.unstopped united final stopped

/-- In every session, at every place of every run, a declaration that control comes to is registered
or refused, unless it is passed by for one of the running program that has the same number. -/
theorem declarations_take_effect {interpreter : Interpreter} (reached : Reached history interpreter)
    (parsed : ∀ known ∈ history ++ [program], known.IsParsed) (honest : interpreter.host.Honest) :
    interpreter.Always program fun moment machine => ∀ block place loops stmt,
      moment = .place block place loops → block[place]? = some stmt → stmt.isDeclaration = true →
        ∀ bound steps, DeclarationEnds history program block stmt { machine with steps }
          ((evaluator interpreter.settings interpreter.host bound).plainStmt stmt
            { machine with steps }) := by
  refine reached.always_declaring parsed honest fun {moment machine} inv arises => ?_
  rintro block place loops stmt rfl found declares bound steps
  exact declarationEnds parsed arises inv.2 (List.mem_of_getElem? found) declares

/-- A program with a function whose body declares a record type. -/
def declaringBody : Program :=
  .ofSource "FUNCTION F()\nTYPE P\nx AS NUMBER\nEND TYPE\nRETURN 1\nEND FUNCTION"

/-- A program that declares a record type itself, calls that function and makes a record of the type
that the body declares. -/
def callingBody : Program :=
  .ofSource "TYPE Q\ny AS NUMBER\nEND TYPE\nPRINT F()\nPRINT NEW P"

/-- The run of that program. -/
def declaringBodyRun : RunResult × Interpreter :=
  (Interpreter.new .standard {} .still).runWithin 40 declaringBody

/-- In a run of the second program after the first, declarations take effect or are passed by. -/
theorem declarations_take_effect_after_another :
    declaringBody.IsParsed ∧ callingBody.IsParsed ∧ declaringBodyRun.1.isAwaiting = false ∧
      declaringBodyRun.2.Always callingBody fun moment machine => ∀ block place loops stmt,
        moment = .place block place loops → block[place]? = some stmt → stmt.isDeclaration = true →
          ∀ bound steps,
            DeclarationEnds [declaringBody] callingBody block stmt { machine with steps }
            ((evaluator declaringBodyRun.2.settings declaringBodyRun.2.host bound).plainStmt stmt
              { machine with steps }) := by
  have declares : declaringBody.IsParsed := Program.isParsed_ofSource (by decide +kernel)
  have calls : callingBody.IsParsed := Program.isParsed_ofSource (by decide +kernel)
  have all : ∀ known ∈ [declaringBody] ++ [callingBody], known.IsParsed := by simp [declares, calls]
  have finished : declaringBodyRun.1.isAwaiting = false := by decide +kernel
  have ran : (Interpreter.new .standard {} .still).runWithin 40 declaringBody =
      (declaringBodyRun.1, declaringBodyRun.2) := (Prod.eta declaringBodyRun).symm
  refine ⟨declares, calls, finished, ?_⟩
  -- From here on only what is known of the run matters, not what it computes.
  generalize declaringBodyRun.2 = next at ran ⊢
  have reached : Reached [declaringBody] next := .run (.new .standard {} .still) ran finished
  have honest : next.host.Honest := by
    rw [Interpreter.host_runWithin ran]
    exact Host.standard_honest
  exact declarations_take_effect reached all honest

/-- The run of the second program after the first one. -/
def callingBodyRun : RunResult × Interpreter :=
  declaringBodyRun.2.runWithin 40 callingBody

/-- A declaration in the body of an earlier function may be passed by: the function was called and
has returned, what it gave was printed, and still its record type is not known. -/
theorem body_declaration_passed_by :
    callingBodyRun.2.outputs.length = 1 ∧ callingBodyRun.1.errorCode? = some "TYPE_MISMATCH" ∧
      (callingBodyRun.2.machine.types.get? "P").isNone = true := by
  decide +kernel

end MicroBasic
