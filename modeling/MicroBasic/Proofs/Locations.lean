import MicroBasic.Proofs.Declarations
import MicroBasic.Proofs.Parsing.Coverage
import MicroBasic.Proofs.Parsing.Programs
import MicroBasic.Proofs.Termination

/-!
# Where errors stand

Every error of an expression or a statement gets the place of a token on its way out. The tokens of
a program are those of its source: a program is parsed to the same shape if every place is changed
that is no place of a token of the source. And all code that comes up in a run is code of the
program.
-/

namespace MicroBasic

namespace Exec

variable {α β : Type} {m : Machine}

/-- The errors of some work on a machine have places, and its results are good. -/
def Places (work : Exec α) (m : Machine) (Good : α → Prop) : Prop :=
  (∀ value final, work m = .ok value final → Good value) ∧
    ∀ error final, work m = .error (.broken (.error error)) final → error.location ≠ none

namespace Places

variable {Good : α → Prop} {Last : β → Prop}

theorem pure {value : α} (good : Good value) : Places (Pure.pure value) m Good := by
  constructor
  · rintro _ _ ⟨⟩
    exact good
  · rintro _ _ ⟨⟩

theorem await {what : Awaited} : Places (Exec.await what) m Good := by
  constructor <;> rintro _ _ ⟨⟩

theorem placed {token : Token} {work : Exec α} :
    Places (Exec.placed token work) m fun _ => True := by
  refine ⟨fun _ _ _ => trivial, fun error final failed => ?_⟩
  unfold Exec.placed at failed
  split at failed
  · next cause last _ =>
    cases failed
    obtain ⟨fault, _ | location⟩ := cause <;> exact nofun
  · next other =>
    exact absurd failed (other _ _)

theorem bind {first : Exec α} {rest : α → Exec β} (begins : first.Places m Good)
    (later : ∀ value next, Good value → (rest value).Places next Last) :
    (first >>= rest).Places m Last := by
  unfold Places at begins ⊢
  simp only [Bind.bind, EStateM.bind]
  cases done : first m with
  | ok value next => exact later value next (begins.1 value next done)
  | error escape next =>
    constructor
    · rintro _ _ ⟨⟩
    · rintro error _ ⟨⟩
      exact begins.2 error next done

theorem halting {work : Exec α} (begins : work.Places m Good) :
    (Exec.halting work).Places m fun _ => True := by
  refine ⟨fun _ _ _ => trivial, fun error final failed => ?_⟩
  unfold Exec.halting at failed
  split at failed
  · cases failed
  · cases failed
  · next done =>
    cases failed
    exact begins.2 error final done

theorem get {rest : Machine → Exec α} (later : (rest m).Places m Good) :
    (MonadState.get >>= rest).Places m Good :=
  later

theorem modified {change : Machine → Machine} {rest : PUnit → Exec α}
    (later : (rest ()).Places (change m) Good) : (modify change >>= rest).Places m Good :=
  later

end Places

end Exec

/-- The error of an outcome, if there is one, has a location. -/
def Outcome.IsPlaced (outcome : Outcome) : Prop :=
  ∀ error, outcome = .error (.error error) → error.location ≠ none

variable {m : Machine} {error : RuntimeError}

theorem Exec.Places.attempt {work : Exec Signal} {Good : Signal → Prop}
    (places : work.Places m Good) : (Exec.attempt work).Places m Outcome.IsPlaced := by
  unfold Places Exec.attempt at *
  cases done : work m with
  | ok value final =>
    constructor
    · rintro _ _ ⟨⟩ _ ⟨⟩
    · rintro _ _ ⟨⟩
  | error escape final =>
    cases escape with
    | broken cause =>
      constructor
      · rintro _ _ ⟨⟩ error ⟨⟩
        exact places.2 error final done
      · rintro _ _ ⟨⟩
    | awaiting what | stopped => constructor <;> rintro _ _ ⟨⟩

namespace Evaluator

variable {self : Evaluator} {m : Machine}

/-- The observer of an evaluator does nothing. -/
def Silent (self : Evaluator) : Prop :=
  ∀ moment m, self.observe moment m = .ok () m

theorem Silent.observing {α : Type} {rest : Unit → Exec α} {moment : Moment} {Good : α → Prop}
    (silent : self.Silent)
    (later : (rest ()).Places m Good) : (self.observe moment >>= rest).Places m Good := by
  unfold Exec.Places at later ⊢
  simp only [Bind.bind, EStateM.bind, silent moment m]
  exact later

theorem Silent.execFrom (silent : self.Silent) {block : Block} {fuel place : Nat}
    {loops : List ActiveLoop} : (self.execFrom block fuel place loops).Places m fun _ => True := by
  induction fuel generalizing m place loops with
  | zero => exact .await
  | succ fuel ih =>
    refine silent.observing ?_
    cases block[place]? with
    | none => exact .pure trivial
    | some stmt =>
      have performed : (self.perform stmt (self.execStmt stmt loops)).Places m fun _ => True :=
        .bind .placed fun _ _ _ => silent.observing (.halting .placed)
      refine performed.bind fun result next _ => ?_
      match result with
      | .error reason => exact .pure trivial
      | .ok (signal, loops) =>
        dsimp only
        cases Control.after place signal loops with
        | goto place loops => exact ih
        | leave signal => exact .pure trivial

variable (exec : ∀ block m, (self.exec block).Places m fun _ => True)

include exec

theorem drain_places {outcome : Outcome} {fuel : Nat} (placed : outcome.IsPlaced) :
    (self.drain fuel outcome).Places m Outcome.IsPlaced := by
  induction fuel generalizing m outcome with
  | zero => exact .await
  | succ fuel ih =>
    refine .get ?_
    dsimp only
    cases m.activation.deferred with
    | nil => exact .pure placed
    | cons block rest =>
      refine .modified ((exec _ _).attempt.bind fun result next found => .modified ?_)
      cases result with
      | ok signal =>
        cases signal with
        | halt reason => exact ih (by rintro _ ⟨⟩)
        | _ => exact ih placed
      | error cause =>
        dsimp only
        split
        · exact .modified (.pure found)
        · exact ih found

theorem finishScope_places {outcome : Outcome} (placed : outcome.IsPlaced) :
    (self.finishScope outcome).Places m Outcome.IsPlaced := by
  unfold finishScope
  split
  · split
    · exact .modified (.pure placed)
    · exact drain_places exec placed
  · exact drain_places exec placed

end Evaluator

theorem Run.register_places {types : Bool} {statements : List Stmt} :
    (Run.register types statements).Places m fun _ => True := by
  induction statements generalizing m with
  | nil => exact .pure trivial
  | cons stmt rest ih =>
    unfold Run.register
    cases Run.registration? types stmt with
    | some => exact .bind .placed fun _ _ _ => .modified ih
    | none => exact ih

section Silent

variable {settings : Settings} {host : Host} {bound : Nat} {m : Machine} {block : Block}

theorem evaluator_exec_places :
    ((evaluator settings host bound).exec block).Places m fun _ => True := by
  cases bound with
  | zero => exact .await
  | succ bound =>
    have silent : (evaluator settings host bound).Silent := fun _ _ => Discipline.evaluator_observe
    exact silent.execFrom

theorem Run.statements_places :
    (Run.statements (evaluator settings host bound) block).Places m Outcome.IsPlaced := by
  have begun :
    (do Run.hoist block; (evaluator settings host bound).exec block : Exec Signal).Places m
      fun _ => True :=
    .bind (.bind Run.register_places fun _ _ _ => Run.register_places) fun _ _ _ =>
      evaluator_exec_places
  exact begun.attempt.bind fun outcome next placed =>
    Evaluator.finishScope_places (fun _ _ => evaluator_exec_places) placed

end Silent

section Tokens

variable {move : Token → Location} {known : Token → Prop}

theorem Expr.token_moved (expr : Expr) : (expr.moved move).token = expr.token.moved move := by
  cases expr <;> rfl

theorem Expr.parts_moved (expr : Expr) :
    (expr.moved move).parts = expr.parts.map (Expr.moved move) := by
  cases expr with
  | new token typeName args => cases args <;> simp [Expr.moved, parts, movedArgs_eq, Tree.form]
  | _ => simp [Expr.moved, parts, movedList_eq, movedFields_eq, Tree.form]

theorem StmtKind.exprs_outline {β : Type} (kind : StmtKind β) :
    (kind.outline move).exprs = kind.exprs.map (Expr.moved move) := by
  have tests (test : CaseTest) : (test.moved move).exprs = test.exprs.map (Expr.moved move) := by
    cases test <;> rfl
  have defaults (params : List Param) : (params.map (Param.moved move)).filterMap Param.default =
      (params.filterMap Param.default).map (Expr.moved move) := by
    rw [List.filterMap_map, List.map_filterMap]
    rfl
  cases kind <;>
    simp [outline, exprs, Tree.form, Function.comp_def, PrintItem.moved, LoopCondition.moved, tests,
    List.flatMap_map, List.map_flatMap, defaults, Option.toList_map]

theorem StmtKind.tokens_outline {β : Type} (kind : StmtKind β) :
    (kind.outline move).tokens = kind.tokens.map (Token.moved move) := by
  cases kind <;> simp [outline, tokens]

variable (kept : ∀ token : Token, token.moved move = token.moved Token.location → known token)

include kept

theorem Expr.among_of_moved {expr : Expr} (same : expr.moved move = expr.moved Token.location) :
    expr.Among known := by
  intro part within
  have alike : part.moved move = part.moved Token.location := by
    induction within with
    | self => exact same
    | inner deeper held ih =>
      have parts := congrArg Expr.parts same
      rw [parts_moved, parts_moved] at parts
      exact ih (List.map_inj_left.mp parts _ held)
  have tokens := congrArg Expr.token alike
  rw [token_moved, token_moved] at tokens
  exact kept _ tokens

theorem Stmt.among_of_shape {stmt : Stmt} (same : stmt.shape move = stmt.shape Token.location) :
    stmt.Among known := by
  rw [shape_eq, shape_eq] at same
  obtain ⟨token, _, _, outline, _⟩ := Shape.mk.inj same
  have tokens := congrArg StmtKind.tokens outline
  have exprs := congrArg StmtKind.exprs outline
  rw [StmtKind.tokens_outline, StmtKind.tokens_outline] at tokens
  rw [StmtKind.exprs_outline, StmtKind.exprs_outline] at exprs
  exact ⟨kept _ token, fun _ held => kept _ (List.map_inj_left.mp tokens _ held),
    fun _ held => Expr.among_of_moved kept (List.map_inj_left.mp exprs _ held)⟩

theorem Block.among_of_shape {outer block : Block} (within : block.Within outer)
    (same : outer.shape move = outer.shape Token.location) : ∀ stmt ∈ block, stmt.Among known := by
  induction within with
  | self => exact fun stmt among => Stmt.among_of_shape kept (List.map_inj_left.mp same stmt among)
  | inner deeper held among ih =>
    have alike := List.map_inj_left.mp same _ among
    rw [Stmt.shape_eq, Stmt.shape_eq] at alike
    exact ih (List.map_inj_left.mp (Shape.mk.inj alike).2.2.2.2 _ held)

end Tokens

/-- A token stands where one of some tokens does. -/
def Token.StandsAmong (tokens : List Token) (token : Token) : Prop :=
  token.location ∈ tokens.map Token.location

theorem Program.among_of_ofTokens {tokens : List Token} {program : Program}
    (parsed : Program.ofTokens tokens = .ok program) {block : Block}
    (within : block.Within program.statements) :
    ∀ stmt ∈ block, stmt.Among (Token.StandsAmong tokens) := by
  let move (token : Token) : Location :=
    if token.location ∈
      tokens.map Token.location then token.location else ⟨⟨token.span.start + 1, 0⟩, token.position⟩
  have kept (token : Token) (same : token.moved move = token.moved Token.location) :
      token.StandsAmong tokens := by
    refine Classical.byContradiction fun other => ?_
    have start : (move token).span.start = token.span.start :=
      congrArg (fun token => token.span.start) same
    unfold Token.StandsAmong at other
    simp only [move, if_neg other] at start
    exact absurd start (Nat.succ_ne_self _)
  have known (token : Token) (among : token ∈ tokens) : move token = token.location :=
    if_pos (List.mem_map_of_mem among)
  exact Block.among_of_shape kept within (Program.shape_of_ofTokens known parsed)

theorem RuntimeError.exists_token {tokens : List Token}
    (stands : error.location ≠ none ∧ error.Stands (Token.StandsAmong tokens)) :
    ∃ token ∈ tokens, error.location = some token.location := by
  obtain ⟨place, located⟩ := Option.ne_none_iff_exists'.mp stands.1
  obtain ⟨other, among, rfl⟩ := stands.2 place located
  obtain ⟨token, among, same⟩ := List.mem_map.mp among
  exact ⟨token, among, located.trans (congrArg some same.symm)⟩

namespace Discipline

/-- All code is that of a program, and its tokens are known. -/
def spelled (program : Program) (known : Token → Prop) : Bearing where
  Inv m := m.pairings = [program.bindings] ∧
    m.Carries (fun overload => overload.IsIssued [program] ∧
      ∀ expr ∈ overload.params.filterMap Param.default, expr.Among known) ∧
    ∀ block ∈ m.activation.deferred, Issued [program] block.loops block.body
  Good overload :=
    overload.IsIssued [program] ∧ ∀ expr ∈ overload.params.filterMap Param.default, expr.Among known
  Held := Issued [program]
  Known := known
  pairings := [program.bindings]
  inv_iff := .rfl
  ordinary _ := trivial
  defined code fine := ⟨code, fine⟩
  held good := good.1
  defaults good := good.2

/-- All code is that of a program, and errors stand at known tokens. -/
def spelling (program : Program) (known : Token → Prop) : Discipline :=
  (bearing (spelled program known)).noting fun _ => True

variable {program : Program} {known : Token → Prop} {observe : Moment → Exec Unit}
    {settings : Settings} {host : Host}

theorem spelling_united : (spelling program known).United :=
  noting_united (bearing_united _)

section

variable (spells : ∀ block : Block, block.Within program.statements →
    ∀ stmt ∈ block, stmt.Among known)
  (honest : host.Honest)
  (passes : ∀ {moment m}, (spelling program known).Inv m →
    (spelling program known).Arises moment m → observe moment m = .ok () m)

include spells honest passes

theorem spelling_hooks (bound : Nat) :
    (spelling program known).Hooks (observedEvaluator observe settings host bound)
      (observedEvaluator observe settings host bound) := by
  have hereditary : (bearing (spelled program known)).Hereditary := by
    refine ⟨fun {_ _ _ _} issued among held => Issued.step issued among held, ?_⟩
    rintro _ block stmt ⟨_, same, within⟩ among
    cases List.mem_singleton.mp (List.mem_of_getElem? same)
    exact spells block within stmt among
  exact noting_hooks (bearing_laws _ honest)
    (bearing_scoping _).toDraining (bearing_united _) hereditary bearing_entering passes bound

theorem spelling_statements (world : World) (bound : Nat) :
    (spelling program known).Sound (Run.begin settings program (.initial world))
      ((spelling program known).GoodEnd (spelling program known).GoodSignal)
      (Run.statements (observedEvaluator observe settings host bound) program.statements)
      (Run.statements (observedEvaluator observe settings host bound) program.statements) := by
  have issued := Run.begin_issued (.initial world) settings program
  have carries :
      (Run.begin settings program (.initial world)).Carries (spelled program known).Good :=
    (Machine.Carries.initial world).same ⟨rfl, rfl, rfl, rfl, rfl, rfl⟩
  exact (spelling_hooks spells honest passes bound).statements_sound spelling_united.1
    (noting_draining (bearing_scoping _).toDraining)
    (noting_registering (bearing_scoping _) fun _ _ _ => trivial)
    ⟨⟨rfl, carries, nofun⟩, trivial⟩ issued (fun _ among _ held => issued.step among held)
      (spells _ .self)

end

end Discipline

section Runs

open Discipline

variable {settings : Settings} {host : Host} {world : World} {program : Program} {bound : Nat}
    {known : Token → Prop}
  (spells : ∀ block : Block, block.Within program.statements → ∀ stmt ∈ block, stmt.Among known)
  (honest : host.Honest)

include spells honest

theorem Interpreter.stands_of_work {final : Machine}
    (ended : (Interpreter.new host settings world).work bound program =
      .ok (.error (.error error)) final ∨
      (Interpreter.new host settings world).work bound program =
        .error (.broken (.error error)) final) :
    error.location ≠ none ∧ error.Stands known := by
  have places :=
    @Run.statements_places settings host bound (Run.begin settings program (.initial world))
    program.statements
  have sound : (spelling program known).Sound _ _
      (Run.statements (evaluator settings host bound) program.statements) _ :=
    spelling_statements spells honest (fun _ _ => rfl) world bound
  refine ⟨ended.elim (fun ended => places.1 _ _ ended error rfl) (places.2 error final), ?_⟩
  rcases ended with ended | ended
  · have ends : (spelling program known).Ends _ _
        ((Interpreter.new host settings world).work bound program) :=
      Agree.ends spelling_united sound
    rw [ended] at ends
    exact ends.2.2.2
  · exact (sound.allows spelling_united ended).2

/-- A statement that a run comes to execute is one of the program. -/
theorem Interpreter.Executes.spelled {stmt : Stmt}
    (executes : (Interpreter.new host settings world).Executes bound program stmt m) :
    (spelling program known).Inv m ∧
      ∀ inner ∈ stmt.blocks, (spelling program known).Code m inner := by
  refine Classical.byContradiction fun other => ?_
  have passes {moment : Moment} {now : Machine} (inv : (spelling program known).Inv now)
      (arises : (spelling program known).Arises moment now) :
      assertion (Moment.Spares fun other now => other = stmt ∧ now = m) moment now =
          .ok () now := by
    refine assertion_holds ?_
    rintro _ rfl ⟨rfl, rfl⟩
    exact other ⟨inv, arises⟩
  exact (spelling_statements spells honest passes world bound).unstopped spelling_united m executes

theorem Interpreter.Executes.stands {stmt : Stmt} {body : Block}
    {handler : Option (CatchClause Block)} {cleanup : Option Block} {fuel : Nat} {final : Machine}
    (executes : (Interpreter.new host settings world).Executes bound program stmt m)
    (kind : stmt.kind = .attempt body handler cleanup)
    (failed : Exec.attempt ((evaluator settings host fuel).exec body) m =
      .ok (.error (.error error)) final) :
    error.location ≠ none ∧ error.Stands known := by
  obtain ⟨inv, code⟩ := executes.spelled spells honest
  have held : body ∈ stmt.blocks := by simp [Stmt.blocks, kind, StmtKind.blocks]
  have sound : (spelling program known).Sound m _ ((evaluator settings host fuel).exec body) _ :=
    (spelling_hooks spells honest (fun _ _ => rfl) fuel).exec inv (code body held)
  have ended :
      (evaluator settings host fuel).exec body m = .error (.broken (.error error)) final := by
    unfold Exec.attempt at failed
    split at failed <;> cases failed
    assumption
  exact ⟨evaluator_exec_places.attempt.1 _ _ failed error rfl,
    (sound.allows spelling_united ended).2⟩

end Runs

/-- A token is one of those of a source: it has a line and a column, and it lies within the source.
-/
structure Token.IsOf (token : Token) (source : String) : Prop where
  scanned : ∃ tokens, scan {} source = .ok tokens ∧ token ∈ tokens
  line : 1 ≤ token.position.line
  column : 1 ≤ token.position.column
  ordered : token.span.start ≤ token.span.stop
  within : token.span.stop ≤ source.utf8ByteSize

theorem Token.isOf_of_scan {source : String} {tokens : List Token} {token : Token}
    (scanned : scan {} source = .ok tokens) (among : token ∈ tokens) : token.IsOf source := by
  obtain ⟨all, read, kept⟩ := Results.of_bind scanned
  cases kept
  obtain ⟨gap, chars, after, whole, stands⟩ :=
    (Scan.covers_of_scanAll read).stands (List.mem_of_mem_filter among)
  have size : source.utf8ByteSize = byteLength (gap ++ chars) + byteLength after := by
    rw [← byteLength_append, ← whole, ← utf8ByteSize_ofList, String.ofList_toList]
  rw [List.nil_append] at stands
  refine ⟨⟨_, scanned, among⟩, ?_, ?_, ?_, ?_⟩
  · rw [stands.position_eq]
    exact Nat.le_add_left 1 _
  · rw [stands.position_eq]
    exact Nat.le_add_left 1 _
  · rw [stands.span_eq, byteLength_append]
    exact Nat.le_add_right _ _
  · rw [stands.span_eq, size]
    exact Nat.le_add_right _ _

/-- A handler is told where an error stands: its variable gets a new record with a line and a
column. -/
def Evaluator.Tells (clause : CatchClause Block) (name : String) (error : RuntimeError)
    (m : Machine) (position : Position) : Prop :=
  ∃ ref made, Exec.newRecord (Evaluator.errorRecord error) m = .ok (.record ref) made ∧
    Evaluator.enterHandler clause error m =
      Exec.change (fun m => m.setVariable name (.record ref)) made ∧
    (made.heap.record ref).get? "line" = some (.number position.line.toFloat) ∧
    (made.heap.record ref).get? "column" = some (.number position.column.toFloat)

theorem Evaluator.tells_of_location {name : String} {place : Location} {clause : CatchClause Block}
    (named : clause.errorName = some name)
    (located : error.location = some place) :
    Evaluator.Tells clause name error m place.position := by
  let record := Evaluator.errorRecord error
  let made : Machine := { m with heap := (m.heap.newRecord record).2 }
  have found : made.heap.record ⟨m.heap.records.size⟩ = record := by
    simp only [made, Heap.newRecord, Heap.record, Array.getD_eq_getD_getElem?,
      Array.getElem?_push_size, Option.getD_some]
  refine ⟨⟨m.heap.records.size⟩, made, rfl, ?_, ?_, ?_⟩
  · unfold Evaluator.enterHandler
    rw [named]
    rfl
  · have message : Text.sameName "message" "line" = false := by decide
    have code : Text.sameName "code" "line" = false := by decide
    have line : Text.sameName "line" "line" = true := by decide
    rw [found]
    simp only [record, Evaluator.errorRecord, located, Record.get?, Record.field?, List.find?_cons,
      message, code, line, Option.map_some]
  · have message : Text.sameName "message" "column" = false := by decide
    have code : Text.sameName "code" "column" = false := by decide
    have line : Text.sameName "line" "column" = false := by decide
    have column : Text.sameName "column" "column" = true := by decide
    rw [found]
    simp only [record, Evaluator.errorRecord, located, Record.get?, Record.field?, List.find?_cons,
      message, code, line, column, Option.map_some]

/-- Errors stand at tokens. If the run of a source on a new interpreter fails, then its error has
the place of a token of the source, except where the statements of the program ended with an `EXIT`
or `CONTINUE` that no loop took; this error has no place. And whenever a run executes a `TRY`
statement, an error of its block has the place of a token of the source, and the record that a
handler gets has its line and column. -/
theorem errors_stand_at_tokens {host : Host} (honest : host.Honest) {source : String}
    {program : Program} (parsed : Program.parse source = .ok program) (settings : Settings)
    (world : World) (bound : Nat) :
    (∀ error next, (Interpreter.new host settings world).runWithin bound program =
      (.failed error, next) →
        (∃ token : Token, token.IsOf source ∧ error.location = some token.location) ∨
        ∃ signal final, (Interpreter.new host settings world).work bound program =
          .ok (.ok signal) final ∧ Run.haltOf signal = .error error.fault ∧ error.location = none) ∧
    ∀ stmt machine, (Interpreter.new host settings world).Executes bound program stmt machine →
      ∀ body clause cleanup, stmt.kind = .attempt body (some clause) cleanup →
        ∀ fuel error final,
          Exec.attempt ((evaluator settings host fuel).exec body) machine =
            .ok (.error (.error error)) final →
          ∃ token : Token, token.IsOf source ∧ error.location = some token.location ∧
            ∀ name, clause.errorName = some name →
              Evaluator.Tells clause name error final token.position := by
  obtain ⟨tokens, scanned, parsed⟩ := Results.of_bind parsed
  have scanned := Results.of_mapError scanned
  have spells := fun block => @Program.among_of_ofTokens _ _ (Results.of_mapError parsed) block
  constructor
  · intro error next ran
    have stands {final : Machine}
        (ended : (Interpreter.new host settings world).work bound program =
          .ok (.error (.error error)) final ∨
          (Interpreter.new host settings world).work bound program =
            .error (.broken (.error error)) final) :
        ∃ token : Token, token.IsOf source ∧ error.location = some token.location := by
      obtain ⟨token, among, located⟩ :=
        RuntimeError.exists_token (Interpreter.stands_of_work spells honest ended)
      exact ⟨token, Token.isOf_of_scan scanned among, located⟩
    refine (Interpreter.runWithin_failed_cases ran).imp_left ?_
    rintro ⟨final, ended⟩
    exact stands ended
  · intro stmt machine executes body clause cleanup kind fuel error final failed
    obtain ⟨token, among, located⟩ :=
      RuntimeError.exists_token (executes.stands spells honest kind failed)
    exact ⟨token, Token.isOf_of_scan scanned among, located,
      fun name named => Evaluator.tells_of_location named located⟩

/-- A source whose second line raises an error, whose handler raises another one. -/
def failingCaller : String :=
  "TRY\nERROR \"x\"\nCATCH e\nERROR e.message\nEND TRY"

/-- The program of that source. -/
def failingCallerProgram : Program :=
  .ofSource failingCaller

/-- The error that a run failed with, if it did. -/
def RunResult.error? : RunResult → Option RuntimeError
  | failed error => some error
  | _ => none

theorem RunResult.of_error? {result : RunResult} (found : result.error? = some error) :
    result = .failed error := by
  cases result <;> cases found
  rfl

/-- The run of that source fails at the token of the second `ERROR`, in line 4. -/
theorem errors_stand_at_tokens_in_handler :
    ∃ (error : RuntimeError) (next : Interpreter) (token : Token),
      Program.parse failingCaller = .ok failingCallerProgram ∧
        (Interpreter.new .standard {} .still).runWithin 30 failingCallerProgram =
          (.failed error, next) ∧
        token.IsOf failingCaller ∧ error.location = some token.location ∧
          token.position = ⟨4, 1⟩ := by
  have parsed : Program.parse failingCaller = .ok failingCallerProgram :=
    Program.parse_ofSource (by decide +kernel)
  have place :
    ((Interpreter.new .standard {} .still).runWithin 30 failingCallerProgram).1.error?.bind
      RuntimeError.location = some ⟨⟨22, 27⟩, ⟨4, 1⟩⟩ := by
    decide +kernel
  have stands := (errors_stand_at_tokens Host.standard_honest parsed {} .still 30).1
  revert place stands
  generalize (Interpreter.new .standard {} .still).runWithin 30 failingCallerProgram = ran
  intro place stands
  obtain ⟨result, next⟩ := ran
  obtain ⟨error, failed, located⟩ := Option.bind_eq_some_iff.mp place
  cases RunResult.of_error? failed
  rcases stands error next rfl with ⟨token, isToken, stands⟩ | ⟨_, _, _, _, unplaced⟩
  · exact ⟨error, next, token, parsed, rfl, isToken, stands,
      congrArg Location.position (Option.some.inj (stands.symm.trans located))⟩
  · cases unplaced.symm.trans located

/-- Where the statements of a program end with an `EXIT` that no loop takes, the error has no place.
-/
theorem stray_exit_has_no_place :
    (((Program.parse "EXIT FOR").toOption.bind fun program =>
      ((Interpreter.new .standard {} .still).runWithin 10 program).1.error?).map fun error =>
        (error.location, error.report)) =
          some (none, "Runtime error: EXIT FOR outside of a loop") := by
  decide +kernel

end MicroBasic
