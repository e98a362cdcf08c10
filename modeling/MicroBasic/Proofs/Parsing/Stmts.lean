import MicroBasic.Proofs.Parsing.Exprs

/-!
# Statements side by side

The parsers of statements without inner blocks read two sequences of tokens in step.
-/

namespace MicroBasic

open MicroBasic.Parser (Crosses Follows Stops)

namespace StmtParser

variable {α β : Type} {id : Nat}

theorem discard_lift_bind {parser : Parser α} {rest : PUnit → StmtParser β} :
    (discard (liftM parser) >>= rest) id = parser >>= fun _ => rest ⟨⟩ id := by
  funext c
  change Except.bind (Except.bind (Except.bind (parser c) fun read => .ok ((read.1, id), read.2))
    fun read => .ok ((PUnit.unit, read.1.2), read.2)) _ = _
  simp only [Bind.bind, StateT.bind]
  cases parser c <;> rfl

theorem skipColons_bind {c : Cursor} {rest : Unit → StmtParser β} :
    (liftM Parser.skipColons >>= rest) id c =
    rest () id (c.skip (TokenKind.isSymbol .colon)) :=
  rfl

theorem ok_bind {value : α} {count : Nat} {γ : Type} {rest : α → StmtParser γ}
    {parser : StmtParser α} {c after : Cursor} (read : parser id c = .ok ((value, count), after)) :
    (parser >>= rest) id c = rest value count after := by
  change Except.bind (parser id c) _ = _
  rw [read]
  rfl

end StmtParser

namespace Parser.Crosses

variable {α β γ : Type} {view : View} {room room' wide wide' count most id id' : Nat}
  {likewise : β × Nat → β × Nat → Prop} {further : List Token → β × Nat → Cursor → β × Nat → Prop}

theorem lifted {parser parser' : Parser α} {rest rest' : α → StmtParser β}
    (crosses : Crosses view room room' count likewise further
      (parser >>= fun value => rest value id) (parser' >>= fun value => rest' value id')) :
    Crosses view room room' count likewise further ((liftM parser >>= rest) id)
      ((liftM parser' >>= rest') id') := by
  rwa [StmtParser.lift_bind, StmtParser.lift_bind]

theorem mapped {parser parser' : Parser α} {function : α → γ} {rest rest' : γ → StmtParser β}
    (crosses : Crosses view room room' count likewise further
      (parser >>= fun value => rest (function value) id)
      (parser' >>= fun value => rest' (function value) id')) :
    Crosses view room room' count likewise further ((function <$> liftM parser >>= rest) id)
      ((function <$> liftM parser' >>= rest') id') := by
  rw [bind_map_left, bind_map_left]
  exact lifted crosses

theorem passed {parser parser' : Parser α} {rest rest' : PUnit → StmtParser β}
    (crosses : Crosses view room room' count likewise further (parser >>= fun _ => rest ⟨⟩ id)
      (parser' >>= fun _ => rest' ⟨⟩ id')) :
    Crosses view room room' count likewise further ((Functor.discard (liftM parser) >>= rest) id)
      ((Functor.discard (liftM parser') >>= rest') id') := by
  rwa [StmtParser.discard_lift_bind, StmtParser.discard_lift_bind]

theorem given {value result : α} {rest rest' : α → StmtParser β}
    (crosses : Crosses view room room' count likewise further (rest value id) (rest' result id')) :
    Crosses view room room' count likewise further ((Pure.pure value >>= rest) id)
      ((Pure.pure result >>= rest') id') :=
  crosses

theorem result {value result : β} (holds : likewise (value, id) (result, id')) :
    Crosses view room room' 0 likewise further ((Pure.pure value : StmtParser β) id)
      ((Pure.pure result : StmtParser β) id') :=
  .pure holds

section Sequences

variable {related : α × Nat → α × Nat → Prop}
    {allowed : List Token → α × Nat → Cursor → α × Nat → Prop}
  {parser parser' : StmtParser α} {rest rest' : α → StmtParser β}

theorem seq (first : Follows view wide wide' count related (parser id) (parser' id'))
    (fits : room ≤ wide ∧ room' ≤ wide')
    (later : ∀ {value result next next'}, related (value, next) (result, next') →
      Crosses view (room - count) (room' - count) (most - count) likewise further (rest value next)
        (rest' result next')) :
    Crosses view room room' most likewise further ((parser >>= rest) id)
      ((parser' >>= rest') id') :=
  .call first fits later

variable (first : Crosses view wide wide' count related allowed (parser id) (parser' id'))
  (fits : room ≤ wide ∧ room' ≤ wide')
  (later : ∀ {value result next next'}, related (value, next) (result, next') →
    Crosses view (room - count) (room' - count) (most - count) likewise further (rest value next)
      (rest' result next'))

include first fits later

theorem joins (ended : ∀ {course : Course view.moves} {c value after result final},
      course.Ends allowed value after result final →
        course.Matches view.known c most likewise further
        (rest value.1 value.2 after) (rest' result.1 result.2 final)) :
    Crosses view room room' most likewise further ((parser >>= rest) id)
      ((parser' >>= rest') id') :=
  .meets first fits later ended

theorem closes (stops : ∀ {result next}, (rest' result next).Stops) :
    Crosses view room room' most likewise further ((parser >>= rest) id)
      ((parser' >>= rest') id') :=
  .shut first fits later stops

end Sequences

theorem finish {start : Nat} {token token' : Token} {kind kind' : StmtKind Block}
    {further : List Token → Stmt × Nat → Cursor → Stmt × Nat → Prop}
    (heads : view.Tokens token token') (numbered : Numbered view.known start kind.blocks id)
    (orderly : kind.Orderly view.known)
    (outline : kind.outline view.moves.first = kind'.outline view.moves.second)
    (shapes : kind.blocks.map (Block.shape view.moves.first) =
      kind'.blocks.map (Block.shape view.moves.second)) :
    Crosses view room room' 0 (view.Counted start fun stmt => [[stmt]]) further
      (Parser.finish token kind id) (Parser.finish token' kind' id') := by
  refine .pure ⟨.cons ⟨heads.known, orderly⟩ numbered (.skip .nil), ?_⟩
  change Stmt.shape _ _ = Stmt.shape _ _
  rw [Stmt.shape_eq, Stmt.shape_eq]
  have tokens : token.moved view.moves.first = token'.moved view.moves.second := heads.alike
  simp only [Stmt.token, Stmt.lineNumber, Stmt.label, Stmt.kind, Stmt.blocks, outline,
    shapes, tokens]

end Parser.Crosses

namespace Parse

open MicroBasic.Parser

variable {nested nested' : Nested} {view : View} {token token' : Token}
    {room room' fuel fuel' : Nat}

section Parts

theorem asCall_follows {expr expr' : Expr} (exprs : view.Exprs expr expr') :
    Follows view room room' 0 view.Exprs (asCall expr) (asCall expr') := by
  cases expr with
  | call =>
    obtain ⟨_, _, _, rfl⟩ := Expr.exists_of_alike_call exprs.alike
    exact .pure exprs
  | name =>
    obtain ⟨_, rfl, tokens⟩ := Expr.exists_of_alike_name exprs.alike
    exact .pure ⟨exprs.known, exprs.told, Expr.alike_call tokens exprs.alike rfl⟩
  | member =>
    obtain ⟨_, _, rfl, tokens⟩ := Expr.exists_of_alike_member exprs.alike
    exact .pure ⟨exprs.known, trivial, Expr.alike_call tokens exprs.alike rfl⟩
  | _ => exact .failAt exprs.known nofun

theorem printSeparator_follows : Follows view room room' 0 Eq printSeparator printSeparator :=
  .accept (.pure rfl) (.accept (.pure rfl) (.pure rfl))

theorem optionalName_follows : Follows view room room' 0 Eq optionalName optionalName := by
  refine .get fun reach => reach.byKind (fun kind passing => ?_) (reach.pure rfl)
  cases kind with
  | name value => exact (passing rfl).pass fun _ => .pure rfl
  | _ => exact reach.pure rfl

theorem optionalType_follows : Follows view room room' 0 view.Types optionalType optionalType := by
  refine .acceptWord ?_ (.pure ⟨rfl, nofun⟩)
  rw [if_pos rfl, typeSpec, map_bind]
  refine .expectAnyName fun word token _ named tokens => .pure ⟨rfl, ?_⟩
  rintro _ ⟨⟩
  exact ⟨token, word, tokens.known, named, rfl⟩

theorem inputPrompt_follows : Follows view room room' 0 Eq inputPrompt inputPrompt := by
  refine .get fun {_ c c'} reach => reach.byKind (fun kind passing => ?_) (reach.pure rfl)
  cases kind with
  | text value =>
    have next := (passing rfl).next
    have same (mark : Symbol) : c'.second.kind.isSymbol mark = c.second.kind.isSymbol mark :=
      next.isAt mark
    rw [same, same]
    split
    · next separated =>
      have plain : c.next.kind.isPlain = true := by
        rcases Bool.or_eq_true_iff.mp separated with here | here
        · exact @Cursor.plain_of_isAt c.next _ here
        · exact @Cursor.plain_of_isAt c.next _ here
      exact .inl ⟨Cursor.beyond_next.trans Cursor.beyond_next, rfl, (next.passes plain).next⟩
    · exact reach.pure rfl
  | _ => exact reach.pure rfl

theorem caseOperator_follows : Follows view room room' 0 Eq caseOperator caseOperator := by
  refine .get fun reach => reach.byKind (fun kind passing => ?_) (reach.fails nofun)
  cases kind with
  | symbol mark =>
    cases mark
    case equal | notEqual | less | greater | lessEqual | greaterEqual =>
      exact .inl ⟨Cursor.beyond_next, rfl, (passing rfl).next⟩
    all_goals exact reach.fails nofun
  | _ => exact reach.fails nofun

end Parts

section Words

variable (heads : view.Tokens token token')

include heads

theorem nextStatement_follows :
    view.Statements room room' 0 (nextStatement token) (nextStatement token') :=
  .lifted (.bind optionalName_follows fun names => .finish heads .nil trivial
    (congrArg StmtKind.next names) rfl)

theorem exitStatement_follows :
    view.Statements room room' 0 (exitStatement token) (exitStatement token') := by
  have exits (kind : ExitKind) {room room' : Nat} :
      view.Statements room room' 0 (finish token (.exit kind)) (finish token' (.exit kind)) :=
    .finish heads .nil trivial rfl rfl
  intro id id'
  refine .lifted (.get fun reach => ?_)
  refine reach.byKind (fun kind passing => ?_) (reach.fails nofun)
  cases kind with
  | keyword word =>
    cases word
    case FOR | WHILE | DO | SUB | FUNCTION => exact (passing rfl).leads (exits _)
    all_goals exact reach.fails nofun
  | _ => exact reach.fails nofun

theorem continueStatement_follows :
    view.Statements room room' 0 (continueStatement token) (continueStatement token') := by
  have goesOn (kind : Option LoopKind) {room room' : Nat} :
      view.Statements room room' 0 (finish token (.continueLoop kind))
          (finish token' (.continueLoop kind)) :=
    .finish heads .nil trivial rfl rfl
  intro id id'
  refine .lifted (.get fun reach => ?_)
  refine reach.byKind (fun kind passing => ?_) (reach.reads (goesOn none))
  cases kind with
  | keyword word =>
    cases word
    case FOR | WHILE | DO => exact (passing rfl).leads (goesOn _)
    all_goals exact reach.reads (goesOn none)
  | _ => exact reach.reads (goesOn none)

theorem spawnStatement_follows :
    view.Statements room room' 0 (spawnStatement token) (spawnStatement token') := by
  have spawns (name : String) {room room' : Nat} :
      view.Statements room room' 0 (finish token (.spawn name)) (finish token' (.spawn name)) :=
    .finish heads .nil trivial rfl rfl
  intro id id'
  refine .lifted (.get fun reach => ?_)
  refine reach.byKind (fun kind passing => ?_) (reach.fails nofun)
  cases kind with
  | name name | text name => exact (passing rfl).leads (spawns name)
  | _ => exact reach.fails nofun

end Words

variable (follow : nested.Follow view room room' nested')

include follow

theorem assignOrCall_follows :
    view.Statements (room + 1) (room' + 1) 1 (assignOrCall nested) (assignOrCall nested') := by
  intro id id'
  refine .lifted (.current fun {_ c _} reach => ?_)
  cases plain : c.kind.isPlain with
  | false =>
    rw [StmtParser.lift_bind, operand, error_bind (error_bind (primary_fails plain))]
    exact reach.fails nofun
  | true =>
    have heads := (reach.passing plain).tokens
    refine reach.reads (.lifted (.bind (operand_follows follow) fun {target _} targets => ?_))
    refine .lifted (.accept ?_ ?_)
    · rw [Expr.isPlace_of_alike targets.alike]
      cases target.isPlace with
      | false => exact .failAt targets.known nofun
      | true =>
        exact .lifted (.call (expression_follows follow) (by omega) fun values =>
          .finish heads .nil trivial
            (congrArg₂ (StmtKind.assign · · false) targets.alike values) rfl)
    · exact .lifted (.bind (asCall_follows targets) fun calls =>
        .finish heads .nil calls.told (congrArg StmtKind.call calls.alike) rfl)

theorem printItems_follows : Follows view (min (room + 1) fuel) (min (room' + 1) fuel') 1 view.Alike
    (printItems nested fuel) (printItems nested' fuel') := by
  induction fuel, fuel' using Course.byRounds with
  | first => exact .empty
  | second => exact .emptyOther
  | both fuel fuel' ih =>
    refine .call (expression_follows follow) (by omega) fun {expr expr'} exprs =>
      .bind printSeparator_follows fun {separator _} same => ?_
    obtain rfl := same
    have item : view.Alike (PrintItem.mk expr separator) (PrintItem.mk expr' separator) :=
      congrArg (PrintItem.mk · separator) exprs
    split
    · exact .pure (congrArg (fun item => ([item], true)) item)
    · refine .get fun reach => ?_
      rw [reach.isAtStatementEnd, reach.isAtWord]
      split
      · exact reach.pure (congrArg (fun item => ([item], false)) item)
      · exact reach.reads
          (.call ih (by omega) fun items => .pure (congrArg₂ Prod.mk (congrArg₂ List.cons item
          (Prod.mk.inj items).1) (Prod.mk.inj items).2))

theorem inputTargets_follows :
    Follows view (min (room + 1) fuel) (min (room' + 1) fuel') 1 view.Alike
    (inputTargets nested fuel) (inputTargets nested' fuel') := by
  induction fuel, fuel' using Course.byRounds with
  | first => exact .empty
  | second => exact .emptyOther
  | both fuel fuel' ih =>
    refine .call (operand_follows follow) (by omega) fun {target _} targets => ?_
    rw [Expr.isPlace_of_alike targets.alike]
    split
    · exact .accept
        (.call ih (by omega) fun others => .pure (congrArg₂ List.cons targets.alike others))
        (.pure (congrArg (fun target => [target]) targets.alike))
    · exact .failAt targets.known nofun

theorem loopCondition_follows :
    Follows view room room' 0 view.Alike (loopCondition nested) (loopCondition nested') := by
  refine .get fun reach => reach.byKind (fun kind passing => ?_) (reach.pure rfl)
  cases kind with
  | keyword word =>
    cases word
    case WHILE | UNTIL =>
      exact (passing rfl).pass fun _ =>
          .call (expression_follows follow) (by omega) fun conditions =>
        .pure (congrArg (fun condition => some (LoopCondition.mk _ condition)) conditions)
    all_goals exact reach.pure rfl
  | _ => exact reach.pure rfl

theorem caseTest_follows :
    Follows view (room + 1) (room' + 1) 1 view.Alike (caseTest nested) (caseTest nested') := by
  refine .get fun reach => ?_
  rw [reach.isAtSoftWord]
  split
  · exact (reach.passing (Cursor.plain_of_isAtSoftWord ‹_›)).pass fun _ =>
        .bind caseOperator_follows fun ops =>
      .call (expression_follows follow) (by omega) fun values =>
        .pure (congrArg₂ CaseTest.compare ops values)
  · exact reach.reads (.bind (expression_follows follow) fun lows => .acceptWord
      (.call (expression_follows follow)
        (by omega) fun highs => .pure (congrArg₂ CaseTest.range lows highs))
      (.pure (congrArg CaseTest.value lows)))

theorem caseTests_follows : Follows view (min (room + 1) fuel) (min (room' + 1) fuel') 1 view.Alike
    (caseTests nested fuel) (caseTests nested' fuel') := by
  induction fuel, fuel' using Course.byRounds with
  | first => exact .empty
  | second => exact .emptyOther
  | both fuel fuel' ih =>
    refine .call (caseTest_follows follow) (by omega) fun tests => .accept ?_ ?_
    · exact .call ih (by omega) fun others => .pure (congrArg₂ List.cons tests others)
    · exact .pure (congrArg (fun test => [test]) tests)

omit follow in
theorem parameter_stops {earlier : List Param} : (parameter nested earlier).Stops := by
  refine .skip (.acceptWord (.get fun final => ?_))
  rw [final.isAtSoftWord]
  exact Stops.bind .expectName _ _ final

theorem parameter_follows {earlier earlier' : List Param} (params : view.Params earlier earlier') :
    Follows view room room' 1
    (fun param param' => view.Params (earlier ++ [param]) (earlier' ++ [param']))
    (parameter nested earlier) (parameter nested' earlier') := by
  refine .skipping (.bind .optionalWord fun {byRef _} same => .get fun reach => ?_) parameter_stops
  obtain rfl := same
  rw [reach.isAtSoftWord]
  refine reach.passIf
    (fun found => Cursor.plain_of_isAtSoftWord (Bool.and_eq_true_iff.mp found).2) ?_
  refine .expectName fun name {place place'} places => ?_
  dsimp only
  rw [Param.any_of_alike params.alike (fun param => param.variadic) fun _ _ => rfl,
    Param.any_of_alike params.alike (fun param => Text.sameName param.name name) fun _ _ => rfl]
  split
  · exact .failAt places.known nofun
  next alone =>
  have single : ∀ other ∈ earlier, other.variadic = false := by simpa using alone
  split
  · exact .failAt places.known nofun
  next unused =>
  have different : ∀ other ∈ earlier, Text.sameName other.name name = false := by simpa using unused
  refine .bind .optional fun {variadic _} same =>
    .bind optionalType_follows fun {type _} types => ?_
  obtain rfl := same
  obtain rfl := types.same
  have made {default default' : Option Expr} (values : view.Alike default default')
    {room room' : Nat} :
      Follows view room room' 0
        (fun param param' => view.Params (earlier ++ [param]) (earlier' ++ [param']))
      (if (variadic && (byRef || default.isSome)) = true then failAt place .variadicForm
        else pure (Param.mk name byRef type default variadic))
      (if (variadic && (byRef || default'.isSome)) = true then failAt place' .variadicForm
        else pure (Param.mk name byRef type default' variadic)) := by
    rw [Tree.isSome_of_alike values]
    split
    · exact .failAt places.known nofun
    · next form =>
      have last : view.Alike (Param.mk name byRef type default variadic)
          (Param.mk name byRef type default' variadic) :=
        congrArg (Param.mk name byRef type · variadic) values
      refine .pure ⟨params.orderly.concat single different fun collects => ?_,
        List.forall_mem_append.mpr ⟨params.told, List.forall_mem_singleton.mpr types.told⟩,
          Tree.alike_concat params.alike last⟩
      simpa [show variadic = true from collects, and_comm] using form
  exact .accept (.call (.some (expression_follows follow)) (by omega) fun values => made values)
    (.pure_bind (made .none))

theorem parametersFrom_follows {earlier earlier' : List Param}
    (params : view.Params earlier earlier') :
    Follows view (min room fuel)
      (min room' fuel') 1 view.Params (parametersFrom nested fuel earlier)
      (parametersFrom nested' fuel' earlier') := by
  induction fuel, fuel' using Course.byRounds generalizing earlier earlier' with
  | first => exact .empty
  | second => exact .emptyOther
  | both fuel fuel' ih =>
    refine .call (parameter_follows follow params) (by omega) fun all => ?_
    refine .closed .skip (fun _ => .accept (.mono (ih all) (by omega)) ?_)
      (.accept (.bind (.discard .expect)))
    exact .bind (.discard .expect) fun _ => .pure all

theorem parameters_follows :
    Follows view room room' 0 view.Params (parameters nested) (parameters nested') := by
  have start : view.Params [] [] := ⟨Param.orderly_nil, nofun, rfl⟩
  refine .accept (.closed .skip (fun _ => .accept (.pure start) ?_)
    (.accept (.rounds fun fuel => ?_))) (.pure start)
  · exact .rounds fun _ _ => .mono (parametersFrom_follows follow start) (by omega)
  · cases fuel with
    | zero => exact .fail
    | succ fuel => exact .bind parameter_stops

section

variable (heads : view.Tokens token token')

include heads

theorem letStatement_follows :
    view.Statements room room' 0 (letStatement nested token) (letStatement nested' token') := by
  refine .lifted (.call (operand_follows follow) (by omega) fun targets => ?_)
  rw [Expr.isPlace_of_alike targets.alike]
  split
  · exact .passed
        (.bind .expect fun _ => .lifted (.call (expression_follows follow) (by omega) fun values =>
      .finish heads .nil trivial (congrArg₂ (StmtKind.assign · · true) targets.alike values) rfl))
  · exact .failAt targets.known nofun

theorem callStatement_follows :
    view.Statements room room' 0 (callStatement nested token) (callStatement nested' token') :=
  .lifted (.call (operand_follows follow)
      (by omega) fun targets => .lifted (.bind (asCall_follows targets) fun calls =>
    .finish heads .nil calls.told (congrArg StmtKind.call calls.alike) rfl))

theorem printStatement_follows :
    view.Statements room room' 0 (printStatement nested token) (printStatement nested' token') := by
  refine .lifted (.get fun reach => ?_)
  rw [reach.isAtStatementEnd, reach.isAtWord]
  split
  · exact reach.reads (.finish heads .nil trivial rfl rfl)
  · exact reach.reads (.lifted
        (.rounds fun _ _ => .lifted (.call (printItems_follows follow) (by omega) fun items =>
      .finish heads .nil trivial
        (congrArg₂ StmtKind.print (Prod.mk.inj items).1 (Prod.mk.inj items).2) rfl)))

theorem inputStatement_follows :
    view.Statements room room' 0 (inputStatement nested token) (inputStatement nested' token') :=
  .lifted (.bind inputPrompt_follows fun prompts => .lifted (.rounds fun _ _ => .lifted
    (.call (inputTargets_follows follow) (by omega) fun targets =>
      .finish heads .nil trivial (congrArg₂ StmtKind.input prompts targets) rfl)))

theorem forStatement_follows :
    view.Statements room room' 0 (forStatement nested token) (forStatement nested' token') := by
  refine .lifted (.expectName fun var _ _ _ => .passed (.bind .expect fun _ => .lifted ?_))
  refine .call (expression_follows follow) (by omega) fun starts =>
    .passed (.bind .expectWord fun _ => .lifted ?_)
  refine .call (expression_follows follow) (by omega) fun limits =>
    .lifted (.acceptWord (.mapped ?_) ?_)
  · refine .call (expression_follows follow) (by omega) fun steps =>
      .finish heads .nil trivial ?_ rfl
    have parts := congr (congrArg₂ (@StmtKind.openFor Unit var) starts limits) (congrArg some steps)
    exact parts
  · exact .given
      (.finish heads .nil trivial (congrArg₂ (StmtKind.openFor var · · none) starts limits) rfl)

theorem raiseStatement_follows :
    view.Statements room room' 0 (raiseStatement nested token) (raiseStatement nested' token') := by
  refine .lifted
    (.call (expression_follows follow) (by omega) fun messages => .lifted (.accept (.mapped ?_) ?_))
  · exact .call (expression_follows follow) (by omega) fun codes =>
      .finish heads .nil trivial (congrArg₂ StmtKind.raise messages (congrArg some codes)) rfl
  · exact .given (.finish heads .nil trivial (congrArg (StmtKind.raise · none) messages) rfl)

theorem dimStatement_follows :
    view.Statements room room' 0 (dimStatement nested token) (dimStatement nested' token') := by
  refine .lifted
    (.expectName fun name _ _ _ => .lifted (.accept (.lifted ?_) (.given (.lifted ?_))))
  · refine .call (expression_follows follow) (by omega) fun sizes =>
      .passed (.bind .expect fun _ => .given (.lifted ?_))
    exact .bind optionalType_follows fun types =>
      .finish heads .nil trivial
        (congrArg₂ (StmtKind.dim name) (congrArg some sizes) types.same) rfl
  · exact .bind optionalType_follows fun types =>
      .finish heads .nil trivial (congrArg (StmtKind.dim name none) types.same) rfl

theorem returnStatement_follows :
    view.Statements room room' 0 (returnStatement nested token)
      (returnStatement nested' token') := by
  refine .lifted (.get fun reach => ?_)
  rw [reach.isAtStatementEnd, reach.isAtWord]
  split
  · exact reach.reads (.finish heads .nil trivial rfl rfl)
  · exact reach.reads (.lifted (.call (expression_follows follow) (by omega) fun values =>
      .finish heads .nil trivial
        (congrArg (fun value => StmtKind.returnValue (some value)) values) rfl))

end

end Parse

end MicroBasic
