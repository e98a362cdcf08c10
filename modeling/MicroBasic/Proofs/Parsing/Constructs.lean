import MicroBasic.Proofs.Parsing.Blocks

/-!
# Constructs side by side

Statements with inner blocks are read in step, hence all statements, and hence whole programs,
however deep they nest. What closes a block is not content with the end of a sequence, and fails
there.
-/

namespace MicroBasic

open MicroBasic.Parser (Crosses Follows Stops)

namespace Parse

open MicroBasic.Parser

variable {nested nested' : Nested} {view : View} {token token' : Token}
    {room room' start id id' fuel fuel' : Nat}

/-- What closes a construct, and the statement that is finished behind it. -/
theorem closing_follows {word : Keyword} {kind kind' : StmtKind Block}
    (heads : view.Tokens token token') (numbered : Numbered view.known start kind.blocks id)
    (orderly : kind.Orderly view.known)
    (outline : kind.outline view.moves.first = kind'.outline view.moves.second)
    (shapes : kind.blocks.map (Block.shape view.moves.first) =
      kind'.blocks.map (Block.shape view.moves.second)) :
    Follows view room room' 0 (view.Counted start fun stmt => [[stmt]])
      ((liftM (expectEnd word token) >>= fun _ => finish token kind) id)
      ((liftM (expectEnd word token') >>= fun _ => finish token' kind') id') :=
  .lifted (.bind expectEnd_follows fun _ => .finish heads numbered orderly outline shapes)

theorem closing_stops {word : Keyword} {rest : Unit → StmtParser Stmt} :
    Stops ((liftM (expectEnd word token) >>= rest) id) :=
  .lifted (.bind expectEnd_stops)

section Types

theorem spreadNames_follows :
    Follows view (min room fuel) (min room' fuel') 1 view.Names (spreadNames fuel)
      (spreadNames fuel') := by
  induction fuel, fuel' using Course.byRounds with
  | first => exact .empty
  | second => exact .emptyOther
  | both fuel fuel' ih =>
    refine .expectAnyName fun name _ _ _ tokens => .accept (.call ih (by omega) fun others => ?_) ?_
    · exact .pure (.cons ⟨rfl, tokens.known⟩ others)
    · exact .pure (.cons ⟨rfl, tokens.known⟩ .nil)

theorem spreadClause_follows :
    Follows view room room' 0 (Option.Rel view.Names) spreadClause spreadClause := by
  refine .get fun reach => ?_
  rw [reach.isAtSoftWord]
  split
  · exact (reach.passing (Cursor.plain_of_isAtSoftWord ‹_›)).pass fun _ =>
        .bind (.discard .expect) fun _ =>
      .rounds fun _ _ => .bind spreadNames_follows fun names => .bind (.discard .expect) fun _ =>
        .pure (.some names)
  · exact reach.pure .none

theorem checkSpread_follows {found others : List (String × Token)} {typeName : String}
    {fields : List FieldDecl} (names : view.Names found others) :
    Follows view room room' 0 (fun _ _ => found.map Prod.fst ⊆ fields.map FieldDecl.name)
      (checkSpread typeName fields found) (checkSpread typeName fields others) := by
  induction names with
  | nil => exact .pure (List.nil_subset _)
  | @cons name other found others first rest ih =>
    rw [checkSpread, checkSpread, ← first.1]
    split
    · next isField =>
      refine ih.imp (fun among => List.cons_subset.mpr ⟨?_, among⟩) id
      simpa using isField
    · exact .failAt first.2 nofun

theorem fieldsFrom_crosses {typeName : String} {fields : List FieldDecl}
    (distinct : (fields.map FieldDecl.name).Nodup) :
    Crosses view (min room fuel) (min room' fuel') 0
      (fun found other => found = other ∧ (found.map FieldDecl.name).Nodup) (fun _ _ _ _ => True)
      (fieldsFrom typeName fuel fields) (fieldsFrom typeName fuel' fields) := by
  induction fuel, fuel' using Course.byRounds generalizing fields with
  | first => exact .empty
  | second => exact .emptyOther
  | both fuel fuel' ih =>
    intro course c c' reach
    refine reach.separated (fun reach same => ?_) fun {after final} ended => ?_
    · rw [get_bind, get_bind, reach.isAtEndOf, Cursor.isAtFinish, Cursor.isAtFinish, same]
      split
      · exact reach.pure ⟨rfl, distinct⟩
      · refine reach.reads (.expectAnyName fun name _ _ _ tokens => ?_)
        dsimp only
        split
        · exact .failAt tokens.known (by simp)
        · next fresh =>
          refine .bind optionalType_follows fun types => ?_
          obtain rfl := types.same
          refine (ih ?_).mono (by omega)
          rw [List.map_append, List.map_singleton, ← List.concat_eq_append]
          exact distinct.concat (by simpa using fresh)
    · refine ended.idles fun c finish final => .inr ⟨fields, ?_⟩
      rw [get_bind, final.isAtEndOf, Cursor.isAtFinish, final.kind_eq]
      rfl

theorem typeStatement_follows (heads : view.Tokens token token') :
    view.Statements room room' 0 (typeStatement token) (typeStatement token') := by
  refine .lifted (.expectName fun name _ _ _ => .lifted
    (.bind spreadClause_follows fun {spread spread'} clauses => ?_))
  have names : view.Names (spread.getD []) (spread'.getD []) := by
    cases clauses with
    | none => exact .nil
    | some names => exact names
  have order : spread.map (fun names => names.map Prod.fst) = spread'.map fun names =>
      names.map Prod.fst := by
    cases clauses with
    | none => rfl
    | some found =>
      clear names
      refine congrArg some ?_
      induction found with
      | nil => rfl
      | cons first _ ih => exact congrArg₂ List.cons first.1 ih
  refine .lifted (.rounds fun _ _ => .lifted
    (.closed (fieldsFrom_crosses List.nodup_nil) (fun {fields _} same => ?_) closing_stops))
  obtain ⟨rfl, distinct⟩ := same
  refine .lifted
    (.bind expectEnd_follows fun _ => .lifted (.bind (checkSpread_follows names) fun among => ?_))
  refine .finish heads .nil ⟨distinct, ?_⟩
    (congrArg (fun order => StmtKind.type ⟨name, fields, order⟩) order) rfl
  cases spread with
  | none => exact List.nil_subset _
  | some => exact among

end Types

theorem accessor_follows : Follows view room room' 0 Eq accessor accessor := by
  refine .get fun reach => ?_
  rw [reach.isAtSoftWord, reach.isAtSoftWord]
  split
  · exact (reach.passing (Cursor.plain_of_isAtSoftWord ‹_›)).pass fun _ => .pure rfl
  split
  · exact (reach.passing (Cursor.plain_of_isAtSoftWord ‹_›)).pass fun _ => .pure rfl
  · exact reach.pure rfl

theorem blockEnd_endsBranch : BlockEnd endsBranch :=
  (blockEnd_isAtWord.either blockEnd_isAtWord).either blockEnd_isAtEndOf

theorem blockEnd_endsCase : BlockEnd endsCase :=
  blockEnd_isAtWord.either blockEnd_isAtEndOf

theorem casesFrom_stops {clauses : List (CaseClause Block)} {otherwise : Option Block} :
    Stops (casesFrom nested fuel clauses otherwise id) := by
  cases fuel with
  | zero => exact .fail
  | succ fuel =>
    refine .lifted (.skip (.lifted (.get fun final => ?_)))
    rw [final.isAtEndOf]
    exact Stops.lifted (.bind .expectWord) _ _ final

theorem elseIfBranches_idles : Idles (elseIfBranches nested fuel id) := by
  intro c finish final
  cases fuel with
  | zero => exact .inl (Stops.fail _ _ final)
  | succ fuel =>
    rw [elseIfBranches, StmtParser.lift_bind, acceptWord_bind, final.isAtWord]
    exact .inr ⟨_, rfl⟩

theorem catchClause_idles : Idles (catchClause nested id) := by
  intro c finish final
  rw [catchClause, StmtParser.lift_bind, acceptWord_bind, final.isAtWord]
  exact .inr ⟨_, rfl⟩

theorem present_of_alike {last last' : Option Block} (alike : view.Alike last last') :
    last.map (fun _ => ()) = last'.map fun _ => () :=
  @Tree.option_of_alike _ _ _ _ _ _ alike (fun _ _ => ()) (fun _ => ()) fun _ _ => rfl

section Blocks

variable (follow : nested.Follow view room room' nested')

include follow

/-- The last block of a construct, which may be missing, and what closes it. -/
theorem lastBlock_follows {earlier : List Block} {word closer : Keyword}
    {kind kind' : Option Block → StmtKind Block}
    (heads : view.Tokens token token') (numbered : Numbered view.known start earlier id)
    (blocks : ∀ last, (kind last).blocks = earlier ++ last.toList)
    (orderly : ∀ last, (kind last).Orderly view.known)
    (outline : ∀ {last last'}, view.Alike last last' →
      (kind last).outline view.moves.first = (kind' last').outline view.moves.second)
    (shapes : ∀ {last last'}, view.Alike last last' →
      (kind last).blocks.map (Block.shape view.moves.first) =
        (kind' last').blocks.map (Block.shape view.moves.second)) :
    Follows view room room' 0 (view.Counted start fun stmt => [[stmt]])
      ((do
        let last ←
          if ← acceptWord word then some <$> block nested (fun c => c.isAtEndOf closer)
          else pure none
        expectEnd closer token
        finish token (kind last) : StmtParser Stmt) id)
      ((do
        let last ←
          if ← acceptWord word then some <$> block nested' (fun c => c.isAtEndOf closer)
          else pure none
        expectEnd closer token'
        finish token' (kind' last) : StmtParser Stmt) id') := by
  refine .lifted (.acceptWord ?_
    (.given (closing_follows heads ?_ (orderly none) (outline .none) (shapes .none))))
  · rw [if_pos rfl, if_pos rfl, bind_map_left, bind_map_left]
    refine .closes (block_crosses follow blockEnd_isAtEndOf numbered) (by omega)
      (fun {last last' _ _} bodies => ?_) closing_stops
    have given : view.Alike (some last) (some last') := congrArg some bodies.alike
    exact closing_follows heads (blocks _ ▸ bodies.numbered) (orderly _) (outline given)
      (shapes given)
  · rw [blocks]
    exact (List.append_nil earlier).symm ▸ numbered

theorem elseIfBranches_crosses : Crosses view (min room fuel) (min room' fuel') 0
    (view.Counted id fun branches => branches.map IfBranch.body) (fun _ _ _ _ => True)
    (elseIfBranches nested fuel id) (elseIfBranches nested' fuel' id') := by
  induction fuel, fuel' using Course.byRounds generalizing id id' with
  | first => exact .empty
  | second => exact .emptyOther
  | both fuel fuel' ih =>
    refine .lifted
      (.acceptWord (.lifted (.call (expression_follows follow) (by omega) fun conditions => ?_))
      (.result ⟨.nil, rfl⟩))
    refine .passed (.bind .expectWord fun _ =>
      .joins (block_crosses follow blockEnd_endsBranch .nil) (by omega) (fun bodies => ?_) ?_)
    · refine .joins ih (by omega) (fun others => ?_) fun ended => ended.idles .pure
      exact .result ⟨bodies.numbered.append others.numbered,
        congrArg₂ List.cons (congrArg₂ Prod.mk conditions bodies.alike) others.alike⟩
    · exact fun ended => ended.idles (.seq elseIfBranches_idles .pure)

theorem casesFrom_follows {clauses others : List (CaseClause Block)}
    {otherwise otherwise' : Option Block}
    (numbered : Numbered view.known start (clauses.map CaseClause.body ++ otherwise.toList) id)
    (alike : view.Alike clauses others) (last : view.Alike otherwise otherwise') :
    Follows view (min room fuel) (min room' fuel') 0
      (view.Counted start fun found => found.1.map CaseClause.body ++ found.2.toList)
      (casesFrom nested fuel clauses otherwise id)
      (casesFrom nested' fuel' others otherwise' id') := by
  induction fuel,
      fuel' using Course.byRounds generalizing id id' clauses others otherwise otherwise' with
  | first => exact .empty
  | second => exact .emptyOther
  | both fuel fuel' ih =>
    refine .lifted
      (.skipping (.lifted (.get fun reach => ?_)) (@casesFrom_stops _ id' (fuel' + 1) _ _))
    rw [reach.isAtEndOf]
    split
    · exact reach.reads (.result ⟨numbered, congrArg₂ Prod.mk alike last⟩)
    refine reach.reads (.lifted (.bind .expectWord fun {head head'} places => ?_))
    rw [Tree.isSome_of_alike last]
    split
    · exact .failAt places.known nofun
    next only =>
    obtain rfl : otherwise = none := by simpa using only
    refine .lifted (.acceptWord ?_
      (.lifted (.rounds fun _ _ => .lifted (.call (caseTests_follows follow) (by omega)
      fun {tests tests'} alikeTests => ?_))))
    · refine .closes (block_crosses follow blockEnd_endsCase numbered) (by omega)
        (fun {body body' _ _} bodies => ?_) casesFrom_stops
      have given : view.Alike (some body) (some body') := congrArg some bodies.alike
      exact (ih (by simpa using bodies.numbered) alike given).mono (by omega)
    · refine .closes (block_crosses follow blockEnd_endsCase numbered) (by omega)
        (fun {body body' _ _} bodies => ?_) casesFrom_stops
      have clause : view.Alike (CaseClause.mk head tests body) (CaseClause.mk head' tests' body') :=
        congrArg₂ Prod.mk places.alike (congrArg₂ Prod.mk alikeTests bodies.alike)
      exact (ih (by simpa using bodies.numbered) (Tree.alike_concat alike clause) last).mono
        (by omega)

theorem catchClause_crosses {earlier : List Block}
    (numbered : Numbered view.known start earlier id) : Crosses view room room' 0
    (view.Counted start fun clause => earlier ++ (clause.map CatchClause.body).toList)
    (fun _ _ _ _ => True) (catchClause nested id) (catchClause nested' id') := by
  refine .lifted (.acceptWord (.lifted (.bind optionalName_follows fun {errorName _} names => ?_))
    (.result ⟨(List.append_nil earlier).symm ▸ numbered, rfl⟩))
  obtain rfl := names
  exact .joins (block_crosses follow (blockEnd_isAtWord.either blockEnd_isAtEndOf) numbered)
      (by omega) (fun bodies =>
    .result ⟨bodies.numbered, congrArg (fun shape => some (errorName, shape)) bodies.alike⟩)
    fun ended => ended.idles .pure

/-- The statements of a one-line `IF`. Going back before a `NEXT` does not go behind where the round
began. -/
theorem inlineFrom_follows {openFors : Nat} : Follows view (min room fuel)
    (min room' fuel') 0 (view.Counted id fun block => [block])
    (inlineFrom nested fuel openFors id) (inlineFrom nested' fuel' openFors id') := by
  induction fuel, fuel' using Course.byRounds generalizing openFors id id' with
  | first => exact .empty
  | second => exact .emptyOther
  | both fuel fuel' ih =>
    refine .lifted (.get fun {course c c'} reach => ?_)
    have skips := reach.skipColons
    have beyond : c.Beyond (c.skip (TokenKind.isSymbol .colon)) 0 := Cursor.beyond_skip
    rw [StmtParser.skipColons_bind, StmtParser.skipColons_bind, StmtParser.lift_bind,
      StmtParser.lift_bind, here_bind, here_bind, skips.isAtInlineEnd, skips.isAtWord]
    split
    · split
      · exact .inl ⟨⟨beyond.last, List.suffix_rfl, Nat.le_refl _⟩, ⟨.skip .nil, rfl⟩, reach.ahead,
          skips.lineStart, skips.last, skips.lastOther, skips.closing⟩
      · exact .inl ⟨beyond, ⟨.skip .nil, rfl⟩, skips⟩
    · refine .beyond beyond
          ((reach.beyond beyond skips).reads (.seq follow.statement (by omega) fun stmts =>
        .lifted (.get fun reach => ?_)))
      rw [countFor_of_alike stmts.alike, reach.isAt, reach.isAtInlineEnd]
      split
      · exact reach.reads
          (.seq ih (by omega) fun others => .result ⟨(stmts.numbered.append others.numbered).block,
          congrArg₂ List.cons stmts.alike others.alike⟩)
      · exact reach.fails nofun

theorem inlineBlock_follows {earlier : List Block}
    (numbered : Numbered view.known start earlier id) : Follows view room room' 0
    (view.Counted start fun block => earlier ++ [block]) (inlineBlock nested id)
    (inlineBlock nested' id') :=
  .lifted (.rounds fun _ _ => .imp (inlineFrom_follows follow)
    (fun blocks => ⟨numbered.append blocks.numbered, blocks.alike⟩) False.elim)

section

variable (heads : view.Tokens token token')

include heads

theorem withStatement_follows :
    view.Statements room room' 0 (withStatement nested token) (withStatement nested' token') :=
  .lifted (.call (expression_follows follow) (by omega) fun targets =>
    .closes (block_crosses follow blockEnd_isAtEndOf .nil) (by omega) (fun bodies =>
      closing_follows heads bodies.numbered trivial (congrArg (StmtKind.withBlock · ()) targets)
        (congrArg (fun shape => [shape]) bodies.alike)) closing_stops)

theorem whileStatement_follows :
    view.Statements room room' 0 (whileStatement nested token) (whileStatement nested' token') := by
  refine .lifted (.call (expression_follows follow) (by omega) fun conditions => ?_)
  refine .closes (block_crosses follow (blockEnd_isAtWord.either blockEnd_isAtEndOf) .nil)
    (by omega) (fun bodies => ?_) (.lifted (.acceptWord closing_stops))
  have outline := congrArg (StmtKind.whileLoop · ()) conditions
  have shapes := congrArg (fun shape => [shape]) bodies.alike
  exact .lifted (.acceptWord (.finish heads bodies.numbered trivial outline shapes)
    (closing_follows heads bodies.numbered trivial outline shapes))

theorem doStatement_follows :
    view.Statements room room' 0 (doStatement nested token) (doStatement nested' token') := by
  refine .lifted (.bind (loopCondition_follows follow) fun {first first'} firsts => ?_)
  refine .closes (block_crosses follow blockEnd_isAtWord .nil) (by omega) (fun bodies => ?_)
    (.lifted (.bind .expectWord))
  refine .lifted
    (.bind .expectWord fun closes => .lifted (.call (loopCondition_follows follow) (by omega)
    fun {second second'} seconds => ?_))
  have both : (first'.isSome && second'.isSome) = (first.isSome && second.isSome) :=
    congrArg₂ and (Tree.isSome_of_alike firsts) (Tree.isSome_of_alike seconds)
  rw [both]
  split
  · exact .failAt closes.known nofun
  · exact .finish heads bodies.numbered trivial (congrArg₂ (StmtKind.doLoop · · ()) firsts seconds)
      (congrArg (fun shape => [shape]) bodies.alike)

theorem deferStatement_follows :
    view.Statements room room' 0 (deferStatement nested token) (deferStatement nested' token') := by
  refine .lifted (.get fun reach => ?_)
  rcases reach.kinds with same | ⟨newline, atEnd⟩
  · rw [same]
    split
    · exact reach.reads
          (.closes (block_crosses follow blockEnd_isAtEndOf .nil) (by omega) (fun bodies =>
        closing_follows heads bodies.numbered trivial rfl
          (congrArg (fun shape => [shape]) bodies.alike)) closing_stops)
    · exact reach.reads
          (.lifted (.bind .skipColons fun _ => .seq follow.statement (by omega) fun stmts =>
        .finish heads stmts.numbered trivial rfl (congrArg (fun shape => [[shape]]) stmts.alike)))
  · rw [atEnd]
    exact reach.ended newline atEnd (.lifted (.skip (.seq follow.ends)))

theorem functionStatement_follows {isSub : Bool} :
    view.Statements room room' 0 (functionStatement nested token isSub)
    (functionStatement nested' token' isSub) := by
  refine .lifted (.expectName fun name _ _ _ => .lifted
    (.call (parameters_follows follow) (by omega) fun params => ?_))
  refine .lifted (.bind optionalType_follows fun {type _} types => ?_)
  obtain rfl := types.same
  exact .closes (block_crosses follow blockEnd_isAtEndOf .nil) (by omega)
    (fun bodies => closing_follows heads bodies.numbered ⟨params.orderly, params.told⟩
    (congrArg (fun params => StmtKind.function ⟨name, params, type, (), isSub⟩) params.alike)
    (congrArg (fun shape => [shape]) bodies.alike)) closing_stops

theorem propertyStatement_follows :
    view.Statements room room' 0 (propertyStatement nested token)
      (propertyStatement nested' token') := by
  refine .lifted (.expectName fun typeName _ _ _ => .passed (.bind .expect fun _ => .lifted ?_))
  refine .expectAnyName fun name _ _ _ _ =>
    .lifted (.call (parameters_follows follow) (by omega) fun params => ?_)
  refine .lifted (.bind optionalType_follows fun {type _} types => .lifted (.bind accessor_follows
    fun {which _} accessors => ?_))
  obtain rfl := types.same
  obtain rfl := accessors
  rw [Param.length_of_alike params.alike, receiverFits_of_alike params.alike]
  split
  · exact .failAt heads.known nofun
  split
  · exact .failAt heads.known nofun
  · exact .closes (block_crosses follow blockEnd_isAtEndOf .nil) (by omega)
      (fun bodies => closing_follows heads bodies.numbered ⟨params.orderly, params.told⟩
      (congrArg (fun params => StmtKind.property ⟨typeName, name, params, type, which, ()⟩)
        params.alike)
      (congrArg (fun shape => [shape]) bodies.alike)) closing_stops

theorem tryStatement_follows :
    view.Statements room room' 0 (tryStatement nested token) (tryStatement nested' token') := by
  have closes : BlockEnd fun c => c.isAtWord .CATCH || c.isAtWord .FINALLY || c.isAtEndOf .TRY :=
    (blockEnd_isAtWord.either blockEnd_isAtWord).either blockEnd_isAtEndOf
  intro id id'
  refine .closes (block_crosses follow closes .nil) (by omega) (fun bodies => ?_)
    (catchClause_idles.stops (.lifted (.acceptWord (.given closing_stops))))
  refine .closes (catchClause_crosses follow bodies.numbered) (by omega) (fun handlers => ?_)
    (.lifted (.acceptWord (.given closing_stops)))
  refine lastBlock_follows follow heads handlers.numbered (fun _ => rfl) (fun _ => trivial)
    (fun last => ?_) fun last => StmtKind.shapes_attempt last bodies.alike handlers.alike
  have names := @Tree.option_of_alike _ _ (CatchClause Unit) _ _ _ handlers.alike
    (fun _ clause => ⟨clause.errorName, ()⟩) (fun form => ⟨form.1, ()⟩) fun _ _ => rfl
  exact congrArg₂ (StmtKind.attempt () · ·) names (present_of_alike last)

theorem selectStatement_follows :
    view.Statements room room' 0 (selectStatement nested token)
      (selectStatement nested' token') := by
  refine .passed (.bind .expectWord fun _ => .lifted
    (.call (expression_follows follow) (by omega) fun selectors => ?_))
  refine .lifted
    (.rounds fun _ _ => .seq (casesFrom_follows follow .nil rfl rfl) (by omega) fun read => ?_)
  obtain ⟨alike, last⟩ := Prod.mk.inj read.alike
  refine closing_follows heads read.numbered trivial ?_ (StmtKind.shapes_select last alike)
  have tests := @Tree.map_of_alike _ _ (CaseClause Unit) _ _ _ alike
    (fun move clause => ⟨clause.token.moved move, Tree.form move clause.tests, ()⟩)
    (fun form => ⟨form.1, form.2.1, ()⟩) fun _ _ => rfl
  have parts := congr (congrArg₂ StmtKind.select selectors tests) (present_of_alike last)
  exact parts

section If

variable {condition condition' : Expr} (alike : view.Alike condition condition')

include alike

theorem blockIf_follows :
    view.Statements room room' 0 (blockIf nested token condition)
      (blockIf nested' token' condition') := by
  refine .closes (block_crosses follow blockEnd_endsBranch .nil) (by omega)
    (fun {body body' _ _} bodies => .lifted (.rounds fun _ _ => ?_))
    (.lifted (.rounds fun _ => elseIfBranches_idles.stops
      (.lifted (.acceptWord (.given closing_stops)))))
  refine .closes (elseIfBranches_crosses follow) (by omega) (fun {more more' _ _} others => ?_)
    (.lifted (.acceptWord (.given closing_stops)))
  have parts :
      view.Alike (IfBranch.mk condition body :: more) (IfBranch.mk condition' body' :: more') :=
    congrArg₂ List.cons (congrArg₂ Prod.mk alike bodies.alike) others.alike
  refine .mono
    (lastBlock_follows follow heads (bodies.numbered.append others.numbered) (fun _ => rfl)
    (fun _ => trivial) (fun last => ?_) fun last => StmtKind.shapes_branch last parts) (by omega)
  have conditions := @Tree.map_of_alike _ _ (IfBranch Unit) _ _ _ parts
    (fun move part => ⟨part.condition.moved move, ()⟩) (fun form => ⟨form.1, ()⟩) fun _ _ => rfl
  exact congrArg₂ (StmtKind.branch · · true) conditions (present_of_alike last)

theorem inlineIf_follows :
    view.Statements room room' 0 (inlineIf nested token condition)
      (inlineIf nested' token' condition') := by
  refine .seq (inlineBlock_follows follow .nil) (by omega) fun bodies => ?_
  have parts := congrArg (fun form => [form]) (congrArg₂ Prod.mk alike bodies.alike)
  refine .lifted (.acceptWord ?_ (.given (.finish heads bodies.numbered trivial
    (congrArg (fun condition => StmtKind.branch [⟨condition, ()⟩] none false) alike)
    (StmtKind.shapes_branch .none parts))))
  rw [if_pos rfl, if_pos rfl, bind_map_left, bind_map_left]
  refine .seq (inlineBlock_follows follow bodies.numbered)
    (by omega) fun {value result _ _} others => ?_
  have last : view.Alike (some value) (some result) := congrArg some others.alike
  exact .finish heads others.numbered trivial
    (congrArg (fun condition => StmtKind.branch [⟨condition, ()⟩] (some ()) false) alike)
    (StmtKind.shapes_branch last parts)

end If

theorem ifStatement_follows :
    view.Statements room room' 0 (ifStatement nested token) (ifStatement nested' token') := by
  refine .lifted (.call (expression_follows follow)
    (by omega) fun conditions => .passed (.bind .expectWord fun _ => ?_))
  refine .lifted (.get fun reach => ?_)
  have ends := reach.test (fun kind => kind.isNewline || kind.isFinish) rfl
  rw [Cursor.isAtFinish, Cursor.isAtFinish, ends]
  split
  · exact reach.reads (.mono (blockIf_follows follow heads conditions) (by omega))
  · exact reach.reads (.mono (inlineIf_follows follow heads conditions) (by omega))

theorem wordStatement?_follows (word : Keyword) :
    Option.Rel (fun parser parser' => view.Statements room room' 0 (parser token) (parser' token'))
      (wordStatement? nested word) (wordStatement? nested' word) := by
  cases word
  case LET => exact .some (letStatement_follows follow heads)
  case PRINT => exact .some (printStatement_follows follow heads)
  case INPUT => exact .some (inputStatement_follows follow heads)
  case IF => exact .some (ifStatement_follows follow heads)
  case FOR => exact .some (forStatement_follows follow heads)
  case NEXT => exact .some (nextStatement_follows heads)
  case WHILE => exact .some (whileStatement_follows follow heads)
  case DO => exact .some (doStatement_follows follow heads)
  case TRY => exact .some (tryStatement_follows follow heads)
  case ERROR => exact .some (raiseStatement_follows follow heads)
  case DEFER => exact .some (deferStatement_follows follow heads)
  case FUNCTION | SUB => exact .some (functionStatement_follows follow heads)
  case PROPERTY => exact .some (propertyStatement_follows follow heads)
  case WITH => exact .some (withStatement_follows follow heads)
  case SELECT => exact .some (selectStatement_follows follow heads)
  case EXIT => exact .some (exitStatement_follows heads)
  case CONTINUE => exact .some (continueStatement_follows heads)
  case TYPE => exact .some (typeStatement_follows heads)
  case DIM => exact .some (dimStatement_follows follow heads)
  case SPAWN => exact .some (spawnStatement_follows heads)
  case RETURN => exact .some (returnStatement_follows follow heads)
  case CALL => exact .some (callStatement_follows follow heads)
  case END | STOP => exact .some (.finish heads .nil trivial rfl rfl)
  all_goals exact .none

end

/-- A statement passes a token at least, and is numbered behind those inside it. -/
theorem statement_follows :
    view.Statements (room + 1) (room' + 1) 1 (statement nested) (statement nested') := by
  intro id id'
  have assigns := @assignOrCall_follows nested nested' view room room' follow id id'
  refine .lifted (.get fun reach => ?_)
  refine reach.byKind (fun kind passing => ?_) (reach.reads assigns)
  cases kind with
  | symbol mark =>
    cases mark
    case question => exact (passing rfl).heads (printStatement_follows follow (passing rfl).tokens)
    all_goals exact reach.reads assigns
  | keyword word =>
    have words :=
      @wordStatement?_follows nested nested' view _ _ room room' follow (passing rfl).tokens word
    dsimp only [statementParser]
    generalize wordStatement? nested word = parser at words ⊢
    generalize wordStatement? nested' word = parser' at words ⊢
    cases words with
    | none => exact reach.reads assigns
    | some follows => exact (passing rfl).heads follows
  | _ => exact reach.reads assigns

end Blocks

theorem statement_stops : Stops (statement nested id) := by
  refine .lifted (.get fun final => ?_)
  rw [final.kind_eq]
  exact Stops.lifted (.current fun final => Stops.lifted (.bind operand_stops) _ _ final) _ _ final

theorem nestedTo_stops (depth : Nat) :
    (nestedTo depth).expression.Stops ∧ ∀ {id}, Stops ((nestedTo depth).statement id) := by
  cases depth with
  | zero => exact ⟨.fail, .fail⟩
  | succ depth => exact ⟨expression_stops, statement_stops⟩

theorem nestedTo_follow (depth depth' : Nat) :
    (nestedTo depth).Follow view depth depth' (nestedTo depth') := by
  obtain ⟨stops, ends⟩ := nestedTo_stops depth'
  induction depth, depth' using Course.byRounds with
  | first =>
    rw [← Nat.min_zero 0]
    exact ⟨.empty, .empty, .empty, stops, ends⟩
  | second =>
    rw [← Nat.min_zero 0]
    exact ⟨.emptyOther, .emptyOther, .emptyOther, stops, ends⟩
  | both depth depth' ih =>
    obtain ⟨innerStops, innerEnds⟩ := nestedTo_stops depth'
    have inner := ih innerStops innerEnds
    exact ⟨expression_told inner, unary_follows inner, statement_follows inner, stops, ends⟩

theorem statements_crosses (follow : nested.Follow view room room' nested') :
    Crosses view room room' 0 (view.Counted id fun block => [block])
      (Resumes view.moves nested (fun _ => false)) (statements nested id)
      (statements nested' id') := by
  refine .joins (.lifted (.rounds fun _ _ => blockFrom_crosses follow blockEnd_never)) (by omega)
    (fun bodies => ?_) fun {course _ _ after _ _} ended => ?_
  · refine .lifted (.get fun reach => ?_)
    rw [Cursor.isAtFinish, Cursor.isAtFinish]
    refine reach.byKind (fun kind _ => ?_) (reach.fails (by simp))
    split
    · exact reach.reads (.result bodies)
    · exact reach.fails (by simp)
  · cases course with
    | alike => exact ended.elim
    | cut =>
      rw [StmtParser.lift_bind, StmtParser.lift_bind, here_bind, here_bind, Cursor.isAtFinish,
        Cursor.isAtFinish, ended.1.kind_eq]
      split
      · exact .inr ended
      · trivial

end Parse

theorem Cursor.before_within {known : Token → Prop} (tokens : List Token)
    (all : ∀ token ∈ (Cursor.before tokens).last :: (Cursor.before tokens).ahead, known token) :
    (Cursor.before tokens).Within known ((Cursor.before tokens).ahead.length + 1) := by
  refine ⟨?_, Nat.lt_succ_self _, all⟩
  clear all
  unfold before
  dsimp only
  split
  · split
    · next last _ finish =>
      cases kind : last.kind <;> rw [kind] at finish <;> first | rfl | cases finish
    · rfl
  · rfl

theorem Parse.statements_give {known : Token → Prop} {tokens : List Token}
    (all : ∀ token ∈ (Cursor.before tokens).last :: (Cursor.before tokens).ahead, known token) :
    (statements (nestedTo ((Cursor.before tokens).ahead.length + 1)) 0).GivesFrom known
      (Cursor.before tokens) 0 fun read => Numbered known 0 [read.1] read.2 :=
  ((statements_crosses (nestedTo_follow _ _)).gives (Cursor.before_within tokens all)).imp
    fun _ read => read.numbered

/-- The statements of a program are numbered one after another, and its loops are paired. -/
theorem Program.numbered_of_known {tokens : List Token} {program : Program} {known : Token → Prop}
    (parsed : Program.ofTokens tokens = .ok program)
    (all : ∀ token ∈ (Cursor.before tokens).last :: (Cursor.before tokens).ahead, known token) :
    (∃ count, Numbered known 0 [program.statements] count) ∧
      program.statements.pairing = .ok program.bindings := by
  have gives := Parse.statements_give all
  unfold Parser.GivesFrom at gives
  unfold ofTokens at parsed
  simp only [Bind.bind, Except.bind, StateT.run] at parsed
  split at parsed
  · cases parsed
  · next found read =>
    split at parsed
    · cases parsed
    · next bindings paired =>
      cases parsed
      rw [read] at gives
      exact ⟨⟨_, gives.2⟩, paired⟩

theorem Program.numbered {tokens : List Token} {program : Program}
    (parsed : Program.ofTokens tokens = .ok program) :
    (∃ count, Numbered (fun _ => True) 0 [program.statements] count) ∧
      program.statements.pairing = .ok program.bindings :=
  numbered_of_known parsed fun _ _ => trivial

end MicroBasic
