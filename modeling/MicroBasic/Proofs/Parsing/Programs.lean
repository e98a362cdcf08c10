import MicroBasic.Proofs.Loops.Exactness
import MicroBasic.Proofs.Parsing.Constructs

/-!
# Programs side by side

Whole programs are read in step, and loops pair by the shapes of statements alone. If a program goes
on behind the end of a line, then its beginning up to there is a program of its own, or it fails at
its end, or a loop in it still waits for its `NEXT`. In the first case what follows is a program,
too.
-/

namespace MicroBasic

open MicroBasic.Parser (Crosses)

namespace Pairing

variable {moves : Moves} {index indexOther : Nat} {opened opened' : List OpenFor}
  {bindings bindings' : LoopBindings}

theorem hasZeroStep_form (move : Token → Location) (step : Option Expr) :
    hasZeroStep (Tree.form move step) = hasZeroStep step := by
  cases step with
  | none => rfl
  | some expr =>
    change hasZeroStep (some (expr.moved move)) = _
    rw [hasZeroStep, hasZeroStep, Option.bind_some, Option.bind_some, Expr.constant?_moved]

theorem visit_outline (move : Token → Location) (stmt : Stmt) : visit index stmt opened bindings =
    match stmt.kind.outline move with
    | .openFor var _ _ step =>
      if hasZeroStep step then throw (ParseError.at stmt.token (.zeroStep var))
      else return (⟨var, index, stmt.id, stmt.token⟩ :: opened, bindings)
    | .next name =>
      match opened with
      | [] => throw (ParseError.at stmt.token (.nextWithoutFor name))
      | innermost :: outer =>
        match name with
        | some name =>
          if innermost.isNamed name then return (outer, bind bindings innermost stmt.id index)
          else throw (misfit stmt.token name innermost opened)
        | none => return (outer, bind bindings innermost stmt.id index)
    | _ => return (opened, bindings) := by
  unfold visit
  cases stmt.kind with
  | openFor var start limit step =>
    dsimp only [StmtKind.outline]
    rw [hasZeroStep_form]
  | _ => rfl

/-- What is seen of the loops left open stays in step, and no pair is found, or one with loops seen
alike. -/
theorem visit_alike {γ : Type} {view : OpenFor → γ} {stmt other : Stmt} {after : List OpenFor}
    {found : LoopBindings} (visited : visit index stmt opened bindings = .ok (after, found))
    (outline : stmt.kind.outline moves.first = other.kind.outline moves.second)
    (vars : ∀ loop loop', view loop = view loop' → loop.var = loop'.var)
    (fresh : ∀ var, view ⟨var, index, stmt.id, stmt.token⟩ =
      view ⟨var, indexOther, other.id, other.token⟩)
    (views : opened.map view = opened'.map view) :
    ∃ after' foundOther,
      visit indexOther other opened' bindings' = .ok (after', foundOther) ∧
        after.map view = after'.map view ∧
        (found = bindings ∧ foundOther = bindings' ∨ ∃ loop loop', view loop = view loop' ∧
          found = bind bindings loop stmt.id index ∧
            foundOther = bind bindings' loop' other.id indexOther) := by
  rw [visit_outline moves.first] at visited
  rw [visit_outline moves.second, ← outline]
  split at visited
  · split at visited
    · cases visited
    · next notZero =>
      cases visited
      rw [if_neg notZero]
      exact ⟨_, _, rfl, congrArg₂ List.cons (fresh _) views, .inl ⟨rfl, rfl⟩⟩
  · cases opened with
    | nil => cases visited
    | cons innermost outer =>
      cases opened' with
      | nil => cases views
      | cons innermost' outer' =>
        obtain ⟨same, views⟩ := List.cons.inj views
        dsimp only at visited ⊢
        split at visited
        · next name _ =>
          have named : innermost'.isNamed name = innermost.isNamed name := by
            unfold OpenFor.isNamed
            rw [vars _ _ same]
          rw [named]
          split at visited
          · next fits =>
            cases visited
            rw [if_pos fits]
            exact ⟨_, _, rfl, views, .inr ⟨_, _, same, rfl, rfl⟩⟩
          · cases visited
        · cases visited
          exact ⟨_, _, rfl, views, .inr ⟨_, _, same, rfl, rfl⟩⟩
  · cases visited
    exact ⟨_, _, rfl, views, .inl ⟨rfl, rfl⟩⟩

theorem foldlM_alike {blocks others : List Block} {result : LoopBindings}
    (paired : blocks.foldlM (pairFrom 0 []) bindings = .ok result)
    (shapes : blocks.map (Block.shape moves.first) = others.map (Block.shape moves.second))
    (each : ∀ block ∈ blocks, ∀ other bindings bindings' result,
      pairFrom 0 [] bindings block = .ok result →
        block.shape moves.first = Block.shape moves.second other →
      ∃ result', pairFrom 0 [] bindings' other = .ok result') :
    ∃ result', others.foldlM (pairFrom 0 []) bindings' = .ok result' := by
  induction blocks generalizing others bindings bindings' with
  | nil =>
    cases others with
    | nil => exact ⟨bindings', rfl⟩
    | cons => cases shapes
  | cons block blocks ih =>
    cases others with
    | nil => cases shapes
    | cons other others =>
      obtain ⟨own, later⟩ := List.forall_mem_cons.mp each
      obtain ⟨shape, shapes⟩ := List.cons.inj shapes
      rw [List.foldlM_cons] at paired ⊢
      obtain ⟨between, first, paired⟩ := Results.of_bind paired
      obtain ⟨between', firstOther⟩ := own other _ bindings' _ first shape
      obtain ⟨result', paired'⟩ := @ih between between' _ paired shapes later
      refine ⟨result', ?_⟩
      rw [firstOther]
      exact paired'

theorem eq_nil_of_pairFrom_nil {result : LoopBindings}
    (paired : pairFrom index opened bindings [] = .ok result) : opened = [] := by
  cases opened with
  | nil => rfl
  | cons innermost outer =>
    rw [pairFrom, List.getLast?_cons] at paired
    cases paired

/-- If a block can be paired, then so can its end, with the loops that its beginning has left open.
A block of the same shape as the beginning can be paired if none are left, and else one of them
lacks its `NEXT`. -/
theorem pairFrom_append {before behind other : Block} {result : LoopBindings}
    (paired : pairFrom index opened bindings (before ++ behind) = .ok result)
    (shapes : before.shape moves.first = other.shape moves.second)
    (vars : opened.map OpenFor.var = opened'.map OpenFor.var) :
    ∃ index' left found, pairFrom index' left found behind = .ok result ∧
      (left = [] → ∃ result', pairFrom indexOther opened' bindings' other = .ok result') ∧
      (left ≠ [] → ∃ token var,
        pairFrom indexOther opened' bindings' other =
          .error (.at token (.forWithoutNext var))) := by
  -- Inner blocks are smaller, and so is the rest of the block.
  induction size :
    sizeOf before using Nat.strongRecOn generalizing index opened bindings before other result
    behind indexOther opened' bindings' with
  | ind _ ih =>
    cases before with
    | nil =>
      cases other with
      | cons => cases shapes
      | nil =>
        refine ⟨index, opened, bindings, paired, fun closed => ?_, fun open_ => ?_⟩
        · subst closed
          cases opened' with
          | nil => exact ⟨bindings', by rw [pairFrom]; rfl⟩
          | cons => cases vars
        · cases opened' with
          | nil => exact absurd (List.map_eq_nil_iff.mp vars) open_
          | cons innermost outer =>
            rw [pairFrom, List.getLast?_cons]
            exact ⟨_, _, rfl⟩
    | cons stmt rest =>
      cases other with
      | nil => cases shapes
      | cons stmt' restOther =>
        obtain ⟨shape, shapes⟩ := List.cons.inj shapes
        have size : sizeOf (stmt :: rest) = 1 + sizeOf stmt + sizeOf rest :=
          List.cons.sizeOf_spec _ _
        rw [List.cons_append, pairFrom_cons] at paired
        obtain ⟨⟨after, found⟩, visited, paired⟩ := Results.of_bind paired
        obtain ⟨between, inner, paired⟩ := Results.of_bind paired
        obtain ⟨after', foundOther, visited', vars, _⟩ :=
          @visit_alike _ index indexOther opened opened' bindings bindings' _ _ _ _ _ _ visited
            (Stmt.outline_of_alike shape) (fun _ _ => id) (fun _ => rfl) vars
        obtain ⟨between', inner'⟩ := @foldlM_alike _ _ foundOther _ _ _ inner
          (Stmt.blocks_of_alike shape) fun block held other bindings bindings' result own same => by
            have smaller := Stmt.sizeOf_lt_of_mem_blocks held
            rw [← List.append_nil block] at own
            obtain ⟨_, left, _, ended, closed, _⟩ := @ih (sizeOf block) (by omega)
              0 0 [] [] bindings bindings' block [] other result own same rfl rfl
            exact closed (eq_nil_of_pairFrom_nil ended)
        obtain ⟨index', left, found', ended, closed, open_⟩ := @ih (sizeOf rest) (by omega)
          (index + 1) (indexOther + 1) after after' between between' rest behind restOther _ paired
          shapes vars rfl
        have goes : pairFrom indexOther opened' bindings' (stmt' :: restOther) =
            pairFrom (indexOther + 1) after' between' restOther := by
          rw [pairFrom_cons, visited']
          change Except.bind (stmt'.blocks.foldlM (pairFrom 0 []) foundOther) _ = _
          rw [inner']
          rfl
        rw [goes]
        exact ⟨index', left, found', ended, closed, open_⟩

end Pairing

theorem Block.pairing_of_alike {bindings : LoopBindings} {moves : Moves} {block other : Block}
    (paired : block.pairing = .ok bindings)
    (shapes : block.shape moves.first = other.shape moves.second) :
    ∃ bindings', other.pairing = .ok bindings' := by
  rw [Block.pairing, ← List.append_nil block] at paired
  obtain ⟨_, left, _, ended, closed, _⟩ := Pairing.pairFrom_append paired shapes rfl
  exact closed (Pairing.eq_nil_of_pairFrom_nil ended)

/-- If a block can be paired, then a block of the same shape as its beginning can be, too, and so
can what follows; or a loop of that block lacks its `NEXT`. -/
theorem Block.pairing_of_append {bindings : LoopBindings} {moves : Moves}
    {before behind other : Block}
    (paired : Block.pairing (before ++ behind) = .ok bindings)
    (shapes : before.shape moves.first = other.shape moves.second) :
    (∃ bindings', other.pairing = .ok bindings') ∧ (∃ found, behind.pairing = .ok found) ∨
      ∃ token var, other.pairing = .error (.at token (.forWithoutNext var)) := by
  obtain ⟨index, left, found, ended, closed, lacks⟩ :=
    @Pairing.pairFrom_append _ 0 0 [] [] .empty .empty _ _ _ _ paired shapes rfl
  cases left with
  | nil =>
    have reads : ∃ result, Pairing.pairFrom 0 [] .empty behind = .ok result :=
      Pairing.pairFrom_ok_iff.mpr (Pairing.pairFrom_ok_iff.mp ⟨_, ended⟩)
    exact .inl ⟨closed rfl, reads⟩
  | cons => exact .inr (lacks nofun)

theorem TokenKind.eq_finish {kind : TokenKind} (isFinish : kind.isFinish = true) :
    kind = .finish := by
  cases kind <;> first | rfl | cases isFinish

namespace Parse

open MicroBasic.Parser

variable {nested nested' : Nested} {moves : Moves} {c other : Cursor} {id id' : Nat}

theorem isAtFinish_of_statements {after : Cursor} {read : Block × Nat}
    (done : statements nested id c = .ok (read, after)) : after.isAtFinish = true := by
  obtain ⟨⟨⟨body, count⟩, stop⟩, _, done⟩ := Results.of_bind done
  change (liftM here >>= _ : StmtParser Block) count stop = _ at done
  rw [StmtParser.lift_bind, here_bind] at done
  cases atEnd : stop.isAtFinish with
  | false =>
    rw [atEnd] at done
    cases done
  | true =>
    rw [atEnd] at done
    cases done
    exact atEnd

theorem statements_of_blockFrom {fuel count depth : Nat} {body : Block} {after : Cursor}
    (step : (Course.alike : Course moves).InStep c other) (short : c.ahead.length < min depth fuel)
    (read : blockFrom (nestedTo depth) (fun _ => false) fuel id c = .ok ((body, count), after))
    (atEnd : after.isAtFinish = true) : ∃ body' count' after',
      statements (nestedTo (other.ahead.length + 1)) id' other = .ok ((body', count'), after') ∧
        Tree.Alike moves body body' := by
  have reach : Course.alike.InReach ⟨moves, fun _ => True⟩ (min depth fuel)
      (min (other.ahead.length + 1) (other.ahead.length + 1)) c other :=
    ⟨step, ⟨step.last, short, fun _ _ => trivial⟩, by omega⟩
  have outcome :=
    @blockFrom_crosses _ _ _ _ _ id id' _ _ _ (nestedTo_follow _ _) blockEnd_never _ _ _ reach
  rw [read] at outcome
  cases second : blockFrom (nestedTo (other.ahead.length + 1)) (fun _ => false)
      (other.ahead.length + 1) id' other with
  | error error =>
    rw [second] at outcome
    exact outcome.elim
  | ok found =>
    obtain ⟨⟨body', count'⟩, after'⟩ := found
    rw [second] at outcome
    rcases outcome with ⟨_, bodies, stop⟩ | ends
    · refine ⟨body', count', after', ?_, bodies.alike⟩
      have same : after'.isAtFinish = true := by
        rcases stop.kinds with same | ⟨newline, _⟩
        · rwa [Cursor.isAtFinish, same]
        · rw [Cursor.isAtFinish, newline] at atEnd
          cases atEnd
      have body : block (nestedTo (other.ahead.length + 1)) (fun _ => false) id' other =
          .ok ((body', count'), after') :=
        second
      rw [statements, StmtParser.ok_bind body, StmtParser.lift_bind, here_bind, same]
      rfl
    · exact ends.elim

end Parse

theorem Cursor.mem_of_before {tokens : List Token} {token : Token}
    (among : token ∈ (before tokens).ahead) : token ∈ tokens := by
  unfold before at among
  dsimp only at among
  split at among
  · split at among
    · exact List.mem_of_mem_filter (List.dropLast_subset _ among)
    · exact List.mem_of_mem_filter among
  · cases among

namespace Program

variable {moves : Moves} {tokens : List Token}

theorem ofTokens_eq (tokens : List Token) : Program.ofTokens tokens =
    (Parse.statements (Parse.nestedTo ((Cursor.before tokens).ahead.length + 1)) 0
      (Cursor.before tokens)).bind fun read =>
        read.1.1.pairing.bind fun bindings => .ok ⟨read.1.1, bindings⟩ :=
  rfl

theorem ofTokens_ok_iff {program : Program} : Program.ofTokens tokens = .ok program ↔
    ∃ count after, Parse.statements (Parse.nestedTo ((Cursor.before tokens).ahead.length + 1)) 0
      (Cursor.before tokens) = .ok ((program.statements, count), after) ∧
        program.statements.pairing = .ok program.bindings := by
  rw [ofTokens_eq]
  constructor
  · intro parsed
    obtain ⟨⟨⟨body, count⟩, after⟩, read, parsed⟩ := Results.of_bind parsed
    obtain ⟨bindings, paired, parsed⟩ := Results.of_bind parsed
    cases parsed
    exact ⟨count, after, read, paired⟩
  · rintro ⟨count, after, read, paired⟩
    rw [read]
    change program.statements.pairing.bind _ = _
    rw [paired]
    rfl

theorem ofTokens_of_fails {token : Token}
    (fails : FailsAt token
      (Parse.statements (Parse.nestedTo ((Cursor.before tokens).ahead.length + 1)) 0
      (Cursor.before tokens))) : ∃ cause, Program.ofTokens tokens = .error (.at token cause) := by
  obtain ⟨cause, failed⟩ := fails
  refine ⟨cause, ?_⟩
  rw [ofTokens_eq, failed]
  rfl

theorem ofTokens_of_pairing {body : Block} {count : Nat} {after : Cursor} {error : ParseError}
    (read : Parse.statements (Parse.nestedTo ((Cursor.before tokens).ahead.length + 1)) 0
      (Cursor.before tokens) = .ok ((body, count), after))
    (unpaired : body.pairing = .error error) : Program.ofTokens tokens = .error error := by
  rw [ofTokens_eq, read]
  change body.pairing.bind _ = _
  rw [unpaired]
  rfl

theorem statements_match {others : List Token} {course : Course moves}
    (step : course.InStep (Cursor.before tokens) (Cursor.before others)) :
    course.Matches (fun _ => True) (Cursor.before tokens) 0
      (View.Counted ⟨moves, fun _ => True⟩ 0 fun block => [block])
      (Parse.Resumes moves (Parse.nestedTo ((Cursor.before tokens).ahead.length + 1))
        fun _ => false)
      (Parse.statements (Parse.nestedTo ((Cursor.before tokens).ahead.length + 1)) 0
        (Cursor.before tokens))
      (Parse.statements (Parse.nestedTo ((Cursor.before others).ahead.length + 1)) 0
        (Cursor.before others)) :=
  have reach :
      course.InReach ⟨moves, fun _ => True⟩ _ ((Cursor.before others).ahead.length + 1) _ _ :=
    ⟨step, Cursor.before_within tokens fun _ _ => trivial, Nat.lt_succ_self _⟩
  Parse.statements_crosses (Parse.nestedTo_follow _ _) _ _ _ reach

theorem ofTokens_alike {others : List Token} {program : Program}
    (step : (Course.alike : Course moves).InStep (Cursor.before tokens) (Cursor.before others))
    (parsed : Program.ofTokens tokens = .ok program) :
    ∃ again, Program.ofTokens others = .ok again ∧
      program.statements.shape moves.first = again.statements.shape moves.second := by
  obtain ⟨count, after, read, paired⟩ := ofTokens_ok_iff.mp parsed
  have outcome := statements_match step
  rw [read] at outcome
  generalize read' : Parse.statements _ 0 (Cursor.before others) = second at outcome
  rcases second with error | ⟨⟨part, count'⟩, final⟩
  · exact outcome.elim
  rcases outcome with ⟨_, parts, _⟩ | ends
  · have shapes : program.statements.shape moves.first = part.shape moves.second := parts.alike
    obtain ⟨bindings, pairs⟩ := Block.pairing_of_alike paired shapes
    exact ⟨⟨part, bindings⟩, ofTokens_ok_iff.mpr ⟨count', final, read', pairs⟩, shapes⟩
  · exact ends.elim

/-- A program is written with the places of its tokens only. -/
theorem shape_of_ofTokens {move : Token → Location} {program : Program}
    (known : ∀ token ∈ tokens, move token = token.location)
    (parsed : Program.ofTokens tokens = .ok program) :
    program.statements.shape move = program.statements.shape Token.location := by
  have same : List.Forall₂ (Tree.Alike ⟨move, Token.location⟩) (Cursor.before tokens).ahead
      (Cursor.before tokens).ahead := by
    refine List.forall₂_same.mpr fun token among => ?_
    change token.moved move = token.moved Token.location
    unfold Token.moved
    rw [known token (Cursor.mem_of_before among)]
  have closed := (@Cursor.before_within (fun _ => True) tokens fun _ _ => trivial).closed
  obtain ⟨again, parsedAgain, shapes⟩ :=
    Program.ofTokens_alike
      ⟨⟨_, (List.append_nil _).symm, same⟩, rfl, closed, closed, trivial⟩ parsed
  obtain rfl := Except.ok.inj (parsed.symm.trans parsedAgain)
  exact shapes

theorem atLineStart_before (tokens : List Token) : (Cursor.before tokens).atLineStart = true := by
  unfold Cursor.before
  dsimp only
  split
  · split <;> rfl
  · rfl

/-- A program cut at the end of a line. Its beginning fails at its end, or one of its loops lacks a
`NEXT`; or both parts are programs. -/
theorem ofTokens_cut {ending : Token} {rest : List Token} {last : Token}
    {ends : ending.kind = .newline} {isLast : last.kind = .finish} {others behind : List Token}
    {program : Program}
    (step : (Course.cut ending rest last ends isLast : Course moves).InStep (Cursor.before tokens)
      (Cursor.before others)) (inner : ∀ token ∈ (Cursor.before others).ahead, token.kind ≠ .finish)
    (alike : List.Forall₂ (Tree.Alike moves) rest (Cursor.before behind).ahead)
    (finishes : (Cursor.before behind).last.kind = .finish)
    (parsed : Program.ofTokens tokens = .ok program) :
      (∃ cause, Program.ofTokens others = .error (.at last cause)) ∨
        (∃ token var, Program.ofTokens others = .error (.at token (.forWithoutNext var))) ∨
      (∃ first, Program.ofTokens others = .ok first) ∧
        ∃ second, Program.ofTokens behind = .ok second := by
  obtain ⟨count, after, read, paired⟩ := ofTokens_ok_iff.mp parsed
  have gives := @Parse.statements_give (fun _ => True) others fun _ _ => trivial
  have outcome := statements_match step
  unfold Parser.GivesFrom at gives
  rw [read] at outcome
  generalize read' : Parse.statements _ 0 (Cursor.before others) = second at gives outcome
  rcases second with error | ⟨⟨part, count'⟩, final⟩
  · obtain ⟨cause, rfl⟩ := outcome
    exact .inl (ofTokens_of_fails ⟨cause, read'⟩)
  rcases outcome with ⟨_, _, stop⟩ | ⟨_, resumes⟩
  · -- The first sequence cannot end in step with the second, which has no line end there.
    have atEnd := Parse.isAtFinish_of_statements read
    have atEnd' := Parse.isAtFinish_of_statements read'
    rcases stop.passes_or with passes | ⟨ahead, _⟩
    · have among : final.current ∈ (Cursor.before others).ahead :=
        gives.1.suffix.subset (passes.aheadOther ▸ List.mem_cons_self)
      exact absurd (TokenKind.eq_finish atEnd') (inner _ among)
    · rw [Cursor.isAtFinish, Cursor.kind, Cursor.current, ahead, Course.tail, List.headD_cons,
        ends] at atEnd
      cases atEnd
  · obtain ⟨before, following, fuel, id, start, whole, alikeBefore, ahead, starts, startLast, short,
        resumed⟩ := resumes
    change program.statements = before ++ following at whole
    rw [whole] at paired
    rcases Block.pairing_of_append paired
      alikeBefore with ⟨⟨first, pairs⟩, second, pairsRest⟩ | ⟨token, var, lacks⟩
    · refine .inr (.inr ⟨⟨⟨part, first⟩, ofTokens_ok_iff.mpr ⟨count', final, read', pairs⟩⟩, ?_⟩)
      have stepRest : (Course.alike : Course moves).InStep start (Cursor.before behind) := by
        refine ⟨⟨rest, ?_, alike⟩, ?_, startLast, finishes, trivial⟩
        · rw [ahead]
          exact (List.append_nil _).symm
        · rw [starts, atLineStart_before]
      have size := step.length
      rw [Course.tail, List.length_cons] at size
      obtain ⟨body, countRest, afterRest, readRest, shapes⟩ :=
        @Parse.statements_of_blockFrom _ _ _ _ 0 _ _ _
        _ _ stepRest (by rw [ahead]; omega) resumed (Parse.isAtFinish_of_statements read)
      obtain ⟨found, pairsBody⟩ := Block.pairing_of_alike pairsRest shapes
      exact ⟨⟨body, found⟩, ofTokens_ok_iff.mpr ⟨countRest, afterRest, readRest, pairsBody⟩⟩
    · exact .inr (.inl ⟨token, var, ofTokens_of_pairing read' lacks⟩)

end Program

end MicroBasic
