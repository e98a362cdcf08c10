import MicroBasic.Proofs.Loops.Pairing

/-!
# Parsing comes to an end

No bound that the parser sets itself is ever reached, and each statement, expression and line that
is read leaves fewer tokens ahead. The statements of what it reads are numbered in the order in
which they are finished.
-/

namespace MicroBasic

/-- The numbers of the statements of a block, each behind those of the statements inside it. -/
def Block.postorder (block : Block) : List Nat :=
  match block with
  | [] => []
  | stmt :: rest =>
    stmt.blocks.attach.flatMap (fun inner =>
      have := Stmt.sizeOf_lt_of_mem_blocks inner.property
      Block.postorder inner.val) ++ stmt.id :: Block.postorder rest
termination_by sizeOf block

theorem Block.postorder_cons (stmt : Stmt) (rest : Block) : Block.postorder (stmt :: rest) =
      stmt.blocks.flatMap Block.postorder ++ stmt.id :: Block.postorder rest := by
  have attached : stmt.blocks.attach.flatMap (fun inner => Block.postorder inner.val) =
      stmt.blocks.flatMap Block.postorder := by
    rw [← List.flatMap_map, List.attach_map_subtype_val]
  rw [Block.postorder, attached]

theorem Numbered.postorder {known : Token → Prop} {first : Nat} {blocks : List Block} {next : Nat}
    (numbered : Numbered known first blocks next) :
    blocks.flatMap Block.postorder = List.range' first (next - first) := by
  induction numbered with
  | nil => simp
  | skip _ ih =>
    rw [List.flatMap_cons, Block.postorder, List.nil_append]
    exact ih
  | @cons first next stmt rest blocks _ inner others inInner inOthers =>
    rw [List.flatMap_cons] at inOthers
    rw [List.flatMap_cons, Block.postorder_cons, List.append_assoc, List.cons_append, inOthers,
      inInner, ← List.range'_succ]
    have high := others.le
    obtain ⟨size, same⟩ := Nat.exists_eq_add_of_le inner.le
    rw [same] at high ⊢
    rw [Nat.add_sub_cancel_left, List.range'_append_1]
    congr 1
    omega

/-- The statements of every parsed program, each behind those inside it, have the numbers from zero
on. -/
theorem statements_numbered_in_postorder {tokens : List Token} {program : Program}
    (parsed : Program.ofTokens tokens = .ok program) :
    program.statements.postorder = List.range program.statements.postorder.length ∧
      program.statements.postorder.Nodup := by
  obtain ⟨⟨count, numbered⟩, _⟩ := Program.numbered parsed
  have listed := numbered.postorder
  rw [List.flatMap_singleton, Nat.sub_zero, ← List.range_eq_range'] at listed
  rw [listed, List.length_range]
  exact ⟨rfl, List.nodup_range⟩

/-- A program with blocks of many kinds. -/
def nestedBodies : Program :=
  .ofSource ("IF 1 THEN\nTRY\nPRINT 1\nCATCH E\nPRINT 2\nFINALLY\nPRINT 3\nEND TRY\nELSE\nDEFER PRINT 4\nEND IF\n" ++
      "SELECT CASE 1\nCASE 1\nWHILE 0\nWEND\nCASE ELSE\nSTOP\nEND SELECT\nSUB S()\nRETURN\nEND SUB")

/-- The numbers of a program with bodies of many kinds. -/
theorem nested_bodies_numbered_in_postorder :
    nestedBodies.statements.postorder.Nodup ∧
      nestedBodies.statements.postorder = List.range 12 := by
  obtain ⟨tokens, parsed⟩ : nestedBodies.IsParsed := Program.isParsed_ofSource (by decide +kernel)
  obtain ⟨listed, different⟩ := statements_numbered_in_postorder parsed
  have size : nestedBodies.statements.postorder.length = 12 := by decide +kernel
  rw [size] at listed
  exact ⟨different, listed⟩

namespace Pairing

variable {known : Token → Prop} {index : Nat} {opened : List OpenFor} {bindings : LoopBindings}
    {error : ParseError}

theorem stands_of_visit {stmt : Stmt} (own : known stmt.token)
    (before : ∀ loop ∈ opened, known loop.token)
    (failed : visit index stmt opened bindings = .error error) : error.Stands known := by
  unfold visit at failed
  split at failed
  · split at failed <;> cases failed
    exact ParseError.stands_at own nofun
  · split at failed
    · cases failed
      exact ParseError.stands_at own nofun
    · split at failed
      · split at failed <;> cases failed
        unfold misfit
        split
        · exact ParseError.stands_at (before _ List.mem_cons_self) nofun
        · exact ParseError.stands_at own nofun
      · cases failed
  · cases failed

theorem known_of_visit {stmt : Stmt} {opened' : List OpenFor} {bindings' : LoopBindings}
    (own : known stmt.token) (before : ∀ loop ∈ opened, known loop.token)
    (visited : visit index stmt opened bindings = .ok (opened', bindings')) :
    ∀ loop ∈ opened', known loop.token := by
  rcases visit_cases
    visited with ⟨opening, _, _, rfl⟩ | ⟨closing, innermost, _, rfl, _⟩ | ⟨plain, _, rfl, _⟩
  · exact List.forall_mem_cons.mpr ⟨own, before⟩
  · exact (List.forall_mem_cons.mp before).2
  · exact before

/-- If the statements of a block stand at known tokens, then so do the errors in pairing its loops.
-/
theorem stands_of_pairFrom {index : Nat} {opened : List OpenFor} {bindings : LoopBindings}
    {block : Block} (all : ∀ inner : Block, inner.Within block → ∀ stmt ∈ inner, known stmt.token)
    (before : ∀ loop ∈ opened, known loop.token)
    (failed : pairFrom index opened bindings block = .error error) : error.Stands known := by
  -- A block is smaller than the statement it is in, so the induction is on the size of blocks.
  induction size : sizeOf block using Nat.strongRecOn generalizing index opened bindings block with
  | ind _ descend =>
    cases block with
    | nil =>
      rw [pairFrom] at failed
      split at failed <;> cases failed
      next found => exact ParseError.stands_at (before _ (List.mem_of_getLast? found)) (by simp)
    | cons stmt rest =>
      have size : sizeOf (stmt :: rest) = 1 + sizeOf stmt + sizeOf rest := List.cons.sizeOf_spec _ _
      have own := all _ .self stmt List.mem_cons_self
      have inner {parts : List Block} (among : parts ⊆ stmt.blocks) {bindings : LoopBindings}
          (failed : parts.foldlM (pairFrom 0 []) bindings = .error error) : error.Stands known := by
        induction parts generalizing bindings with
        | nil => cases failed
        | cons part parts ih =>
          obtain ⟨held, others⟩ := List.cons_subset.mp among
          rw [List.foldlM_cons] at failed
          cases first : pairFrom 0 [] bindings part with
          | error other =>
            have smaller := Stmt.sizeOf_lt_of_mem_blocks held
            rw [first] at failed
            cases failed
            refine descend (sizeOf part) (by omega) (fun inner within => ?_)
              (List.forall_mem_nil _) first rfl
            exact all inner (.inner within held List.mem_cons_self)
          | ok bindings =>
            rw [first] at failed
            exact ih others failed
      rw [pairFrom_cons] at failed
      cases visited : visit index stmt opened bindings with
      | error other =>
        rw [visited] at failed
        cases failed
        exact stands_of_visit own before visited
      | ok found =>
        rw [visited] at failed
        change stmt.blocks.foldlM (pairFrom 0 []) found.2 >>=
          (fun bindings => pairFrom (index + 1) found.1 bindings rest) = .error error at failed
        cases folded : stmt.blocks.foldlM (pairFrom 0 []) found.2 with
        | error other =>
          rw [folded] at failed
          cases failed
          exact inner (List.Subset.refl _) folded
        | ok bindings =>
          rw [folded] at failed
          refine descend (sizeOf rest) (by omega) (fun part within => ?_)
            (known_of_visit own before visited) failed rfl
          cases within with
          | self => exact fun stmt among => all _ .self stmt (List.mem_cons_of_mem _ among)
          | inner deeper held among =>
            exact all part (.inner deeper held (List.mem_cons_of_mem _ among))

end Pairing

/-- If a sequence of tokens is no program, the error stands at one of them, or at the end. -/
theorem Program.stands_of_ofTokens {tokens : List Token} {error : ParseError}
    (failed : Program.ofTokens tokens = .error error) :
    error.Stands (· ∈ (Cursor.before tokens).last :: (Cursor.before tokens).ahead) := by
  have gives :=
    @Parse.statements_give (· ∈ (Cursor.before tokens).last :: (Cursor.before tokens).ahead) tokens
    fun _ among => among
  unfold Parser.GivesFrom at gives
  unfold ofTokens at failed
  simp only [Bind.bind, Except.bind, StateT.run] at failed
  split at failed
  · next failed' =>
    rw [failed'] at gives
    cases failed
    exact gives
  · next read =>
    rw [read] at gives
    split at failed
    · next failed' =>
      cases failed
      refine Pairing.stands_of_pairFrom (fun inner within stmt among => ?_)
        (List.forall_mem_nil _) failed'
      exact (gives.2.sound List.mem_cons_self within among).1
    · cases failed

/-- On every sequence of tokens the parser gives a program, or an error other than that a bound was
reached. It stays within the tokens: behind a word that closes a block there is another token. From
every place that it can come to, reading an expression, a statement or a line passes a token if it
succeeds, and reading the statements of a one-line `IF` does not end before where it began. -/
theorem parser_ends_within_tokens (tokens : List Token) :
    ((∃ program, Program.ofTokens tokens = .ok program) ∨
      ∃ error, Program.ofTokens tokens = .error error ∧ error.cause ≠ .tooDeep) ∧
    ∀ cursor, (Cursor.before tokens).Beyond cursor 0 →
      (cursor.isAtBlockClose = true → cursor.ahead ≠ []) ∧
      ∀ depth, cursor.ahead.length < depth →
        ((Parse.nestedTo depth).expression.ReadsFrom cursor 1 ∧
        ∀ id, Parser.ReadsFrom ((Parse.nestedTo depth).statement id) cursor 1 ∧
          Parser.ReadsFrom (Parse.lineStatement (Parse.nestedTo depth) id) cursor 1 ∧
          Parser.ReadsFrom (Parse.inlineBlock (Parse.nestedTo depth) id) cursor 0) := by
  have start := Cursor.before_within tokens fun _ _ => trivial
  refine ⟨?_, fun cursor beyond => ⟨fun closes ends => ?_, fun depth short => ?_⟩⟩
  · cases parsed : Program.ofTokens tokens with
    | ok program => exact .inl ⟨program, rfl⟩
    | error error => exact .inr ⟨error, rfl, (Program.stands_of_ofTokens parsed).1⟩
  · have closed := (start.beyond beyond).closed
    unfold Cursor.isAtBlockClose Cursor.kind Cursor.current at closes
    rw [ends, List.headD_nil, closed] at closes
    cases closes
  · have within : cursor.Within (fun _ => True) depth :=
      ⟨(start.beyond beyond).closed, short, fun _ _ => trivial⟩
    have follow := @Parse.nestedTo_follow ⟨.bare, fun _ => True⟩ depth depth
    exact ⟨(follow.expression.gives within).readsFrom,
      fun id => ⟨(follow.statement.gives within).readsFrom,
        (Parse.lineStatement_follows follow).gives within |>.readsFrom,
      (Parse.inlineBlock_follows follow .nil).gives within |>.readsFrom⟩⟩

end MicroBasic
