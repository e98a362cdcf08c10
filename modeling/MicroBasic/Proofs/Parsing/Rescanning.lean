import MicroBasic.Proofs.Parsing.Literals
import MicroBasic.Proofs.Parsing.Progress

/-!
# Tokens written out again

The lexeme of a token is the longest that begins where it stands. With a blank behind it, it is
still the longest one, whatever stood there before: no token but a comment takes a blank or a line
break that is not its own. So the tokens of a source, written one behind the other with a blank
after each, are read as the same tokens, and the parser, which does not look at places, finds the
same program.
-/

namespace MicroBasic

namespace Scan

variable {c : Char} {rest tail : List Char} {kind : TokenKind} {length : Nat}

theorem lexeme_symbol {mark : Symbol} (found : symbol? (c :: rest) = some (mark, length))
    (stops : Stops tail) :
    lexeme c (rest.take (length - 1) ++ tail) = .token (.symbol mark) length := by
  generalize whole : c :: rest = cs at found
  rcases stops.cases with rfl | ⟨more, rfl⟩ | ⟨more, rfl⟩ <;> revert found <;>
    fun_cases symbol? cs <;>
    intro found <;> cases found <;> cases whole <;> rfl

theorem lexeme_of_startsNumber (starts : startsNumber (c :: rest) = true) :
    lexeme c rest = scanNumber (c :: rest) := by
  have ne {d : Char} (never : startsNumber (d :: rest) = false) : (c == d) = false := by
    refine beq_false_of_ne ?_
    rintro rfl
    rw [never] at starts
    cases starts
  unfold lexeme
  dsimp only
  rw [@ne '\n' rfl, @ne '\'' rfl, @ne '"' rfl, starts]
  simp only [Bool.false_eq_true, if_false, if_true]

theorem take_of_pos (positive : 0 < length) :
    (c :: rest).take length = c :: rest.take (length - 1) := by
  rw [← Nat.sub_add_cancel positive]
  rfl

theorem lexeme_number {value : Float} (starts : startsNumber (c :: rest) = true)
    (read : scanNumber (c :: rest) = .token (.number value) length) (stops : Stops tail) :
    lexeme c (rest.take (length - 1) ++ tail) = .token (.number value) length := by
  have taken := @take_of_pos c rest _ (scanNumber_bounds starts read).1
  obtain ⟨again, mantissa⟩ := scanNumber_take read
  rw [← scanNumber_append stops, taken] at again
  rw [startsNumber_iff, ← mantissa, ← startsNumber_iff, ← startsNumber_append stops,
    taken] at starts
  exact (lexeme_of_startsNumber starts).trans again

/-- A token is read again where its lexeme stands before a blank or an end, unless it is a comment.
-/
theorem lexeme_again (found : lexeme c rest = .token kind length) (visible : kind.isComment = false)
    (stops : Stops tail) : lexeme c (rest.take (length - 1) ++ tail) = .token kind length := by
  cases takes_of_lexeme found with
  | newline isLine =>
    subst isLine
    rfl
  | comment => cases visible
  | @text value length isQuote read =>
    subst isQuote
    obtain ⟨others, closes⟩ := closes_of_quotedBody read
    cases read.symm.trans (quotedBody_of_closes closes)
    have taken : rest.take ((Text.doubled value).length + 1) = Text.doubled value ++ ['"'] :=
      (List.cons.inj closes.take.1).2
    have again : Closes (rest.take ((Text.doubled value).length + 1) ++ tail) value tail := by
      refine ⟨?_, closes.within, fun head => ?_⟩
      · rw [taken, List.append_assoc, List.singleton_append]
      · rcases stops _ head with same | same <;> cases same
    exact lexeme_of_closes again
  | number starts read => exact lexeme_number starts read stops
  | @keyword word _ _ begins reserved =>
    have again := lexeme_word begins stops
    rwa [wordKind, reserved] at again
  | @name word _ begins free =>
    have again := lexeme_word begins stops
    rwa [wordKind, free] at again
  | symbol found => exact lexeme_symbol found stops

theorem Cuts.again {cs : List Char} {tokens : List Token} (cuts : Cuts cs tokens) :
    Cuts ((Token.visible tokens).flatMap fun token => token.lexeme.toList ++ [' '])
      (Token.visible tokens) := by
  induction cuts with
  | done => exact .done
  | space _ _ ih => exact ih
  | @token c rest kind length tokens notSpace found _ ih =>
    unfold Token.visible at ih ⊢
    cases isComment : kind.isComment with
    | true =>
      rw [List.filter_cons_of_neg (by simp [written, isComment])]
      exact ih
    | false =>
      rw [List.filter_cons_of_pos (by simp [written, isComment]), List.flatMap_cons]
      generalize List.flatMap _ (List.filter _ tokens) = more at ih ⊢
      obtain ⟨positive, size, _⟩ := lexeme_bounds found
      have taken := @take_of_pos c rest _ positive
      have long : (c :: rest.take (length - 1)).length = length := by
        rw [← taken, List.length_take_of_le size]
      have cut := @Cuts.token c (rest.take (length - 1) ++ ' ' :: more) kind length
        (List.filter (fun token => !token.kind.isComment) tokens) notSpace
        (lexeme_again found isComment fun d head => .inl (Option.some.inj head).symm)
      rw [← List.cons_append, List.drop_left' long, List.take_left' long] at cut
      rw [taken, written, String.toList_ofList, List.append_assoc]
      exact cut (.space rfl ih)

end Scan

/-- The text with the lexemes of some tokens, separated by single blanks. -/
def Token.rewritten (tokens : List Token) : String :=
  String.ofList ([' '].intercalate (tokens.map fun token => token.lexeme.toList))

theorem Token.toList_rewritten (tokens : List Token) {finish : Token} (empty : finish.lexeme = "") :
    (Token.rewritten (tokens ++ [finish])).toList = tokens.flatMap fun token =>
      token.lexeme.toList ++ [' '] := by
  rw [Token.rewritten, String.toList_ofList]
  induction tokens with
  | nil => simp [empty]
  | cons token tokens ih =>
    rw [List.flatMap_cons, ← ih]
    cases tokens <;> simp [List.intercalate]

/-! ### The same program -/

/-- What tells open loops apart when pairs are found. -/
def Pairing.OpenFor.key (loop : OpenFor) : String × Nat × Nat :=
  (loop.var, loop.index, loop.id)

/-- The pairs of some blocks, the first of which is read up to a place. -/
def Pairing.pairAll (index : Nat) (opened : List OpenFor) (bindings : LoopBindings) :
    List Block → Except ParseError LoopBindings
  | [] => .ok bindings
  | block :: blocks =>
    (pairFrom index opened bindings block).bind fun bindings =>
      blocks.foldlM (pairFrom 0 []) bindings

theorem Pairing.pairAll_zero (bindings : LoopBindings) (blocks : List Block) :
    pairAll 0 [] bindings blocks = blocks.foldlM (pairFrom 0 []) bindings := by
  cases blocks <;> rfl

theorem Numbered.alike {known : Token → Prop} {moves : Moves} {first next next' : Nat}
    {blocks others : List Block}
    (numbered : Numbered known first blocks next) (again : Numbered known first others next')
    (shapes : blocks.map (Block.shape moves.first) = others.map (Block.shape moves.second)) :
    next = next' ∧ ∀ index opened opened' bindings result result',
      Pairing.pairAll index opened bindings blocks = .ok result →
      Pairing.pairAll index opened' bindings others = .ok result' →
      opened.map Pairing.OpenFor.key = opened'.map Pairing.OpenFor.key → result = result' := by
  induction numbered generalizing others next' with
  | nil =>
    cases again with
    | nil =>
      exact ⟨rfl,
        fun _ _ _ _ _ _ paired pairedOther _ => Except.ok.inj (paired.symm.trans pairedOther)⟩
    | skip => cases shapes
    | cons => cases shapes
  | skip _ ih =>
    cases again with
    | nil => cases shapes
    | cons => cases shapes
    | skip again =>
      obtain ⟨same, pairs⟩ := ih again (List.cons.inj shapes).2
      refine ⟨same, fun index opened opened' bindings result result' paired pairedOther keys => ?_⟩
      obtain ⟨between, first, paired⟩ := Results.of_bind paired
      obtain ⟨between', firstOther, pairedOther⟩ := Results.of_bind pairedOther
      obtain rfl := Pairing.eq_nil_of_pairFrom_nil first
      obtain rfl := Pairing.eq_nil_of_pairFrom_nil firstOther
      rw [Pairing.pairFrom] at first firstOther
      cases first
      cases firstOther
      rw [← Pairing.pairAll_zero] at paired pairedOther
      exact pairs _ _ _ _ _ _ paired pairedOther rfl
  | @cons _ _ stmt rest blocks _ _ _ ihInner ihOthers =>
    cases again with
    | nil => cases shapes
    | skip => cases shapes
    | @cons _ _ other restOther others _ inner again =>
      obtain ⟨head, tail⟩ := List.cons.inj shapes
      obtain ⟨shape, shapes⟩ := List.cons.inj head
      obtain ⟨sameId, pairsInner⟩ := ihInner inner (Stmt.blocks_of_alike shape)
      rw [← sameId] at again
      obtain ⟨same, pairs⟩ := ihOthers again (congrArg₂ List.cons shapes tail)
      refine ⟨same, fun index opened opened' bindings result result' paired pairedOther keys => ?_⟩
      rw [Pairing.pairAll, Pairing.pairFrom_cons] at paired pairedOther
      obtain ⟨final, paired, finishes⟩ := Results.of_bind paired
      obtain ⟨⟨after, found⟩, visited, paired⟩ := Results.of_bind paired
      obtain ⟨between, inside, paired⟩ := Results.of_bind paired
      obtain ⟨final', pairedOther, finishesOther⟩ := Results.of_bind pairedOther
      obtain ⟨⟨after', found'⟩, visitedOther, pairedOther⟩ := Results.of_bind pairedOther
      obtain ⟨between', insideOther, pairedOther⟩ := Results.of_bind pairedOther
      obtain ⟨after', found', visitedAgain, keys, pairsFound⟩ :=
        @Pairing.visit_alike _ index index opened opened' bindings bindings _ Pairing.OpenFor.key _
          _ _ _ visited (Stmt.outline_of_alike shape) (fun _ _ same => (Prod.mk.inj same).1)
          (fun var => by rw [Pairing.OpenFor.key, Pairing.OpenFor.key, sameId]) keys
      cases visitedOther.symm.trans visitedAgain
      have sameFound : found = found' := by
        rcases pairsFound with ⟨rfl, rfl⟩ | ⟨loop, loop', key, rfl, rfl⟩
        · rfl
        · obtain ⟨_, places, ids⟩ := Prod.mk.inj key |>.imp_right Prod.mk.inj
          rw [Pairing.bind, Pairing.bind, places, ids, sameId]
      subst sameFound
      rw [← Pairing.pairAll_zero] at inside insideOther
      obtain rfl := pairsInner _ _ _ _ _ _ inside insideOther rfl
      refine pairs (index + 1) after after' between result result' ?_ ?_ keys
      · rw [Pairing.pairAll, paired]
        exact finishes
      · rw [Pairing.pairAll, pairedOther]
        exact finishesOther

/-- Programs that differ in nothing but the places of their statements and expressions. -/
structure Program.SameBesidesPlaces (program other : Program) : Prop where
  shapes : program.statements.shape Location.nowhere = other.statements.shape Location.nowhere
  numbers : program.statements.postorder = other.statements.postorder
  bindings : program.bindings = other.bindings

theorem Program.SameBesidesPlaces.symm {program other : Program}
    (same : program.SameBesidesPlaces other) : other.SameBesidesPlaces program :=
  ⟨same.shapes.symm, same.numbers.symm, same.bindings.symm⟩

section

variable {tokens others : List Token} {finish finishOther : Token}

theorem Token.visible_bare (tokens : List Token) :
    (Token.visible tokens).map Token.bare = Token.visible (tokens.map Token.bare) := by
  unfold Token.visible
  rw [List.filter_map]
  rfl

theorem Token.visible_visible (tokens : List Token) :
    Token.visible (Token.visible tokens) = Token.visible tokens := by
  unfold Token.visible
  rw [List.filter_filter]
  simp only [Bool.and_self]

theorem Token.visible_finish (tokens : List Token) (isFinish : finish.kind = .finish) :
    Token.visible (tokens ++ [finish]) = Token.visible tokens ++ [finish] := by
  unfold Token.visible
  rw [List.filter_append, List.filter_cons, isFinish]
  rfl

/-- Tokens alike but for comments and places are read as the same program. -/
theorem Program.ofTokens_bare {program : Program}
    (same : (Token.visible tokens).map Token.bare = (Token.visible others).map Token.bare)
    (isFinish : finish.kind = .finish) (isFinishOther : finishOther.kind = .finish)
    (parsed : Program.ofTokens (tokens ++ [finish]) = .ok program) :
    ∃ again, Program.ofTokens (others ++ [finishOther]) = .ok again ∧
      program.SameBesidesPlaces again := by
  have step : (Course.alike : Course .bare).InStep (Cursor.before (tokens ++ [finish]))
      (Cursor.before (others ++ [finishOther])) := by
    rw [Cursor.before_append tokens isFinish, Cursor.before_append others isFinishOther]
    have alike := @Token.alike_visible _ _ .bare same
    rw [Token.visible_visible, Token.visible_visible] at alike
    exact ⟨⟨_, (List.append_nil _).symm, alike⟩, rfl, isFinish, isFinishOther, trivial⟩
  obtain ⟨again, parsedAgain, shapes⟩ := Program.ofTokens_alike step parsed
  obtain ⟨⟨count, numbered⟩, paired⟩ := Program.numbered parsed
  obtain ⟨⟨count', numberedAgain⟩, pairedAgain⟩ := Program.numbered parsedAgain
  obtain ⟨rfl, pairs⟩ :=
    @Numbered.alike _ .bare _ _ _ _ _ numbered numberedAgain (congrArg (· :: []) shapes)
  refine ⟨again, parsedAgain, shapes, ?_, pairs 0 [] [] .empty _ _ ?_ ?_ rfl⟩
  · have listed := numbered.postorder.trans numberedAgain.postorder.symm
    rwa [List.flatMap_singleton, List.flatMap_singleton] at listed
  · rw [Pairing.pairAll, show Pairing.pairFrom 0 [] .empty program.statements = _ from paired]
    rfl
  · rw [Pairing.pairAll, show Pairing.pairFrom 0 [] .empty again.statements = _ from pairedAgain]
    rfl

end

/-- The tokens of a source, comments apart, written with single blanks between them, are read as
tokens of the same kinds and lexemes. Both texts are read as the same program but for places, or
neither is a program. -/
theorem rewritten_tokens_read_back {source : String} {tokens : List Token}
    (scanned : scan ⟨false⟩ source = .ok tokens) (options : ScanOptions) :
    (∃ again, scan options (Token.rewritten tokens) = .ok again ∧
      again.map Token.kind = tokens.map Token.kind ∧
      again.map Token.lexeme = tokens.map Token.lexeme) ∧
    (∀ program, Program.parseWith options source = .ok program → ∃ again,
      Program.parseWith options (Token.rewritten tokens) = .ok again ∧
        program.SameBesidesPlaces again) ∧
    (∀ again, Program.parseWith options (Token.rewritten tokens) = .ok again → ∃ program,
      Program.parseWith options source = .ok program ∧ program.SameBesidesPlaces again) := by
  obtain ⟨bare, cuts⟩ := Program.cuts_of_scan scanned
  obtain ⟨all, finish, places, read⟩ := Program.scan_of_cuts cuts ⟨false⟩
  obtain rfl : tokens = Token.visible (all ++ [finish]) := Except.ok.inj (scanned.symm.trans read)
  have text : (Token.rewritten (Token.visible (all ++ [finish]))).toList =
      (Token.visible bare).flatMap fun token => token.lexeme.toList ++ [' '] := by
    rw [Token.visible_finish all places.finish_kind, Token.toList_rewritten _ places.finish_lexeme,
      ← places.bare_eq, ← Token.visible_bare, List.flatMap_map]
    rfl
  have cutsAgain := cuts.again
  rw [← text] at cutsAgain
  -- Comments or not, the tokens of the new text are those of the old one.
  have same {others : List Token} (bareOthers : others.map Token.bare = Token.visible bare) :
      (Token.visible others).map Token.bare = Token.visible bare := by
    rw [Token.visible_bare, bareOthers, Token.visible_visible]
  refine ⟨?_, ?_⟩
  · obtain ⟨others, finishOther, placesOther, readOther⟩ := Program.scan_of_cuts cutsAgain options
    refine ⟨_, readOther, ?_⟩
    have bares : (if options.keepComments then others ++ [finishOther]
        else Token.visible (others ++ [finishOther])).map Token.bare =
        (Token.visible (all ++ [finish])).map Token.bare := by
      have ends : finishOther.bare = finish.bare := by
        unfold Token.bare Token.moved
        rw [placesOther.finish_kind, placesOther.finish_lexeme, places.finish_kind,
          places.finish_lexeme]
        rfl
      rw [Token.visible_finish all places.finish_kind,
        Token.visible_finish others placesOther.finish_kind]
      split
      · rw [List.map_append, List.map_append, placesOther.bare_eq, Token.visible_bare,
          places.bare_eq]
        exact congrArg (fun token => Token.visible bare ++ [token]) ends
      · rw [List.map_append, List.map_append, same placesOther.bare_eq, Token.visible_bare,
          places.bare_eq]
        exact congrArg (fun token => Token.visible bare ++ [token]) ends
    have kinds := congrArg (List.map Token.kind) bares
    have lexemes := congrArg (List.map Token.lexeme) bares
    rw [List.map_map, List.map_map] at kinds lexemes
    exact ⟨kinds, lexemes⟩
  · obtain ⟨first, finish, places, reads⟩ := Program.parseWith_of_cuts cuts options
    obtain ⟨second, finishOther, placesOther, readsOther⟩ :=
      Program.parseWith_of_cuts cutsAgain options
    have bares : (Token.visible first).map Token.bare = (Token.visible second).map Token.bare := by
      rw [same placesOther.bare_eq, Token.visible_bare, places.bare_eq]
    rw [reads, readsOther]
    constructor
    · intro program parsed
      obtain ⟨again, parsedAgain, alike⟩ :=
        Program.ofTokens_bare bares places.finish_kind placesOther.finish_kind
          (Results.of_mapError parsed)
      exact ⟨again, by rw [parsedAgain]; rfl, alike⟩
    · intro again parsed
      obtain ⟨program, parsedFirst, alike⟩ :=
        Program.ofTokens_bare bares.symm placesOther.finish_kind places.finish_kind
          (Results.of_mapError parsed)
      exact ⟨program, by rw [parsedFirst]; rfl, alike.symm⟩

/-- A keyword, a name with a suffix, a number with an exponent and a text with a quote in it, and a
comment. -/
def remarkedSum : String :=
  "let s$=\"a\"\"b\"&t$ ' both\nprint 1.5e3+.5*x"

theorem remarkedSum_reads_back : ∃ tokens again, scan ⟨false⟩ remarkedSum = .ok tokens ∧
    scan ⟨true⟩ "let s$ = \"a\"\"b\" & t$ \n print 1.5e3 + .5 * x " = .ok again ∧
      again.map Token.kind = tokens.map Token.kind ∧
        again.map Token.lexeme = tokens.map Token.lexeme := by
  have read : ((scan ⟨false⟩ remarkedSum).map Token.rewritten).toOption =
      some "let s$ = \"a\"\"b\" & t$ \n print 1.5e3 + .5 * x " := by decide +kernel
  cases scanned : scan ⟨false⟩ remarkedSum with
  | error =>
    rw [scanned] at read
    cases read
  | ok tokens =>
    rw [scanned] at read
    obtain ⟨again, same⟩ := (rewritten_tokens_read_back scanned ⟨true⟩).1
    rw [Option.some.inj read] at same
    exact ⟨tokens, again, rfl, same⟩

end MicroBasic
