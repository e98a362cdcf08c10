import MicroBasic.Proofs.Parsing.Following

/-!
# Operators bind by precedence

An expression of operands and operators is read by one loop for every level of operators, each
inside the one of the next looser level. The tree that they build together is told without any loop:
it splits at the rightmost of its loosest operators, and so do both of its sides. `Splits` says
that, and `ladder_splits` that the levels from some rank on do it for operators of these ranks.
-/

namespace MicroBasic

/-- The operator that a token stands for between two operands, if it does. -/
def BinaryOp.ofKind? : TokenKind → Option BinaryOp
  | .keyword .OR => some .or
  | .keyword .AND => some .and
  | .keyword .MOD => some .modulo
  | .symbol .equal => some .equal
  | .symbol .notEqual => some .notEqual
  | .symbol .less => some .less
  | .symbol .greater => some .greater
  | .symbol .lessEqual => some .lessEqual
  | .symbol .greaterEqual => some .greaterEqual
  | .symbol .plus => some .add
  | .symbol .minus => some .subtract
  | .symbol .ampersand => some .concat
  | .symbol .star => some .multiply
  | .symbol .slash => some .divide
  | .symbol .backslash => some .wholeDivide
  | .symbol .caret => some .power
  | _ => none

/-- How tightly an operator binds. -/
def BinaryOp.rank : BinaryOp → Nat
  | .or => 0
  | .and => 1
  | .equal | .notEqual => 2
  | .less | .greater | .lessEqual | .greaterEqual => 3
  | .add | .subtract | .concat => 4
  | .multiply | .divide | .wholeDivide | .modulo => 5
  | .power => 6

/-- The operand that a token is by itself, if it is one. -/
def Token.atom? (token : Token) : Option Expr :=
  match token.kind with
  | .number value => some (.number token value)
  | .text value => some (.text token value)
  | .name word => some (.name token word)
  | _ => none

namespace Precedence

/-- A token that is an operand. -/
structure Atom where
  token : Token
  expr : Expr
  reads : token.atom? = some expr

/-- A token that is an operator, and the operand behind it. -/
structure Joined where
  operator : Token
  op : BinaryOp
  joins : BinaryOp.ofKind? operator.kind = some op
  operand : Atom

/-- The tokens of operators and operands. -/
def spelling (rest : List Joined) : List Token :=
  rest.flatMap fun joined => [joined.operator, joined.operand.token]

theorem spelling_cons (joined : Joined) (rest : List Joined) :
    spelling (joined :: rest) = joined.operator :: joined.operand.token :: spelling rest :=
  rfl

theorem spelling_append (rest more : List Joined) :
    spelling (rest ++ more) = spelling rest ++ spelling more :=
  List.flatMap_append

theorem length_spelling (rest : List Joined) : (spelling rest).length = 2 * rest.length := by
  induction rest with
  | nil => rfl
  | cons joined rest ih =>
    rw [spelling_cons, List.length_cons, List.length_cons, List.length_cons, ih]
    omega

/-- The last operand. -/
def final (first : Atom) : List Joined → Atom
  | [] => first
  | joined :: rest => final joined.operand rest

theorem final_append (first : Atom) (rest : List Joined) (joined : Joined) (more : List Joined) :
    final first (rest ++ joined :: more) = final joined.operand more := by
  induction rest generalizing first with
  | nil => rfl
  | cons other rest ih => exact ih other.operand

/-- The tree of operands that are joined by operators: it splits at the rightmost of the loosest
ones. -/
inductive Splits : Atom → List Joined → Expr → Prop
  | single (atom : Atom) : Splits atom [] atom.expr
  | split {first : Atom} {before behind : List Joined} {joined : Joined} {left right : Expr}
    (loosest : ∀ other ∈ before, joined.op.rank ≤ other.op.rank)
    (rightmost : ∀ other ∈ behind, joined.op.rank < other.op.rank)
    (leftSplits : Splits first before left) (rightSplits : Splits joined.operand behind right) :
    Splits first (before ++ joined :: behind) (.binary joined.operator joined.op left right)

theorem loosest_unique {joined joined' : Joined} {before behind before' behind' : List Joined}
    (loosest : ∀ other ∈ before, joined.op.rank ≤ other.op.rank)
    (rightmost : ∀ other ∈ behind, joined.op.rank < other.op.rank)
    (loosest' : ∀ other ∈ before', joined'.op.rank ≤ other.op.rank)
    (rightmost' : ∀ other ∈ behind', joined'.op.rank < other.op.rank)
    (same : before ++ joined :: behind = before' ++ joined' :: behind') :
    before = before' ∧ joined = joined' ∧ behind = behind' := by
  -- Were one of the two farther to the left, it would be looser than the other and not looser.
  rcases List.append_eq_append_iff.mp same with ⟨between, rfl, rest⟩ | ⟨between, rfl, rest⟩
  · cases between with
    | nil =>
      cases rest
      exact ⟨(List.append_nil _).symm, rfl, rfl⟩
    | cons other between =>
      cases rest
      have tighter := rightmost joined' (List.mem_append_right _ List.mem_cons_self)
      have looser := loosest' joined (List.mem_append_right _ List.mem_cons_self)
      omega
  · cases between with
    | nil =>
      cases rest
      exact ⟨List.append_nil _, rfl, rfl⟩
    | cons other between =>
      cases rest
      have tighter := rightmost' joined (List.mem_append_right _ List.mem_cons_self)
      have looser := loosest joined' (List.mem_append_right _ List.mem_cons_self)
      omega

theorem Splits.unique {first : Atom} {rest : List Joined} {tree other : Expr}
    (splits : Splits first rest tree) (others : Splits first rest other) : other = tree := by
  induction splits generalizing other with
  | single atom =>
    generalize atEnd : ([] : List Joined) = rest at others
    cases others with
    | single => rfl
    | split => exact absurd atEnd.symm (List.append_ne_nil_of_right_ne_nil _ (List.cons_ne_nil _ _))
  | @split first before behind joined left right loosest rightmost _ _ onLeft onRight =>
    generalize whole : before ++ joined :: behind = rest at others
    cases others with
    | single => exact absurd whole (List.append_ne_nil_of_right_ne_nil _ (List.cons_ne_nil _ _))
    | split loosest' rightmost' leftSplits rightSplits =>
      obtain ⟨rfl, rfl, rfl⟩ := loosest_unique loosest rightmost loosest' rightmost' whole
      rw [onLeft leftSplits, onRight rightSplits]

/-- Whether an operand is a name. -/
def Atom.isName (atom : Atom) : Bool :=
  match atom.token.kind with
  | .name _ => true
  | _ => false

/-- Whether a token after an operand would become part of it. -/
def Atom.chains (atom : Atom) : TokenKind → Bool
  | .symbol .leftParen => true
  | .symbol .dot => true
  | .symbol .leftBracket => true
  | .symbol .ellipsis => true
  | .symbol .leftBrace => atom.isName
  | _ => false

/-- Whether a token behind an operand goes on with the expression that the operand is the last of.
-/
def Atom.goesOn (atom : Atom) (kind : TokenKind) : Bool :=
  atom.chains kind || kind.isSymbol .question || (BinaryOp.ofKind? kind).isSome

theorem not_chains_of_ofKind? {kind : TokenKind} {op : BinaryOp}
    (joins : BinaryOp.ofKind? kind = some op) (atom : Atom) : atom.chains kind = false := by
  cases kind with
  | symbol mark => cases mark <;> first | rfl | cases joins
  | _ => rfl

/-- A token ends what the levels from a rank on read behind an operand. -/
structure Stops (rank : Nat) (atom : Atom) (kind : TokenKind) : Prop where
  alone : atom.chains kind = false
  loose : ∀ op, BinaryOp.ofKind? kind = some op → op.rank < rank

theorem Stops.of_not_goesOn {atom : Atom} {kind : TokenKind} (ends : atom.goesOn kind = false) :
    Stops 0 atom kind := by
  unfold Atom.goesOn at ends
  obtain ⟨⟨alone, _⟩, unjoined⟩ :
      (atom.chains kind = false ∧ _) ∧ (BinaryOp.ofKind? kind).isSome = false := by
    simpa only [Bool.or_eq_false_iff] using ends
  refine ⟨alone, fun op joins => ?_⟩
  rw [joins] at unjoined
  cases unjoined

/-- Levels of operators, one for each rank from the given one on. -/
def IsLadder : Nat → List Parse.Level → Prop
  | rank, [] => ∀ op : BinaryOp, op.rank < rank
  | rank, level :: tighter =>
    (∀ kind op, level kind = some op ↔ BinaryOp.ofKind? kind = some op ∧ op.rank = rank) ∧
      IsLadder (rank + 1) tighter

theorem isLadder_levels : IsLadder 0 Parse.levels := by
  have all (op : BinaryOp) : op.rank < 7 := by cases op <;> decide
  refine ⟨fun kind op => ?_, fun kind op => ?_, fun kind op => ?_, fun kind op => ?_,
    fun kind op => ?_, fun kind op => ?_, fun kind op => ?_, all⟩
  all_goals
    constructor
    · intro read
      dsimp only at read
      split at read <;> cases read <;> exact ⟨rfl, rfl⟩
    · rintro ⟨joins, ranked⟩
      unfold BinaryOp.ofKind? at joins
      split at joins <;> cases joins <;> first | rfl | cases ranked

theorem exists_split {rank : Nat} {rest : List Joined}
    (tight : ∀ joined ∈ rest, rank ≤ joined.op.rank) :
    ∃ inner outer, rest = inner ++ outer ∧ (∀ joined ∈ inner, rank < joined.op.rank) ∧
      ∀ joined more, outer = joined :: more → joined.op.rank = rank := by
  induction rest with
  | nil =>
    exact ⟨[], [], rfl, List.forall_mem_nil _,
      fun _ _ same => absurd same (List.cons_ne_nil _ _).symm⟩
  | cons joined rest ih =>
    by_cases here : joined.op.rank = rank
    · refine ⟨[], joined :: rest, rfl, List.forall_mem_nil _, ?_⟩
      rintro _ _ ⟨⟩
      exact here
    · have first := tight joined List.mem_cons_self
      obtain ⟨inner, outer, rfl, tighter, head⟩ :=
        ih fun other among => tight other (List.mem_cons_of_mem _ among)
      exact ⟨joined :: inner, outer, rfl, List.forall_mem_cons.mpr ⟨by omega, tighter⟩, head⟩

/-- An operand that is a name. -/
def Atom.word (name : String) : Atom :=
  ⟨⟨.name name, name, ⟨0, 0⟩, ⟨0, 0⟩⟩, _, rfl⟩

/-- An operator and a name. -/
def Joined.word (kind : TokenKind) (op : BinaryOp) (joins : BinaryOp.ofKind? kind = some op)
    (name : String) : Joined :=
  ⟨⟨kind, op.mark, ⟨0, 0⟩, ⟨0, 0⟩⟩, op, joins, .word name⟩

/-- The token at the end of a text. -/
def ending : Token :=
  ⟨.finish, "", ⟨0, 0⟩, ⟨0, 0⟩⟩

/-- The operators and operands after `a` in `a - b ^ c - d * e OR f`. -/
def mixed : List Joined :=
  [.word (.symbol .minus) .subtract rfl "b", .word (.symbol .caret) .power rfl "c",
   .word (.symbol .minus) .subtract rfl "d", .word (.symbol .star) .multiply rfl "e",
   .word (.keyword .OR) .or rfl "f"]

/-- The tree of `a - b ^ c - d * e OR f`. -/
def mixedTree : Expr :=
  let word (name : String) : Expr := (Atom.word name).expr
  let join (kind : TokenKind) (op : BinaryOp) : Expr → Expr → Expr :=
    .binary ⟨kind, op.mark, ⟨0, 0⟩, ⟨0, 0⟩⟩ op
  join (.keyword .OR) .or (join (.symbol .minus) .subtract
      (join (.symbol .minus) .subtract (word "a")
        (join (.symbol .caret) .power (word "b") (word "c")))
      (join (.symbol .star) .multiply (word "d") (word "e")))
    (word "f")

end Precedence

theorem Parser.ok_bind {α β : Type} {parser : Parser α} {rest : α → Parser β} {c after : Cursor}
    {value : α} (read : parser c = .ok (value, after)) :
    (parser >>= rest) c = rest value after := by
  change Except.bind (parser c) _ = _
  rw [read]
  rfl

namespace Parse

open MicroBasic.Parser Precedence

variable {nested : Nested} {after : List Token} {last : Token}

theorem chain_atom {atom : Atom} (alone : atom.chains (Cursor.mk after last false).kind = false)
    (fuel : Nat) :
    chain nested (fuel + 1) atom.expr ⟨after, last, false⟩ =
      .ok (atom.expr, ⟨after, last, false⟩) := by
  rw [chain, current_bind]
  cases kind : (Cursor.mk after last false).current.kind with
  | symbol mark =>
    rw [Cursor.kind, kind] at alone
    cases mark <;> first | rfl | cases alone
  | _ => rfl

theorem primary_atom {atom : Atom} (alone : atom.chains (Cursor.mk after last false).kind = false)
    (start : Bool) :
    primary nested ⟨atom.token :: after, last, start⟩ = .ok (atom.expr, ⟨after, last, false⟩) := by
  obtain ⟨⟨kind, lexeme, span, position⟩, expr, reads⟩ := atom
  cases kind with
  | number value =>
    cases reads
    rfl
  | text value =>
    cases reads
    rfl
  | name word =>
    -- A brace would make the name the type of a record.
    have other : ¬ (Cursor.mk after last false).isAt .leftBrace = true := by
      rw [Cursor.isAt]
      cases behind : (Cursor.mk after last false).kind with
      | symbol mark =>
        rw [behind] at alone
        cases mark
        case leftBrace => cases alone
        all_goals exact Bool.false_ne_true
      | _ => exact Bool.false_ne_true
    cases reads
    rw [primary, current_bind]
    dsimp only [Cursor.current, List.headD_cons]
    rw [pass_bind]
    change (accept .leftBrace >>= _) (Cursor.mk after last false) = _
    rw [accept_bind, if_neg other]
    rfl
  | _ => cases reads

theorem unary_atom {atom : Atom} (alone : atom.chains (Cursor.mk after last false).kind = false)
    (start : Bool) :
    unary nested ⟨atom.token :: after, last, start⟩ = .ok (atom.expr, ⟨after, last, false⟩) := by
  have whole : operand nested ⟨atom.token :: after, last, start⟩ =
      .ok (atom.expr, ⟨after, last, false⟩) := by
    rw [operand, Parser.ok_bind (primary_atom alone start)]
    exact chain_atom alone _
  obtain ⟨⟨kind, lexeme, span, position⟩, expr, reads⟩ := atom
  cases kind with
  | symbol | keyword => cases reads
  | _ => exact whole

theorem stops_outer {rank : Nat} {first : Precedence.Atom} {inner outer : List Joined}
    (head : ∀ joined more, outer = joined :: more → joined.op.rank = rank)
    (ends : Stops rank (final first (inner ++ outer)) (Cursor.mk after last false).kind) :
    Stops (rank + 1) (final first inner) (Cursor.mk (spelling outer ++ after) last false).kind := by
  cases outer with
  | nil =>
    rw [List.append_nil] at ends
    exact ⟨ends.alone, fun op joins => Nat.lt_succ_of_lt (ends.loose op joins)⟩
  | cons joined more =>
    refine ⟨not_chains_of_ofKind? joined.joins _, fun op joins => ?_⟩
    cases Option.some.inj (joined.joins.symm.trans joins)
    exact Nat.lt_succ_of_le (Nat.le_of_eq (head joined more rfl))

section

variable {level : Level} {next : Parser Expr} {rank : Nat}
  (reads : ∀ kind op, level kind = some op ↔ BinaryOp.ofKind? kind = some op ∧ op.rank = rank)
  (tighter : ∀ {first : Atom} {rest : List Joined} {after : List Token},
    (∀ joined ∈ rest, rank < joined.op.rank) →
    Stops (rank + 1) (final first rest) (Cursor.mk after last false).kind →
      ∃ tree, Splits first rest tree ∧ ∀ start,
        next ⟨first.token :: spelling rest ++ after, last, start⟩ =
          .ok (tree, ⟨after, last, false⟩))

include reads tighter

theorem moreOperands_splits {fuel : Nat} {first : Precedence.Atom} {before : List Precedence.Joined}
    {tree : Expr} {outer : List Precedence.Joined} (enough : outer.length < fuel)
    (read : Splits first before tree)
    (tightBefore : ∀ joined ∈ before, rank ≤ joined.op.rank)
    (tight : ∀ joined ∈ outer, rank ≤ joined.op.rank)
    (head : ∀ joined more, outer = joined :: more → joined.op.rank = rank)
    (ends : Stops rank (final first (before ++ outer)) (Cursor.mk after last false).kind) :
    ∃ whole, Splits first (before ++ outer) whole ∧
      moreOperands level next fuel tree ⟨spelling outer ++ after, last, false⟩ =
        .ok (whole, ⟨after, last, false⟩) := by
  induction fuel generalizing before outer tree with
  | zero => cases enough
  | succ fuel ih =>
    rw [moreOperands, current_bind]
    cases outer with
    | nil =>
      have stops : level (Cursor.mk (spelling [] ++ after) last false).current.kind = none := by
        cases found : level (Cursor.mk (spelling [] ++ after) last false).current.kind with
        | none => rfl
        | some op =>
          obtain ⟨joins, ranked⟩ := (reads _ _).mp found
          have looser := ends.loose op joins
          omega
      refine ⟨tree, by rwa [List.append_nil], ?_⟩
      rw [stops]
      rfl
    | cons joined more =>
      have ranked := head joined more rfl
      have found : level joined.operator.kind = some joined.op :=
        (reads _ _).mpr ⟨joined.joins, ranked⟩
      obtain ⟨inner, outer, rfl, tightInner, head⟩ := exists_split fun other among =>
        tight other (List.mem_cons_of_mem joined among)
      have split : before ++ joined :: (inner ++ outer) = (before ++ joined :: inner) ++ outer := by
        rw [List.append_assoc, List.cons_append]
      rw [split] at ends ⊢
      have stops := stops_outer head ends
      rw [final_append] at stops
      obtain ⟨right, rightSplits, rightRead⟩ := tighter tightInner stops
      have shorter : outer.length < fuel := by
        rw [List.length_cons, List.length_append] at enough
        omega
      have tightRead : ∀ other ∈ before ++ joined :: inner, rank ≤ other.op.rank := by
        refine List.forall_mem_append.mpr
          ⟨tightBefore, List.forall_mem_cons.mpr ⟨Nat.le_of_eq ranked.symm, ?_⟩⟩
        exact fun other among => Nat.le_of_lt (tightInner other among)
      have tightRest : ∀ other ∈ outer, rank ≤ other.op.rank := fun other among =>
        tight other (List.mem_cons_of_mem joined (List.mem_append_right inner among))
      have readOn :
          Splits first (before ++ joined :: inner) (.binary joined.operator joined.op tree right) :=
        .split (fun other among => ranked ▸ tightBefore other among)
          (fun other among => ranked ▸ tightInner other among) read rightSplits
      obtain ⟨whole, splits, rest⟩ := ih shorter readOn tightRead tightRest head ends
      refine ⟨whole, splits, ?_⟩
      have here : (Cursor.mk (spelling (joined :: (inner ++ outer)) ++ after) last false).current =
          joined.operator :=
        rfl
      have passed : (Cursor.mk (spelling (joined :: (inner ++ outer)) ++ after) last false).next =
          ⟨joined.operand.token :: spelling inner ++ (spelling outer ++ after), last,
            joined.operator.kind.isNewline⟩ := by
        rw [spelling_cons, spelling_append]
        simp only [Cursor.next, Cursor.kind, Cursor.current, List.cons_append, List.append_assoc,
          List.tail_cons, List.headD_cons]
      rw [here, found]
      dsimp only
      rw [pass_bind, passed, Parser.ok_bind (rightRead _), rest]

end

theorem ladder_splits {rank : Nat} {tiers : List Level} {rest : List Precedence.Joined}
    {first : Precedence.Atom} (isLadder : IsLadder rank tiers)
    (tight : ∀ joined ∈ rest, rank ≤ joined.op.rank)
    (ends : Stops rank (final first rest) (Cursor.mk after last false).kind) :
    ∃ tree, Splits first rest tree ∧ ∀ start,
      ladder nested tiers ⟨first.token :: spelling rest ++ after, last, start⟩ =
        .ok (tree, ⟨after, last, false⟩) := by
  induction tiers generalizing rank first rest after with
  | nil =>
    cases rest with
    | nil => exact ⟨first.expr, .single first, unary_atom ends.alone⟩
    | cons joined rest =>
      exact absurd (isLadder joined.op) (Nat.not_lt_of_le (tight joined List.mem_cons_self))
  | cons level tighter ih =>
    obtain ⟨reads, isLadder⟩ := isLadder
    obtain ⟨inner, outer, rfl, tightInner, head⟩ := exists_split tight
    obtain ⟨left, leftSplits, leftRead⟩ := ih isLadder tightInner (stops_outer head ends)
    have enough : outer.length < (spelling outer ++ after).length + 1 := by
      rw [List.length_append, length_spelling]
      omega
    obtain ⟨tree, splits, read⟩ := moreOperands_splits reads
      (fun tightInner stops => ih isLadder tightInner stops) enough leftSplits
      (fun joined among => Nat.le_of_lt (tightInner joined among))
      (fun joined among => tight joined (List.mem_append_right _ among)) head ends
    refine ⟨tree, splits, fun start => ?_⟩
    have whole : first.token :: spelling (inner ++ outer) ++ after =
        first.token :: spelling inner ++ (spelling outer ++ after) := by
      rw [spelling_append, List.cons_append, List.cons_append, List.append_assoc]
    rw [whole, ladder, Parser.ok_bind (leftRead start), rounds_bind, read]

/-- Operands that are joined by operators, up to a token that does not go on with them, are read as
the tree that splits at the rightmost of the loosest operators. -/
theorem expression_splits (nested : Nested) (first : Atom) (rest : List Joined) (after : List Token)
    (last : Token) (start : Bool)
    (ends : (final first rest).goesOn (Cursor.mk after last false).kind = false) :
    ∃ tree, expression nested ⟨first.token :: spelling rest ++ after, last, start⟩ =
        .ok (tree, ⟨after, last, false⟩) ∧
      ∀ other, Splits first rest other ↔ other = tree := by
  obtain ⟨tree, splits, read⟩ := ladder_splits isLadder_levels (fun _ _ => Nat.zero_le _)
    (Stops.of_not_goesOn ends)
  refine ⟨tree, ?_, fun other => ⟨splits.unique, fun same => same ▸ splits⟩⟩
  have single : ¬ (Cursor.mk after last false).isAt .question = true := by
    unfold Atom.goesOn at ends
    rw [Bool.or_eq_false_iff, Bool.or_eq_false_iff] at ends
    exact Bool.eq_false_iff.mp ends.1.2
  rw [expression, Parser.ok_bind (read start), Parser.current_bind, Parser.get_bind, if_neg single]
  rfl

theorem expression_splits_mixed :
    expression .exhausted ⟨(Atom.word "a").token :: spelling mixed ++ [], ending, true⟩ =
        .ok (mixedTree, ⟨[], ending, false⟩) ∧
      ∀ other, Splits (.word "a") mixed other ↔ other = mixedTree := by
  obtain ⟨tree, read, splits⟩ := expression_splits .exhausted (.word "a") mixed [] ending true rfl
  have same : expression .exhausted ⟨(Atom.word "a").token :: spelling mixed ++ [], ending, true⟩ =
      .ok (mixedTree, ⟨[], ending, false⟩) := rfl
  cases read.symm.trans same
  exact ⟨same, splits⟩

end Parse

end MicroBasic
