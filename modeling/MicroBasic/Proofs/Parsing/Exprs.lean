import MicroBasic.Proofs.Parsing.Following

/-!
# Expressions side by side

The parsers of expressions read two sequences of tokens in step, and each fails at the end of a
sequence. Each passes a token, so the bounds on their rounds and their depth are not reached.
-/

namespace MicroBasic

open MicroBasic.Parser (Crosses Follows Stops)

/-- Nested constructs are read in step if few tokens are ahead, and fail at the end of the second
sequence. -/
structure Nested.Follow (view : View) (room room' : Nat) (nested other : Nested) : Prop where
  expression : Follows view room room' 1 view.Exprs nested.expression other.expression
  unary : Follows view room room' 1 view.Exprs nested.unary other.unary
  statement : view.Statements room room' 1 nested.statement other.statement
  stops : other.expression.Stops
  ends : ∀ {id}, Stops (other.statement id)

theorem Nested.Follow.alike {view : View} {room room' : Nat} {nested other : Nested}
    (follow : Nested.Follow view room room' nested other) :
    Follows view room room' 1 view.Alike nested.expression other.expression :=
  follow.expression.imp View.Exprs.alike id

namespace Parse

open MicroBasic.Parser

section Stopping

variable {nested : Nested} {fuel : Nat}

theorem listItems_stops {α : Type} {item : Parser α} {close : Symbol} {what : String}
    (stops : item.Stops) : (listItems item close what fuel).Stops := by
  cases fuel with
  | zero => exact .fail
  | succ fuel => exact .skip stops.bind

theorem fieldInit_stops : (fieldInit nested).Stops := by
  refine .bind (.get fun final => ?_)
  rw [final.kind_eq]
  exact Stops.bind .expectAnyName _ _ final

theorem primary_fails {c : Cursor} (ends : c.kind.isPlain = false) :
    primary nested c = .error (.at c.current (.expected "expression" c.current.mention)) := by
  rw [primary, current_bind]
  change c.current.kind.isPlain = false at ends
  cases kind : c.current.kind with
  | newline | finish => rfl
  | _ =>
    rw [kind] at ends
    cases ends

theorem operand_stops : (operand nested).Stops := by
  refine .bind fun c finish final => ⟨_, (primary_fails ?_).trans (by rw [final.current_eq])⟩
  rw [final.kind_eq]
  rfl

theorem unary_stops : (unary nested).Stops := by
  refine .current fun final => ?_
  rw [final.current_eq, final.kind]
  exact operand_stops _ _ final

theorem ladder_stops {tiers : List Level} : (ladder nested tiers).Stops := by
  induction tiers with
  | nil => exact unary_stops
  | cons level tighter ih => exact .bind ih

theorem expression_stops : (expression nested).Stops :=
  .bind ladder_stops

end Stopping

variable {view : View} {room room' fuel fuel' : Nat}

section Lists

variable {α : Type} [Tree α] {item item' : Parser α} {close : Symbol} {what : String}
  (items : Follows view room room' 1 view.Alike item item') (stops : item'.Stops)

include items stops

theorem listItems_follows : Follows view (min room fuel) (min room' fuel') 1 view.Alike
    (listItems item close what fuel) (listItems item' close what fuel') := by
  induction fuel, fuel' using Course.byRounds with
  | first => exact .empty
  | second => exact .emptyOther
  | both fuel fuel' ih =>
    refine .closed .skip (fun _ => .call items (by omega) fun first => ?_) stops.bind
    refine .closed .skip (fun _ => .accept ?_ ?_) (.accept (.bind (.discard .expect)))
    · exact .call ih (by omega) fun others => .pure (congrArg₂ List.cons first others)
    · exact .bind (.discard .expect) fun _ => .pure (congrArg (fun form => [form]) first)

theorem list_follows :
    Follows view room room' 1 view.Alike (list item close what) (list item' close what) := by
  refine .closed .skip (fun _ => .accept ?_ ?_) (.accept (.rounds fun _ => listItems_stops stops))
  · exact .pure rfl
  · exact .rounds fun _ _ => .mono (listItems_follows items stops) (by omega)

end Lists

theorem fieldName_follows : Follows view room room' 1 Eq fieldName fieldName := by
  have named : Follows view room room' 1 Eq (expectAnyName "field name" >>= fun read => pure read.1)
      (expectAnyName "field name" >>= fun read => pure read.1) :=
    .expectAnyName fun _ _ _ _ _ => .pure rfl
  refine .get fun reach => reach.byKind (fun kind passing => ?_) (reach.reads named)
  cases kind with
  | text value => exact (passing rfl).pass fun _ => .pure rfl
  | _ => exact reach.reads named

variable {nested nested' : Nested} (follow : nested.Follow view room room' nested')

include follow

theorem fieldInit_follows :
    Follows view room room' 1 view.Alike (fieldInit nested) (fieldInit nested') :=
  .bind fieldName_follows fun names => .bind (.discard .expect) fun _ =>
      .call follow.alike (by omega) fun values =>
    .pure (congrArg₂ Prod.mk names values)

theorem arguments_follows :
    Follows view (room + 1) (room' + 1) 1 view.Alike (arguments nested) (arguments nested') :=
  .bind (.discard .expect) fun _ => .mono (list_follows follow.alike follow.stops) (by omega)

theorem bracketed_follows {wide wide' : Nat} {close : Symbol} {what : String}
    {rest rest' : Expr → Parser Expr}
    (fits : wide ≤ room ∧ wide' ≤ room') (later : ∀ {value result}, view.Exprs value result →
      Follows view (wide - 1) (wide' - 1) 0 view.Exprs (rest value) (rest' result)) :
    Follows view wide wide' 0 view.Exprs
      (do
        skipNewlines
        let inner ← nested.expression
        skipNewlines
        discard (expect close what)
        rest inner)
      (do
        skipNewlines
        let inner ← nested'.expression
        skipNewlines
        discard (expect close what)
        rest' inner) := by
  refine .closed .skip (fun _ => .call follow.expression fits fun inner => ?_) follow.stops.bind
  refine .closed .skip (fun _ => .bind (.discard .expect) fun _ => ?_) (.bind (.discard .expect))
  exact (later inner).mono (by omega)

theorem primary_follows :
    Follows view (room + 1) (room' + 1) 1 view.Exprs (primary nested) (primary nested') := by
  have fields {close : Symbol} {what : String} : Follows view room room' 1 view.Alike
      (list (fieldInit nested) close what) (list (fieldInit nested') close what) :=
    list_follows (fieldInit_follows follow) fieldInit_stops
  refine .current fun reach => reach.byToken (fun kind passing => ?_) (reach.fails nofun)
  cases kind with
  | number value =>
    exact (passing rfl).pass fun tokens =>
      .pure ⟨tokens.known, trivial, congrArg (Expr.number · value) tokens.alike⟩
  | text value =>
    exact (passing rfl).pass fun tokens =>
      .pure ⟨tokens.known, trivial, congrArg (Expr.text · value) tokens.alike⟩
  | name name =>
    refine (passing rfl).pass fun tokens => .accept ?_ ?_
    · exact .call fields (by omega) fun alike =>
        .pure ⟨tokens.known, trivial, Expr.alike_record tokens.alike alike⟩
    · exact .pure ⟨tokens.known, (passing rfl).kind_eq, congrArg (Expr.name · name) tokens.alike⟩
  | keyword word =>
    cases word
    case TRUE | FALSE =>
      exact (passing rfl).pass fun tokens =>
        .pure ⟨tokens.known, trivial, congrArg (Expr.number · _) tokens.alike⟩
    all_goals exact reach.fails nofun
  | symbol mark =>
    cases mark
    case leftParen => exact (passing rfl).pass fun _ => bracketed_follows follow (by omega) .pure
    case leftBracket =>
      exact (passing rfl).pass fun tokens =>
          .bind (list_follows follow.alike follow.stops) fun items =>
        .pure ⟨tokens.known, trivial, Expr.alike_array tokens.alike items⟩
    case leftBrace =>
      exact (passing rfl).pass fun tokens => .bind fields fun alike =>
        .pure ⟨tokens.known, trivial, Expr.alike_object tokens.alike alike⟩
    case dot =>
      exact (passing rfl).pass fun tokens => .expectAnyName fun name _ _ _ _ =>
        .pure ⟨tokens.known, trivial, congrArg (Expr.withField · name) tokens.alike⟩
    all_goals exact reach.fails nofun
  | _ => exact reach.fails nofun

theorem chain_follows {expr expr' : Expr} (exprs : view.Exprs expr expr') :
    Follows view (min room fuel) (min room' fuel') 0 view.Exprs (chain nested fuel expr)
      (chain nested' fuel' expr') := by
  induction fuel, fuel' using Course.byRounds generalizing expr expr' with
  | first => exact .empty
  | second => exact .emptyOther
  | both fuel fuel' ih =>
    refine .current fun reach => reach.byToken (fun kind passing => ?_) (reach.pure exprs)
    cases kind with
    | symbol mark =>
      cases mark
      case leftParen =>
        have called : Follows view (min room (fuel + 1)) (min room' (fuel' + 1)) 0 view.Exprs
            (arguments nested >>= fun args => chain nested fuel (.call _ expr args))
            (arguments nested' >>= fun args => chain nested' fuel' (.call _ expr' args)) :=
          .call (arguments_follows follow) (by omega) fun args =>
            .mono (ih ⟨(passing rfl).tokens.known,
            Expr.told_call exprs.told, Expr.alike_call (passing rfl).alike exprs.alike args⟩)
              (by omega)
        exact reach.reads called
      case dot =>
        exact (passing rfl).pass fun _ => .expectAnyName fun name _ _ _ tokens =>
          .mono (ih ⟨tokens.known, trivial,
            congrArg₂ (Expr.member · · name) tokens.alike exprs.alike⟩) (by omega)
      case leftBracket =>
        exact (passing rfl).pass fun tokens =>
          bracketed_follows follow (by omega) fun index => .mono
          (ih ⟨tokens.known, trivial, Expr.alike_index tokens.alike exprs.alike index.alike⟩)
          (by omega)
      case ellipsis =>
        exact (passing rfl).pass fun tokens =>
          .pure ⟨tokens.known, trivial, congrArg₂ Expr.spread tokens.alike exprs.alike⟩
      all_goals exact reach.pure exprs
    | _ => exact reach.pure exprs

theorem operand_follows :
    Follows view (room + 1) (room' + 1) 1 view.Exprs (operand nested) (operand nested') :=
  .bind (primary_follows follow) fun exprs => .rounds fun _ _ => chain_follows follow exprs

theorem newRecord_follows {token token' : Token} (tokens : view.Tokens token token') :
    Follows view room room' 0 view.Exprs (newRecord nested token) (newRecord nested' token') := by
  have chained {args args' : Option (List Expr)} (name : String) (alike : view.Alike args args')
      {fuel fuel' : Nat} :=
    @chain_follows _ _ _ fuel fuel' _ _ follow (.new token name args) (.new token' name args')
      ⟨tokens.known, trivial, Expr.alike_new tokens.alike alike⟩
  refine .expectName fun name _ _ _ => .get fun reach => ?_
  rw [reach.isAt]
  split
  · refine reach.reads (.call (.some (arguments_follows follow)) (by omega) fun args => ?_)
    exact .rounds fun _ _ => (chained name args).mono (by omega)
  · exact reach.reads (.pure_bind (.rounds fun _ _ => (chained name .none).mono (by omega)))

theorem unary_follows :
    Follows view (room + 1) (room' + 1) 1 view.Exprs (unary nested) (unary nested') := by
  have plain := operand_follows follow
  refine .current fun reach => reach.byToken (fun kind passing => ?_) (reach.reads plain)
  cases kind with
  | symbol mark =>
    cases mark
    case minus | plus =>
      exact (passing rfl).pass fun tokens => .bind follow.unary fun inner =>
        .pure ⟨tokens.known, trivial, congrArg₂ (Expr.unary · _ ·) tokens.alike inner.alike⟩
    case ellipsis =>
      exact (passing rfl).pass fun tokens => .bind follow.unary fun inner =>
        .pure ⟨tokens.known, trivial, congrArg₂ Expr.spread tokens.alike inner.alike⟩
    all_goals exact reach.reads plain
  | keyword word =>
    cases word
    case NOT =>
      exact (passing rfl).pass fun tokens => .bind follow.unary fun inner =>
        .pure ⟨tokens.known, trivial, congrArg₂ (Expr.unary · _ ·) tokens.alike inner.alike⟩
    case AWAIT =>
      exact (passing rfl).pass fun tokens => .bind follow.unary fun inner =>
        .pure ⟨tokens.known, trivial, congrArg₂ Expr.await tokens.alike inner.alike⟩
    case NEW => exact (passing rfl).pass fun tokens => newRecord_follows follow tokens
    all_goals exact reach.reads plain
  | _ => exact reach.reads plain

omit follow in
theorem moreOperands_follows {level : Level} {next next' : Parser Expr} {left left' : Expr}
    (blind : level .newline = none ∧ level .finish = none)
    (operands : Follows view room room' 1 view.Exprs next next') (exprs : view.Exprs left left') :
    Follows view (min room fuel) (min room' fuel') 0 view.Exprs (moreOperands level next fuel left)
      (moreOperands level next' fuel' left') := by
  induction fuel, fuel' using Course.byRounds generalizing left left' with
  | first => exact .empty
  | second => exact .emptyOther
  | both fuel fuel' ih =>
    refine .current fun reach => reach.byToken (fun kind passing => ?_) ?_
    · cases found : level kind with
      | none => exact reach.pure exprs
      | some op =>
        have plain : kind.isPlain = true := by
          cases kind with
          | newline => rw [blind.1] at found; cases found
          | finish => rw [blind.2] at found; cases found
          | _ => rfl
        exact (passing plain).pass fun tokens => .call operands (by omega) fun right => .mono
          (ih ⟨tokens.known, trivial, Expr.alike_binary tokens.alike exprs.alike right.alike⟩)
          (by omega)
    · rw [blind.1, blind.2]
      exact reach.pure exprs

theorem ladder_follows {tiers : List Level}
    (blind : ∀ level ∈ tiers, level .newline = none ∧ level .finish = none) :
    Follows view (room + 1) (room' + 1) 1 view.Exprs (ladder nested tiers)
      (ladder nested' tiers) := by
  induction tiers with
  | nil => exact unary_follows follow
  | cons level tighter ih =>
    replace ih := ih fun level among => blind level (List.mem_cons_of_mem _ among)
    refine .bind ih fun left => .rounds fun _ _ => ?_
    exact (moreOperands_follows (blind level List.mem_cons_self) ih left).mono (by omega)

theorem expression_told :
    Follows view (room + 1) (room' + 1) 1 view.Exprs (expression nested) (expression nested') := by
  refine .bind (ladder_follows follow (by simp [levels])) fun condition =>
    .current fun {_ c _} reach => ?_
  rw [get_bind, get_bind, reach.isAt]
  cases here : c.isAt .question with
  | false => exact reach.pure condition
  | true =>
    exact (reach.passing (Cursor.plain_of_isAt here)).pass fun tokens =>
        .call follow.alike (by omega) fun yes =>
      .bind (.discard .expect) fun _ => .call follow.alike (by omega) fun no =>
        .pure ⟨tokens.known, trivial, Expr.alike_conditional tokens.alike condition.alike yes no⟩

theorem expression_follows :
    Follows view (room + 1) (room' + 1) 1 view.Alike (expression nested) (expression nested') :=
  (expression_told follow).imp View.Exprs.alike id

end Parse

end MicroBasic
