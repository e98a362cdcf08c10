import MicroBasic.Proofs.Parsing.Course
import MicroBasic.Proofs.Parsing.Reading

/-!
# Readings that follow each other

Two parsers cross each other if, from cursors in step, whatever the first reads, the second reads
something related to it and stays in step; or it fails at the end of its sequence; or it is content
with that end. Along with this goes how far both read: tokens are passed, so the bounds on rounds
and depth are not reached, and an error stands at a token that is known. `Crosses` is all this as
one judgement, put together from those about the parts; what one parser does on its own is what it
does beside itself (`Crosses.gives`). What goes on behind a parser that may be content with the end
has to stop there (`Stops`).
-/

namespace MicroBasic

/-- A cursor at the end of a sequence. -/
structure Cursor.Final (c : Cursor) (finish : Token) : Prop where
  ahead : c.ahead = []
  last : c.last = finish
  kind : finish.kind = .finish

namespace Cursor.Final

variable {c : Cursor} {finish : Token} (final : c.Final finish)

include final

theorem current_eq : c.current = finish := by
  unfold Cursor.current
  rw [final.ahead]
  exact final.last

theorem kind_eq : c.kind = .finish := by
  unfold Cursor.kind
  rw [final.current_eq, final.kind]

theorem isAt (mark : Symbol) : c.isAt mark = false := by
  unfold Cursor.isAt
  rw [final.kind_eq]
  rfl

theorem isAtWord (word : Keyword) : c.isAtWord word = false := by
  unfold Cursor.isAtWord
  rw [final.kind_eq]
  rfl

theorem isAtSoftWord (word : String) : c.isAtSoftWord word = false := by
  unfold Cursor.isAtSoftWord
  rw [final.kind_eq]

theorem isAtEndOf (word : Keyword) : c.isAtEndOf word = false := by
  unfold Cursor.isAtEndOf
  rw [final.isAtWord]
  rfl

theorem skip (skips : TokenKind → Bool) : c.skip skips = c :=
  Course.skip_of_not (.inl final.ahead)

end Cursor.Final

theorem StmtParser.lift_bind {α β : Type} {parser : Parser α} {rest : α → StmtParser β} {id : Nat} :
    (liftM parser >>= rest) id = parser >>= fun value => rest value id := by
  funext c
  change Except.bind (Except.bind (parser c) fun read => .ok ((read.1, id), read.2)) _ = _
  simp only [Bind.bind, StateT.bind]
  cases parser c <;> rfl

/-- A reading fails at a token. -/
def FailsAt {α : Type} (token : Token) (reading : Except ParseError (α × Cursor)) : Prop :=
  ∃ cause, reading = .error (.at token cause)

theorem Parser.error_bind {error : ParseError} {α β : Type} {parser : Parser α}
    {rest : α → Parser β} {c : Cursor}
    (failed : parser c = .error error) : (parser >>= rest) c = .error error := by
  simp only [Bind.bind, StateT.bind, failed, Except.bind]

namespace Parser

/-- A parser fails at the end of a sequence. -/
def Stops {α : Type} (parser : Parser α) : Prop :=
  ∀ c finish, Cursor.Final c finish → FailsAt finish (parser c)

namespace Stops

variable {α β : Type} {parser : Parser α} {rest : α → Parser β}

theorem bind (stops : Stops parser) : Stops (parser >>= rest) := by
  intro c finish final
  obtain ⟨cause, failed⟩ := stops c finish final
  exact ⟨cause, error_bind failed⟩

theorem fail {cause : ParseFault} : Stops (Parser.fail cause : Parser α) :=
  fun _ _ final => ⟨cause, by rw [← final.current_eq]; rfl⟩

variable {what : String} {id : Nat}

theorem failExpected : Stops (Parser.failExpected what : Parser α) :=
  fun c _ final => ⟨.expected what c.current.mention, by rw [← final.current_eq]; rfl⟩

theorem get {rest : Cursor → Parser β}
    (later : ∀ {c finish}, Cursor.Final c finish → FailsAt finish (rest c c)) :
    Stops (MonadState.get >>= rest) :=
  fun _ _ => later

theorem current {rest : Token → Parser β}
    (later : ∀ {c finish}, Cursor.Final c finish → FailsAt finish (rest c.current c)) :
    Stops (Parser.current >>= rest) :=
  fun _ _ => later

theorem rounds {rest : Nat → Parser β} (later : ∀ fuel, Stops (rest fuel)) :
    Stops (Parser.rounds >>= rest) :=
  fun c finish => later _ c finish

theorem skip {skips : TokenKind → Bool} {rest : Unit → Parser β} (later : Stops (rest ())) :
    Stops ((modify fun c => c.skip skips) >>= rest) := by
  intro c finish final
  change FailsAt finish (rest () (c.skip skips))
  rw [final.skip]
  exact later c finish final

theorem discard (stops : Stops parser) : Stops (Functor.discard parser) := by
  intro c finish final
  obtain ⟨cause, failed⟩ := stops c finish final
  refine ⟨cause, ?_⟩
  change Except.bind (parser c) _ = _
  rw [failed]
  rfl

theorem accept {mark : Symbol} {rest : Bool → Parser β} (later : Stops (rest false)) :
    Stops (Parser.accept mark >>= rest) := by
  intro c finish final
  rw [accept_bind, final.isAt]
  exact later c finish final

theorem acceptWord {word : Keyword} {rest : Bool → Parser β} (later : Stops (rest false)) :
    Stops (Parser.acceptWord word >>= rest) := by
  intro c finish final
  rw [acceptWord_bind, final.isAtWord]
  exact later c finish final

theorem expect {mark : Symbol} : Stops (Parser.expect mark what) :=
  get fun final => by rw [final.isAt]; exact failExpected _ _ final

theorem expectWord {word : Keyword} : Stops (Parser.expectWord word what) :=
  get fun final => by rw [final.isAtWord]; exact failExpected _ _ final

theorem expectName : Stops (Parser.expectName what) :=
  get fun final => by rw [final.kind_eq]; exact failExpected _ _ final

theorem expectAnyName : Stops (Parser.expectAnyName what) :=
  current fun final => by
    rw [Token.name?, final.current_eq, final.kind]; exact failExpected _ _ final

theorem lifted {rest : α → StmtParser β} (stops : Stops (parser >>= fun value => rest value id)) :
    Stops ((liftM parser >>= rest) id) := by
  rwa [StmtParser.lift_bind]

theorem given {value : α} {rest : α → StmtParser β} (stops : Stops (rest value id)) :
    Stops ((Pure.pure value >>= rest) id) :=
  stops

theorem seq {parser : StmtParser α} {rest : α → StmtParser β} (stops : Stops (parser id)) :
    Stops ((parser >>= rest) id) :=
  @bind _ _ (parser id) (fun read => rest read.1 read.2) stops

end Stops

/-- A parser fails at the end of a sequence, or stays there. -/
def Idles {α : Type} (parser : Parser α) : Prop :=
  ∀ c finish, Cursor.Final c finish → FailsAt finish (parser c) ∨ ∃ value, parser c = .ok (value, c)

namespace Idles

variable {α β : Type} {parser : StmtParser α} {rest : α → StmtParser β} {id : Nat}

theorem pure {γ : Type} {value : γ} : Idles (Pure.pure value) :=
  fun _ _ _ => .inr ⟨value, rfl⟩

theorem stops (idles : Idles (parser id)) (later : ∀ {value count}, Stops (rest value count)) :
    Stops ((parser >>= rest) id) := by
  intro c finish final
  change FailsAt finish (Except.bind (parser id c) _)
  rcases idles c finish final with ⟨cause, failed⟩ | ⟨value, read⟩
  · rw [failed]
    exact ⟨cause, rfl⟩
  · rw [read]
    exact later c finish final

theorem seq (idles : Idles (parser id)) (later : ∀ {value count}, Idles (rest value count)) :
    Idles ((parser >>= rest) id) := by
  intro c finish final
  change FailsAt finish (Except.bind (parser id c) _) ∨ ∃ found, Except.bind (parser id c) _ = _
  rcases idles c finish final with ⟨cause, failed⟩ | ⟨value, read⟩
  · rw [failed]
    exact .inl ⟨cause, rfl⟩
  · rw [read]
    exact later c finish final

end Idles

end Parser

/-- How two readings are compared: where their tokens are moved, and what is known of those of the
first. -/
structure View where
  moves : Moves
  known : Token → Prop

namespace View

variable (view : View)

/-- Two trees of a view are alike. -/
abbrev Alike {α : Type} [Tree α] : α → α → Prop :=
  Tree.Alike view.moves

/-- Tokens that correspond. -/
structure Tokens (token other : Token) : Prop where
  known : view.known token
  alike : view.Alike token other

/-- Expressions that correspond. What the first calls is told by a token. -/
structure Exprs (expr other : Expr) : Prop where
  known : view.known expr.token
  told : expr.Told
  alike : view.Alike expr other

/-- Declared types that correspond. The first is named by a token. -/
structure Types (type other : Option TypeSpec) : Prop where
  same : type = other
  told : ∀ spec ∈ type, ∃ token word, view.known token ∧ token.name? = some word ∧
    spec = .ofName word

/-- Names of fields that correspond, each from a token. -/
abbrev Names : List (String × Token) → List (String × Token) → Prop :=
  List.Forall₂ fun name other => name.1 = other.1 ∧ view.known name.2

/-- Parameters that correspond. -/
structure Params (params others : List Param) : Prop where
  orderly : Param.Orderly params
  told : Param.Told view.known params
  alike : view.Alike params others

/-- Readings of statements that correspond. The blocks that the first tells of are numbered from a
number on. -/
structure Counted {α : Type} [Tree α] (start : Nat) (parts : α → List Block)
    (read other : α × Nat) : Prop where
  numbered : Numbered view.known start (parts read.1) read.2
  alike : view.Alike read.1 other.1

end View

namespace Course

/-- Two cursors in step. The tokens of the first are known, and fewer tokens than some numbers are
ahead of both. -/
structure InReach (view : View) (course : Course view.moves) (room room' : Nat) (c other : Cursor) :
    Prop extends course.InStep c other where
  within : c.Within view.known room
  short : other.ahead.length < room'

/-- Two cursors in reach before tokens of a kind that correspond. -/
structure Passing (view : View) (course : Course view.moves) (room room' : Nat) (c other : Cursor)
    (kind : TokenKind) : Prop extends course.Passes c other where
  reach : course.InReach view room room' c other
  kind_eq : c.kind = kind

section

variable {α : Type} {moves : Moves}

/-- The second reading is content with the end of its sequence. What it has read there may depend on
how the first sequence goes on. -/
def Ends (allowed : List Token → α → Cursor → α → Prop) (value : α) (after : Cursor) (result : α)
    (final : Cursor) : Course moves → Prop
  | alike => False
  | cut _ rest last _ _ => final.Final last ∧ allowed rest value after result

/-- The second reading has failed at the end of its sequence. -/
def Excuses (error : ParseError) : Course moves → Prop
  | alike => False
  | cut _ _ last _ _ => ∃ cause, error = .at last cause

/-- An error in the first of two sequences that are alike stands at a known token. -/
def Located (known : Token → Prop) (error : ParseError) : Course moves → Prop
  | alike => error.Stands known
  | cut _ _ _ _ _ => True

/-- What two readings come to that began at cursors in step, the first at a given one. -/
def Matches (known : Token → Prop) (course : Course moves) (c : Cursor) (count : Nat)
    (related : α → α → Prop) (allowed : List Token → α → Cursor → α → Prop) :
    Except ParseError (α × Cursor) → Except ParseError (α × Cursor) → Prop
  | .error error, _ => course.Located known error
  | .ok _, .error error => course.Excuses error
  | .ok (value, after), .ok (result, after') =>
    (c.Beyond after count ∧ related value result ∧ course.InStep after after') ∨
      course.Ends allowed value after result after'

variable {known : Token → Prop} {course : Course moves} {c middle other after : Cursor}
    {count most : Nat}
  {related : α → α → Prop} {allowed : List Token → α → Cursor → α → Prop}
  {first second : Except ParseError (α × Cursor)}

theorem Matches.fails {error : ParseError} (stands : error.Stands known) :
    course.Matches known c count related allowed (.error error) second := by
  cases course with
  | alike => exact stands
  | cut => trivial

theorem Excuses.matches {error : ParseError} (excuses : course.Excuses error) :
    course.Matches known c count related allowed first (.error error) := by
  cases course with
  | alike => exact excuses.elim
  | cut =>
    cases first with
    | error => trivial
    | ok => exact excuses

theorem Matches.imp {weaker : α → α → Prop} {wider : List Token → α → Cursor → α → Prop}
    (matched : course.Matches known c most related allowed first second) (less : count ≤ most)
    (holds : ∀ {value result}, related value result → weaker value result)
    (more : ∀ {rest value after result}, allowed rest value after result →
      wider rest value after result) :
    course.Matches known c count weaker wider first second := by
  cases first with
  | error => exact matched
  | ok =>
    cases second with
    | error => exact matched
    | ok =>
      rcases matched with ⟨beyond, value, step⟩ | ends
      · exact .inl ⟨beyond.mono less, holds value, step⟩
      · cases course with
        | alike => exact ends.elim
        | cut => exact .inr ⟨ends.1, more ends.2⟩

theorem Matches.beyond (beyond : c.Beyond middle count)
    (matched : course.Matches known middle (most - count) related allowed first second) :
    course.Matches known c most related allowed first second := by
  cases first with
  | error => exact matched
  | ok =>
    cases second with
    | error => exact matched
    | ok =>
      rcases matched with ⟨further, kept⟩ | ends
      · exact .inl ⟨beyond.trans further, kept⟩
      · exact .inr ends

variable {β : Type} {value result : β} {final : Cursor} {left : List Token → β → Cursor → β → Prop}

theorem Ends.stops {parser : Parser α} (ends : course.Ends left value after result final)
    (stops : parser.Stops) : course.Matches known c count related allowed first (parser final) := by
  cases course with
  | alike => exact ends.elim
  | cut =>
    obtain ⟨cause, failed⟩ := stops _ _ ends.1
    rw [failed]
    exact Excuses.matches ⟨cause, rfl⟩

theorem Ends.idles {parser : Parser α} (ends : course.Ends left value after result final)
    (idles : parser.Idles) :
    course.Matches known c count related (fun _ _ _ _ => True) first (parser final) := by
  cases course with
  | alike => exact ends.elim
  | cut =>
    rcases idles _ _ ends.1 with ⟨cause, failed⟩ | ⟨value, read⟩
    · rw [failed]
      exact Excuses.matches ⟨cause, rfl⟩
    · rw [read]
      cases first with
      | error => trivial
      | ok => exact .inr ⟨ends.1, trivial⟩

theorem InStep.ended (step : course.InStep c other) (newline : c.kind = .newline)
    (finish : other.kind = .finish) {parser : Parser α} (stops : parser.Stops) :
    course.Matches known c count related allowed first (parser other) := by
  have ends : course.Ends (fun _ _ _ _ => True) () c () other := by
    rcases step.passes_or with passes | ⟨ahead, aheadOther⟩
    · have same := passes.kind
      rw [newline, finish] at same
      cases same
    · cases course with
      | alike =>
        simp only [Cursor.kind, Cursor.current, ahead, tail, List.headD_nil, step.last] at newline
        cases newline
      | cut _ _ last _ isLast => exact ⟨⟨aheadOther, step.closing, isLast⟩, trivial⟩
  exact ends.stops stops

end

namespace InReach

variable {view : View} {course : Course view.moves} {room room' wide wide' count : Nat}
    {c other stop stop' : Cursor}
  (reach : course.InReach view room room' c other)

include reach

theorem mono (fits : room ≤ wide ∧ room' ≤ wide') : course.InReach view wide wide' c other :=
  ⟨reach.toInStep, reach.within.mono fits.1, Nat.lt_of_lt_of_le reach.short fits.2⟩

theorem beyond (beyond : c.Beyond stop count) (step : course.InStep stop stop') :
    course.InReach view (room - count) (room' - count) stop stop' := by
  refine ⟨step, reach.within.beyond beyond, ?_⟩
  have shorter := beyond.length_le
  have short := reach.short
  rw [reach.length, step.length] at shorter
  omega

theorem passing (plain : c.kind.isPlain = true) : course.Passing view room room' c other c.kind :=
  ⟨reach.passes plain, reach, rfl⟩

@[elab_as_elim]
theorem byKind {motive : TokenKind → TokenKind → Prop}
    (same : ∀ kind, (kind.isPlain = true → course.Passing view room room' c other kind) →
      motive kind kind)
    (ended : motive .newline .finish) : motive c.kind other.kind := by
  rcases reach.kinds with kinds | ⟨newline, finish⟩
  · rw [kinds]
    exact same _ reach.passing
  · rw [newline, finish]
    exact ended

@[elab_as_elim]
theorem byToken {motive : TokenKind → TokenKind → Prop}
    (same : ∀ kind, (kind.isPlain = true → course.Passing view room room' c other kind) →
      motive kind kind)
    (ended : motive .newline .finish) : motive c.current.kind other.current.kind :=
  show motive c.kind other.kind from reach.byKind same ended

end InReach

end Course

/-- Rounds of two loops are counted down together. -/
@[elab_as_elim]
theorem Course.byRounds {motive : Nat → Nat → Prop} (first : ∀ fuel', motive 0 fuel')
    (second : ∀ fuel, motive fuel 0) (both : ∀ fuel fuel', motive fuel fuel' →
      motive (fuel + 1) (fuel' + 1)) (fuel fuel' : Nat) : motive fuel fuel' := by
  induction fuel generalizing fuel' with
  | zero => exact first fuel'
  | succ fuel ih =>
    cases fuel' with
    | zero => exact second _
    | succ fuel' => exact both _ _ (ih fuel')

namespace Parser

/-- From cursors in step with few tokens ahead, what the first parser reads is matched by the
second. -/
def Crosses {α : Type} (view : View) (room room' count : Nat) (related : α → α → Prop)
    (allowed : List Token → α → Cursor → α → Prop) (parser other : Parser α) : Prop :=
  ∀ (course : Course view.moves) c c', course.InReach view room room' c c' →
    course.Matches view.known c count related allowed (parser c) (other c')

/-- The second parser is never content with the end of its sequence. -/
abbrev Follows {α : Type} (view : View) (room room' count : Nat) (related : α → α → Prop)
    (parser other : Parser α) : Prop :=
  Crosses view room room' count related (fun _ _ _ _ => False) parser other

end Parser

/-- Statements are read in step and numbered. -/
abbrev View.Statements (view : View) (room room' count : Nat) (parser other : StmtParser Stmt) :
    Prop :=
  ∀ {id id'}, Parser.Follows view room room' count (view.Counted id fun stmt => [[stmt]])
    (parser id) (other id')

namespace Course

variable {α : Type} {view : View} {course : Course view.moves} {room room' count : Nat}
    {c other : Cursor}
  {kind : TokenKind} {related : α → α → Prop} {allowed : List Token → α → Cursor → α → Prop}
  {parser parser' : Parser α}

theorem InReach.reads (reach : course.InReach view room room' c other)
    (crosses : parser.Crosses view room room' count related allowed parser') :
    course.Matches view.known c count related allowed (parser c) (parser' other) :=
  crosses _ _ _ reach

theorem InReach.pure (reach : course.InReach view room room' c other) {value result : α}
    (holds : related value result) :
    course.Matches view.known c 0 related allowed (.ok (value, c)) (.ok (result, other)) :=
  .inl ⟨.refl, holds, reach.toInStep⟩

theorem InReach.fails {cause : ParseFault} {second : Except ParseError (α × Cursor)}
    (reach : course.InReach view room room' c other) (deep : cause ≠ .tooDeep) :
    course.Matches view.known c count related allowed (.error (.at c.current cause)) second :=
  .fails (ParseError.stands_at reach.within.current deep)

namespace Passing

variable (passing : course.Passing view room room' c other kind)

include passing

theorem tokens : view.Tokens c.current other.current :=
  ⟨passing.reach.within.current, passing.alike⟩

theorem beyond : c.Beyond c.next 1 :=
  ⟨rfl, List.tail_suffix _, by rw [passing.ahead]; exact Nat.le_refl _⟩

theorem reads
    (later : parser.Crosses view (room - 1) (room' - 1) (count - 1) related allowed parser') :
    course.Matches view.known c count related allowed (parser c.next) (parser' other.next) :=
  .beyond passing.beyond (later _ _ _ (passing.reach.beyond passing.beyond passing.next))

theorem leads (later : parser.Crosses view (room - 1) (room' - 1) 0 related allowed parser') :
    course.Matches view.known c 0 related allowed (parser c.next) (parser' other.next) :=
  passing.reads later

theorem pass {rest rest' : PUnit → Parser α} (later : view.Tokens c.current other.current →
      (rest ⟨⟩).Crosses view (room - 1) (room' - 1) (count - 1) related allowed (rest' ⟨⟩)) :
    course.Matches view.known c count related allowed ((discard Parser.advance >>= rest) c)
      ((discard Parser.advance >>= rest') other) :=
  passing.reads (later passing.tokens)

theorem heads {id id' : Nat} {rest rest' : Token → StmtParser α}
    {related : α × Nat → α × Nat → Prop} {allowed : List Token → α × Nat → Cursor → α × Nat → Prop}
    (later : (rest c.current id).Crosses view (room - 1) (room' - 1) (count - 1) related allowed
      (rest' other.current id')) :
    course.Matches view.known c count related allowed ((liftM Parser.advance >>= rest) id c)
      ((liftM Parser.advance >>= rest') id' other) :=
  passing.reads later

theorem advance {allowed : List Token → Token → Cursor → Token → Prop} :
    course.Matches view.known c 1 view.Tokens allowed (Parser.advance c) (Parser.advance other) :=
  .inl ⟨passing.beyond, passing.tokens, passing.next⟩

end Passing

theorem InReach.passIf {pass : Bool} {rest rest' : Unit → Parser α}
    (reach : course.InReach view room room' c other) (plain : pass = true → c.kind.isPlain = true)
    (later : (rest ()).Crosses view room room' count related allowed (rest' ())) :
    course.Matches view.known c count related allowed
      ((if pass = true then discard Parser.advance >>= rest else rest ()) c)
      ((if pass = true then discard Parser.advance >>= rest' else rest' ()) other) := by
  cases pass with
  | true =>
    have passing := reach.passing (plain rfl)
    have further := (reach.beyond passing.beyond passing.next).mono ⟨Nat.sub_le _ _, Nat.sub_le _ _⟩
    exact .beyond (passing.beyond.mono (Nat.zero_le _)) (later _ _ _ further)
  | false => exact later _ _ _ reach

end Course

namespace Parser

namespace Crosses

variable {α β : Type} {view : View} {room room' wide wide' count most : Nat}
    {related : α → α → Prop}
  {likewise : β → β → Prop} {allowed : List Token → α → Cursor → α → Prop}
  {further : List Token → β → Cursor → β → Prop} {parser parser' : Parser α}
  {rest rest' : α → Parser β}

theorem imp {weaker : α → α → Prop} {wider : List Token → α → Cursor → α → Prop}
    (crosses : Crosses view room room' count related allowed parser parser')
    (holds : ∀ {value result}, related value result → weaker value result)
    (more : ∀ {rest value after result}, allowed rest value after result →
      wider rest value after result) :
    Crosses view room room' count weaker wider parser parser' :=
  fun _ _ _ reach => (crosses _ _ _ reach).imp (Nat.le_refl _) holds more

theorem mono (crosses : Crosses view wide wide' most related allowed parser parser')
    (fits : room ≤ wide ∧ room' ≤ wide' ∧ count ≤ most) :
    Crosses view room room' count related allowed parser parser' :=
  fun _ _ _ reach => (crosses _ _ _ (reach.mono ⟨fits.1, fits.2.1⟩)).imp fits.2.2 id id

section

variable (first : Crosses view wide wide' count related allowed parser parser')
    (fits : room ≤ wide ∧ room' ≤ wide')
  (later : ∀ {value result}, related value result →
    Crosses view (room - count) (room' - count) (most - count) likewise further (rest value)
      (rest' result))

include first fits later

/-- Parsers one after the other. If the first may be content with the end, then what goes on from
there has to be matched, too. -/
theorem meets (ended : ∀ {course : Course view.moves} {c value after result final},
      course.Ends allowed value after result final →
      course.Matches view.known c most likewise further (rest value after) (rest' result final)) :
    Crosses view room room' most likewise further (parser >>= rest) (parser' >>= rest') := by
  intro course c c' reach
  have matched := first _ _ _ (reach.mono fits)
  change course.Matches view.known c most likewise further
    (Except.bind (parser c) fun found => rest found.1 found.2)
    (Except.bind (parser' c') fun found => rest' found.1 found.2)
  cases read : parser c with
  | error =>
    rw [read] at matched
    exact matched
  | ok =>
    cases second : parser' c' with
    | error =>
      rw [read, second] at matched
      exact Course.Excuses.matches matched
    | ok =>
      rw [read, second] at matched
      rcases matched with ⟨beyond, value, step⟩ | ends
      · exact .beyond beyond (later value _ _ _ (reach.beyond beyond step))
      · exact ended ends

theorem shut (stops : ∀ {result}, (rest' result).Stops) :
    Crosses view room room' most likewise further (parser >>= rest) (parser' >>= rest') :=
  first.meets fits later fun ends => ends.stops stops

end

theorem closed (first : Crosses view room room' count related allowed parser parser')
    (later : ∀ {value result}, related value result →
      Crosses view (room - count) (room' - count) (most - count) likewise further (rest value)
        (rest' result))
    (stops : ∀ {result}, (rest' result).Stops) :
    Crosses view room room' most likewise further (parser >>= rest) (parser' >>= rest') :=
  first.shut ⟨Nat.le_refl _, Nat.le_refl _⟩ later stops

theorem pure {value result : α} (holds : related value result) :
    Crosses view room room' 0 related allowed (Pure.pure value) (Pure.pure result) :=
  fun _ _ _ reach => reach.pure holds

theorem pure_bind {value result : α}
    (crosses : Crosses view room room' count likewise further (rest value) (rest' result)) :
    Crosses view room room' count likewise further (Pure.pure value >>= rest)
      (Pure.pure result >>= rest') :=
  crosses

theorem call (first : Follows view wide wide' count related parser parser')
    (fits : room ≤ wide ∧ room' ≤ wide') (later : ∀ {value result}, related value result →
      Crosses view (room - count) (room' - count) (most - count) likewise further (rest value)
        (rest' result)) :
    Crosses view room room' most likewise further (parser >>= rest) (parser' >>= rest') := by
  refine first.meets fits later fun {course _ _ _ _ _} ends => ?_
  cases course with
  | alike => exact ends.elim
  | cut => exact ends.2.elim

section

variable (first : Follows view room room' count related parser parser')

include first

theorem bind (later : ∀ {value result}, related value result →
      Crosses view (room - count) (room' - count) (most - count) likewise further (rest value)
        (rest' result)) :
    Crosses view room room' most likewise further (parser >>= rest) (parser' >>= rest') :=
  first.call ⟨Nat.le_refl _, Nat.le_refl _⟩ later

theorem map {function : α → β}
    (holds : ∀ {value result}, related value result → likewise (function value) (function result)) :
    Crosses view room room' count likewise further (function <$> parser)
      (function <$> parser') := by
  rw [← bind_pure_comp, ← bind_pure_comp]
  refine first.bind fun values => ?_
  rw [Nat.sub_self]
  exact .pure (holds values)

theorem discard {further : List Token → PUnit → Cursor → PUnit → Prop} :
    Crosses view room room' count (fun _ _ => True) further (Functor.discard parser)
      (Functor.discard parser') :=
  first.map fun _ => trivial

end

theorem some [Tree α] (first : Follows view room room' count view.Alike parser parser') :
    Follows view room room' count view.Alike (Option.some <$> parser) (Option.some <$> parser') :=
  first.map (congrArg Option.some)

theorem failAt {token : Token} {cause : ParseFault} (stands : view.known token)
    (other : cause ≠ .tooDeep) :
    Crosses view room room' count related allowed (Parser.failAt token cause) parser' :=
  fun _ _ _ _ => .fails (ParseError.stands_at stands other)

theorem empty : Crosses view (min room 0) room' count related allowed parser parser' :=
  fun _ _ _ reach => absurd reach.within.short (by omega)

theorem emptyOther : Crosses view room (min room' 0) count related allowed parser parser' :=
  fun _ _ _ reach => absurd reach.short (by omega)

theorem get {rest rest' : Cursor → Parser β} (later : ∀ {course : Course view.moves} {c c'},
      course.InReach view room room' c c' →
        course.Matches view.known c count likewise further (rest c c) (rest' c' c')) :
    Crosses view room room' count likewise further (MonadState.get >>= rest)
      (MonadState.get >>= rest') :=
  fun _ _ _ => later

theorem current {rest rest' : Token → Parser β} (later : ∀ {course : Course view.moves} {c c'},
      course.InReach view room room' c c' →
      course.Matches view.known c count likewise further (rest c.current c) (rest' c'.current c')) :
    Crosses view room room' count likewise further (Parser.current >>= rest)
      (Parser.current >>= rest') :=
  fun _ _ _ => later

theorem rounds {rest rest' : Nat → Parser β} (later : ∀ fuel fuel',
      Crosses view (min room fuel) (min room' fuel') count likewise further (rest fuel)
        (rest' fuel')) :
    Crosses view room room' count likewise further (Parser.rounds >>= rest)
      (Parser.rounds >>= rest') := by
  intro course c c' reach
  have short := reach.within.short
  have short' := reach.short
  exact later _ _ _ _ _
    ⟨reach.toInStep, ⟨reach.within.closed, by omega, reach.within.known⟩, by omega⟩

section Words

variable {mark : Symbol} {word : Keyword} {rest rest' : Bool → Parser β}
  (passed : Crosses view (room - 1) (room' - 1) (count - 1) likewise further (rest true)
    (rest' true))
  (kept : Crosses view room room' count likewise further (rest false) (rest' false))

include passed kept

theorem accept :
    Crosses view room room' count likewise further (Parser.accept mark >>= rest)
      (Parser.accept mark >>= rest') := by
  intro course c c' reach
  rw [accept_bind, accept_bind, reach.isAt]
  split
  · exact (reach.passing (Cursor.plain_of_isAt ‹_›)).reads passed
  · exact kept _ _ _ reach

theorem acceptWord :
    Crosses view room room' count likewise further (Parser.acceptWord word >>= rest)
      (Parser.acceptWord word >>= rest') := by
  intro course c c' reach
  rw [acceptWord_bind, acceptWord_bind, reach.isAtWord]
  split
  · exact (reach.passing (Cursor.plain_of_isAtWord ‹_›)).reads passed
  · exact kept _ _ _ reach

end Words

theorem optional {mark : Symbol} : Follows view room room' 0 Eq (Parser.accept mark)
    (Parser.accept mark) := by
  have found : Follows view room room' 0 Eq (Parser.accept mark >>= Pure.pure)
      (Parser.accept mark >>= Pure.pure) :=
    .accept (.pure rfl) (.pure rfl)
  rwa [bind_pure] at found

theorem optionalWord {word : Keyword} : Follows view room room' 0 Eq (Parser.acceptWord word)
    (Parser.acceptWord word) := by
  have found : Follows view room room' 0 Eq (Parser.acceptWord word >>= Pure.pure)
      (Parser.acceptWord word >>= Pure.pure) :=
    .acceptWord (.pure rfl) (.pure rfl)
  rwa [bind_pure] at found

theorem expect {mark : Symbol} {what : String} :
    Follows view room room' 1 view.Tokens (Parser.expect mark what) (Parser.expect mark what) := by
  refine .get fun reach => ?_
  rw [reach.isAt]
  split
  · exact (reach.passing (Cursor.plain_of_isAt ‹_›)).advance
  · exact reach.fails nofun

theorem expectWord {word : Keyword} {what : String} :
    Follows view room room' 1 view.Tokens (Parser.expectWord word what)
      (Parser.expectWord word what) := by
  refine .get fun reach => ?_
  rw [reach.isAtWord]
  split
  · exact (reach.passing (Cursor.plain_of_isAtWord ‹_›)).advance
  · exact reach.fails nofun

theorem expectName {what : String} {rest rest' : String × Token → Parser β}
    (later : ∀ name {token token'}, view.Tokens token token' →
      Crosses view (room - 1) (room' - 1) (count - 1) likewise further (rest (name, token))
        (rest' (name, token'))) :
    Crosses view room room' count likewise further (Parser.expectName what >>= rest)
      (Parser.expectName what >>= rest') := by
  intro course c c' reach
  rw [expectName_bind, expectName_bind]
  refine reach.byKind (fun kind passing => ?_) (reach.fails nofun)
  cases kind with
  | name name => exact (passing rfl).reads (later name (passing rfl).tokens)
  | _ => exact reach.fails nofun

theorem expectAnyName {what : String} {rest rest' : String × Token → Parser β}
    (later : ∀ name {token token'}, token.name? = .some name → view.Tokens token token' →
      Crosses view (room - 1) (room' - 1) (count - 1) likewise further (rest (name, token))
        (rest' (name, token'))) :
    Crosses view room room' count likewise further (Parser.expectAnyName what >>= rest)
      (Parser.expectAnyName what >>= rest') := by
  intro course c c' reach
  rw [expectAnyName_bind, expectAnyName_bind]
  cases here : c.current.name? with
  | none => exact reach.fails nofun
  | some name =>
    have plain : c.current.kind.isPlain = true := by
      unfold Token.name? at here
      cases kind : c.current.kind <;> rw [kind] at here <;> first | rfl | cases here
    have passing := reach.passing plain
    have same : c'.current.name? = c.current.name? := (congrArg Token.name? passing.alike).symm
    rw [same, here]
    exact passing.reads (later name here passing.tokens)

/-- Where tokens are skipped, the second sequence may end. -/
theorem skip {skips : TokenKind → Bool} :
    Crosses view room room' 0 (fun _ _ => True)
      (fun rest _ after _ => ∃ start : Cursor, start.ahead = rest ∧
        start.atLineStart = true ∧ start.last.kind = .finish ∧ after = start.skip skips)
      (modify fun c => c.skip skips : Parser Unit) (modify fun c => c.skip skips) := by
  intro course c c' reach
  rcases reach.skip with stays | ⟨_, crossed⟩
  · exact .inl ⟨Cursor.beyond_skip, trivial, stays⟩
  · cases course with
    | alike => exact crossed.elim
    | cut _ _ _ _ isLast =>
      obtain ⟨start, ahead, last⟩ := crossed
      exact .inr ⟨⟨ahead, last, isLast⟩, start⟩

theorem skipColons :
    Follows view room room' 0 (fun _ _ => True) Parser.skipColons Parser.skipColons :=
  fun _ _ _ reach => .inl ⟨Cursor.beyond_skip, trivial, reach.skipColons⟩

theorem skipping {skips : TokenKind → Bool} {rest rest' : Unit → Parser β}
    (later : Crosses view room room' count likewise further (rest ()) (rest' ()))
    (stops : Stops ((modify fun c => c.skip skips) >>= rest')) :
    Crosses view room room' count likewise further ((modify fun c => c.skip skips) >>= rest)
      ((modify fun c => c.skip skips) >>= rest') := by
  refine .closed .skip (fun _ => later) fun c finish final => ?_
  have stopped : FailsAt finish (rest' () (c.skip skips)) := stops c finish final
  rwa [final.skip] at stopped

/-- What a parser does on its own. -/
theorem gives {c : Cursor} {known : Token → Prop}
    (crosses : Crosses ⟨.bare, known⟩ room room count related allowed parser parser)
    (within : c.Within known room) :
    parser.GivesFrom known c count fun value => related value value := by
  have same : List.Forall₂ (Tree.Alike Moves.bare) c.ahead c.ahead :=
    List.forall₂_same.mpr fun _ _ => rfl
  have reach : (Course.alike : Course Moves.bare).InReach ⟨.bare, known⟩ room room c c :=
    ⟨⟨⟨c.ahead, (List.append_nil _).symm, same⟩, rfl, within.closed, within.closed, trivial⟩,
      within, within.short⟩
  have matched := crosses _ _ _ reach
  unfold GivesFrom
  cases read : parser c with
  | error =>
    rw [read] at matched
    exact matched
  | ok =>
    rw [read] at matched
    rcases matched with ⟨beyond, holds, _⟩ | ends
    · exact ⟨beyond, holds⟩
    · exact ends.elim

end Crosses

end Parser

end MicroBasic
