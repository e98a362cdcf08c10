import MicroBasic.Proofs.Parsing.Declared

/-!
# How far parsers read

The parsers count the rounds of their loops and the depth of their recursion, although both end by
themselves. They do because each round and each nested construct passes a token: a parser that has
fewer tokens ahead of it than some number needs no more rounds and depth than that. So a bound on
the tokens ahead is carried along, and goes down with the tokens that are passed. Whatever is known
of all tokens holds of those that a parser keeps, and of the one that an error stands at.
-/

namespace MicroBasic

/-- The last token ends the source, fewer tokens than some number are ahead, and all tokens are
known. -/
structure Cursor.Within (known : Token → Prop) (c : Cursor) (room : Nat) : Prop where
  closed : c.last.kind = .finish
  short : c.ahead.length < room
  known : ∀ token ∈ c.last :: c.ahead, known token

/-- One cursor stands as many tokens behind another as a number says, or further. -/
structure Cursor.Beyond (c after : Cursor) (count : Nat) : Prop where
  last : after.last = c.last
  suffix : after.ahead <:+ c.ahead
  length_le : after.ahead.length + count ≤ c.ahead.length

namespace Cursor

variable {known : Token → Prop} {c middle after : Cursor} {room wide count more : Nat}

theorem Within.mono (within : c.Within known room) (le : room ≤ wide) : c.Within known wide :=
  ⟨within.closed, Nat.lt_of_lt_of_le within.short le, within.known⟩

theorem Within.beyond (within : c.Within known room) (beyond : c.Beyond after count) :
    after.Within known (room - count) where
  closed := beyond.last ▸ within.closed
  short := by have := within.short; have := beyond.length_le; omega
  known := by
    rw [beyond.last]
    exact List.forall_mem_cons.mpr ⟨within.known _ List.mem_cons_self,
      fun token ahead => within.known token (List.mem_cons_of_mem _ (beyond.suffix.subset ahead))⟩

theorem Within.current (within : c.Within known room) : known c.current := by
  obtain ⟨ahead, last, atLineStart⟩ := c
  cases ahead with
  | nil => exact within.known _ List.mem_cons_self
  | cons token rest => exact within.known _ (List.mem_cons_of_mem _ List.mem_cons_self)

theorem Beyond.refl : c.Beyond c 0 :=
  ⟨rfl, List.suffix_rfl, Nat.le_refl _⟩

theorem Beyond.trans (first : c.Beyond middle count) (second : middle.Beyond after (more - count)) :
    c.Beyond after more where
  last := second.last.trans first.last
  suffix := second.suffix.trans first.suffix
  length_le := by have := first.length_le; have := second.length_le; omega

theorem Beyond.mono (beyond : c.Beyond after more) (le : count ≤ more) : c.Beyond after count :=
  ⟨beyond.last, beyond.suffix, by have := beyond.length_le; omega⟩

theorem beyond_next : c.Beyond c.next 0 :=
  ⟨rfl, List.tail_suffix _, (List.tail_suffix _).length_le⟩

theorem beyond_skip {skips : TokenKind → Bool} : c.Beyond (c.skip skips) 0 := by
  unfold skip
  split
  · exact ⟨rfl, List.dropWhile_suffix _, (List.dropWhile_suffix _).length_le⟩
  · exact .refl

end Cursor

namespace Parser

variable {α β : Type} {c : Cursor}

theorem get_bind {rest : Cursor → Parser β} : (get >>= rest) c = rest c c :=
  rfl

theorem here_bind {rest : Cursor → Parser β} : (here >>= rest) c = rest c c :=
  rfl

theorem rounds_bind {rest : Nat → Parser β} : (rounds >>= rest) c = rest (c.ahead.length + 1) c :=
  rfl

theorem current_bind {rest : Token → Parser β} : (current >>= rest) c = rest c.current c :=
  rfl

theorem pass_bind {rest : PUnit → Parser β} : (discard advance >>= rest) c = rest ⟨⟩ c.next :=
  rfl

theorem accept_bind {mark : Symbol} {rest : Bool → Parser β} : (accept mark >>= rest) c =
    if c.isAt mark then rest true c.next else rest false c := by
  change Except.bind ((if c.isAt mark = true then discard advance >>= fun _ => pure true
    else pure false : Parser Bool) c) _ = _
  split <;> rfl

theorem acceptWord_bind {word : Keyword} {rest : Bool → Parser β} : (acceptWord word >>= rest) c =
    if c.isAtWord word then rest true c.next else rest false c := by
  change Except.bind ((if c.isAtWord word = true then discard advance >>= fun _ => pure true
    else pure false : Parser Bool) c) _ = _
  split <;> rfl

theorem expectName_bind {what : String} {rest : String × Token → Parser β} :
    (expectName what >>= rest) c = match c.kind with
      | .name value => rest (value, c.current) c.next
      | _ => .error (.at c.current (.expected what c.current.mention)) := by
  change Except.bind ((match c.kind with
    | .name value => (fun token => (value, token)) <$> advance
    | _ => failExpected what : Parser _) c) _ = _
  cases c.kind <;> rfl

theorem expectAnyName_bind {what : String} {rest : String × Token → Parser β} :
      (expectAnyName what >>= rest) c = match c.current.name? with
      | some value => rest (value, c.current) c.next
      | none => .error (.at c.current (.expected what c.current.mention)) := by
  change Except.bind ((match c.current.name? with
    | some value => (fun token => (value, token)) <$> advance
    | none => failExpected what : Parser _) c) _ = _
  cases c.current.name? <;> rfl

end Parser

/-- From a cursor, a parser passes as many tokens as a number says, or fails for another reason than
a bound. -/
def Parser.ReadsFrom {α : Type} (parser : Parser α) (c : Cursor) (count : Nat) : Prop :=
  match parser c with
  | .ok (_, after) => c.Beyond after count
  | .error error => error.cause ≠ .tooDeep

/-- An error stands at a known token, and it is not that a bound was reached. -/
def ParseError.Stands (known : Token → Prop) (error : ParseError) : Prop :=
  error.cause ≠ .tooDeep ∧ ∃ token, known token ∧ error = .at token error.cause

theorem ParseError.stands_at {known : Token → Prop} {token : Token} {cause : ParseFault}
    (stands : known token)
    (other : cause ≠ .tooDeep) : (ParseError.at token cause).Stands known :=
  ⟨other, token, stands, rfl⟩

/-- From a cursor, a parser passes as many tokens as a number says and gives something good, or
fails at a known token. -/
def Parser.GivesFrom {α : Type} (known : Token → Prop) (parser : Parser α) (c : Cursor)
    (count : Nat) (good : α → Prop) : Prop :=
  match parser c with
  | .ok (value, after) => c.Beyond after count ∧ good value
  | .error error => error.Stands known

theorem Parser.GivesFrom.imp {known : Token → Prop} {c : Cursor} {count : Nat} {α : Type}
    {parser : Parser α} {good further : α → Prop}
    (gives : parser.GivesFrom known c count good) (implies : ∀ value, good value → further value) :
    parser.GivesFrom known c count further := by
  unfold GivesFrom at gives ⊢
  split at gives
  · exact ⟨gives.1, implies _ gives.2⟩
  · exact gives

theorem Parser.GivesFrom.readsFrom {known : Token → Prop} {c : Cursor} {count : Nat} {α : Type}
    {parser : Parser α} {good : α → Prop}
    (gives : parser.GivesFrom known c count good) : parser.ReadsFrom c count := by
  unfold GivesFrom at gives
  unfold ReadsFrom
  split at gives
  · exact gives.1
  · exact gives.1

end MicroBasic
