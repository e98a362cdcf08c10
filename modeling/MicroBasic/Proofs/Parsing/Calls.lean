import MicroBasic.Proofs.Loops.Pairing
import MicroBasic.Proofs.Parsing.Programs
import MicroBasic.Proofs.Parsing.Sources

/-!
# Called names

A call without arguments may be the name of a variable, which is then printed. The name was read
from the source, where it is a word that is not reserved; so it can be written behind `PRINT`.

Main statement: if a source is a program that is only the call of a name, then to print that name is
a program (`Program.parseWith_printing`).
-/

namespace MicroBasic

/-- If a program calls a name, then one of its tokens has that name. Marking the places of all other
tokens does not change the program, so the token of the call is none of them. -/
theorem Program.named_of_ofTokens {tokens : List Token} {program : Program} {stmt : Stmt}
    {token nameToken : Token} {name : String} {args : List Expr}
    (parsed : Program.ofTokens tokens = .ok program)
    (among : stmt ∈ program.statements)
    (isCall : stmt.kind = .call (.call token (.name nameToken name) args)) :
    nameToken ∈ tokens ∧ nameToken.kind = .name name := by
  classical
  constructor
  · let marked (token : Token) : Location :=
      if token ∈ tokens then token.location
        else { token.location with span := ⟨token.span.start + 1, 0⟩ }
    have known : ∀ token ∈ tokens, marked token = token.location := fun _ among => if_pos among
    have shapes := List.map_inj_left.mp (Program.shape_of_ofTokens known parsed) stmt among
    have outline := @Stmt.outline_of_alike ⟨marked, Token.location⟩ _ _ shapes
    rw [isCall] at outline
    obtain ⟨_, callee, _⟩ := Expr.call.inj (StmtKind.call.inj outline)
    have starts := congrArg (fun token => token.span.start) (Expr.name.inj callee).1
    refine Decidable.byContradiction fun other => ?_
    have away : (marked nameToken).span.start = nameToken.span.start + 1 := by
      simp only [marked, if_neg other]
    exact absurd (starts.symm.trans away) (Nat.ne_of_lt (Nat.lt_succ_self _))
  · obtain ⟨⟨_, numbered⟩, _⟩ := Program.numbered parsed
    have orderly := (numbered.sound List.mem_cons_self .self among).2
    rwa [isCall] at orderly

namespace Scan

theorem cuts_printing {cs : List Char} {tokens : List Token} (cuts : Cuts cs tokens) :
    Cuts ("PRINT ".toList ++ cs) (written (.keyword .PRINT) "PRINT".toList :: tokens) := by
  have length : nameLength ('P' :: ("RINT ".toList ++ cs)) = 5 := rfl
  have word : ('P' :: ("RINT ".toList ++ cs)).take 5 = "PRINT".toList := rfl
  have notComment : Text.sameName (String.ofList "PRINT".toList) "REM" = false := by decide +kernel
  have reserved : Keyword.ofWord? (String.ofList "PRINT".toList) = some .PRINT := by decide +kernel
  have first : lexeme 'P' ("RINT ".toList ++ cs) = .token (.keyword .PRINT) 5 := by
    rw [lexeme_of_startsName rfl rfl, scanName]
    rw [length, word, notComment, reserved]
    rfl
  exact @Cuts.token 'P' ("RINT ".toList ++ cs) _ 5 tokens rfl first
    (@Cuts.space ' ' cs tokens rfl cuts)

end Scan

namespace Program

variable {options : ScanOptions} {source name : String} {program : Program}

theorem ofTokens_print {print word finish : Token} (isPrint : print.kind = .keyword .PRINT)
    (isName : word.kind = .name name) (isFinish : finish.kind = .finish) :
    ∃ program, Program.ofTokens [print, word, finish] = .ok program := by
  obtain ⟨_, _, _, _⟩ := print
  obtain ⟨_, _, _, _⟩ := word
  obtain ⟨_, _, _, _⟩ := finish
  cases isPrint
  cases isName
  cases isFinish
  have paired (token nameToken : Token) :
      Block.pairing [.mk 0 token none none (.print [⟨.name nameToken name, none⟩] true)] =
          .ok .empty := by
    rw [Block.pairing, Pairing.pairFrom_cons]
    change Pairing.pairFrom 1 [] .empty [] = _
    rw [Pairing.pairFrom]
    rfl
  exact ⟨⟨_, .empty⟩, ofTokens_ok_iff.mpr ⟨1, _, rfl, paired _ _⟩⟩

theorem parseWith_printing_name (isName : Scan.IsName name) (options : ScanOptions) :
    ∃ printer, Program.parseWith options (Session.printing name) = .ok printer := by
  have cuts : Scan.Cuts (Session.printing name).toList _ :=
    String.toList_append ▸ Scan.cuts_printing isName
  obtain ⟨tokens, finish, places, parses⟩ := parseWith_of_cuts cuts options
  obtain ⟨print, rest, rfl, first, same⟩ := List.map_eq_cons_iff.mp places.bare_eq
  obtain ⟨word, rest, rfl, second, same⟩ := List.map_eq_cons_iff.mp same
  obtain rfl := List.map_eq_nil_iff.mp same
  obtain ⟨printer, read⟩ :=
    @ofTokens_print _ print word _ (congrArg Token.kind first) (congrArg Token.kind second)
    places.finish_kind
  refine ⟨printer, ?_⟩
  rw [parses]
  change (Program.ofTokens [print, word, finish]).mapError _ = _
  rw [read]
  rfl

theorem parseWith_printing {stmt : Stmt} {token nameToken : Token} {args : List Expr}
    (parsed : Program.parseWith options source = .ok program) (among : stmt ∈ program.statements)
    (isCall : stmt.kind = .call (.call token (.name nameToken name) args)) :
    ∃ printer, Program.parseWith options (Session.printing name) = .ok printer := by
  obtain ⟨bare, cuts⟩ := cuts_of_parseWith parsed
  obtain ⟨tokens, finish, places, parses⟩ := parseWith_of_cuts cuts options
  obtain ⟨held, named⟩ :=
    named_of_ofTokens (Results.of_mapError (parses.symm.trans parsed)) among isCall
  rcases List.mem_append.mp held with held | last
  · refine parseWith_printing_name (cuts.isName nameToken.bare ?_ name named) options
    exact places.bare_eq ▸ List.mem_map_of_mem held
  · rw [List.mem_singleton.mp last, places.finish_kind] at named
    cases named

end Program

end MicroBasic
