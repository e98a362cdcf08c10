import Mathlib.Data.List.Nodup
import MicroBasic.Parse.Program

/-!
# What statements say

The parameters and fields that the parser lets through, and the names that are called. Only the last
parameter collects the remaining arguments; it has no default and is passed by value. No two
parameters have the same name, whatever its case. No field is spelled like another one, although
names that differ in case are the same name to everything that looks a field up. A `SPREAD` clause
names fields only. If a statement calls a name, it has it from a token, and so it has the types of
parameters.

Statements are numbered as they are finished: the statements of the inner blocks of a statement
before the statement itself, and those of a block from the first on. So no number is given twice.
-/

namespace MicroBasic

/-- The parameters that take one argument each, and the one behind them that collects the others, if
there is one. -/
structure Param.Split (params fixed : List Param) (collecting : Option Param) : Prop where
  split : params = fixed ++ collecting.toList
  single : ∀ param ∈ fixed, param.variadic = false
  collects : ∀ param ∈ collecting, param.variadic = true ∧ param.default = none ∧
    param.byRef = false

/-- Parameters that the parser lets through. No two have the same name, whatever its case. -/
structure Param.Orderly (params : List Param) : Prop where
  split : ∃ fixed collecting, Param.Split params fixed collecting
  distinct : params.Pairwise fun param later => Text.sameName param.name later.name = false

/-- The declared types of parameters are named by known tokens. -/
def Param.Told (known : Token → Prop) (params : List Param) : Prop :=
  ∀ param ∈ params, ∀ type ∈ param.type, ∃ token word, known token ∧ token.name? = some word ∧
    type = .ofName word

/-- If an expression is a name or the call of one, then its token has that name. -/
def Expr.Told : Expr → Prop
  | .name token word => token.kind = .name word
  | .call _ (.name token word) _ => token.kind = .name word
  | _ => True

/-- What a statement says is in order: the parameters of a function or accessor, the fields of a
type, the name that is called. -/
def StmtKind.Orderly {β : Type} (known : Token → Prop) : StmtKind β → Prop
  | function decl => Param.Orderly decl.params ∧ Param.Told known decl.params
  | property decl => Param.Orderly decl.params ∧ Param.Told known decl.params
  | type decl => (decl.fields.map FieldDecl.name).Nodup ∧
    decl.spread.getD [] ⊆ decl.fields.map FieldDecl.name
  | call expr => expr.Told
  | _ => True

theorem Param.orderly_nil : Param.Orderly [] :=
  ⟨⟨[], none, rfl, nofun, nofun⟩, .nil⟩

theorem Param.Orderly.concat {earlier : List Param} {param : Param}
    (orderly : Param.Orderly earlier) (single : ∀ other ∈ earlier, other.variadic = false)
    (different : ∀ other ∈ earlier, Text.sameName other.name param.name = false)
    (form : param.variadic = true → param.default = none ∧ param.byRef = false) :
    Param.Orderly (earlier ++ [param]) := by
  constructor
  · cases variadic : param.variadic with
    | true =>
      refine ⟨earlier, some param, rfl, single, ?_⟩
      rintro _ ⟨⟩
      exact ⟨variadic, form variadic⟩
    | false =>
      refine ⟨earlier ++ [param], none, (List.append_nil _).symm, ?_, nofun⟩
      exact List.forall_mem_append.mpr ⟨single, List.forall_mem_singleton.mpr variadic⟩
  · refine List.pairwise_append.mpr
      ⟨orderly.distinct, List.pairwise_singleton .., fun other among last same => ?_⟩
    cases List.mem_singleton.mp same
    exact different other among

theorem Expr.told_call {expr : Expr} {args : List Expr} {token : Token} (told : expr.Told) :
    (Expr.call token expr args).Told := by
  cases expr with
  | name => exact told
  | _ => trivial

/-- A statement stands at a known token, and what it declares is in order. -/
def Stmt.Sound (known : Token → Prop) (stmt : Stmt) : Prop :=
  known stmt.token ∧ stmt.kind.Orderly known

/-- The statements of some blocks, and those inside them, are sound and numbered one after another.
-/
inductive Numbered (known : Token → Prop) : Nat → List Block → Nat → Prop
  | nil {first : Nat} : Numbered known first [] first
  | skip {first next : Nat} {blocks : List Block} (others : Numbered known first blocks next) :
    Numbered known first ([] :: blocks) next
  | cons {first next : Nat} {stmt : Stmt} {rest : Block} {blocks : List Block}
    (sound : stmt.Sound known) (inner : Numbered known first stmt.blocks stmt.id)
    (others : Numbered known (stmt.id + 1) (rest :: blocks) next) :
    Numbered known first ((stmt :: rest) :: blocks) next

namespace Numbered

variable {known : Token → Prop} {first middle next : Nat} {blocks others : List Block}

theorem le (numbered : Numbered known first blocks next) : first ≤ next := by
  induction numbered with
  | nil => exact Nat.le_refl _
  | skip _ ih => exact ih
  | cons _ _ _ inner others => omega

theorem append (numbered : Numbered known first blocks middle)
    (more : Numbered known middle others next) : Numbered known first (blocks ++ others) next := by
  induction numbered with
  | nil => exact more
  | skip _ ih => exact .skip (ih more)
  | cons sound inner _ _ ih => exact .cons sound inner (ih more)

theorem block {stmt : Stmt} {rest : Block} (numbered : Numbered known first [[stmt], rest] next) :
    Numbered known first [stmt :: rest] next := by
  cases numbered with
  | cons sound inner others =>
    cases others with
    | skip others => exact .cons sound inner others

theorem relabel {id : Nat} {token : Token} {kind : StmtKind Block} {line other : Option Nat}
    {name another : Option String}
    (numbered : Numbered known first [[.mk id token line name kind]] next) :
    Numbered known first [[.mk id token other another kind]] next := by
  cases numbered with
  | cons sound inner others => exact .cons sound inner others

end Numbered

end MicroBasic
