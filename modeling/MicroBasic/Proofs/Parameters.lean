import MicroBasic.Host.Library
import MicroBasic.Proofs.Balance
import MicroBasic.Proofs.Loops.Pairing

/-!
# Parameters have storage of their own

Parameters are bound to arguments from left to right, each under its name without the type suffix.
The parser refuses a second parameter of the same name, but a name with another type suffix is
another name to it. So a parameter has storage of its own unless one behind it has its name with
another suffix: binding those leaves it alone. The evaluation of a default leaves the places that
parameters stand for, but it may assign a parameter that was bound before: it runs where the
parameters are already variables, and a function that it calls may take one of them by reference.
-/

namespace MicroBasic

/-- The function that a statement declares, if it declares one or an accessor of a property. -/
def StmtKind.declared? : StmtKind Block → Option (FunctionDecl Block)
  | function decl => some decl
  | property decl => some decl.asFunction
  | _ => none

/-- The parameters of a declaration that is in order are in order. -/
theorem StmtKind.Orderly.params {known : Token → Prop} {decl : FunctionDecl Block}
    {kind : StmtKind Block} (orderly : kind.Orderly known)
    (declares : kind.declared? = some decl) : Param.Orderly decl.params := by
  unfold declared? at declares
  split at declares <;> cases declares <;> exact orderly.1

namespace Param

/-- The name that a parameter is stored under. -/
def key (param : Param) : String :=
  Text.stripSuffix param.name

/-- The place that a parameter stands for, if it is passed by reference and its argument has a
place. -/
def alias? (param : Param) (arg : Arg) : Option Place :=
  if param.byRef then arg.place else none

/-- A machine after a parameter has been bound to an argument. -/
def bound (param : Param) (arg : Arg) (m : Machine) : Machine :=
  match param.alias? arg with
  | some place => m.bindPlace param.name place
  | none => m.bindLocal param.name arg.value

/-- Binding some parameters evaluates a default on a machine: the parameters before its own have
been bound there, and took all arguments. -/
def Evaluates (self : Evaluator) (function : String) (params : List Param) (args : List Arg)
    (m : Machine) (expr : Expr) (before : Machine) : Prop :=
  ∃ earlier param later, params = earlier ++ param :: later ∧ args.length ≤ earlier.length ∧
    param.default = some expr ∧ self.bindParams function earlier args m = .ok () before

/-- No default that is evaluated when some parameters are bound changes a variable. -/
def Spares (self : Evaluator) (function : String) (params : List Param) (args : List Arg)
    (m : Machine) (key : String) : Prop :=
  ∀ expr before value after, Evaluates self function params args m expr before →
    self.eval expr before = .ok value after → after.scope.vars.get? key = before.scope.vars.get? key

variable {param : Param} {params fixed : List Param} {collecting : Option Param} {arg : Arg}
    {args rest : List Arg}
  {m next : Machine} {key function : String} {value : Value} {self : Evaluator}

/-- The first of some parameters takes one argument and others follow, or it is the only one left
and collects. -/
theorem Split.head (split : Split (param :: params) fixed collecting) :
    (param.variadic = false ∧ ∃ rest, Split params rest collecting) ∨
      (param.variadic = true ∧ params = []) := by
  obtain ⟨split, single, collects⟩ := split
  cases fixed with
  | nil =>
    cases collecting with
    | none => cases split
    | some last =>
      cases split
      exact .inr ⟨(collects param rfl).1, rfl⟩
  | cons first fixed =>
    cases split
    rw [List.forall_mem_cons] at single
    exact .inl ⟨single.1, fixed, rfl, single.2, collects⟩

/-- What is spared when some parameters are bound is spared when those behind the first are. -/
theorem Spares.later (spares : Spares self function (param :: params) args m key)
    (first : ∀ others, self.bindParams function (param :: others) args m =
      self.bindParams function others rest next)
    (taken : args.length ≤ rest.length + 1) : Spares self function params rest next key := by
  rintro expr before value after ⟨earlier, other, later, rfl, enough, default, bound⟩ evaluated
  refine spares expr before value after
    ⟨param :: earlier, other, later, rfl, ?_, default, ?_⟩ evaluated
  · exact Nat.le_trans taken (Nat.succ_le_succ enough)
  · exact (first earlier).trans bound

/-- A parameter that holds a value stands for no place. -/
theorem bindLocal_places : (m.bindLocal param.name value).scope.places.get? key =
      if key = param.key then none else m.scope.places.get? key :=
  Table.get?_erase

/-- A parameter that holds a value is a variable with it. -/
theorem bindLocal_vars : (m.bindLocal param.name value).scope.vars.get? key =
      if key = param.key then some value else m.scope.vars.get? key :=
  Table.get?_insert

/-- A bound parameter stands for the place it is to stand for, and others stay. -/
theorem bound_places : (param.bound arg m).scope.places.get? key =
      if key = param.key then param.alias? arg else m.scope.places.get? key := by
  unfold bound
  cases param.alias? arg with
  | none => exact bindLocal_places
  | some place => exact Table.get?_insert

/-- A bound parameter without a place is a variable with its argument. -/
theorem bound_vars (own : param.alias? arg = none) :
    (param.bound arg m).scope.vars.get? param.key = some arg.value := by
  unfold bound
  rw [own]
  exact bindLocal_vars.trans (if_pos rfl)

/-- Binding a parameter leaves the variables of other names. -/
theorem bound_vars_of_ne (other : key ≠ param.key) :
    (param.bound arg m).scope.vars.get? key = m.scope.vars.get? key := by
  unfold bound
  cases param.alias? arg with
  | none => exact bindLocal_vars.trans (if_neg other)
  | some place => rfl

end Param

/-- A value that has a type passes the check for it. -/
theorem Exec.checkType_of_hasType {value : Value} {type : TypeSpec} {what : String} {m : Machine}
    (fits : value.hasType m.heap type = true) :
    Exec.checkType value type what m = .ok () m := by
  change Exec.ofExcept (value.checkType m.heap type what) m = _
  rw [Value.checkType, if_pos fits]
  rfl

/-- A value that passes the check for a type has it, and the check changes nothing. -/
theorem Exec.hasType_of_checkType {value : Value} {type : TypeSpec} {what : String}
    {m next : Machine} (done : Exec.checkType value type what m = .ok () next) :
    value.hasType m.heap type = true ∧ next = m := by
  obtain ⟨_, _, got, done⟩ := Exec.of_bind done
  cases got
  change Exec.ofExcept (value.checkType m.heap type what) m = _ at done
  cases checked : value.checkType m.heap type what with
  | error fault =>
    rw [checked] at done
    cases done
  | ok =>
    rw [checked] at done
    cases done
    exact ⟨Value.hasType_of_checkType checked, rfl⟩

/-- Making arrays and records leaves the scope. -/
theorem Exec.making_scope {m next : Machine} {α : Type} {work : Making α} {value : α}
    (done : Exec.making work m = .ok value next) : next.scope = m.scope := by
  unfold Exec.making at done
  split at done
  next => cases done; rfl
  next => cases done

namespace Evaluator

variable {self : Evaluator} {function : String} {param : Param} {params : List Param} {arg : Arg}
  {args : List Arg} {m next final : Machine} {value : Value}

/-- An argument of the right type goes to the first parameter, and the others to those behind it. -/
theorem bindParams_cons (single : param.variadic = false)
    (typed : arg.value.hasType m.heap param.effectiveType = true) :
    self.bindParams function (param :: params) (arg :: args) m =
      self.bindParams function params args (param.bound arg m) := by
  rw [bindParams, single]
  refine (Exec.bind_of_ok (Exec.checkType_of_hasType typed)).trans ?_
  obtain ⟨_, place⟩ := arg
  obtain ⟨_, byRef, _, _, _⟩ := param
  cases place <;> cases byRef <;> rfl

/-- A parameter only takes an argument that has its type. -/
theorem hasType_of_bindParams (single : param.variadic = false)
    (done : self.bindParams function (param :: params) (arg :: args) m = .ok () final) :
    arg.value.hasType m.heap param.effectiveType = true := by
  rw [bindParams, single] at done
  obtain ⟨_, _, checked, _⟩ := Exec.of_bind done
  exact (Exec.hasType_of_checkType checked).1

/-- If no argument is left, the first parameter gets its default, and then those behind it are
bound. -/
theorem bindParams_default (single : param.variadic = false)
    (done : self.bindParams function (param :: params) [] m = .ok () final) :
    ∃ value next, self.defaultOf param m = .ok value next ∧ ∀ others,
      self.bindParams function (param :: others) [] m =
        self.bindParams function others [] (next.bindLocal param.name value) := by
  rw [bindParams, single] at done
  obtain ⟨value, next, found, done⟩ := Exec.of_bind done
  obtain ⟨_, _, checked, _⟩ := Exec.of_bind done
  obtain ⟨typed, _⟩ := Exec.hasType_of_checkType checked
  refine ⟨value, next, found, fun others => ?_⟩
  rw [bindParams, single]
  refine (Exec.bind_of_ok found).trans
    ((Exec.bind_of_ok (Exec.checkType_of_hasType typed)).trans ?_)
  rfl

end Evaluator

section Binding

variable {settings : Settings} {host : Host} {limit : Nat} {function : String}
    {params earlier later : List Param}
  {param : Param} {args : List Arg} {arg : Arg} {m final : Machine} {key : String}

/-- The value of a parameter without an argument is found with the places of the scope as they are,
and without changing a variable that the parameter's default spares. -/
theorem defaultOf_scope {value : Value} (function key : String) (params : List Param)
    (done : (evaluator settings host limit).defaultOf param m = .ok value final) :
    final.scope.places = m.scope.places ∧
      (Param.Spares (evaluator settings host limit) function (param :: params) [] m key →
        final.scope.vars.get? key = m.scope.vars.get? key) := by
  unfold Evaluator.defaultOf at done
  cases default : param.default with
  | some expr =>
    rw [default] at done
    refine ⟨?_, fun spares => spares expr m value final
      ⟨[], param, params, rfl, Nat.le_refl _, default, rfl⟩ done⟩
    cases limit with
    | zero => cases done
    | succ limit =>
      have ended : ((evaluator settings host limit).evalExpr expr).EndsOn m final :=
        .inl ⟨value, done⟩
      obtain ⟨balanced, _, _⟩ := evaluator_balances settings host limit m
      exact (balanced expr final ended).places
  | none =>
    rw [default] at done
    obtain ⟨_, _, got, made⟩ := Exec.of_bind done
    cases got
    have kept := Exec.making_scope made
    exact ⟨congrArg Scope.places kept, fun _ => congrArg (·.vars.get? key) kept⟩

/-- Binding parameters leaves other names as they are, apart from variables that a default assigns.
-/
theorem bindParams_frame {fixed : List Param} {collecting : Option Param}
    (split : Param.Split params fixed collecting) (other : ∀ param ∈ params, key ≠ param.key)
    (done : (evaluator settings host limit).bindParams function params args m = .ok () final) :
    final.scope.places.get? key = m.scope.places.get? key ∧
      (Param.Spares (evaluator settings host limit) function params args m key →
        final.scope.vars.get? key = m.scope.vars.get? key) := by
  induction params generalizing fixed args m with
  | nil =>
    cases done
    exact ⟨rfl, fun _ => rfl⟩
  | cons param params ih =>
    obtain ⟨apart, others⟩ := List.forall_mem_cons.mp other
    rcases split.head with ⟨single, fixed, split⟩ | ⟨variadic, rfl⟩
    · cases args with
      | nil =>
        obtain ⟨value, next, found, first⟩ := Evaluator.bindParams_default single done
        obtain ⟨places, vars⟩ := defaultOf_scope function key params found
        rw [first] at done
        obtain ⟨placesAfter, varsAfter⟩ := ih split others done
        rw [Param.bindLocal_places, if_neg apart, places] at placesAfter
        rw [Param.bindLocal_vars, if_neg apart] at varsAfter
        exact ⟨placesAfter,
          fun spares => (varsAfter (spares.later first (Nat.zero_le _))).trans (vars spares)⟩
      | cons arg args =>
        have typed := Evaluator.hasType_of_bindParams single done
        rw [Evaluator.bindParams_cons single typed] at done
        obtain ⟨places, vars⟩ := ih split others done
        rw [Param.bound_places, if_neg apart] at places
        rw [Param.bound_vars_of_ne apart] at vars
        refine ⟨places, fun spares => vars (spares.later (fun _ => ?_) (Nat.le_refl _))⟩
        exact Evaluator.bindParams_cons single typed
    · rw [Evaluator.bindParams, if_pos variadic] at done
      obtain ⟨value, next, made, done⟩ := Exec.of_bind done
      cases done
      have kept := Exec.making_scope made
      refine ⟨Param.bindLocal_places.trans ?_, fun _ => Param.bindLocal_vars.trans ?_⟩
      · rw [if_neg apart, kept]
      · rw [if_neg apart, kept]

/-- A parameter with an argument keeps what it was bound to if no parameter behind it is stored
under its name. -/
theorem bindParams_keeps {fixed : List Param} {collecting : Option Param}
    (split : Param.Split (earlier ++ param :: later) fixed collecting)
    (single : param.variadic = false) (apart : ∀ other ∈ later, param.key ≠ other.key)
    (passed : args[earlier.length]? = some arg)
    (done : (evaluator settings host limit).bindParams function (earlier ++ param :: later) args m =
      .ok () final) :
    final.scope.places.get? param.key = param.alias? arg ∧ (param.alias? arg = none →
      Param.Spares (evaluator settings host limit) function
        (earlier ++ param :: later) args m param.key →
        final.readVariable param.name = .ok (some arg.value)) := by
  induction earlier generalizing fixed args m with
  | nil =>
    obtain ⟨args, rfl⟩ : ∃ rest, args = arg :: rest := by
      cases args with
      | nil => cases passed
      | cons first rest =>
        cases passed
        exact ⟨rest, rfl⟩
    rcases split.head with ⟨_, fixed, split⟩ | ⟨variadic, _⟩
    · have typed := Evaluator.hasType_of_bindParams single done
      rw [List.nil_append, Evaluator.bindParams_cons single typed] at done
      obtain ⟨places, vars⟩ := bindParams_frame split apart done
      rw [Param.bound_places, if_pos rfl] at places
      refine ⟨places, fun own spares => ?_⟩
      unfold Machine.readVariable
      simp only [show final.scope.places.get? (Text.stripSuffix param.name) = none from
        places.trans own]
      refine congrArg Except.ok
        ((vars (spares.later (fun _ => ?_) (Nat.le_refl _))).trans (Param.bound_vars own))
      exact Evaluator.bindParams_cons single typed
    · rw [single] at variadic
      cases variadic
  | cons first earlier ih =>
    rcases split.head with ⟨alone, fixed, split⟩ | ⟨_, ends⟩
    · cases args with
      | nil => cases passed
      | cons head args =>
        have typed := Evaluator.hasType_of_bindParams alone done
        rw [List.cons_append, Evaluator.bindParams_cons alone typed] at done
        obtain ⟨places, reads⟩ := ih split passed done
        refine ⟨places, fun own spares => reads own (spares.later (fun _ => ?_) (Nat.le_refl _))⟩
        exact Evaluator.bindParams_cons alone typed
    · cases List.append_eq_nil_iff.mp ends with
      | intro _ wrong => cases wrong

end Binding

/-- Parameters do not share storage, apart from those whose names differ only in the type suffix.
When the parameters of a declaration that the parser let through have been bound, one that takes a
single argument and got one stands for the place of that argument, if it is passed by reference and
there is a place, and for no place otherwise; then it reads as its argument, unless a default that
was evaluated on the way assigned it. This is so if no parameter behind it has its name with another
suffix: the parser has seen to it that none has its very name. -/
theorem parameters_do_not_share_storage {program : Program} {block : Block} {stmt : Stmt}
    {decl : FunctionDecl Block} (parsed : program.IsParsed)
    (within : block.Within program.statements) (own : stmt ∈ block)
    (declares : stmt.kind.declared? = some decl) {settings : Settings} {host : Host} {limit : Nat}
    {args : List Arg} {m final : Machine}
    (done : (evaluator settings host limit).bindParams decl.name decl.params args m = .ok () final)
    {earlier later : List Param} {param : Param} {arg : Arg} (stands : decl.params = earlier ++
      param :: later) (single : param.variadic = false) (passed : args[earlier.length]? = some arg)
    (suffixed : ∀ other ∈ later, other.key = param.key → other.name = param.name) :
    final.scope.places.get? param.key = param.alias? arg ∧
      (param.alias? arg = none →
        Param.Spares (evaluator settings host limit) decl.name decl.params args m param.key →
        final.readVariable param.name = .ok (some arg.value)) := by
  obtain ⟨⟨fixed, collecting, split⟩, distinct⟩ := (parsed.orderly within own).params declares
  rw [stands] at done split distinct ⊢
  have apart : ∀ other ∈ later, param.key ≠ other.key := by
    intro other among same
    have different := (List.pairwise_cons.mp (List.pairwise_append.mp distinct).2.1).1 other among
    rw [suffixed other among same.symm, Text.sameName, beq_self_eq_true] at different
    cases different
  exact bindParams_keeps split single apart passed done

/-- A function with a parameter passed by value, one passed by reference, and one with a default
that is calculated from the first. -/
def mixedFunction : Program :=
  .ofSource "FUNCTION F(a$, REF b, c = LEN(a$))\nEND FUNCTION"

/-- Two arguments with places. -/
def placedArgs : List Arg :=
  [⟨.text "x", some (.slot 0 "p")⟩, ⟨.text "y", some (.slot 0 "q")⟩]

/-- The machine on which the first parameters of a function have been bound to those arguments. -/
def boundFirst? (decl : FunctionDecl Block) (count : Nat) : Option Machine :=
  match (evaluator {} .standard 12).bindParams decl.name (decl.params.take count) placedArgs
      (Interpreter.new .standard {} .still).machine with
  | .ok _ final => some final
  | .error _ _ => none

/-- Whether a variable of a machine holds a text. -/
def Machine.holdsText (m : Machine) (key text : String) : Bool :=
  match m.scope.vars.get? key with
  | some (.text held) => held == text
  | _ => false

theorem Machine.get?_of_holdsText {key text : String} {m : Machine}
    (holds : m.holdsText key text = true) :
    m.scope.vars.get? key = some (.text text) := by
  unfold holdsText at holds
  split at holds
  · next held found => rw [found, beq_iff_eq.mp holds]
  · cases holds

/-- Whether evaluating an expression leaves a text in a variable. -/
def leavesText (before : Machine) (key text : String) (expr : Expr) : Bool :=
  before.holdsText key text &&
    match (evaluator {} .standard 12).eval expr before with
    | .ok _ after => after.holdsText key text
    | .error _ _ => true

/-- What is used of the function: the names and modes of its parameters, that they can be bound, and
that the default leaves the text in the first of them. -/
def isMixed (decl : FunctionDecl Block) : Bool :=
  match decl.params with
  | [a, b, c] =>
    a.name == "a$" && !a.byRef && !a.variadic && b.name == "b" && b.byRef && !b.variadic &&
      c.name == "c" && (boundFirst? decl 3).isSome &&
      ((boundFirst? decl 2).all fun before => c.default.all (leavesText before "a" "x"))
  | _ => false

/-- The first parameter is a variable that holds its argument although a default was calculated from
it, and the second one stands for the place of its own. -/
theorem mixed_params_do_not_share_storage :
    ∃ stmt ∈ mixedFunction.statements, ∃ decl, stmt.kind.declared? = some decl ∧ ∃ final,
      (evaluator {} .standard 12).bindParams decl.name decl.params placedArgs
        (Interpreter.new .standard {} .still).machine = .ok () final ∧
      final.scope.places.get? "a" = none ∧ final.readVariable "a$" = .ok (some (.text "x")) ∧
      final.scope.places.get? "b" = some (.slot 0 "q") := by
  have parsed : mixedFunction.IsParsed := Program.isParsed_ofSource (by decide +kernel)
  have known :
      (mixedFunction.statements.head?.bind fun stmt => stmt.kind.declared?).any isMixed = true := by
    decide +kernel
  obtain ⟨decl, found, known⟩ := (Option.any_eq_true _ _).mp known
  obtain ⟨stmt, among, declares⟩ := Option.bind_eq_some_iff.mp found
  have own := List.mem_of_mem_head? among
  unfold isMixed at known
  split at known
  · next a b c params =>
    simp only [Bool.and_eq_true, Bool.not_eq_true', beq_iff_eq] at known
    obtain ⟨⟨⟨⟨⟨⟨⟨⟨aName, aValue⟩, aSingle⟩, bName⟩, bRef⟩, bSingle⟩, cName⟩, ends⟩, leaves⟩ :=
      known
    have aKey : a.key = "a" := by rw [Param.key, aName]; decide +kernel
    have bKey : b.key = "b" := by rw [Param.key, bName]; decide +kernel
    have cKey : c.key = "c" := by rw [Param.key, cName]; decide +kernel
    obtain ⟨final, done⟩ :
      ∃ final, (evaluator {} .standard 12).bindParams decl.name decl.params placedArgs
        (Interpreter.new .standard {} .still).machine = .ok () final := by
      have all : decl.params.take 3 = decl.params := by rw [params]; rfl
      unfold boundFirst? at ends
      rw [all] at ends
      split at ends
      · next final done => exact ⟨final, done⟩
      · cases ends
    have spares : Param.Spares (evaluator {} .standard 12) decl.name decl.params placedArgs
        (Interpreter.new .standard {} .still).machine a.key := by
      -- Only the default of the third parameter is evaluated, since two arguments are given.
      rintro expr before value after
        ⟨earlier, param, later, split, enough, default, bound⟩ evaluated
      rw [params] at split
      have count : earlier.length = 2 := by
        have sizes := congrArg List.length split
        simp only [List.length_append, List.length_cons, List.length_nil] at sizes
        have two : 2 ≤ earlier.length := enough
        omega
      obtain ⟨_, _, rfl⟩ := List.length_eq_two.mp count
      cases split
      unfold boundFirst? at leaves
      rw [params, show [a, b, c].take 2 = [a, b] from
        rfl, bound, Option.all_some, default, Option.all_some, leavesText,
        evaluated, Bool.and_eq_true] at leaves
      rw [aKey, Machine.get?_of_holdsText leaves.1, Machine.get?_of_holdsText leaves.2]
    obtain ⟨aPlace, aReads⟩ := parameters_do_not_share_storage parsed .self own declares done
      (show decl.params = [] ++ a :: [b, c] from params) aSingle
      (show placedArgs[0]? = some _ from rfl)
      (by simp [aKey, bKey, cKey])
    obtain ⟨bPlace, _⟩ := parameters_do_not_share_storage parsed .self own declares done
      (show decl.params = [a] ++ b :: [c] from params) bSingle
      (show placedArgs[1]? = some _ from rfl)
      (by simp [bKey, cKey])
    simp only [Param.alias?, aValue, bRef, aKey, bKey, aName, if_true, Bool.false_eq_true,
      if_false] at aPlace aReads bPlace
    exact ⟨stmt, own, decl, declares, final, done, aPlace, aReads trivial (aKey ▸ spares), bPlace⟩
  · cases known

/-- A function with two parameters whose names differ only in the type suffix. -/
def suffixedParams : Program :=
  .ofSource "FUNCTION F(a$, a%)\nRETURN a$\nEND FUNCTION\nPRINT F(\"x\", 1)"

/-- A function with a default that assigns the parameter before it. -/
def assigningDefault : Program :=
  .ofSource ("FUNCTION G(REF x)\nx = \"changed\"\nEND FUNCTION\nFUNCTION F(a, b = G(a))\nRETURN a\n" ++
      "END FUNCTION\nPRINT F(\"given\")")

/-- A parameter whose name another one has with another type suffix reads as that one, and a
parameter that the default of another one assigns reads as what was assigned. -/
theorem parameters_lose_arguments :
    ((Interpreter.new .empty {} .still).runWithin 40 suffixedParams).2.outputs = ["1"] ∧
      ((Interpreter.new .empty {} .still).runWithin 40 assigningDefault).2.outputs =
        ["changed"] := by
  decide +kernel

end MicroBasic
