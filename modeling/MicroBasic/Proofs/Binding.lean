import MicroBasic.Proofs.Parameters

/-!
# Binding follows selection

Whether an overload accepts some arguments is decided on its parameter list; the parameters are
bound later, one by one. Both divide the arguments in the same way: the parameters that take one
argument each come first, and the one that collects the others comes last. If the overload accepts
the arguments, then each of them finds its parameter and has the type that is asked for, and a
parameter that is left without one has a default.
-/

namespace MicroBasic

namespace Param

/-- The type of each argument that a parameter collects. -/
def elementType (param : Param) : TypeSpec :=
  match param.type with
  | some .array => .any
  | none => .any
  | some type => type

/-- Every argument has a parameter of its type, and every parameter without an argument has a
default. -/
structure Fits (heap : Heap) (fixed : List Param) (collecting : Option Param)
    (values : List Value) : Prop where
  enough : ∀ param ∈ fixed.drop values.length, param.default.isSome = true
  room : collecting = none → values.length ≤ fixed.length
  typed : ∀ pair ∈ fixed.zip values, pair.2.hasType heap pair.1.effectiveType = true
  collected : ∀ param ∈ collecting, ∀ value ∈ values.drop fixed.length,
    value.hasType heap param.elementType = true

end Param

namespace Overload

variable {overload : Overload} {params fixed : List Param} {collecting : Option Param} {heap : Heap}
  {values : List Value} {place count : Nat}

theorem lt_neededFrom (needed : neededFrom place params ≠ 0) : place < neededFrom place params := by
  induction params generalizing place with
  | nil => exact absurd rfl needed
  | cons param params ih =>
    simp only [neededFrom] at needed ⊢
    split
    · have later := ih ‹_›
      omega
    · split
      · exact Nat.lt_succ_self _
      · simp_all

/-- Some number of arguments is enough if every parameter behind them may be left out. -/
theorem neededFrom_le_iff : neededFrom place params ≤ count ↔
    ∀ param ∈ params.drop (count - place), param.variadic = true ∨ param.default.isSome = true := by
  induction params generalizing place with
  | nil => simp [neededFrom]
  | cons param params ih =>
    have later := @ih (place + 1)
    have optional : (!param.variadic && param.default.isNone) = false ↔
        (param.variadic = true ∨ param.default.isSome = true) := by
      cases param.variadic <;> cases param.default <;> simp
    rcases Nat.lt_or_ge place count with passed | reached
    · have next : count - place = count - (place + 1) + 1 := by omega
      rw [next, List.drop_succ_cons, ← later, neededFrom]
      split
      · rfl
      · split <;> omega
    · have all : count - (place + 1) = 0 := by omega
      rw [all, List.drop_zero] at later
      rw [Nat.sub_eq_zero_of_le reached, List.drop_zero, List.forall_mem_cons, ← later, ← optional,
        neededFrom]
      split
      · next needed =>
        have above := lt_neededFrom needed
        omega
      · next last =>
        have zero : neededFrom (place + 1) params = 0 := not_not.mp last
        cases !param.variadic && param.default.isNone with
        | true =>
          rw [if_pos rfl]
          constructor
          · intro fits
            omega
          · intro wrong
            cases wrong.1
        | false => simp [zero]

section Split

variable (split : Param.Split overload.params fixed collecting)

include split

theorem fixedCount_eq : overload.fixedCount = fixed.length := by
  have uncounted : collecting.toList.filter (fun param => !param.variadic) = [] := by
    cases collecting with
    | none => rfl
    | some param => simp [(split.collects param rfl).1]
  have all : fixed.filter (fun param => !param.variadic) = fixed := by
    apply List.filter_eq_self.mpr
    intro param among
    simp [split.single param among]
  rw [fixedCount, split.split, List.filter_append, uncounted, all, List.append_nil]

theorem isVariadic_eq : overload.isVariadic = collecting.isSome := by
  rw [isVariadic, split.split]
  cases collecting with
  | some param => simp [(split.collects param rfl).1]
  | none =>
    simp only [Option.toList_none, List.append_nil, Option.isSome_none]
    cases last : fixed.getLast? with
    | none => rfl
    | some param => simp [split.single param (List.mem_of_getLast? last)]

theorem minArity_le_iff :
    overload.minArity ≤ count ↔ ∀ param ∈ fixed.drop count, param.default.isSome = true := by
  rw [minArity, neededFrom_le_iff, split.split, Nat.sub_zero, List.drop_append]
  constructor
  · intro optional param among
    have given := optional param (List.mem_append_left _ among)
    simpa [split.single param (List.mem_of_mem_drop among)] using given
  · intro given param among
    rcases List.mem_append.mp among with among | among
    · exact .inr (given param among)
    · have held : param ∈ collecting := by simpa using List.mem_of_mem_drop among
      exact .inl (split.collects param held).1

theorem argumentType?_of_lt (within : place < fixed.length) :
    overload.argumentType? place = some (fixed.get ⟨place, within⟩).effectiveType := by
  rw [argumentType?, fixedCount_eq split, if_pos within, split.split,
    List.getElem?_append_left within, List.getElem?_eq_getElem within]
  rfl

theorem argumentType?_of_le (beyond : fixed.length ≤ place) :
    overload.argumentType? place = collecting.map Param.elementType := by
  rw [argumentType?, fixedCount_eq split, if_neg (Nat.not_lt.mpr beyond), isVariadic_eq split,
    elementType, split.split]
  cases collecting with
  | none => rfl
  | some param =>
    simp only [Option.toList_some, List.getLast?_append, List.getLast?_singleton, Option.some_or,
      Option.bind_some, Option.isSome_some, if_true, Option.map_some]
    rfl

/-- What is asked of the arguments from a place on. -/
theorem acceptsFrom_iff : overload.acceptsFrom heap place values = true ↔
    (collecting = none → values.length ≤ (fixed.drop place).length) ∧
    (∀ pair ∈ (fixed.drop place).zip values, pair.2.hasType heap pair.1.effectiveType = true) ∧
    ∀ param ∈ collecting, ∀ value ∈ values.drop (fixed.drop place).length,
      value.hasType heap param.elementType = true := by
  induction values generalizing place with
  | nil => simp [acceptsFrom]
  | cons value values ih =>
    rw [acceptsFrom, Bool.and_eq_true_iff, ih, acceptsAt]
    rcases Nat.lt_or_ge place fixed.length with within | beyond
    · rw [argumentType?_of_lt split within, List.drop_eq_getElem_cons within]
      simp only [List.zip_cons_cons, List.forall_mem_cons, List.length_cons, List.drop_succ_cons,
        Nat.add_le_add_iff_right]
      constructor
      · rintro ⟨own, room, typed, collected⟩
        exact ⟨room, ⟨own, typed⟩, collected⟩
      · rintro ⟨room, ⟨own, typed⟩, collected⟩
        exact ⟨own, room, typed, collected⟩
    · have past : fixed.drop place = [] := List.drop_eq_nil_of_le beyond
      have after : fixed.drop (place + 1) = [] := List.drop_eq_nil_of_le (by omega)
      rw [argumentType?_of_le split beyond, past, after]
      cases collecting with
      | none | some param => simp

theorem accepts_iff :
    overload.accepts heap values = true ↔ Param.Fits heap fixed collecting values := by
  rw [accepts, Bool.and_eq_true_iff, Bool.and_eq_true_iff, Nat.ble_eq, minArity_le_iff split,
    isVariadic_eq split, Bool.or_eq_true_iff, Nat.ble_eq, fixedCount_eq split,
      acceptsFrom_iff split, List.drop_zero]
  constructor
  · rintro ⟨⟨enough, _⟩, room, typed, collected⟩
    exact ⟨enough, room, typed, collected⟩
  · rintro ⟨enough, room, typed, collected⟩
    refine ⟨⟨enough, ?_⟩, room, typed, collected⟩
    cases collecting with
    | none => exact .inr (room rfl)
    | some => exact .inl rfl

end Split

end Overload

namespace Param

/-- A machine after parameters have been bound to their arguments. -/
def boundAll (pairs : List (Param × Arg)) (m : Machine) : Machine :=
  pairs.foldl (fun m pair => pair.1.bound pair.2 m) m

/-- A machine after a parameter, if there is one, has been bound to an array of the remaining
arguments. -/
def boundRest (collecting : Option Param) (args : List Arg) (m : Machine) : Machine :=
  match collecting with
  | none => m
  | some param =>
    let (ref, heap) := m.heap.newArray (args.map Arg.value).toArray
    { m with heap }.bindLocal param.name (.array ref)

theorem bound_heap {arg : Arg} {m : Machine} {param : Param} :
    (param.bound arg m).heap = m.heap := by
  unfold bound
  split <;> rfl

end Param

namespace Evaluator

variable {self : Evaluator} {function : String} {param : Param} {params fixed : List Param}
  {collecting : Option Param} {arg : Arg} {args : List Arg} {m : Machine}

/-- Arguments of the right types go to the parameters that take one each, from left to right. -/
theorem bindParams_fixed (single : ∀ param ∈ fixed, param.variadic = false)
    (typed : ∀ pair ∈ fixed.zip args, pair.2.value.hasType m.heap pair.1.effectiveType = true) :
    self.bindParams function (fixed ++ params) args m =
      self.bindParams function (fixed.drop args.length ++ params) (args.drop fixed.length)
        (Param.boundAll (fixed.zip args) m) := by
  induction fixed generalizing args m with
  | nil => simp [Param.boundAll]
  | cons param fixed ih =>
    cases args with
    | nil => rfl
    | cons arg args =>
      rw [List.zip_cons_cons, List.forall_mem_cons] at typed
      rw [List.forall_mem_cons] at single
      have later : ∀ pair ∈ fixed.zip args,
          pair.2.value.hasType (param.bound arg m).heap pair.1.effectiveType = true := by
        rw [Param.bound_heap]
        exact typed.2
      rw [List.cons_append, bindParams_cons single.1 typed.1, ih single.2 later]
      rfl

theorem bindParams_collecting (collects : ∀ param ∈ collecting, param.variadic = true) :
    self.bindParams function collecting.toList args m =
      .ok () (Param.boundRest collecting args m) := by
  cases collecting with
  | none => rfl
  | some param =>
    simp only [Option.toList_some, bindParams, collects param rfl, if_true]
    rfl

end Evaluator

/-- Parameters are bound as an overload was selected. The parameters of a declaration take one
argument each, but for a last one that may collect the others. If the overload accepts some
arguments, then the first of them are bound to the former and all others are collected, and whatever
is left without an argument has a default. If it does not, then the arguments are too few or too
many, or one of them has another type. -/
theorem binding_follows_selection {program : Program} {block : Block} {stmt : Stmt}
    {decl : FunctionDecl Block} (parsed : program.IsParsed)
    (within : block.Within program.statements) (own : stmt ∈ block) (declares :
      stmt.kind.declared? = some decl) (origin : Nat) (loops : LoopsRef) (self : Evaluator)
    (args : List Arg) (m : Machine) :
    ∃ fixed collecting, Param.Split decl.params fixed collecting ∧
      ((Overload.mk decl origin loops).accepts m.heap (args.map Arg.value) = true →
        (∀ param ∈ fixed.drop args.length, param.default.isSome = true) ∧
        (collecting = none → args.length ≤ fixed.length) ∧
        (args.length < fixed.length → self.bindParams decl.name decl.params args m =
          self.bindParams decl.name (fixed.drop args.length ++ collecting.toList) []
            (Param.boundAll (fixed.zip args) m)) ∧
        (fixed.length ≤ args.length → self.bindParams decl.name decl.params args m =
          .ok () (Param.boundRest collecting (args.drop fixed.length)
            (Param.boundAll (fixed.zip args) m)))) ∧
      ((Overload.mk decl origin loops).accepts m.heap (args.map Arg.value) = false →
        (∃ param ∈ fixed.drop args.length, param.default = none) ∨
        (collecting = none ∧ fixed.length < args.length) ∨
        (∃ pair ∈ fixed.zip args, pair.2.value.hasType m.heap pair.1.effectiveType = false) ∨
        ∃ param ∈ collecting, ∃ arg ∈ args.drop fixed.length,
          arg.value.hasType m.heap param.elementType = false) := by
  obtain ⟨fixed, collecting, split⟩ := ((parsed.orderly within own).params declares).split
  have fits :=
    @Overload.accepts_iff ⟨decl, origin, loops⟩ fixed collecting m.heap (args.map Arg.value) split
  refine ⟨fixed, collecting, split, fun accepted => ?_, fun refused => ?_⟩
  · obtain ⟨enough, room, typed, _⟩ := fits.mp accepted
    rw [List.length_map] at enough room
    have typed :
        ∀ pair ∈ fixed.zip args, pair.2.value.hasType m.heap pair.1.effectiveType = true := by
      rw [List.zip_map_right, List.forall_mem_map] at typed
      exact typed
    have first :=
      @Evaluator.bindParams_fixed self decl.name collecting.toList fixed args m split.single typed
    rw [← split.split] at first
    refine ⟨enough, room, fun few => ?_, fun all => ?_⟩
    · rwa [List.drop_eq_nil_of_le (Nat.le_of_lt few)] at first
    · rw [List.drop_eq_nil_of_le all, List.nil_append] at first
      exact first.trans
        (Evaluator.bindParams_collecting fun param among => (split.collects param among).1)
  · by_contra neither
    simp only [not_or, not_exists, not_and, Bool.not_eq_false, Nat.not_lt] at neither
    obtain ⟨enough, room, typed, collected⟩ := neither
    refine Bool.eq_false_iff.mp refused
      (fits.mpr ⟨fun param among => ?_, ?_, ?_, fun param among => ?_⟩)
    · rw [List.length_map] at among
      exact Option.isSome_iff_ne_none.mpr (enough param among)
    · rwa [List.length_map]
    · rw [List.zip_map_right, List.forall_mem_map]
      exact typed
    · rw [← List.map_drop, List.forall_mem_map]
      exact collected param among

/-- A function with two parameters, of which one has a default, and one that collects what remains.
-/
def collectingFunction : Program :=
  .ofSource "FUNCTION F(a$, b$ = \"k\", c... AS STRING)\nEND FUNCTION"

/-- Three arguments that are texts. -/
def threeTexts : List Arg :=
  [Arg.ofValue (.text "x"), Arg.ofValue (.text "y"), Arg.ofValue (.text "z")]

/-- Of three arguments, two are bound and the third is collected. -/
theorem binding_follows_selection_of_rest :
    ∃ stmt ∈ collectingFunction.statements, ∃ decl, stmt.kind.declared? = some decl ∧
      (Overload.mk decl 0 ⟨0⟩).accepts Heap.empty (threeTexts.map Arg.value) = true ∧
      ∃ fixed collecting, Param.Split decl.params fixed collecting ∧ fixed.length = 2 ∧
        (evaluator {} .empty 3).bindParams decl.name decl.params threeTexts
            (Interpreter.new .empty {} .still).machine =
          .ok () (Param.boundRest collecting (threeTexts.drop fixed.length)
            (Param.boundAll (fixed.zip threeTexts)
              (Interpreter.new .empty {} .still).machine)) := by
  have parsed : collectingFunction.IsParsed := Program.isParsed_ofSource (by decide +kernel)
  have known :
      (collectingFunction.statements.head?.bind fun stmt => stmt.kind.declared?).any (fun decl =>
      (Overload.mk decl 0 ⟨0⟩).accepts Heap.empty (threeTexts.map Arg.value) &&
        (Overload.mk decl 0 ⟨0⟩).fixedCount == 2) = true := by decide +kernel
  obtain ⟨decl, found, known⟩ := (Option.any_eq_true _ _).mp known
  obtain ⟨stmt, first, declares⟩ := Option.bind_eq_some_iff.mp found
  obtain ⟨accepted, count⟩ := Bool.and_eq_true_iff.mp known
  have own := List.mem_of_mem_head? first
  obtain ⟨fixed, collecting, split, bound, _⟩ :=
    binding_follows_selection parsed .self own declares 0 ⟨0⟩
    (evaluator {} .empty 3) threeTexts (Interpreter.new .empty {} .still).machine
  have counted := @Overload.fixedCount_eq ⟨decl, 0, ⟨0⟩⟩ fixed collecting split
  have size : fixed.length = 2 := counted.symm.trans (beq_iff_eq.mp count)
  exact ⟨stmt, own, decl, declares, accepted, fixed, collecting, split, size,
    (bound accepted).2.2.2 (by rw [size]; decide)⟩

end MicroBasic
