import MicroBasic.Interpreter
import MicroBasic.Proofs.Discipline.Scopes
import MicroBasic.Proofs.Discipline.Stmt

/-!
# Blocks and programs keep a discipline

A block goes from place to place within the loops it is in. What its places and loops have to do
with each other is a parameter of the lemmas, kept by every statement. With blocks, all nested
evaluation keeps a discipline at every bound on the work, and so does a run of a program.
-/

namespace MicroBasic

section Levels

variable {observe : Moment → Exec Unit} {settings : Settings} {host : Host} {bound : Nat}

@[simp] theorem observedEvaluator_observe :
    (observedEvaluator observe settings host bound).observe = observe := by
  cases bound <;> rfl

@[simp] theorem observedEvaluator_host :
    (observedEvaluator observe settings host bound).host = host := by
  cases bound <;> rfl

@[simp] theorem observedEvaluator_settings :
    (observedEvaluator observe settings host bound).settings = settings := by
  cases bound <;> rfl

end Levels

namespace Discipline

variable {D : Discipline} {left right : Evaluator} {m : Machine}

/-- How a block may go on: at a place that fits its loops, or by leaving with a signal. -/
def Onward (D : Discipline) (Fit : Nat → List ActiveLoop → Prop) (control : Control) (m : Machine) :
    Prop :=
  match control with
  | .goto place loops => Fit place loops
  | .leave signal => D.GoodSignal signal m

namespace Respects

theorem perform (R : D.Respects left right) {α : Type} {Good : α → Machine → Prop} (stmt : Stmt)
    {leftWork rightWork : Exec α} (known : D.Known stmt.token) (inv : D.Inv m)
    (observed : ∀ {next}, D.Inv next → D.Step m next → left.WithinBudget next →
      D.Sound next Free (left.observe (.statement stmt)) (right.observe (.statement stmt)))
    (work : ∀ {next}, D.Inv next → D.Step m next → D.Sound next Good leftWork rightWork) :
    D.Sound m (fun result final => ∀ value, result = .ok value → Good value final)
      (left.perform stmt leftWork) (right.perform stmt rightWork) := by
  refine ((R.tick inv).placed known).bind fun _ next inv step within => ?_
  refine (observed inv step within).bind fun _ final inv later _ => ?_
  exact ((work inv (D.step_trans step later)).placed known).halting

theorem execFrom (R : D.Respects left right) {block : Block}
    (known : ∀ stmt ∈ block, D.Known stmt.token) (Fit : Nat → List ActiveLoop → Prop)
    {fuel place : Nat} {loops : List ActiveLoop}
    (observed : ∀ {m place loops}, D.Inv m → D.Code m block → Fit place loops →
      D.Sound m Free (left.observe (.place block place loops))
        (right.observe (.place block place loops)))
    (stated : ∀ {m stmt}, D.Inv m → D.Code m block → stmt ∈ block → left.WithinBudget m →
      D.Sound m Free (left.observe (.statement stmt)) (right.observe (.statement stmt)))
    (statement : ∀ {m place stmt loops}, D.Inv m → D.Code m block → block[place]? = some stmt →
      Fit place loops → D.Sound m (fun ended => D.Onward Fit (Control.after place ended.1 ended.2))
        (left.execStmt stmt loops) (right.execStmt stmt loops))
    (inv : D.Inv m) (code : D.Code m block) (fits : Fit place loops) :
    D.Sound m D.GoodSignal (left.execFrom block fuel place loops)
      (right.execFrom block fuel place loops) := by
  induction fuel generalizing m place loops with
  | zero => exact .await
  | succ fuel ih =>
    refine (observed inv code fits).bind fun _ next inv step _ => ?_
    have code := D.code_step step code
    split
    · exact .pure inv trivial
    · next stmt found =>
      have held := List.mem_of_getElem? found
      have performed := R.perform stmt (known stmt held) inv
        (fun inv later => stated inv (D.code_step later code) held)
        fun inv later => statement inv (D.code_step later code) found fits
      refine performed.bind fun result final inv later ended => ?_
      match result with
      | .error reason => exact .pure inv trivial
      | .ok (signal, loops) =>
        have ended := ended _ rfl
        dsimp only at ended ⊢
        split
        · next target loops arrived =>
          rw [arrived] at ended
          exact ih inv (D.code_step later code) ended
        · next signal left =>
          rw [left] at ended
          exact .pure inv ended

/-- A statement that never jumps moves control to the place behind it, or by `EXIT FOR` and
`CONTINUE` within the loops of its block. -/
theorem onward_plain {signal : Signal} {Fit : Nat → List ActiveLoop → Prop}
    {loops : List ActiveLoop} {place : Nat} (good : D.GoodSignal signal m)
    (next : Fit (place + 1) loops)
    (exits : ∀ loop outer, loops = loop :: outer → Fit (loop.binding.nextIndex + 1) outer)
    (continues : ∀ loop outer, loops = loop :: outer → Fit loop.binding.nextIndex loops) :
    D.Onward Fit (Control.after place signal loops) m := by
  unfold Control.after
  split
  · exact next
  · exact absurd good id
  · exact exits _ _ rfl
  · exact continues _ _ rfl
  · exact continues _ _ rfl
  · exact good

theorem pairOf {stmt : Stmt} (inv : D.Inv m) (stray : D.Cause (.strayControl .unpairedLoop)) :
    D.Sound m Free (Evaluator.pairOf stmt) (Evaluator.pairOf stmt) := by
  refine .get ?_
  split
  · exact .pure inv trivial
  · exact .fail inv stray

theorem execStmt {place : Nat} {stmt : Stmt} {loops : List ActiveLoop} (R : D.Respects left right)
    (fine : stmt.Among D.Known) (inv : D.Inv m) (unpaired : D.Cause (.strayControl .unpairedLoop))
    (inactive : D.Cause (.strayControl .inactiveNext))
    (code : ∀ inner ∈ stmt.blocks, D.Code m inner) :
    D.Sound m (fun ended => D.Onward (fun _ _ => True) (Control.after place ended.1 ended.2))
      (left.execStmt stmt loops) (right.execStmt stmt loops) := by
  unfold Evaluator.execStmt
  split
  · next opens =>
    have fine := fine.exprs
    rw [opens] at fine
    refine (pairOf inv unpaired).bind fun binding next inv step _ => ?_
    refine (R.beginCounter fine inv).bind fun begun next inv step _ => ?_
    split
    split
    · exact .pure inv trivial
    · exact .pure inv trivial
  · refine (pairOf inv unpaired).bind fun binding next inv step _ => ?_
    split
    · exact .fail inv inactive
    · refine (R.advanceCounter inv).bind fun goesOn next inv step _ => ?_
      split
      · exact .pure inv trivial
      · exact .pure inv trivial
  · refine (R.plainStmt fine inv code).bind fun signal next inv step good => .pure inv ?_
    exact onward_plain good trivial (fun _ _ _ => trivial) fun _ _ _ => trivial

theorem execBlock (R : D.Respects left right) {block : Block}
    (stray : ∀ {kind}, D.Cause (.strayControl kind)) (hereditary : D.Hereditary)
    (observed : ∀ {m place loops}, D.Inv m → D.Code m block →
      D.Sound m Free (left.observe (.place block place loops))
        (right.observe (.place block place loops)))
    (stated : ∀ {m stmt}, D.Inv m → (∀ inner ∈ stmt.blocks, D.Code m inner) → left.WithinBudget m →
      D.Sound m Free (left.observe (.statement stmt)) (right.observe (.statement stmt)))
    (inv : D.Inv m) (code : D.Code m block) :
    D.Sound m D.GoodSignal (left.execBlock block) (right.execBlock block) := by
  unfold Evaluator.execBlock
  rw [R.fuel]
  refine R.execFrom (fun stmt held => (hereditary.among code held).token) (fun _ _ => True)
    (fun inv code _ => observed inv code)
    (fun inv code held => stated inv fun _ => hereditary.parts code held)
    (fun inv code found _ => ?_) inv code trivial
  have held := List.mem_of_getElem? found
  exact R.execStmt (hereditary.among code held) inv stray stray fun inner =>
    hereditary.parts code held

end Respects

theorem Hooks.zero {observeLeft observeRight : Moment → Exec Unit} {settings : Settings}
    {host : Host} (laws : Laws D host) :
    D.Hooks (observedEvaluator observeLeft settings host 0)
      (observedEvaluator observeRight settings host 0) where
  laws := laws
  host := rfl
  settings := rfl
  fuel := rfl
  eval _ _ := .await
  exec _ _ := .await

theorem Hooks.succ {observeLeft observeRight : Moment → Exec Unit} {settings : Settings}
    {host : Host} {bound : Nat} (R : D.Respects (observedEvaluator observeLeft settings host bound)
      (observedEvaluator observeRight settings host bound))
    (blocks : ∀ {m block}, D.Inv m → D.Code m block → D.Sound m D.GoodSignal
        ((observedEvaluator observeLeft settings host bound).execBlock block)
        ((observedEvaluator observeRight settings host bound).execBlock block)) :
    D.Hooks (observedEvaluator observeLeft settings host (bound + 1))
      (observedEvaluator observeRight settings host (bound + 1)) where
  laws := by
    have laws := R.laws
    rw [observedEvaluator_host] at laws
    exact laws
  host := rfl
  settings := rfl
  fuel := rfl
  eval fine inv := R.evalExpr fine inv
  exec inv code := blocks inv code

namespace Hooks

theorem register {block : Block} {types : Bool} (H : D.Hooks left right) (G : D.Registering block)
    {statements : List Stmt} (among : ∀ stmt ∈ statements, stmt ∈ block)
    (fine : ∀ stmt ∈ statements, stmt.Among D.Known) (inv : D.Inv m)
    (code : ∀ stmt ∈ statements, ∀ inner ∈ stmt.blocks, D.Code m inner) :
    D.Sound m Free (Run.register types statements) (Run.register types statements) := by
  induction statements generalizing m with
  | nil => exact .pure inv trivial
  | cons stmt rest ih =>
    obtain ⟨first, later⟩ := List.forall_mem_cons.mp among
    obtain ⟨fine, others⟩ := List.forall_mem_cons.mp fine
    have own := code stmt List.mem_cons_self
    have onward {next : Machine} (inv : D.Inv next) (step : D.Step m next) :=
      ih later others inv fun other among inner held =>
        D.code_step step (code other (List.mem_cons_of_mem stmt among) inner held)
    have entered {define : Exec Unit} (declares : stmt.isDeclaration = true)
        (defines : D.Sound m Free define define) : D.Sound m Free
          (do
            Exec.placed stmt.token define
            modify (fun m => { m with hoisted := stmt.id :: m.hoisted })
            Run.register types rest)
          (do
            Exec.placed stmt.token define
            modify (fun m => { m with hoisted := stmt.id :: m.hoisted })
            Run.register types rest) := by
      refine (defines.placed fine.token).bind fun _ next inv step _ => ?_
      exact (Sound.changed (G.noted first declares inv)).bind fun _ final inv later _ =>
        onward inv (D.step_trans step later)
    have registers := Run.registers types stmt
    unfold Run.register
    have fine := fine.exprs
    unfold Stmt.blocks at own
    generalize Run.registration? types stmt = entry at registers ⊢
    cases registers with
    | none => exact onward inv (D.step_refl m)
    | type kind => exact entered (by simp [Stmt.isDeclaration, kind]) (H.laws.typeDefined inv)
    | @function decl kind =>
      rw [kind] at own fine
      exact entered (by simp [Stmt.isDeclaration, kind])
        (H.laws.functionDefined inv (own decl.body List.mem_cons_self) fine)
    | @property decl kind =>
      rw [kind] at own fine
      exact entered (by simp [Stmt.isDeclaration, kind])
        (H.laws.propertyDefined inv (own decl.body List.mem_cons_self) fine)

theorem hoist (H : D.Hooks left right) {block : Block} (G : D.Registering block) (inv : D.Inv m)
    (inner : ∀ stmt ∈ block, ∀ inner ∈ stmt.blocks, D.Code m inner)
    (fine : ∀ stmt ∈ block, stmt.Among D.Known := by exact fun _ _ => .of_all _) :
    D.Sound m Free (Run.hoist block) (Run.hoist block) := by
  refine (H.register G (fun _ => id) fine inv inner).bind fun _ next inv step _ => ?_
  exact H.register G (fun _ => id) fine inv fun stmt among part held =>
    D.code_step step (inner stmt among part held)

theorem program (H : D.Hooks left right) {block : Block} (G : D.Registering block)
    (inv : D.Inv m) (code : D.Code m block)
    (inner : ∀ stmt ∈ block, ∀ inner ∈ stmt.blocks, D.Code m inner)
    (fine : ∀ stmt ∈ block, stmt.Among D.Known) :
    D.Sound m D.GoodSignal
      (do
        Run.hoist block
        left.exec block)
      (do
        Run.hoist block
        right.exec block) :=
  (H.hoist G inv inner fine).bind fun _ _ inv step _ => H.exec inv (D.code_step step code)

theorem statements (H : D.Hooks left right) (S : D.Draining) {block : Block}
    (G : D.Registering block) {β : Type} {Last : β → Machine → Prop}
    {leftRest rightRest : Outcome → Exec β} (inv : D.Inv m) (code : D.Code m block)
    (inner : ∀ stmt ∈ block, ∀ inner ∈ stmt.blocks, D.Code m inner)
    (rest : ∀ outcome final, D.Inv final → D.Step m final → D.GoodEnd D.GoodSignal outcome final →
      D.Agree m Last (leftRest outcome final) (rightRest outcome final))
    (parted : ∀ {escape leftMachine error rightMachine},
      D.Parted escape leftMachine (.broken (.error error)) rightMachine →
        D.Agree m Last (.error escape leftMachine)
          (rightRest (.error (.error error)) rightMachine))
    (fine : ∀ stmt ∈ block, stmt.Among D.Known := by exact fun _ _ => .of_all _) :
    D.Sound m Last (Run.statements left block >>= leftRest)
      (Run.statements right block >>= rightRest) := by
  unfold Run.statements
  simp only [bind_assoc]
  refine Agree.attempt (.refl D) (H.program G inv code inner fine)
    (fun outcome final kept step good => ?_) fun _ differ => ?_
  · exact Agree.finishScope (.refl D) H S kept good
      (fun outcome last kept later good => rest outcome last kept (D.step_trans step later) good)
      parted
  · rw [right.finishScope_fatal (S.parted_fatal differ)]
    exact parted (S.parted_activation differ)

end Hooks

end Discipline

end MicroBasic
