import MicroBasic.Proofs.Discipline.Expr

/-!
# Statements keep a discipline

The lemmas go through the statements of a block, apart from `FOR` and `NEXT`, whose meaning depends
on the block around them. A statement may execute its own inner blocks; what these end with is
handed on, so a statement never jumps.
-/

namespace MicroBasic.Discipline.Respects

variable {D : Discipline} {left right : Evaluator} {m : Machine}

section

variable (R : D.Respects left right)

include R

theorem evalNumber {expr : Expr} (fine : expr.Among D.Known) (inv : D.Inv m) :
    D.Sound m Free (left.evalNumber expr) (right.evalNumber expr) :=
  (R.eval fine inv).bind fun _ _ inv _ _ => (R.numberOf inv).placed fine.token

theorem beginCounter {var : String} {start limit : Expr} {step : Option Expr}
    (fine : ∀ expr ∈ start :: limit :: step.toList, expr.Among D.Known) (inv : D.Inv m) :
    D.Sound m Free (left.beginCounter var start limit step)
      (right.beginCounter var start limit step) := by
  have begun {start limit step : Float} {m : Machine} (inv : D.Inv m) : D.Sound m Free
        (if step == 0 then Exec.fail (.zeroStep var)
        else do
          Evaluator.assignVariable var (.number start)
          return (({ var, limit, step } : Counter), Counter.continues { var, limit, step } start))
        (if step == 0 then Exec.fail (.zeroStep var)
        else do
          Evaluator.assignVariable var (.number start)
          return (({ var, limit, step } : Counter),
              Counter.continues { var, limit, step } start)) := by
    split
    · exact .fail inv (R.laws.ordinary rfl)
    · exact (R.assignVariable inv R.laws.number).bind fun _ _ inv _ _ => .pure inv trivial
  refine (R.evalNumber (fine start (by simp)) inv).bind fun start next inv _ _ => ?_
  refine (R.evalNumber (fine limit (by simp)) inv).bind fun limit next inv _ _ => ?_
  cases step with
  | some step =>
    exact (R.evalNumber (fine step (by simp)) inv).bind fun step next inv _ _ => begun inv
  | none =>
    have one : D.Sound next Free (Pure.pure 1 : Exec Float) (Pure.pure 1) := .pure inv trivial
    exact one.bind fun step next inv _ _ => begun inv

theorem advanceCounter {counter : Counter} (inv : D.Inv m) :
    D.Sound m Free (Evaluator.advanceCounter counter) (Evaluator.advanceCounter counter) := by
  refine (R.readVariable inv).bind fun found next inv step _ => ?_
  match found with
  | none => exact .fail inv (R.laws.ordinary rfl)
  | some value =>
    refine (R.numberOf inv).bind fun current next inv step _ => ?_
    refine (R.assignVariable inv R.laws.number).bind fun _ next inv step _ => ?_
    exact .pure inv trivial

theorem goesOn {condition : Option LoopCondition}
    (fine : ∀ test ∈ condition, test.condition.Among D.Known) (inv : D.Inv m) :
    D.Sound m Free (left.goesOn condition) (right.goesOn condition) := by
  cases condition with
  | none => exact .pure inv trivial
  | some condition =>
    exact (R.holds (fine condition rfl) inv).bind fun _ _ inv _ _ => .pure inv trivial

omit R in
theorem goodSignal_afterRound {kind : LoopKind} {signal left : Signal}
    (good : D.GoodSignal signal m)
    (leaves : signal.afterRound kind = some left) : D.GoodSignal left m := by
  unfold Signal.afterRound at leaves
  split at leaves
  · cases leaves
  · cases leaves
  · split at leaves <;> cases leaves
    trivial
  · cases leaves
    split <;> trivial
  · cases leaves
    exact good

theorem rounds {kind : LoopKind} {before after beforeOther afterOther : Exec Bool} {body : Block}
    {fuel : Nat} (first : ∀ {m}, D.Inv m → D.Sound m Free before beforeOther)
    (last : ∀ {m}, D.Inv m → D.Sound m Free after afterOther) (inv : D.Inv m)
    (code : D.Code m body) : D.Sound m D.GoodSignal (left.rounds kind before after body fuel)
      (right.rounds kind beforeOther afterOther body fuel) := by
  induction fuel generalizing m with
  | zero => exact .await
  | succ fuel ih =>
    refine (first inv).bind fun decides next inv step _ => ?_
    cases decides with
    | false => exact .pure inv trivial
    | true =>
      have code := D.code_step step code
      refine (R.exec inv code).bind fun signal next inv step good => ?_
      have code := D.code_step step code
      cases leaves : signal.afterRound kind with
      | some signal => exact .pure inv (goodSignal_afterRound good leaves)
      | none =>
        refine (last inv).bind fun decides next inv step _ => ?_
        cases decides with
        | false => exact .pure inv trivial
        | true =>
          refine (R.tick inv).bind fun _ final inv later _ => ?_
          exact ih inv (D.code_step later (D.code_step step code))

theorem printedText {items : List PrintItem} {text : String}
    (fine : ∀ item ∈ items, item.expr.Among D.Known) (inv : D.Inv m) :
    D.Sound m Free (left.printedText text items) (right.printedText text items) := by
  induction items generalizing m text with
  | nil => exact .pure inv trivial
  | cons item rest ih =>
    obtain ⟨fine, others⟩ := List.forall_mem_cons.mp fine
    refine (R.eval fine inv).bind fun value next inv step _ => ?_
    exact .heap (ih others inv)

theorem print {items : List PrintItem} {newline : Bool}
    (fine : ∀ item ∈ items, item.expr.Among D.Known) (inv : D.Inv m) :
    D.Sound m Free (left.print items newline) (right.print items newline) := by
  refine (R.printedText fine inv).bind fun text next inv step _ => ?_
  cases newline with
  | true | false => exact .changed (R.laws.outside inv)

theorem inputValue_known (target : Expr) (line : String) :
    D.Val (Evaluator.inputValue target line) := by
  unfold Evaluator.inputValue
  split
  · exact R.laws.text
  · split
    · exact R.laws.number
    · exact R.laws.text

theorem input {targets : List Expr} {prompt : String}
    (fine : ∀ target ∈ targets, target.Among D.Known) (inv : D.Inv m) :
    D.Sound m Free (left.input prompt targets) (right.input prompt targets) := by
  induction targets generalizing m prompt with
  | nil => exact .pure inv trivial
  | cons target rest ih =>
    obtain ⟨fine, others⟩ := List.forall_mem_cons.mp fine
    refine (R.laws.takeLine inv).bind fun line next inv step _ => ?_
    refine (R.assign fine inv (R.inputValue_known target line)).bind fun _ next inv step _ => ?_
    exact ih others inv

theorem chosenBranch {branches : List (IfBranch Block)} {otherwise : Option Block}
    (fine : ∀ branch ∈ branches, branch.condition.Among D.Known) (inv : D.Inv m) : D.Sound m
      (fun chosen _ => ∀ body, chosen = some body →
        body ∈ branches.map IfBranch.body ++ otherwise.toList)
      (left.chosenBranch otherwise branches) (right.chosenBranch otherwise branches) := by
  induction branches generalizing m with
  | nil =>
    refine .pure inv fun body chosen => ?_
    simp [chosen]
  | cons branch rest ih =>
    obtain ⟨fine, others⟩ := List.forall_mem_cons.mp fine
    refine (R.holds fine inv).bind fun decides next inv step _ => ?_
    cases decides with
    | true =>
      refine .pure inv fun body chosen => ?_
      cases chosen
      simp
    | false =>
      refine (ih others inv).weaken fun chosen final _ _ held body same => ?_
      exact List.mem_cons_of_mem _ (held body same)

theorem execOption {body : Option Block} (inv : D.Inv m)
    (code : ∀ block, body = some block → D.Code m block) :
    D.Sound m D.GoodSignal (left.execOption body) (right.execOption body) := by
  cases body with
  | none => exact .pure inv trivial
  | some block => exact R.exec inv (code block rfl)

theorem caseMatches {selector : Value} {test : CaseTest}
    (fine : ∀ expr ∈ test.exprs, expr.Among D.Known) (inv : D.Inv m) :
    D.Sound m Free (left.caseMatches selector test) (right.caseMatches selector test) := by
  cases test with
  | value expr =>
    refine (R.eval (fine expr List.mem_cons_self) inv).bind fun operand next inv step _ => ?_
    exact .heap (.pure inv trivial)
  | range low high =>
    refine (R.eval (fine low List.mem_cons_self) inv).bind fun low next inv step _ => ?_
    refine (R.eval (fine high (by simp [CaseTest.exprs])) inv).bind fun high next inv step _ => ?_
    exact .pure inv trivial
  | compare op expr =>
    refine (R.eval (fine expr List.mem_cons_self) inv).bind fun operand next inv step _ => ?_
    refine .ask inv (fun fault failed => ?_) fun _ _ => trivial
    exact R.laws.ordinary (Evaluator.ordinary_passes _ op selector operand fault failed)

theorem anyMatches {tests : List CaseTest} {selector : Value}
    (fine : ∀ test ∈ tests, ∀ expr ∈ test.exprs, expr.Among D.Known) (inv : D.Inv m) :
    D.Sound m Free (left.anyMatches selector tests) (right.anyMatches selector tests) := by
  induction tests generalizing m with
  | nil => exact .pure inv trivial
  | cons test rest ih =>
    obtain ⟨fine, others⟩ := List.forall_mem_cons.mp fine
    refine (R.caseMatches fine inv).bind fun decides next inv step _ => ?_
    cases decides with
    | true => exact .pure inv trivial
    | false => exact ih others inv

theorem chosenCase {cases : List (CaseClause Block)} {selector : Value} {otherwise : Option Block}
    (fine : ∀ clause ∈ cases, D.Known clause.token ∧
      ∀ test ∈ clause.tests, ∀ expr ∈ test.exprs, expr.Among D.Known) (inv : D.Inv m) :
    D.Sound m (fun chosen _ => ∀ body, chosen = some body →
      body ∈ cases.map CaseClause.body ++ otherwise.toList)
      (left.chosenCase selector otherwise cases) (right.chosenCase selector otherwise cases) := by
  induction cases generalizing m with
  | nil =>
    refine .pure inv fun body chosen => ?_
    simp [chosen]
  | cons clause rest ih =>
    obtain ⟨⟨known, fine⟩, others⟩ := List.forall_mem_cons.mp fine
    refine ((R.anyMatches fine inv).placed known).bind fun decides next inv step _ => ?_
    cases decides with
    | true =>
      refine .pure inv fun body chosen => ?_
      cases chosen
      simp
    | false =>
      refine (ih others inv).weaken fun chosen final _ _ held body same => ?_
      exact List.mem_cons_of_mem _ (held body same)

theorem raise {token : Token} {message : Expr} {code : Option Expr} (known : D.Known token)
    (fine : ∀ expr ∈ message :: code.toList, expr.Among D.Known) (inv : D.Inv m) :
    D.Sound m D.GoodSignal (left.raise token message code) (right.raise token message code) := by
  refine (R.eval (fine message (by simp)) inv).bind fun message next inv step _ => .heap ?_
  cases code with
  | none => exact (Sound.fail inv (R.laws.ordinary rfl)).placed known
  | some code =>
    refine (R.eval (fine code (by simp)) inv).bind fun code next inv step _ => .heap ?_
    exact (Sound.fail inv (R.laws.ordinary rfl)).placed known

end

theorem declare {define : Exec Unit} {stmt : Stmt} (inv : D.Inv m)
    (sound : D.Sound m Free define define) :
    D.Sound m Free (Evaluator.declare stmt define) (Evaluator.declare stmt define) := by
  refine .get ?_
  split
  · exact .pure inv trivial
  · exact sound

theorem initials (R : D.Respects left right) {type : TypeSpec} {count : Nat} {items : Array Value}
    (inv : D.Inv m) (known : ∀ item ∈ items, D.Val item) :
    D.Sound m (fun items _ => ∀ item ∈ items, D.Val item)
      (Evaluator.initials type count items) (Evaluator.initials type count items) := by
  induction count generalizing m items with
  | zero => exact .pure inv known
  | succ count ih =>
    refine (R.laws.initialOf inv).bind fun first next inv step good => ?_
    refine ih inv fun item among => ?_
    rcases Array.mem_push.mp among with among | rfl
    · exact known item among
    · exact good

theorem dimSize {name : String} {size : Expr} (R : D.Respects left right)
    (fine : size.Among D.Known) (inv : D.Inv m) :
    D.Sound m Free (left.dimSize name size) (right.dimSize name size) := by
  refine (R.eval fine inv).bind fun value next inv step _ => ?_
  refine (R.numberOf inv).bind fun n next inv step _ => ?_
  split
  · exact .fail inv (R.laws.ordinary rfl)
  · split
    · exact .pure inv trivial
    · exact .fail inv (R.laws.ordinary rfl)

theorem dim {name : String} {size : Option Expr} {type : Option TypeSpec}
    (R : D.Respects left right) (fine : ∀ expr ∈ size.toList, expr.Among D.Known) (inv : D.Inv m) :
    D.Sound m Free (left.dim name size type) (right.dim name size type) := by
  have stored {value : Value} {m : Machine} (inv : D.Inv m) (known : D.Val value) :
      D.Sound m Free (Exec.change (fun m => m.setVariable name value))
        (Exec.change (fun m => m.setVariable name value)) := by
    refine .change inv (fun fault failed => ?_) fun next assigned => ?_
    · exact R.laws.ordinary (m.ordinary_setVariable name value fault failed)
    · exact R.laws.setVariable inv known assigned
  cases size with
  | none => exact (R.laws.initialOf inv).bind fun value next inv step known => stored inv known
  | some size =>
    refine (R.dimSize (fine size List.mem_cons_self) inv).bind fun size next inv step _ => ?_
    refine (R.initials inv (by simp)).bind fun items next inv step known => ?_
    exact (R.laws.newArray inv known).bind fun value next inv step known => stored inv known

theorem thenDone {leftWork rightWork : Exec Unit} (sound : D.Sound m Free leftWork rightWork) :
    D.Sound m D.GoodSignal (Evaluator.thenDone leftWork) (Evaluator.thenDone rightWork) :=
  sound.bind fun _ _ inv _ _ => .pure inv trivial

theorem plainStmt {stmt : Stmt} (R : D.Respects left right) (fine : stmt.Among D.Known)
    (inv : D.Inv m)
    (code : ∀ inner ∈ stmt.blocks, D.Code m inner) :
    D.Sound m D.GoodSignal (left.plainStmt stmt) (right.plainStmt stmt) := by
  obtain ⟨known, tokens, fine⟩ := fine
  unfold Evaluator.plainStmt
  unfold Stmt.blocks at code
  generalize stmt.kind = kind at code tokens fine ⊢
  cases kind with
  | assign target value explicit =>
    obtain ⟨targetFine, fine⟩ := List.forall_mem_cons.mp fine
    refine (R.eval (fine value List.mem_cons_self) inv).bind fun value next inv step known => ?_
    exact thenDone (R.assign targetFine inv known)
  | print items newline => exact thenDone (R.print (List.forall_mem_map.mp fine) inv)
  | input prompt targets => exact thenDone (R.input fine inv)
  | branch branches otherwise blockForm =>
    refine (R.chosenBranch (List.forall_mem_map.mp fine) inv).bind fun chosen next inv step held =>
      ?_
    exact R.execOption inv fun body same => D.code_step step (code body (held body same))
  | openFor var start limit step | next var => exact .pure inv trivial
  | whileLoop condition body =>
    have code : D.Code m body := code body List.mem_cons_self
    simp only [R.fuel]
    exact R.rounds (R.holds (fine condition List.mem_cons_self))
      (fun inv => .pure inv trivial) inv code
  | doLoop before after body =>
    have code : D.Code m body := code body List.mem_cons_self
    have tested {test : LoopCondition} (held : test ∈ before.toList ++ after.toList) :
        test.condition.Among D.Known :=
      List.forall_mem_map.mp fine test held
    simp only [R.fuel]
    refine R.rounds (R.goesOn ?_) (R.goesOn ?_) inv code
    · exact fun test given => tested (List.mem_append_left _ (Option.mem_toList.mpr given))
    · exact fun test given => tested (List.mem_append_right _ (Option.mem_toList.mpr given))
  | attempt body handler cleanup =>
    refine R.tryStmt inv (code body (by simp [StmtKind.blocks])) ?_ ?_
    · rintro clause rfl
      exact code clause.body (by simp [StmtKind.blocks])
    · rintro block rfl
      exact code block (by simp [StmtKind.blocks])
  | raise message code => exact R.raise known fine inv
  | defer body => exact thenDone (.changed (R.laws.deferBlock inv (code body List.mem_cons_self)))
  | function decl =>
    exact thenDone
      (declare inv (R.laws.functionDefined inv (code decl.body List.mem_cons_self) fine))
  | property decl =>
    exact thenDone
      (declare inv (R.laws.propertyDefined inv (code decl.body List.mem_cons_self) fine))
  | withBlock target body =>
    exact R.withStmt (fine target List.mem_cons_self) inv (code body List.mem_cons_self)
  | select selector cases otherwise =>
    obtain ⟨selecting, fine⟩ := List.forall_mem_cons.mp fine
    have clauses : ∀ clause ∈ cases, D.Known clause.token ∧
        ∀ test ∈ clause.tests, ∀ expr ∈ test.exprs, expr.Among D.Known := by
      refine fun clause held =>
        ⟨List.forall_mem_map.mp tokens clause held, fun test tried expr among => ?_⟩
      exact fine expr
        (List.mem_flatMap.mpr ⟨clause, held, List.mem_flatMap.mpr ⟨test, tried, among⟩⟩)
    refine (R.eval selecting inv).bind fun selector next inv step _ => ?_
    refine (R.chosenCase clauses inv).bind fun chosen final inv later held => ?_
    exact R.execOption inv fun body same =>
      D.code_step (D.step_trans step later) (code body (held body same))
  | exit kind | continueLoop kind => exact .pure inv trivial
  | type decl => exact thenDone (declare inv (R.laws.typeDefined inv))
  | dim name size type => exact thenDone (R.dim fine inv)
  | spawn name => exact thenDone (.changed (R.laws.spawn inv))
  | returnValue value =>
    cases value with
    | none => exact .pure inv trivial
    | some expr =>
      exact (R.eval (fine expr List.mem_cons_self) inv).bind fun value next inv step known =>
        .pure inv known
  | call expr =>
    exact thenDone
      ((R.eval (fine expr List.mem_cons_self) inv).bind fun _ _ inv _ _ => .pure inv trivial)
  | halt | stop => exact .pure inv trivial

end MicroBasic.Discipline.Respects
