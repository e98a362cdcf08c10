import MicroBasic.Proofs.Placement.Rations

/-!
# Machines on which a program has registered its declarations

Once a program has registered its declarations, they stay registered and all code keeps the pairs of
the program, whatever its statements do. This is known of evaluation that goes from place to place,
and it carries over to structured evaluation because the two do the same.
-/

namespace MicroBasic

namespace Discipline

theorem Hooks.transferred {D E : Discipline} {left right : Evaluator} (agree : D.Hooks left right)
    (united : D.United) (keeps : E.Hooks left left) (inv : ∀ {m}, E.Inv m → D.Inv m)
    (code : ∀ {m block}, E.Code m block → D.Code m block)
    (known : ∀ token, D.Known token := by exact fun _ => trivial) : E.Hooks right right where
  laws := by
    rw [agree.host]
    exact keeps.laws
  host := rfl
  settings := rfl
  fuel := rfl
  eval {m expr} fine kept := by
    have same : left.eval expr m = right.eval expr m :=
      (agree.eval (fun _ _ => known _) (inv kept)).same united
    have sound : E.Sound m E.GoodValue (left.eval expr) (left.eval expr) := keeps.eval fine kept
    unfold Sound at sound ⊢
    rwa [same] at sound
  exec {m block} kept allowed := by
    have same : left.exec block m = right.exec block m :=
      (agree.exec (inv kept) (code allowed)).same united
    have sound : E.Sound m E.GoodSignal (left.exec block) (left.exec block) :=
      keeps.exec kept allowed
    unfold Sound at sound ⊢
    rwa [same] at sound

section Noting

variable {program : Program} {Noted : List Nat → Prop} {settings : Settings} {host : Host}
    {bound : Nat}

theorem noting_structured_hooks (isPaired : program.IsPaired) (honest : host.Honest) :
    ((looping [program]).noting Noted).Hooks (structuredEvaluator settings host bound)
      (structuredEvaluator settings host bound) := by
  have known : ∀ other ∈ [program], other.IsPaired :=
    fun _ among => List.mem_singleton.mp among ▸ isPaired
  have agree :=
    @Unstopped.pairedHooks _ settings _ _ (unstopped_of_silent [program]) honest known bound
  have keeps : ((looping [program]).noting Noted).Hooks
      (observedEvaluator (fun _ => return) settings host bound)
      (observedEvaluator (fun _ => return) settings host bound) :=
    looping_noting_hooks honest (fun _ _ => rfl) bound
  exact agree.transferred (looping_united _) keeps (fun inv => inv.1) id

theorem noting_structured_respects (isPaired : program.IsPaired) (honest : host.Honest) :
    ((looping [program]).noting Noted).Respects (structuredEvaluator settings host bound)
      (structuredEvaluator settings host bound) := by
  have hooks := @noting_structured_hooks program Noted settings host bound isPaired honest
  have observers :
    ((looping [program]).noting Noted).Observers (structuredEvaluator settings host bound)
      (structuredEvaluator settings host bound) :=
    .passing (noting_united (looping_united _)) (fun _ => trivial)
      (fun _ _ _ => structuredEvaluator_observe _ _) fun _ _ _ => structuredEvaluator_observe _ _
  refine .of hooks (noting_draining (looping_scoping _).toDraining).toSteady observers
    fun inv callable good done => ?_
  have entering := noting_entering (bearing_entering inv.1 callable good done) inv done
  exact ⟨(looping [program]).noting Noted, { entering with hooks }⟩

end Noting

/-- All code keeps the pairs of a program, and all declarations of the program are registered. -/
def registered (program : Program) : Discipline :=
  (looping [program]).noting fun ids =>
    ∀ stmt ∈ program.statements, stmt.isDeclaration = true → stmt.id ∈ ids

theorem registered_united {program : Program} : (registered program).United :=
  noting_united (looping_united _)

end Discipline

open Discipline

/-- A program has registered its declarations, and its own pairs are in force. -/
structure Machine.Registers (program : Program) (m : Machine) : Prop where
  inv : (registered program).Inv m
  issued : Issued [program] m.activation.loops program.statements

theorem Machine.Registers.kept {program : Program} {m : Machine} {α : Type}
    {Good : α → Machine → Prop} {work : Exec α} {value : α} {final : Machine}
    (registers : m.Registers program)
    (sound : (registered program).Sound m Good work work) (done : work m = .ok value final) :
    final.Registers program := by
  have ends := sound.ends registered_united
  rw [done] at ends
  exact ⟨ends.1, (registered program).code_step ends.2.1 registers.issued⟩

theorem Program.IsPaired.attuned {settings : Settings} {host : Host} {program : Program}
    (isPaired : program.IsPaired)
    (honest : host.Honest) (unlimited : settings.maxSteps = none) (bound : Nat) :
    Attuned (structuredEvaluator settings host bound) program.statements
      (Machine.Registers program) := by
  have respects : (registered program).Respects (structuredEvaluator settings host bound)
      (structuredEvaluator settings host bound) := noting_structured_respects isPaired honest
  have observed {stmt : Stmt} {m : Machine} (inv : (registered program).Inv m) :
    (registered program).Sound m Free
        ((structuredEvaluator settings host bound).observe (.statement stmt))
        ((structuredEvaluator settings host bound).observe (.statement stmt)) :=
    .passing inv (structuredEvaluator_observe _ _) (structuredEvaluator_observe _ _)
  exact {
    evaluates := fun s => s.evaluates_structured host unlimited bound
    noted := fun registers among declares => registers.inv.2 _ among declares
    plain := fun {m stmt _ _} registers among =>
      registers.kept
          (respects.perform stmt trivial registers.inv (fun inv _ _ => observed inv) fun inv step =>
        respects.plainStmt (.of_all _) inv fun part held =>
          (registered program).code_step step (registers.issued.step among held))
    opening := fun {m stmt var start limit step _ _} registers =>
      registers.kept
          (respects.perform stmt trivial registers.inv (fun inv _ _ => observed inv) fun inv _ =>
        @Respects.beginCounter _ _ _ _ respects var start limit step (fun _ _ _ _ => trivial) inv)
    closing := fun {m stmt counter _ _} registers =>
      registers.kept
          (respects.perform stmt trivial registers.inv (fun inv _ _ => observed inv) fun inv _ =>
        @Respects.advanceCounter _ _ _ _ respects counter inv) }

namespace Run

variable {statements : List Stmt} {m final : Machine}

theorem noted_of_registered {stmt : Stmt} {rest : Exec Unit} {step : Machine → Except Fault Machine}
    (keeps : ∀ {next}, step m = .ok next → next.hoisted = m.hoisted)
    (done : (do
      Exec.placed stmt.token (Exec.change step)
      modify (fun m => { m with hoisted := stmt.id :: m.hoisted })
      rest : Exec Unit) m = .ok () final) :
    ∃ between : Machine, between.hoisted = stmt.id :: m.hoisted ∧ rest between = .ok () final := by
  obtain ⟨_, next, placed, done⟩ := Exec.of_bind done
  unfold Exec.placed at placed
  rw [Exec.change_eq] at placed
  cases changed : step m with
  | error fault =>
    rw [changed] at placed
    cases placed
  | ok other =>
    rw [changed] at placed
    cases placed
    exact ⟨_, congrArg (stmt.id :: ·) (keeps changed), done⟩

theorem hoisted_of_define {next : Machine} {α : Type} {table : Except Fault α} {enter : α → Machine}
    (done : (do return enter (← table)) = Except.ok next)
    (same : ∀ entered, (enter entered).hoisted = m.hoisted := by exact fun _ => rfl) :
    next.hoisted = m.hoisted := by
  obtain ⟨entered, _, done⟩ := Results.of_bind done
  cases done
  exact same entered

theorem noted_of_register {types : Bool} (done : register types statements m = .ok () final) :
    (∀ id ∈ m.hoisted, id ∈ final.hoisted) ∧
      ∀ stmt ∈ statements, (registration? types stmt).isSome = true → stmt.id ∈ final.hoisted := by
  induction statements generalizing m with
  | nil =>
    cases done
    exact ⟨fun _ => id, List.forall_mem_nil _⟩
  | cons stmt rest ih =>
    have registers := registers types stmt
    unfold register at done
    rw [List.forall_mem_cons]
    generalize registration? types stmt = entry at registers done ⊢
    cases registers with
    | none =>
      obtain ⟨kept, later⟩ := ih done
      exact ⟨kept, by simp, later⟩
    | _ =>
      obtain ⟨between, noted, done⟩ := noted_of_registered hoisted_of_define done
      obtain ⟨kept, later⟩ := ih done
      rw [noted, List.forall_mem_cons] at kept
      exact ⟨kept.2, fun _ => kept.1, later⟩

theorem noted_of_hoist {block : Block} (done : hoist block m = .ok () final) :
    ∀ stmt ∈ block, stmt.isDeclaration = true → stmt.id ∈ final.hoisted := by
  obtain ⟨_, between, types, done⟩ := Exec.of_bind done
  obtain ⟨_, noted⟩ := noted_of_register types
  obtain ⟨kept, later⟩ := noted_of_register done
  intro stmt among declares
  unfold Stmt.isDeclaration at declares
  split at declares
  · next decl kind =>
    exact later stmt among (by rw [registration?, kind]; rfl)
  · next decl kind =>
    exact later stmt among (by rw [registration?, kind]; rfl)
  · next decl kind =>
    exact kept _ (noted stmt among (by rw [registration?, kind]; rfl))
  · cases declares

end Run

theorem Run.hoist_ends {program : Program} {settings : Settings} {host : Host}
    (isPaired : program.IsPaired) (honest : host.Honest) {world : World} :
    (looping [program]).Ends (Run.begin settings program (.initial world)) Free
      (Run.hoist program.statements (Run.begin settings program (.initial world))) := by
  have known : ∀ other ∈ [program], other.IsPaired :=
    fun _ among => List.mem_singleton.mp among ▸ isPaired
  have hooks := @Unstopped.pairedHooks _ settings _ _ (unstopped_of_silent [program]) honest known 0
  have inv := (Machine.Coherent.initial world).begin settings program
  have issued := Run.begin_issued (.initial world) settings program
  have registering := (looping_scoping [program]).registering program.statements
  have sound : (looping [program]).Sound (Run.begin settings program (.initial world)) Free
      (Run.hoist program.statements) (Run.hoist program.statements) :=
    hooks.hoist registering inv fun _ among _ held => issued.step among held
  exact sound.ends (looping_united _)

end MicroBasic
