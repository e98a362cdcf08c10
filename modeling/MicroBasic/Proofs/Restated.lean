import MicroBasic.Eval.Loop
import MicroBasic.Interpreter

/-!
# Works restated

To give an error its place and to tell a halt from an error is to attempt some work and to look at
how it ended. A statement registers a type, a function, a property or nothing.
-/

namespace MicroBasic

namespace Exec

variable {α : Type}

/-- The ways in which work ends. -/
@[elab_as_elim]
theorem byEnd {motive : EStateM.Result Escape Machine α → Prop}
    (ok : ∀ value final, motive (.ok value final))
    (error : ∀ error final, motive (.error (.broken (.error error)) final))
    (halt : ∀ reason final, motive (.error (.broken (.halt reason)) final))
    (awaiting : ∀ what final, motive (.error (.awaiting what) final))
    (stopped : ∀ final, motive (.error .stopped final)) (result : EStateM.Result Escape Machine α) :
    motive result := by
  rcases result with ⟨value, final⟩ | ⟨(error' | reason) | what | _, final⟩
  · exact ok value final
  · exact error error' final
  · exact halt reason final
  · exact awaiting what final
  · exact stopped final

theorem stopped_of_attempt {m final : Machine} {work : Exec α}
    (stopped : attempt work m = .error .stopped final) :
    work m = .error .stopped final := by
  unfold attempt at stopped
  split at stopped
  iterate 3 · cases stopped
  · next halts =>
    cases stopped
    exact halts

theorem placed_eq (token : Token) (work : Exec α) :
    placed token work = attempt work >>= fun result =>
      match result with
      | .ok value => pure value
      | .error (.error error) => throw (.broken (.error (error.placedAt token)))
      | .error (.halt reason) => throw (.broken (.halt reason)) := by
  funext m
  simp only [placed, attempt, Bind.bind, EStateM.bind]
  cases work m using byEnd <;> rfl

theorem halting_eq (work : Exec α) : halting work = attempt work >>= fun result =>
      match result with
      | .ok value => pure (.ok value)
      | .error (.error error) => throw (.broken (.error error))
      | .error (.halt reason) => pure (.error reason) := by
  funext m
  simp only [halting, attempt, Bind.bind, EStateM.bind]
  cases work m using byEnd <;> rfl

end Exec

namespace Run

/-- What a statement may register. -/
inductive Registers (stmt : Stmt) : Option (Exec Unit) → Prop
  | none : Registers stmt none
  | type {decl : TypeDecl} (kind : stmt.kind = .type decl) :
    Registers stmt (some (Evaluator.defineType decl))
  | function {decl : FunctionDecl Block} (kind : stmt.kind = .function decl) :
      Registers stmt (some (Evaluator.defineFunction decl stmt.id))
  | property {decl : PropertyDecl Block} (kind : stmt.kind = .property decl) :
      Registers stmt (some (Evaluator.defineProperty decl stmt.id))

theorem registers (types : Bool) (stmt : Stmt) : Registers stmt (registration? types stmt) := by
  unfold registration?
  cases kind : stmt.kind with
  | type => cases types <;> first | exact .none | exact .type kind
  | function => cases types <;> first | exact .none | exact .function kind
  | property => cases types <;> first | exact .none | exact .property kind
  | _ => exact .none

end Run

end MicroBasic
