import MicroBasic.Proofs.Concord.Basic

/-!
# How single works end

What a concord says of several works rests on what becomes of each of them. A manner of ending says
what is known between the start and the end of a work, what the work may be found to need from
outside, and where an observer may stop it. It is carried through an evaluation like the concord
itself.
-/

namespace MicroBasic

/-- What may become of a single work. -/
structure Manner where
  /-- What is known of the machines on which work began and ended. -/
  Trail : Machine → Machine → Prop
  /-- What work may need that is begun on a machine. -/
  Awaits : Machine → Awaited → Prop
  /-- Where work may be stopped that is begun on a machine. -/
  Stops : Machine → Machine → Prop
  trail_quiet :
    ∀ {m final : Machine}, m.Grows final → m.world.SameSources final.world → Trail m final
  trail_trans :
    ∀ {first second third : Machine}, Trail first second → Trail second third → Trail first third
  awaits_before :
    ∀ {m next : Machine} {what : Awaited}, Trail m next → Awaits next what → Awaits m what
  stops_before : ∀ {m next final : Machine}, Trail m next → Stops next final → Stops m final
  asks : ∀ {m : Machine} (prompt : String),
    match m.world.takeLine prompt with
    | (.ok _, world) => Trail m { m with world }
    | (.error what, _) => Awaits m what

namespace Manner

variable {M : Manner} {α β : Type} {m start : Machine} {Good : α → Machine → Prop}
    {Bad : Break → Machine → Prop}

/-- A work that was begun on a machine ends in a manner. -/
inductive Ends (M : Manner) (m : Machine) (Good : α → Machine → Prop)
    (Bad : Break → Machine → Prop) : EStateM.Result Escape Machine α → Prop
  | value {value : α} {final : Machine} (trail : M.Trail m final) (good : Good value final) :
      Ends M m Good Bad (.ok value final)
  | broken {cause : Break} {final : Machine} (trail : M.Trail m final) (bad : Bad cause final) :
      Ends M m Good Bad (.error (.broken cause) final)
  | awaiting {what : Awaited} {final : Machine} (awaits : M.Awaits m what) :
      Ends M m Good Bad (.error (.awaiting what) final)
  | stopped {final : Machine} (stops : M.Stops m final) :
      Ends M m Good Bad (.error .stopped final)

namespace Ends

variable {result : EStateM.Result Escape Machine α}

theorem weaken {Weak : α → Machine → Prop} {Poor : Break → Machine → Prop}
    (ends : M.Ends m Good Bad result) (good : ∀ value final, Good value final → Weak value final)
    (bad : ∀ cause final, Bad cause final → Poor cause final) : M.Ends m Weak Poor result := by
  cases ends with
  | value trail held => exact .value trail (good _ _ held)
  | broken trail held => exact .broken trail (bad _ _ held)
  | awaiting awaits => exact .awaiting awaits
  | stopped stops => exact .stopped stops

theorem before (trail : M.Trail m start) (ends : M.Ends start Good Bad result) :
    M.Ends m Good Bad result := by
  cases ends with
  | value later good => exact .value (M.trail_trans trail later) good
  | broken later bad => exact .broken (M.trail_trans trail later) bad
  | awaiting awaits => exact .awaiting (M.awaits_before trail awaits)
  | stopped stops => exact .stopped (M.stops_before trail stops)

theorem bind {Last : β → Machine → Prop} {first : Exec α} {rest : α → Exec β}
    (ends : M.Ends m Good Bad (first start)) (onward : ∀ value next, first start = .ok value next →
      Good value next → M.Ends next Last Bad (rest value next)) :
    M.Ends m Last Bad ((first >>= rest) start) := by
  simp only [Bind.bind, EStateM.bind]
  revert ends onward
  generalize first start = result
  intro ends onward
  cases ends with
  | value trail good => exact (onward _ _ rfl good).before trail
  | broken trail bad => exact .broken trail bad
  | awaiting awaits => exact .awaiting awaits
  | stopped stops => exact .stopped stops

theorem attempt {work : Exec α} {Never : Break → Machine → Prop}
    (ends : M.Ends m Good Bad (work start)) : M.Ends m (fun result final => match result with
        | .ok given =>
          Good given final | .error cause => Bad cause final) Never (Exec.attempt work start) := by
  unfold Exec.attempt
  revert ends
  generalize work start = result
  intro ends
  cases ends with
  | value trail good => exact .value trail good
  | broken trail bad => exact .value trail bad
  | awaiting awaits => exact .awaiting awaits
  | stopped stops => exact .stopped stops

theorem takeLine {prompt : String} : M.Ends m (fun _ => m.Onward) (fun _ => m.Onward)
    (Exec.takeLine prompt m) := by
  have asked := @M.asks m prompt
  unfold Exec.takeLine
  revert asked
  cases m.world.takeLine prompt with
  | mk answer world =>
    intro asked
    match answer with
    | .ok (some line) => exact .value asked (.world m _ _)
    | .ok none => exact .broken asked (.world m _ _)
    | .error what => exact .awaiting asked

end Ends

end Manner

theorem Machine.grows_world (m : Machine) (world : World) : m.Grows { m with world } :=
  ⟨Nat.le_refl _, .refl _⟩

/-- Work that may need anything and leaves more on the console. -/
def Manner.growing (Stops : Machine → Machine → Prop)
    (stops_before : ∀ {m next final : Machine}, m.Grows next → Stops next final → Stops m final) :
    Manner where
  Trail := Machine.Grows
  Awaits _ _ := True
  Stops := Stops
  trail_quiet grows _ := grows
  trail_trans := Machine.Grows.trans
  awaits_before _ _ := trivial
  stops_before := stops_before
  asks {m} prompt := by
    split
    · exact m.grows_world _
    · trivial

end MicroBasic
