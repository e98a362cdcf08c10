import MicroBasic.Proofs.Concord.Block
import MicroBasic.Proofs.Concord.Endings

/-!
# Two runs side by side

Two evaluators run the same program. The second one has at least the fuel of the first. As long as
both go on they do the same. They part where the first runs out of fuel, or where an observer stops
one of them and not the other; from there the other one goes on alone, from the machine on which the
first was stopped.
-/

namespace MicroBasic

/-- Where observers may stop each of two runs, said of the machine on which a work is begun and the
one on which it is stopped. -/
structure Stopping where
  Stops : Bool → Machine → Machine → Prop
  stops_before : ∀ {i m next final}, m.Grows next → Stops i next final → Stops i m final

/-- How one of two works may end: the machine grows, and it may be stopped. -/
def Stopping.manner (T : Stopping) (i : Bool) : Manner :=
  .growing (T.Stops i) T.stops_before

/-- No work is stopped. -/
def Stopping.never : Stopping where
  Stops _ _ _ := False
  stops_before _ stopped := stopped

variable {α β : Type}

/-- The results of a pair of works that were begun on one machine. The first work ran out of fuel,
or both ended alike, or one was stopped on a machine from which the other one went on. -/
structure Pair (T : Stopping) (m : Machine) (Good : α → Machine → Prop)
    (Bad : Break → Machine → Prop) (results : Bool → EStateM.Result Escape Machine α) : Prop where
  ends : ∀ i, (T.manner i).Ends m Good Bad (results i)
  compared : (∃ final, results false = .error (.awaiting .fuel) final) ∨
    (results false = results true ∧ ∀ final, results true ≠ .error .stopped final) ∨
    ∃ i met, results i = .error .stopped met ∧ m.Grows met ∧
      (T.manner (!i)).Ends met (fun _ _ => True) (fun _ _ => True) (results (!i))

namespace Pair

variable {T : Stopping} {m start : Machine} {Good : α → Machine → Prop}
  {Bad : Break → Machine → Prop} {results : Bool → EStateM.Result Escape Machine α}

theorem same {result : EStateM.Result Escape Machine α}
    (ends : ∀ i, (T.manner i).Ends m Good Bad result)
    (unstopped : ∀ final, result ≠ .error .stopped final) : Pair T m Good Bad (fun _ => result) :=
  ⟨ends, .inr (.inl ⟨rfl, unstopped⟩)⟩

theorem starved {others : Bool → EStateM.Result Escape Machine α} (pair : Pair T m Good Bad results)
    (second : others true = results true)
    (first : others false = results false ∨
      ∃ final, others false = .error (.awaiting .fuel) final) :
    Pair T m Good Bad others := by
  rcases first with same | ⟨final, fuel⟩
  · have both : others = results := by
      funext i
      cases i with
      | false => exact same
      | true => exact second
    rw [both]
    exact pair
  · refine ⟨fun i => ?_, .inl ⟨final, fuel⟩⟩
    cases i with
    | false =>
      rw [fuel]
      exact .awaiting trivial
    | true =>
      rw [second]
      exact pair.ends true

theorem weaken {Weak : α → Machine → Prop} {Poor : Break → Machine → Prop}
    (pair : Pair T m Good Bad results) (good : ∀ value final, Good value final → Weak value final)
    (bad : ∀ cause final, Bad cause final → Poor cause final) : Pair T m Weak Poor results :=
  ⟨fun i => (pair.ends i).weaken good bad, pair.compared⟩

theorem rebase (grows : m.Grows start) (pair : Pair T start Good Bad results) :
    Pair T m Good Bad results where
  ends i := (pair.ends i).before grows
  compared := by
    rcases pair.compared with fuel | alike | ⟨i, met, stopped, reached, onward⟩
    · exact .inl fuel
    · exact .inr (.inl alike)
    · exact .inr (.inr ⟨i, met, stopped, grows.trans reached, onward⟩)

theorem bind {Last : β → Machine → Prop} {first : Bool → Exec α} {rest : Bool → α → Exec β}
    (pair : Pair T m Good Bad (fun i => first i m))
    (onward : ∀ value next, Good value next → Pair T next Last Bad (fun i => rest i value next)) :
    Pair T m Last Bad (fun i => (first i >>= rest i) m) where
  ends i := (pair.ends i).bind fun value next _ good => (onward value next good).ends i
  compared := by
    rcases pair.compared with ⟨final, fuel⟩ | ⟨alike, unstopped⟩ | ⟨i, met, stopped, reached, later⟩
    · refine .inl ⟨final, ?_⟩
      simp only [Bind.bind, EStateM.bind, fuel]
    · have both (i : Bool) : first i m = first true m := by
        cases i with
        | false => exact alike
        | true => rfl
      have begun := pair.ends true
      simp only [Bind.bind, EStateM.bind, both]
      revert unstopped begun
      generalize first true m = result
      intro unstopped begun
      cases begun with
      | @value value next grows good => exact ((onward value next good).rebase grows).compared
      | broken grows bad | awaiting awaits => exact .inr (.inl ⟨rfl, nofun⟩)
      | @stopped final stops => exact absurd rfl (unstopped final)
    · refine .inr (.inr ⟨i, met, ?_, reached, ?_⟩)
      · simp only [Bind.bind, EStateM.bind, stopped]
      · refine later.bind fun value next ended _ => ?_
        have begun := pair.ends (!i)
        rw [ended] at begun
        cases begun with
        | value grows good =>
          exact ((onward value next good).ends (!i)).weaken (fun _ _ _ => trivial) fun _ _ _ =>
            trivial

theorem attempt {work : Bool → Exec α} {Never : Break → Machine → Prop}
    (pair : Pair T m Good Bad (fun i => work i m)) : Pair T m (fun result final =>
        match result with
        | .ok value => Good value final
        | .error cause => Bad cause final)
      Never (fun i => Exec.attempt (work i) m) where
  ends i := (pair.ends i).attempt
  compared := by
    rcases pair.compared with ⟨final, fuel⟩ | ⟨alike, unstopped⟩ | ⟨i, met, stopped, reached, later⟩
    · refine .inl ⟨final, ?_⟩
      simp only [Exec.attempt, fuel]
    · refine .inr (.inl ⟨?_, ?_⟩)
      · simp only [Exec.attempt, alike]
      · exact fun final stopped => unstopped final (Exec.stopped_of_attempt stopped)
    · refine .inr (.inr ⟨i, met, ?_, reached, ?_⟩)
      · simp only [Exec.attempt, stopped]
      · exact later.attempt.weaken (fun _ _ _ => trivial) fun _ _ held => held

theorem rounds {σ : Type} {loop : Bool → Nat → σ → Exec α} {Inv : Machine → Prop}
    {Good : Machine → α → Machine → Prop} {Bad : Machine → Break → Machine → Prop}
    (empty : ∀ i state, loop i 0 state = Exec.await .fuel)
    (round : ∀ {fuels : Bool → Nat} {m : Machine} (state : σ), fuels false ≤ fuels true → Inv m →
      (∀ state next, Inv next →
        Pair T next (Good next) (Bad next) (fun i => loop i (fuels i) state next)) →
      Pair T m (Good m) (Bad m) (fun i => loop i (fuels i + 1) state m))
    {fuels : Bool → Nat} (state : σ) (room : fuels false ≤ fuels true) (inv : Inv m) :
    Pair T m (Good m) (Bad m) (fun i => loop i (fuels i) state m) := by
  have out (fuels : Bool → Nat) (i : Bool) (state : σ) (m : Machine) (spent : fuels i = 0) :
      loop i (fuels i) state m = .error (.awaiting .fuel) m := by
    rw [spent, empty]
    rfl
  -- The induction is on the rounds of the second work, which goes on when the first has none left.
  generalize bound : fuels true = most
  induction most generalizing fuels state m with
  | zero =>
    have spent (i : Bool) : fuels i = 0 := by
      cases i with
      | false => omega
      | true => exact bound
    simp only [out fuels _ state m (spent _)]
    exact .same (fun _ => .awaiting trivial) nofun
  | succ most ih =>
    have again (fewer : Nat) (less : fewer ≤ most) : Pair T m (Good m) (Bad m)
          (fun i => loop i ((if i then most else fewer) + 1) state m) := by
      refine @round (fun i => if i then most else fewer) m state less inv fun state next inv => ?_
      exact ih state less inv rfl
    cases remaining : fuels false with
    | zero =>
      refine (again 0 (Nat.zero_le _)).starved ?_ (.inr ⟨m, out fuels false state m remaining⟩)
      rw [bound]
      rfl
    | succ fewer =>
      refine (again fewer (by omega)).starved ?_ (.inl ?_)
      · rw [bound]
        rfl
      · rw [remaining]
        rfl

end Pair

/-- Two works, the second with at least as much fuel, end alike unless one is stopped or the first
runs out of fuel. -/
def paired (T : Stopping) : Concord Bool where
  Holds := Pair T
  Room fuels := fuels false ≤ fuels true
  Spent _ _ := True
  spent_before _ _ := trivial
  spent_after _ _ := trivial
  value calm good := .same (fun _ => .value calm.toGrows good) nofun
  broken calm bad := .same (fun _ => .broken calm.toGrows bad) nofun
  takeLine {m prompt} := by
    refine .same (fun _ => .takeLine) fun final => ?_
    unfold Exec.takeLine
    match m.world.takeLine prompt with
    | (.ok (some _), _) => exact nofun
    | (.ok none, _) => exact nofun
    | (.error _, _) => exact nofun
  weaken := .weaken
  bind := .bind
  attempt := .attempt
  rebase grows _ pair := pair.rebase grows
  rounds empty round _ _ state room inv :=
    .rounds empty (fun state room inv again => round state room inv fun state next inv _ =>
      again state next inv) state room inv

end MicroBasic
