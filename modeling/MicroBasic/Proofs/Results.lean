/-!
# Results of work that may fail

Taking a successful result apart into the successful results of the parts that it was put together
from.
-/

namespace MicroBasic.Results

variable {ε α β : Type}

theorem of_bind {first : Except ε α} {rest : α → Except ε β} {value : β}
    (succeeded : first >>= rest = .ok value) :
    ∃ middle, first = .ok middle ∧ rest middle = .ok value := by
  cases first with
  | error fault => cases succeeded
  | ok middle => exact ⟨middle, rfl, succeeded⟩

theorem of_mapError {value : α} {ε' : Type} {work : Except ε α} {tell : ε → ε'}
    (succeeded : work.mapError tell = .ok value) : work = .ok value := by
  cases work with
  | error fault => cases succeeded
  | ok result => cases succeeded; rfl

theorem of_mapM {results : List β} {items : List α} {each : α → Except ε β}
    (succeeded : items.mapM each = .ok results) :
    ∀ result ∈ results, ∃ item ∈ items, each item = .ok result := by
  induction items generalizing results with
  | nil =>
    cases succeeded
    intro result among
    cases among
  | cons item rest ih =>
    rw [List.mapM_cons] at succeeded
    obtain ⟨first, firstDone, succeeded⟩ := of_bind succeeded
    obtain ⟨others, othersDone, succeeded⟩ := of_bind succeeded
    cases succeeded
    intro result among
    rcases List.mem_cons.mp among with rfl | among
    · exact ⟨item, List.mem_cons_self, firstDone⟩
    · obtain ⟨other, held, done⟩ := ih othersDone result among
      exact ⟨other, List.mem_cons_of_mem item held, done⟩

end MicroBasic.Results
