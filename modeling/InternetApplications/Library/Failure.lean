import InternetApplications.Library.Execution

namespace InternetApplications.Executions

universe v

variable {ε : Type*} {α β : Type v} {P : ε → Prop} {x : Except ε α} {f : α → Except ε β}

/-- When the computation fails, it is in one of these ways. -/
def FailsOnly (P : ε → Prop) (x : Except ε α) : Prop := ∀ e, x = .error e → P e

namespace FailsOnly

theorem of_ok (h : ∃ a, x = .ok a) : FailsOnly P x := by
  obtain ⟨a, rfl⟩ := h
  exact fun e he ↦ nomatch he

theorem ok (a : α) : FailsOnly P (.ok a : Except ε α) := of_ok ⟨a, rfl⟩

theorem of_error {e : ε} (h : P e) : FailsOnly P (.error e : Except ε α) := by
  intro e' he
  cases he
  exact h

theorem bind (hx : FailsOnly P x) (hf : ∀ a, x = .ok a → FailsOnly P (f a)) :
    FailsOnly P (x >>= f) := by
  cases x with
  | error e => exact of_error (hx e rfl)
  | ok a => exact hf a rfl

end FailsOnly

end InternetApplications.Executions
