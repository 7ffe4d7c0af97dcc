import Mathlib.Data.List.Basic
import Mathlib.Data.Nat.Find

namespace InternetApplications.HeldInput

/-- A variable that input is read into, and what is left of the input. -/
structure Held (α : Type*) where
  item : α
  rest : List α

namespace Held

variable {α : Type*} {h : Held α} {P : α → Prop} {n : ℕ}

def next (h : Held α) : Held α := ⟨h.rest.headD h.item, h.rest.tail⟩

def after (h : Held α) : ℕ → Held α
  | 0 => h
  | n + 1 => h.next.after n

def items (h : Held α) : ℕ → List α
  | 0 => []
  | n + 1 => h.next.item :: h.next.items n

theorem after_nil (item : α) (n : ℕ) : (⟨item, []⟩ : Held α).after n = ⟨item, []⟩ := by
  induction n with
  | zero => rfl
  | succ n ih => exact ih

/-- The reads find what there is, and then the last item again and again. -/
theorem items_repeat (h : Held α) (n : ℕ) : h.items n <+: h.rest ∨
    ∃ k, h.items n = h.rest ++ List.replicate k (h.rest.getLastD h.item) := by
  induction n generalizing h with
  | zero => exact .inl List.nil_prefix
  | succ n ih =>
    obtain ⟨item, rest⟩ := h
    cases rest with
    | nil =>
      refine .inr ?_
      rcases ih ⟨item, []⟩ with hbefore | ⟨k, hk⟩
      · exact ⟨1, congrArg (item :: ·) (List.prefix_nil.mp hbefore)⟩
      · exact ⟨k + 1, congrArg (item :: ·) hk⟩
    | cons x rest =>
      rcases ih ⟨x, rest⟩ with hbefore | ⟨k, hk⟩
      · exact .inl ((List.prefix_cons_inj x).mpr hbefore)
      · refine .inr ⟨k, (congrArg (x :: ·) hk).trans ?_⟩
        rw [List.getLastD_cons]
        rfl

theorem exists_item_iff : (∃ n, P (h.after n).item) ↔ P h.item ∨ ∃ x ∈ h.rest, P x := by
  constructor
  · rintro ⟨n, hn⟩
    induction n generalizing h with
    | zero => exact .inl hn
    | succ n ih =>
      obtain ⟨item, rest⟩ := h
      cases rest with
      | nil => exact ih hn
      | cons x rest =>
        refine .inr ?_
        rcases ih hn with hx | ⟨y, hy, hP⟩
        · exact ⟨x, List.mem_cons_self, hx⟩
        · exact ⟨y, List.mem_cons_of_mem x hy, hP⟩
  · rintro (hitem | ⟨x, hx, hP⟩)
    · exact ⟨0, hitem⟩
    · obtain ⟨item, rest⟩ := h
      induction rest generalizing item with
      | nil => cases hx
      | cons y rest ih =>
        rcases List.mem_cons.mp hx with rfl | hx
        · exact ⟨1, hP⟩
        · obtain ⟨n, hn⟩ := ih y hx
          exact ⟨n + 1, hn⟩

theorem exists_first [DecidablePred P] (hP : P h.item ∨ ∃ x ∈ h.rest, P x) :
    ∃ n, P (h.after n).item ∧ ∀ k < n, ¬P (h.after k).item := by
  have hexists := exists_item_iff.mpr hP
  exact ⟨Nat.find hexists, Nat.find_spec hexists, fun k hk ↦ Nat.find_min hexists hk⟩

/-- Up to then, the reads have found the items before it, and it. -/
theorem items_until [DecidablePred P] (hend : P (h.after (n + 1)).item)
    (hgo : ∀ k ≤ n, ¬P (h.after k).item) :
    h.items (n + 1) = h.rest.takeWhile (fun x ↦ ¬P x) ++ [(h.after (n + 1)).item] := by
  induction n generalizing h with
  | zero =>
    obtain ⟨item, rest⟩ := h
    cases rest with
    | nil => rfl
    | cons x rest =>
      have hx : P x := hend
      rw [List.takeWhile_cons_of_neg (by simpa using hx)]
      rfl
  | succ n ih =>
    have hnext := ih hend fun k hk ↦ hgo (k + 1) (Nat.succ_le_succ hk)
    obtain ⟨item, rest⟩ := h
    cases rest with
    | nil =>
      rw [after_nil] at hend
      exact (hgo 0 (Nat.zero_le _) hend).elim
    | cons x rest =>
      have hx : ¬P x := hgo 1 (Nat.succ_le_succ (Nat.zero_le n))
      rw [List.takeWhile_cons_of_pos (by simpa using hx)]
      exact congrArg (x :: ·) hnext

end Held

end InternetApplications.HeldInput
