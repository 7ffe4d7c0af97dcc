import Mathlib.Logic.Function.Basic
import Mathlib.Tactic.Common

namespace InternetApplications.Cells

variable {κ ν ι ο γ : Type*} [DecidableEq κ] [DecidableEq γ]

def runCells (key : ι → κ) (act : ι → ν → ν × ο) : (κ → ν) → List ι → (κ → ν) × List (ι × ο)
  | M, [] => (M, [])
  | M, a :: l =>
    let rest := runCells key act (Function.update M (key a) (act a (M (key a))).1) l
    (rest.1, (a, (act a (M (key a))).2) :: rest.2)

variable {key : ι → κ} {act : ι → ν → ν × ο} {M M' : κ → ν} {l l₁ l₂ : List ι} {P : ι → Bool}

/-- Operations on other cells can be left out: what the remaining ones put out, and leave in every
cell that only they write, is the same. -/
theorem runCells_filter (hsep : ∀ a ∈ l, ∀ b ∈ l, P a = true → P b = false → key a ≠ key b)
    (hM : ∀ a ∈ l, P a = true → M (key a) = M' (key a)) :
    (runCells key act M l).2.filter (fun p ↦ P p.1) = (runCells key act M' (l.filter P)).2 ∧
      ∀ k, M k = M' k → (∀ b ∈ l, P b = false → key b ≠ k) →
        (runCells key act M l).1 k = (runCells key act M' (l.filter P)).1 k := by
  induction l generalizing M M' with
  | nil => exact ⟨rfl, fun k hk _ ↦ hk⟩
  | cons a l ih =>
    have hsep' : ∀ a ∈ l, ∀ b ∈ l, P a = true → P b = false → key a ≠ key b :=
      fun a ha b hb ↦ hsep a (List.mem_cons_of_mem _ ha) b (List.mem_cons_of_mem _ hb)
    cases ha : P a with
    | true =>
      have hcell := hM a List.mem_cons_self ha
      have hupdate (k : κ) (hk : M k = M' k) :
          Function.update M (key a) (act a (M (key a))).1 k =
            Function.update M' (key a) (act a (M' (key a))).1 k := by
        rw [Function.update_apply, Function.update_apply, hk, hcell]
      obtain ⟨hout, hend⟩ := ih hsep' fun b hb hP ↦
        hupdate (key b) (hM b (List.mem_cons_of_mem _ hb) hP)
      rw [List.filter_cons_of_pos ha]
      simp only [runCells]
      rw [List.filter_cons_of_pos (by simpa using ha), hout, hcell]
      refine ⟨rfl, fun k hk hother ↦ ?_⟩
      rw [← hcell]
      exact hcell ▸ hend k (hupdate k hk) fun b hb ↦ hother b (List.mem_cons_of_mem _ hb)
    | false =>
      have hupdate (k : κ) (hne : key a ≠ k) :
          Function.update M (key a) (act a (M (key a))).1 k = M k :=
        Function.update_of_ne hne.symm _ _
      obtain ⟨hout, hend⟩ := ih hsep' fun b hb hP ↦
        (hupdate (key b) (hsep b (List.mem_cons_of_mem _ hb) a List.mem_cons_self hP ha).symm).trans
          (hM b (List.mem_cons_of_mem _ hb) hP)
      rw [List.filter_cons_of_neg (by simp [ha])]
      simp only [runCells]
      rw [List.filter_cons_of_neg (by simp [ha]), hout]
      refine ⟨rfl, fun k hk hother ↦ ?_⟩
      have hne := hother a List.mem_cons_self ha
      exact hend k ((hupdate k hne).trans hk) fun b hb ↦ hother b (List.mem_cons_of_mem _ hb)

theorem runCells_untouched {k : κ} (h : ∀ a ∈ l, key a ≠ k) : (runCells key act M l).1 k = M k := by
  induction l generalizing M with
  | nil => rfl
  | cons a l ih =>
    simp only [runCells]
    rw [ih fun b hb ↦ h b (List.mem_cons_of_mem _ hb),
      Function.update_of_ne (h a List.mem_cons_self).symm]

/-- Two orders of the same operations, in which every client keeps its own order and clients name
different cells, put out the same for every client and end the same. -/
theorem runCells_agree (key : ι → κ) (act : ι → ν → ν × ο) (M : κ → ν) {client : ι → γ}
    (horder : ∀ c, l₁.filter (fun a ↦ client a = c) = l₂.filter (fun a ↦ client a = c))
    (hsep : ∀ a ∈ l₁, ∀ b ∈ l₁, client a ≠ client b → key a ≠ key b) :
    (∀ c, (runCells key act M l₁).2.filter (fun p ↦ client p.1 = c) =
      (runCells key act M l₂).2.filter (fun p ↦ client p.1 = c)) ∧
    (runCells key act M l₁).1 = (runCells key act M l₂).1 := by
  have hmem {a : ι} : a ∈ l₂ ↔ a ∈ l₁ := by
    have hself (l : List ι) : a ∈ l ↔ a ∈ l.filter (fun b ↦ client b = client a) := by
      simp
    rw [hself l₁, hself l₂, horder]
  have hsep₁ (c : γ) : ∀ a ∈ l₁, ∀ b ∈ l₁, decide (client a = c) = true →
      decide (client b = c) = false → key a ≠ key b := by
    intro a ha b hb hac hbc
    refine hsep a ha b hb ?_
    rw [of_decide_eq_true hac]
    exact Ne.symm (of_decide_eq_false hbc)
  have hsep₂ (c : γ) : ∀ a ∈ l₂, ∀ b ∈ l₂, decide (client a = c) = true →
      decide (client b = c) = false → key a ≠ key b :=
    fun a ha b hb ↦ hsep₁ c a (hmem.mp ha) b (hmem.mp hb)
  constructor
  · intro c
    rw [(runCells_filter (hsep₁ c) fun _ _ _ ↦ rfl).1, (runCells_filter (hsep₂ c) fun _ _ _ ↦ rfl).1,
      horder]
  · funext k
    by_cases hk : ∃ a ∈ l₁, key a = k
    · obtain ⟨a, ha, rfl⟩ := hk
      have hother : ∀ b ∈ l₁, decide (client b = client a) = false → key b ≠ key a :=
        fun b hb hbc ↦ hsep b hb a ha (of_decide_eq_false hbc)
      rw [(runCells_filter (hsep₁ (client a)) fun _ _ _ ↦ rfl).2 (key a) rfl hother,
        (runCells_filter (hsep₂ (client a)) fun _ _ _ ↦ rfl).2 (key a) rfl
          (fun b hb ↦ hother b (hmem.mp hb)), horder]
    · have huntouched : ∀ a ∈ l₁, key a ≠ k := fun a ha hak ↦ hk ⟨a, ha, hak⟩
      rw [runCells_untouched huntouched, runCells_untouched fun a ha ↦ huntouched a (hmem.mp ha)]

end InternetApplications.Cells
