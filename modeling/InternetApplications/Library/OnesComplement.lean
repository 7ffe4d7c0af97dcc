import Mathlib.Data.Nat.ModEq
import Mathlib.Tactic.IntervalCases
import Mathlib.Tactic.Linarith
import Mathlib.Tactic.Ring

namespace InternetApplications.OnesComplement

variable {b m n k w : ℕ}

/-- The value of a sum in one's complement arithmetic, where `m` and zero are the two zeros. Only an
empty sum is `0`. -/
def fold (m n : ℕ) : ℕ := if n = 0 then 0 else (n - 1) % m + 1

@[simp] theorem fold_zero (m : ℕ) : fold m 0 = 0 := rfl

theorem fold_eq_zero : fold m n = 0 ↔ n = 0 := by
  rw [fold]
  split
  · simp [*]
  · simp [*]

theorem fold_le (hm : 0 < m) (n : ℕ) : fold m n ≤ m := by
  have hlt := Nat.mod_lt (n - 1) hm
  rw [fold]
  split
  · omega
  · omega

theorem fold_of_le (h : n ≤ m) : fold m n = n := by
  rw [fold]
  split
  · omega
  · rw [Nat.mod_eq_of_lt (by omega)]
    omega

theorem fold_modEq (m n : ℕ) : fold m n ≡ n [MOD m] := by
  rw [fold]
  split
  · rename_i h
    rw [h]
  · have h : (n - 1) % m + 1 ≡ n - 1 + 1 [MOD m] := (Nat.mod_modEq (n - 1) m).add_right 1
    rwa [Nat.sub_add_cancel (by omega)] at h

/-- A value of the arithmetic is known by its residue and by whether it is `0`. -/
theorem fold_unique (h : n ≡ k [MOD m]) (hk : k ≤ m) (hz : n = 0 ↔ k = 0) : fold m n = k := by
  by_cases hn : n = 0
  · rw [hn, fold_zero, hz.mp hn]
  · have hk' : k ≠ 0 := fun h ↦ hn (hz.mpr h)
    have hmod : n - 1 ≡ k - 1 [MOD m] := by
      apply Nat.ModEq.add_right_cancel' 1
      rwa [Nat.sub_add_cancel (by omega), Nat.sub_add_cancel (by omega)]
    have hrem : (n - 1) % m = k - 1 := by
      rw [hmod, Nat.mod_eq_of_lt (by omega)]
    rw [fold, if_neg hn, hrem]
    omega

theorem fold_congr (hm : 0 < m) (h : n ≡ k [MOD m]) (hz : n = 0 ↔ k = 0) : fold m n = fold m k :=
  fold_unique (h.trans (fold_modEq m k).symm) (fold_le hm k) (by rw [hz, fold_eq_zero])

theorem fold_eq_top (hm : 0 < m) : fold m n = m ↔ n ≡ 0 [MOD m] ∧ n ≠ 0 := by
  constructor
  · intro h
    have hmod := fold_modEq m n
    rw [h] at hmod
    refine ⟨hmod.symm.trans (Nat.modEq_zero_iff_dvd.mpr dvd_rfl), fun hn ↦ ?_⟩
    rw [hn, fold_zero] at h
    omega
  · rintro ⟨hmod, hn⟩
    refine fold_unique (hmod.trans (Nat.modEq_zero_iff_dvd.mpr dvd_rfl).symm) le_rfl ?_
    omega

/-- The complement of a sum, and only it up to the two zeros, brings the sum to `m`. -/
theorem fold_add_eq_top (hm : 0 < m) (hw : w ≤ m) :
    fold m (n + w) = m ↔ w = m - fold m n ∨ fold m n = m ∧ w = m := by
  have hle := fold_le hm n
  have hmod := fold_modEq m n
  have hzero := fold_eq_zero (m := m) (n := n)
  rw [fold_eq_top hm]
  have hsum : n + w ≡ fold m n + w [MOD m] := hmod.symm.add_right w
  have hiff : n + w ≡ 0 [MOD m] ↔ fold m n + w = 0 ∨ fold m n + w = m ∨ fold m n + w = 2 * m := by
    constructor
    · intro h
      obtain ⟨c, hc⟩ := Nat.modEq_zero_iff_dvd.mp (hsum.symm.trans h)
      have hc2 : c < 3 := by
        by_contra hge
        have h3 : m * 3 ≤ m * c := Nat.mul_le_mul_left m (by omega)
        omega
      interval_cases c
      · omega
      · omega
      · omega
    · rintro (h | h | h)
      · exact hsum.trans (by rw [h])
      · exact hsum.trans (by rw [h]; exact Nat.modEq_zero_iff_dvd.mpr dvd_rfl)
      · exact hsum.trans (by rw [h]; exact Nat.modEq_zero_iff_dvd.mpr ⟨2, by ring⟩)
  rw [hiff]
  omega

/-- The carries are added back without changing the value. -/
theorem fold_carry (hm : 0 < m) (n : ℕ) : fold m (n / (m + 1) + n % (m + 1)) = fold m n := by
  have hdiv := Nat.div_add_mod n (m + 1)
  apply fold_congr hm
  · have h : (m + 1) * (n / (m + 1)) ≡ n / (m + 1) [MOD m] := by
      rw [Nat.add_mul, Nat.one_mul]
      exact Nat.modEq_of_dvd ⟨-(n / (m + 1) : ℕ), by push_cast; ring⟩
    calc n / (m + 1) + n % (m + 1)
      _ ≡ (m + 1) * (n / (m + 1)) + n % (m + 1) [MOD m] := h.symm.add_right _
      _ = n := hdiv
  · constructor
    · intro h
      obtain ⟨hq, hr⟩ := Nat.add_eq_zero_iff.mp h
      rw [hq, hr] at hdiv
      exact hdiv.symm
    · intro h
      simp [h]

theorem carries_twice (hm : 0 < m) (hn : n < (m + 1) * (m + 1)) :
    (n / (m + 1) + n % (m + 1) + (n / (m + 1) + n % (m + 1)) / (m + 1)) % (m + 1) = fold m n := by
  have hq : n / (m + 1) < m + 1 := Nat.div_lt_of_lt_mul hn
  have hr : n % (m + 1) < m + 1 := Nat.mod_lt n (by omega)
  rw [← fold_carry hm n]
  rcases Nat.lt_or_ge (n / (m + 1) + n % (m + 1)) (m + 1) with hlt | hge
  · rw [Nat.div_eq_of_lt hlt, Nat.add_zero, Nat.mod_eq_of_lt hlt, fold_of_le (by omega)]
  · have hone : (n / (m + 1) + n % (m + 1)) / (m + 1) = 1 :=
      Nat.div_eq_of_lt_le (by omega) (by omega)
    rw [hone, ← fold_carry hm (n / (m + 1) + n % (m + 1)), hone]
    have hmod : (n / (m + 1) + n % (m + 1)) % (m + 1) = n / (m + 1) + n % (m + 1) - (m + 1) := by
      rw [Nat.mod_eq_sub_mod hge, Nat.mod_eq_of_lt (by omega)]
    rw [hmod, fold_of_le (by omega), Nat.mod_eq_sub_mod (by omega), Nat.mod_eq_of_lt (by omega)]
    omega

def swap (b w : ℕ) : ℕ := w % b * b + w / b

theorem swap_modEq (b w : ℕ) : swap b w ≡ b * w [MOD b * b - 1] := by
  rcases Nat.eq_zero_or_pos b with rfl | hb
  · simp [swap, Nat.ModEq]
  · have hdiv := Nat.div_add_mod w b
    have hpos : 1 ≤ b * b := Nat.mul_pos hb hb
    have hsquare : b * b ≡ 1 [MOD b * b - 1] := by
      exact (Nat.modEq_of_dvd (by push_cast [hpos]; exact dvd_rfl)).symm
    calc swap b w
      _ = w % b * b + 1 * (w / b) := by rw [swap, Nat.one_mul]
      _ ≡ w % b * b + b * b * (w / b) [MOD b * b - 1] := (hsquare.symm.mul_right _).add_left _
      _ = b * (b * (w / b) + w % b) := by ring
      _ = b * w := by rw [hdiv]

theorem swap_lt (hb : 0 < b) (hw : w < b * b) : swap b w < b * b := by
  have hq : w / b < b := Nat.div_lt_of_lt_mul hw
  have hr : w % b < b := Nat.mod_lt w hb
  calc swap b w
    _ < w % b * b + b := by rw [swap]; omega
    _ = (w % b + 1) * b := by ring
    _ ≤ b * b := Nat.mul_le_mul_right b hr

theorem swap_eq_zero (hb : 0 < b) : swap b w = 0 ↔ w = 0 := by
  have hdiv := Nat.div_add_mod w b
  constructor
  · intro h
    obtain ⟨hr, hq⟩ := Nat.add_eq_zero_iff.mp h
    have hr' : w % b = 0 := (Nat.mul_eq_zero.mp hr).resolve_right (by omega)
    rw [hq, hr'] at hdiv
    exact hdiv.symm
  · intro h
    simp [swap, h]

theorem fold_swap (hb : 1 < b) (h : k ≡ b * n [MOD b * b - 1]) (hz : k = 0 ↔ n = 0) :
    fold (b * b - 1) k = swap b (fold (b * b - 1) n) := by
  have hpos : 1 < b * b := by nlinarith
  have hle := fold_le (m := b * b - 1) (by omega) n
  have hlt := swap_lt (b := b) (w := fold (b * b - 1) n) (by omega) (by omega)
  refine fold_unique ?_ (by omega) ?_
  · exact h.trans (((fold_modEq _ n).symm.mul_left b).trans (swap_modEq b _).symm)
  · rw [hz, swap_eq_zero (by omega), fold_eq_zero]

end InternetApplications.OnesComplement
