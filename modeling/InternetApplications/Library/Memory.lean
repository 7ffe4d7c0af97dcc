import Mathlib.Algebra.Group.Nat.Defs
import Mathlib.Data.List.Range
import Mathlib.Tactic.Common

namespace InternetApplications.ByteMemory

abbrev Memory := ℕ → UInt8

def write (m : Memory) (start : ℕ) (bytes : List UInt8) : Memory :=
  fun i ↦ if start ≤ i then (bytes[i - start]?).getD (m i) else m i

def read (m : Memory) (start n : ℕ) : List UInt8 := (List.range n).map fun i ↦ m (start + i)

def Holds (m : Memory) (start : ℕ) (bytes : List UInt8) : Prop :=
  ∀ i, ∀ h : i < bytes.length, m (start + i) = bytes[i]

variable {m : Memory} {start i n : ℕ} {bytes more : List UInt8}

theorem write_before (h : i < start) : write m start bytes i = m i :=
  if_neg (by omega)

theorem write_after (h : start + bytes.length ≤ i) : write m start bytes i = m i := by
  have hs : start ≤ i := by omega
  rw [write, if_pos hs, List.getElem?_eq_none (by omega), Option.getD_none]

theorem write_outside (h : i < start ∨ start + bytes.length ≤ i) :
    write m start bytes i = m i :=
  h.elim write_before write_after

theorem write_at (h : i < bytes.length) : write m start bytes (start + i) = bytes[i] := by
  rw [write, if_pos (Nat.le_add_right _ _), Nat.add_sub_cancel_left,
    List.getElem?_eq_getElem h, Option.getD_some]

/-- A write does not look at what it leaves alone. -/
theorem write_congr {m' : Memory} (h : m i = m' i) : write m start bytes i = write m' start bytes i := by
  simp only [write, h]

theorem write_nil : write m start [] = m := by
  funext i
  exact write_outside (by simp only [List.length_nil]; omega)

theorem write_append :
    write (write m start bytes) (start + bytes.length) more = write m start (bytes ++ more) := by
  funext i
  rcases Nat.lt_or_ge i start with hi | hi
  · rw [write_before hi, write_before (by omega), write_before hi]
  · obtain ⟨j, rfl⟩ := Nat.exists_eq_add_of_le hi
    rcases Nat.lt_or_ge j bytes.length with hj | hj
    · rw [write_before (by omega), write_at hj, write_at (by rw [List.length_append]; omega),
        List.getElem_append_left hj]
    · obtain ⟨k, rfl⟩ := Nat.exists_eq_add_of_le hj
      rcases Nat.lt_or_ge k more.length with hk | hk
      · rw [← Nat.add_assoc, write_at hk, Nat.add_assoc, write_at (by rw [List.length_append]; omega)]
        simp
      · rw [write_after (by omega), write_after (by omega),
          write_after (by rw [List.length_append]; omega)]

theorem write_comm {start' : ℕ}
    (h : start + bytes.length ≤ start' ∨ start' + more.length ≤ start) :
    write (write m start bytes) start' more = write (write m start' more) start bytes := by
  funext i
  by_cases hi : start ≤ i ∧ i < start + bytes.length
  · rw [write_outside (by omega)]
    obtain ⟨j, rfl⟩ := Nat.exists_eq_add_of_le hi.1
    rw [write_at (by omega), write_at (by omega)]
  · have hout : write m start bytes i = m i := write_outside (by omega)
    have hout' : write (write m start' more) start bytes i = write m start' more i :=
      write_outside (by omega)
    rw [hout']
    exact write_congr hout

theorem write_within {k : ℕ} (h : k + more.length ≤ bytes.length) :
    write (write m start bytes) (start + k) more =
      write m start (bytes.take k ++ more ++ bytes.drop (k + more.length)) := by
  have hover {old : List UInt8} {start' : ℕ} (m : Memory) (hold : old.length = more.length) :
      write (write m start' old) start' more = write m start' more := by
    funext i
    by_cases hi : start' ≤ i ∧ i < start' + more.length
    · obtain ⟨j, rfl⟩ := Nat.exists_eq_add_of_le hi.1
      rw [write_at (by omega), write_at (by omega)]
    · rw [write_outside (by omega), write_outside (by omega), write_outside (by omega)]
  have hk : (bytes.take k).length = k := by
    rw [List.length_take]
    omega
  have hmid : ((bytes.drop k).take more.length).length = more.length := by
    rw [List.length_take, List.length_drop]
    omega
  have hsplit : bytes = bytes.take k ++ ((bytes.drop k).take more.length ++
      bytes.drop (k + more.length)) := by
    rw [← List.drop_drop, List.take_append_drop, List.take_append_drop]
  calc write (write m start bytes) (start + k) more
    _ = write (write (write (write m start (bytes.take k)) (start + k)
          ((bytes.drop k).take more.length)) (start + k + more.length)
            (bytes.drop (k + more.length))) (start + k) more := by
      conv_lhs => rw [hsplit, ← write_append, hk, ← write_append, hmid]
    _ = write (write (write m start (bytes.take k)) (start + k) more) (start + k + more.length)
          (bytes.drop (k + more.length)) := by
      rw [write_comm (by omega), hover _ hmid]
    _ = write m start (bytes.take k ++ more ++ bytes.drop (k + more.length)) := by
      rw [List.append_assoc, ← write_append, hk, ← write_append]

theorem holds_write : Holds (write m start bytes) start bytes := fun _ h ↦ write_at h

theorem Holds.write {start' : ℕ} (h : Holds m start bytes)
    (hd : start + bytes.length ≤ start' ∨ start' + more.length ≤ start) :
    Holds (write m start' more) start bytes := by
  intro i hi
  rw [write_outside (by omega), h i hi]

theorem holds_append :
    Holds m start (bytes ++ more) ↔
      Holds m start bytes ∧ Holds m (start + bytes.length) more := by
  constructor
  · intro h
    constructor
    · intro i hi
      rw [h i (by rw [List.length_append]; omega), List.getElem_append_left hi]
    · intro i hi
      rw [Nat.add_assoc, h _ (by rw [List.length_append]; omega)]
      simp
  · rintro ⟨h, h'⟩ i hi
    rcases Nat.lt_or_ge i bytes.length with hb | hb
    · rw [h i hb, List.getElem_append_left hb]
    · obtain ⟨k, rfl⟩ := Nat.exists_eq_add_of_le hb
      have hk : k < more.length := by rw [List.length_append] at hi; omega
      rw [← Nat.add_assoc, h' k hk]
      simp

theorem holds_cons {b : UInt8} :
    Holds m start (b :: bytes) ↔ m start = b ∧ Holds m (start + 1) bytes := by
  constructor
  · intro h
    refine ⟨h 0 (by simp), fun i hi ↦ ?_⟩
    have hs := h (i + 1) (by simp only [List.length_cons]; omega)
    simpa only [List.getElem_cons_succ, Nat.add_assoc, Nat.add_comm 1] using hs
  · rintro ⟨h, h'⟩ i hi
    cases i with
    | zero => exact h
    | succ i =>
      have hs := h' i (by simpa using hi)
      rwa [Nat.add_assoc, Nat.add_comm 1] at hs

@[simp] theorem length_read : (read m start n).length = n := by simp [read]

@[simp] theorem getElem_read (h : i < (read m start n).length) :
    (read m start n)[i] = m (start + i) := by simp [read]

theorem getElem_of_eq_read (h : bytes = read m start n) (hi : i < bytes.length) :
    bytes[i] = m (start + i) := by
  subst h
  exact getElem_read hi

theorem holds_read : Holds m start (read m start n) := fun _ h ↦ (getElem_read h).symm

theorem Holds.read (h : Holds m start bytes) : read m start bytes.length = bytes := by
  refine List.ext_getElem length_read fun i hi hi' ↦ ?_
  rw [getElem_read, h i hi']

def stringEnd (m : Memory) (size : ℕ) : Option ℕ := (List.range size).find? fun i ↦ m i = 0

theorem stringEnd_eq_some {size : ℕ} :
    stringEnd m size = some n ↔ n < size ∧ m n = 0 ∧ ∀ i < n, m i ≠ 0 := by
  rw [stringEnd, List.find?_range_eq_some, List.mem_range]
  simp [and_left_comm]

theorem Holds.stringEnd {size : ℕ} (h : Holds m 0 bytes) (hzero : m bytes.length = 0)
    (hbytes : 0 ∉ bytes) (hlt : bytes.length < size) : stringEnd m size = some bytes.length := by
  refine stringEnd_eq_some.mpr ⟨hlt, hzero, ?_⟩
  intro i hi hat
  have hbyte := h i hi
  rw [Nat.zero_add, hat] at hbyte
  exact hbytes (hbyte ▸ List.getElem_mem hi)

/-- The value that `ntohl` gives to the four bytes of a word. -/
def wordOf (a b c d : UInt8) : UInt32 :=
  UInt32.ofNat (a.toNat * 2 ^ 24 + b.toNat * 2 ^ 16 + c.toNat * 2 ^ 8 + d.toNat)

def loadWord (m : Memory) (start : ℕ) : UInt32 :=
  wordOf (m start) (m (start + 1)) (m (start + 2)) (m (start + 3))

def wordBytes (w : UInt32) : List UInt8 :=
  [UInt8.ofNat (w.toNat / 2 ^ 24), UInt8.ofNat (w.toNat / 2 ^ 16),
    UInt8.ofNat (w.toNat / 2 ^ 8), UInt8.ofNat w.toNat]

def halfBytes (h : UInt16) : List UInt8 := [UInt8.ofNat (h.toNat / 2 ^ 8), UInt8.ofNat h.toNat]

@[simp] theorem length_halfBytes (h : UInt16) : (halfBytes h).length = 2 := rfl

@[simp] theorem length_wordBytes (w : UInt32) : (wordBytes w).length = 4 := rfl

theorem wordOf_toNat (a b c d : UInt8) : (wordOf a b c d).toNat =
    a.toNat * 2 ^ 24 + b.toNat * 2 ^ 16 + c.toNat * 2 ^ 8 + d.toNat := by
  have ha := a.toNat_lt
  have hb := b.toNat_lt
  have hc := c.toNat_lt
  have hd := d.toNat_lt
  rw [wordOf, UInt32.toNat_ofNat']
  omega

theorem wordBytes_wordOf (a b c d : UInt8) : wordBytes (wordOf a b c d) = [a, b, c, d] := by
  have ha := a.toNat_lt
  have hb := b.toNat_lt
  have hc := c.toNat_lt
  have hd := d.toNat_lt
  simp only [wordBytes, wordOf_toNat, List.cons.injEq, ← UInt8.toNat_inj, UInt8.toNat_ofNat',
    and_true]
  omega

theorem wordOf_bytes (w : UInt32) :
    wordOf (UInt8.ofNat (w.toNat / 2 ^ 24)) (UInt8.ofNat (w.toNat / 2 ^ 16))
      (UInt8.ofNat (w.toNat / 2 ^ 8)) (UInt8.ofNat w.toNat) = w := by
  have hw := w.toNat_lt
  rw [← UInt32.toNat_inj, wordOf_toNat]
  simp only [UInt8.toNat_ofNat']
  omega

theorem Holds.loadWord {w : UInt32} (h : Holds m start (wordBytes w)) : loadWord m start = w := by
  rw [wordBytes, holds_cons, holds_cons, holds_cons, holds_cons] at h
  obtain ⟨h₀, h₁, h₂, h₃, -⟩ := h
  rw [ByteMemory.loadWord, h₀, h₁, h₂, h₃, wordOf_bytes]

theorem loadWord_congr {m' : Memory} {start' : ℕ}
    (h : ∀ i < 4, m' (start' + i) = m (start + i)) : loadWord m' start' = loadWord m start := by
  rw [loadWord, loadWord, ← h 1 (by omega), ← h 2 (by omega), ← h 3 (by omega)]
  have h₀ := h 0 (by omega)
  rw [Nat.add_zero, Nat.add_zero] at h₀
  rw [h₀]

end InternetApplications.ByteMemory
