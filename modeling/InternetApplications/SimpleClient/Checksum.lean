import InternetApplications.Dhcp.Packet
import InternetApplications.Library.ByteOrder

namespace InternetApplications.SimpleClient

open ByteMemory OnesComplement Executions Dhcp

def addInt (x y : ℕ) : Except Fault ℕ := if x + y < 2 ^ 31 then .ok (x + y) else .error .overflow

/-- The loop that adds the words, and the odd byte, which comes first in an `u_short`. -/
def addWords (o : ByteOrder) : List UInt8 → ℕ → Except Fault ℕ
  | a :: b :: bytes, sum => do
    let sum ← addInt sum (o.half a b).toNat
    addWords o bytes sum
  | [a], sum => addInt sum (o.half a 0).toNat
  | [], sum => .ok sum

def inCksum (o : ByteOrder) (bytes : List UInt8) : Except Fault UInt16 := do
  let sum ← addWords o bytes 0
  let sum := (sum >>> 16) + (sum &&& 0xffff)
  let sum := sum + (sum >>> 16)
  return ~~~(UInt16.ofNat sum)

def total (o : ByteOrder) : List UInt8 → ℕ
  | a :: b :: bytes => (o.half a b).toNat + total o bytes
  | [a] => (o.half a 0).toNat
  | [] => 0

section Sums

variable {o o' : ByteOrder} {bytes pre post : List UInt8} {a b : UInt8} {sum n : ℕ}

theorem addInt_of_lt (h : sum + n < 2 ^ 31) : addInt sum n = .ok (sum + n) := if_pos h

theorem addInt_of_ge (h : 2 ^ 31 ≤ sum + n) : addInt sum n = .error .overflow :=
  if_neg (Nat.not_lt.mpr h)

theorem addWords_eq (o : ByteOrder) (bytes : List UInt8) (sum : ℕ) (hsum : sum < 2 ^ 31) :
    addWords o bytes sum = addInt sum (total o bytes) := by
  induction bytes, sum using addWords.induct with
  | case1 a b bytes sum ih =>
    rw [addWords, total]
    rcases Nat.lt_or_ge (sum + (o.half a b).toNat) (2 ^ 31) with hlt | hge
    · rw [addInt_of_lt hlt, ok_bind, ih _ hlt, addInt, addInt, Nat.add_assoc]
    · rw [addInt_of_ge hge, addInt_of_ge (by omega), error_bind]
  | case2 a sum => rfl
  | case3 sum =>
    rw [total, addInt_of_lt (by omega)]
    rfl

theorem total_append (h : 2 ∣ pre.length) : total o (pre ++ post) = total o pre + total o post := by
  induction pre using total.induct with
  | case1 a b bytes ih =>
    rw [List.cons_append, List.cons_append, total, total, ih (by simp at h; omega), Nat.add_assoc]
  | case2 a => simp at h
  | case3 => rw [List.nil_append, total, Nat.zero_add]

theorem total_le (o : ByteOrder) (bytes : List UInt8) :
    total o bytes ≤ (bytes.length + 1) / 2 * (2 ^ 16 - 1) := by
  induction bytes using total.induct with
  | case1 a b bytes ih =>
    have hword := (o.half a b).toNat_lt
    rw [total, List.length_cons, List.length_cons]
    omega
  | case2 a =>
    have hword := (o.half a 0).toNat_lt
    rw [total, List.length_singleton]
    omega
  | case3 => simp [total]

theorem total_lt (h : bytes.length ≤ 2 ^ 16) : total o bytes < 2 ^ 31 := by
  have hle := total_le o bytes
  have hwords : (bytes.length + 1) / 2 ≤ 2 ^ 15 := by omega
  calc total o bytes
    _ ≤ (bytes.length + 1) / 2 * (2 ^ 16 - 1) := hle
    _ ≤ 2 ^ 15 * (2 ^ 16 - 1) := Nat.mul_le_mul_right _ hwords
    _ < 2 ^ 31 := by decide

theorem total_eq_zero (o : ByteOrder) (bytes : List UInt8) :
    total o bytes = 0 ↔ total .big bytes = 0 := by
  have hword (a b : UInt8) : (o.half a b).toNat = 0 ↔ (ByteOrder.big.half a b).toNat = 0 := by
    rw [o.half_toNat, ByteOrder.half_toNat]
    cases o with
    | little => exact swap_eq_zero (by decide)
    | big => rfl
  induction bytes using total.induct with
  | case1 a b bytes ih =>
    rw [total, total, Nat.add_eq_zero_iff, Nat.add_eq_zero_iff]
    exact and_congr (hword a b) ih
  | case2 a => exact hword a 0
  | case3 => rfl

theorem total_little_modEq (bytes : List UInt8) :
    total .little bytes ≡ 2 ^ 8 * total .big bytes [MOD 2 ^ 8 * 2 ^ 8 - 1] := by
  have hword (a b : UInt8) : (ByteOrder.little.half a b).toNat ≡
      2 ^ 8 * (ByteOrder.big.half a b).toNat [MOD 2 ^ 8 * 2 ^ 8 - 1] := by
    rw [ByteOrder.half_toNat, ByteOrder.half_toNat]
    exact swap_modEq (2 ^ 8) _
  induction bytes using total.induct with
  | case1 a b bytes ih =>
    rw [total, total, Nat.mul_add]
    exact (hword a b).add ih
  | case2 a => exact hword a 0
  | case3 => rfl

theorem fold_total (o : ByteOrder) (bytes : List UInt8) :
    fold (2 ^ 16 - 1) (total o bytes) = o.turn (fold (2 ^ 16 - 1) (total .big bytes)) := by
  cases o with
  | little => exact fold_swap (by decide) (total_little_modEq bytes) (total_eq_zero .little bytes)
  | big => rfl

theorem inCksum_eq (h : total o bytes < 2 ^ 31) :
    inCksum o bytes = .ok (~~~(UInt16.ofNat (fold (2 ^ 16 - 1) (total o bytes)))) := by
  have hfold := carries_twice (m := 2 ^ 16 - 1) (n := total o bytes) (by decide) (by omega)
  rw [inCksum, addWords_eq o bytes 0 (by decide), addInt_of_lt (by omega), ok_bind, Nat.zero_add]
  simp only [Nat.shiftRight_eq_div_pow]
  rw [show 0xffff = 2 ^ 16 - 1 from rfl, Nat.and_two_pow_sub_one_eq_mod, ← hfold]
  refine congrArg (fun w ↦ Except.ok (~~~w)) ?_
  rw [← UInt16.toNat_inj, UInt16.toNat_ofNat', UInt16.toNat_ofNat']
  exact (Nat.mod_mod _ _).symm

theorem inCksum_overflow (h : 2 ^ 31 ≤ total o bytes) : inCksum o bytes = .error .overflow := by
  rw [inCksum, addWords_eq o bytes 0 (by decide), addInt_of_ge (by omega), error_bind]

theorem toNat_complement (h : n ≤ 2 ^ 16 - 1) : (~~~(UInt16.ofNat n)).toNat = 2 ^ 16 - 1 - n := by
  rw [UInt16.toNat_not, UInt16.toNat_ofNat', Nat.mod_eq_of_lt (by omega)]
  rfl

/-- The data is accepted by all machines or by none. -/
theorem inCksum_zero_iff (o : ByteOrder) (h : bytes.length ≤ 2 ^ 16) :
    inCksum o bytes = .ok 0 ↔ fold (2 ^ 16 - 1) (total .big bytes) = 2 ^ 16 - 1 := by
  have hle := fold_le (m := 2 ^ 16 - 1) (by decide) (total .big bytes)
  have hle' := fold_le (m := 2 ^ 16 - 1) (by decide) (total o bytes)
  have htop : o.turn (2 ^ 16 - 1) = 2 ^ 16 - 1 := by cases o <;> rfl
  rw [inCksum_eq (total_lt h), Except.ok.injEq, ← UInt16.toNat_inj, toNat_complement hle']
  calc 2 ^ 16 - 1 - fold (2 ^ 16 - 1) (total o bytes) = (0 : UInt16).toNat
    _ ↔ fold (2 ^ 16 - 1) (total o bytes) = 2 ^ 16 - 1 := by simp only [UInt16.toNat_zero]; omega
    _ ↔ o.turn (fold (2 ^ 16 - 1) (total .big bytes)) = o.turn (2 ^ 16 - 1) := by
      rw [fold_total, htop]
    _ ↔ fold (2 ^ 16 - 1) (total .big bytes) = 2 ^ 16 - 1 := o.turn_inj (by omega) (by omega)

/-- A checksum that is computed while its field is zero, and then stored, is accepted on a machine of
any byte order, and no other bytes in the field are, but for the second way to write zero. -/
theorem stored_checksum_iff (o : ByteOrder) (pre post : List UInt8) (heven : 2 ∣ pre.length)
    (hlen : pre.length + 2 + post.length ≤ 2 ^ 16) :
    ∃ c, inCksum o (pre ++ [0, 0] ++ post) = .ok c ∧ ∀ o' a b,
      inCksum o' (pre ++ [a, b] ++ post) = .ok 0 ↔
        [a, b] = o.storeHalf c ∨ c = 0 ∧ [a, b] = [255, 255] := by
  have hlength (a b : UInt8) : (pre ++ [a, b] ++ post).length ≤ 2 ^ 16 := by
    simp only [List.length_append, List.length_cons, List.length_nil]
    omega
  have htotal (o : ByteOrder) (a b : UInt8) : total o (pre ++ [a, b] ++ post) =
      total o pre + total o post + (o.half a b).toNat := by
    rw [List.append_assoc, total_append heven, List.cons_append, List.cons_append, List.nil_append,
      total]
    omega
  have hzero (o : ByteOrder) : (o.half 0 0).toNat = 0 := by cases o <;> rfl
  refine ⟨_, inCksum_eq (total_lt (hlength 0 0)), fun o' a b ↦ ?_⟩
  have hfield := ByteOrder.big.half_toNat a b
  have ha := a.toNat_lt
  have hb := b.toNat_lt
  have hturn : ByteOrder.big.turn (a.toNat * 2 ^ 8 + b.toNat) = a.toNat * 2 ^ 8 + b.toNat := rfl
  have hrest : total .big (pre ++ [0, 0] ++ post) = total .big pre + total .big post := by
    rw [htotal, hzero, Nat.add_zero]
  have hle := fold_le (m := 2 ^ 16 - 1) (by decide) (total .big pre + total .big post)
  have hsum := fold_total o (pre ++ [0, 0] ++ post)
  have hle' := fold_le (m := 2 ^ 16 - 1) (by decide) (total o (pre ++ [0, 0] ++ post))
  rw [inCksum_zero_iff o' (hlength a b), htotal, hfield, hturn,
    fold_add_eq_top (by decide) (by omega)]
  have hstored : [a, b] = o.storeHalf (~~~(UInt16.ofNat
      (fold (2 ^ 16 - 1) (total o (pre ++ [0, 0] ++ post))))) ↔ a.toNat * 2 ^ 8 + b.toNat =
        2 ^ 16 - 1 - fold (2 ^ 16 - 1) (total .big pre + total .big post) := by
    rw [ByteOrder.storeHalf_turn, toNat_complement hle', ByteOrder.halfBytes_eq_iff, hsum, hrest,
      ← o.turn_complement hle, o.turn_turn (by omega), UInt16.toNat_ofNat',
      Nat.mod_eq_of_lt (by omega)]
  have hsecond : ~~~(UInt16.ofNat (fold (2 ^ 16 - 1) (total o (pre ++ [0, 0] ++ post)))) = 0 ↔
      fold (2 ^ 16 - 1) (total .big pre + total .big post) = 2 ^ 16 - 1 := by
    rw [← hrest, ← inCksum_zero_iff o (hlength 0 0), inCksum_eq (total_lt (hlength 0 0)),
      Except.ok.injEq]
  have hones : [a, b] = [255, 255] ↔ a.toNat * 2 ^ 8 + b.toNat = 2 ^ 16 - 1 :=
    ByteOrder.halfBytes_eq_iff (h := 0xffff)
  rw [hstored, hsecond, hones]

theorem stored_checksum_header : ∃ c, inCksum .little ([0x45, 0x10, 1, 30, 0, 0, 0, 0, 16, 17] ++
      [0, 0] ++ [0, 0, 0, 0, 0xFF, 0xFF, 0xFF, 0xFF]) = .ok c ∧ ∀ o' a b,
    inCksum o' ([0x45, 0x10, 1, 30, 0, 0, 0, 0, 16, 17] ++ [a, b] ++
      [0, 0, 0, 0, 0xFF, 0xFF, 0xFF, 0xFF]) = .ok 0 ↔
        [a, b] = ByteOrder.little.storeHalf c ∨ c = 0 ∧ [a, b] = [255, 255] :=
  stored_checksum_iff .little _ _ (by decide) (by decide)

end Sums

end InternetApplications.SimpleClient
