import InternetApplications.Library.Memory
import InternetApplications.Library.OnesComplement

namespace InternetApplications

open ByteMemory OnesComplement

inductive ByteOrder
  | little
  | big
deriving DecidableEq, Repr

namespace ByteOrder

variable {w : ℕ} {a b : UInt8} {h : UInt16}

/-- The number that the machine sees in the two bytes of a number in network order. -/
def turn : ByteOrder → ℕ → ℕ
  | little, w => swap (2 ^ 8) w
  | big, w => w

def half : ByteOrder → UInt8 → UInt8 → UInt16
  | little, a, b => UInt16.ofNat (b.toNat * 2 ^ 8 + a.toNat)
  | big, a, b => UInt16.ofNat (a.toNat * 2 ^ 8 + b.toNat)

def storeHalf : ByteOrder → UInt16 → List UInt8
  | little, h => (halfBytes h).reverse
  | big, h => halfBytes h

def storeWord : ByteOrder → UInt32 → List UInt8
  | little, w => (wordBytes w).reverse
  | big, w => wordBytes w

def htons (o : ByteOrder) (h : UInt16) : UInt16 := UInt16.ofNat (o.turn h.toNat)

def htonl : ByteOrder → UInt32 → UInt32
  | little, w => wordOf (UInt8.ofNat w.toNat) (UInt8.ofNat (w.toNat / 2 ^ 8))
      (UInt8.ofNat (w.toNat / 2 ^ 16)) (UInt8.ofNat (w.toNat / 2 ^ 24))
  | big, w => w

theorem turn_lt (o : ByteOrder) (hw : w < 2 ^ 16) : o.turn w < 2 ^ 16 := by
  cases o with
  | little => exact swap_lt (by decide) hw
  | big => exact hw

theorem turn_turn (o : ByteOrder) (hw : w < 2 ^ 16) : o.turn (o.turn w) = w := by
  cases o with
  | little =>
    rw [turn, turn, swap, swap]
    omega
  | big => rfl

theorem turn_inj (o : ByteOrder) {v : ℕ} (hv : v < 2 ^ 16) (hw : w < 2 ^ 16) :
    o.turn v = o.turn w ↔ v = w := by
  constructor
  · intro he
    rw [← o.turn_turn hv, he, o.turn_turn hw]
  · exact congrArg o.turn

theorem turn_complement (o : ByteOrder) (hw : w ≤ 2 ^ 16 - 1) :
    o.turn (2 ^ 16 - 1 - w) = 2 ^ 16 - 1 - o.turn w := by
  cases o with
  | little =>
    rw [turn, turn, swap, swap]
    omega
  | big => rfl

theorem half_toNat (o : ByteOrder) (a b : UInt8) :
    (o.half a b).toNat = o.turn (a.toNat * 2 ^ 8 + b.toNat) := by
  have ha := a.toNat_lt
  have hb := b.toNat_lt
  cases o with
  | little =>
    have hr : (a.toNat * 2 ^ 8 + b.toNat) % 2 ^ 8 = b.toNat := by omega
    have hq : (a.toNat * 2 ^ 8 + b.toNat) / 2 ^ 8 = a.toNat := by omega
    rw [half, turn, swap, hr, hq, UInt16.toNat_ofNat', Nat.mod_eq_of_lt (by omega)]
  | big =>
    rw [half, turn, UInt16.toNat_ofNat']
    omega

theorem htons_toNat (o : ByteOrder) (h : UInt16) : (o.htons h).toNat = o.turn h.toNat := by
  have hlt := o.turn_lt (w := h.toNat) h.toNat_lt
  rw [htons, UInt16.toNat_ofNat', Nat.mod_eq_of_lt hlt]

theorem storeHalf_turn (o : ByteOrder) (h : UInt16) :
    o.storeHalf h = halfBytes (UInt16.ofNat (o.turn h.toNat)) := by
  have hlt := h.toNat_lt
  cases o with
  | little =>
    have hsmall : h.toNat % 2 ^ 8 * 2 ^ 8 + h.toNat / 2 ^ 8 < 2 ^ 16 := by omega
    have hq : (h.toNat % 2 ^ 8 * 2 ^ 8 + h.toNat / 2 ^ 8) / 2 ^ 8 = h.toNat % 2 ^ 8 := by omega
    rw [storeHalf, turn, swap, halfBytes, halfBytes, UInt16.toNat_ofNat', Nat.mod_eq_of_lt hsmall, hq]
    simp only [List.reverse_cons, List.reverse_nil, List.nil_append,
      List.cons_append, List.cons.injEq, ← UInt8.toNat_inj, UInt8.toNat_ofNat', and_true]
    omega
  | big =>
    rw [storeHalf, turn, UInt16.ofNat_toNat]

theorem storeHalf_htons (o : ByteOrder) (h : UInt16) : o.storeHalf (o.htons h) = halfBytes h := by
  rw [storeHalf_turn, htons_toNat, o.turn_turn h.toNat_lt, UInt16.ofNat_toNat]

theorem storeWord_htonl (o : ByteOrder) (w : UInt32) : o.storeWord (o.htonl w) = wordBytes w := by
  cases o with
  | little =>
    rw [storeWord, htonl, wordBytes_wordOf]
    rfl
  | big => rfl

theorem halfBytes_eq_iff : [a, b] = halfBytes h ↔ a.toNat * 2 ^ 8 + b.toNat = h.toNat := by
  have ha := a.toNat_lt
  have hb := b.toNat_lt
  have hlt := h.toNat_lt
  simp only [halfBytes, List.cons.injEq, ← UInt8.toNat_inj, UInt8.toNat_ofNat', and_true]
  omega

end ByteOrder

end InternetApplications
