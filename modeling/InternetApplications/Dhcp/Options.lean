import InternetApplications.Dhcp.Packet

namespace InternetApplications.Dhcp

open ByteMemory TagScan Executions

namespace DhcpT

variable {p : DhcpT} {start : ℕ} {bytes : List UInt8}

theorem options_write (h : start + bytes.length ≤ dhcpFixedNonUdp) :
    options (write p start bytes) = options p := by
  funext i
  exact write_after (by omega)

theorem chaddr_write (h : start + bytes.length ≤ 28 ∨ 28 + hardwareAddressLength ≤ start) :
    chaddr (write p start bytes) = chaddr p := by
  unfold chaddr hardwareAddressLength at *
  congr 1
  funext i
  exact write_outside (by omega)

theorem loadWord_write {o : ℕ} (h : start + bytes.length ≤ o ∨ o + 4 ≤ start) :
    loadWord (write p start bytes) o = loadWord p o :=
  loadWord_congr fun _ _ ↦ write_outside (by omega)

/-- Whatever buffer receives a datagram, it then starts with the datagram. -/
theorem recvfrom_at {datagram : List UInt8} {i : ℕ} (hi : i < (datagram.take sizeofDhcpT).length) :
    p.recvfrom datagram i = (datagram.take sizeofDhcpT)[i] := by
  have hw : write p 0 (datagram.take sizeofDhcpT) (0 + i) = _ := write_at hi
  rwa [Nat.zero_add] at hw

theorem recvfrom_behind {datagram : List UInt8} {i : ℕ}
    (hi : (datagram.take sizeofDhcpT).length ≤ i) : p.recvfrom datagram i = p i :=
  write_after (by omega)

theorem recvfrom_eq {q : DhcpT} {payload : List UInt8} {size i : ℕ} (hs : size ≤ sizeofDhcpT)
    (h : payload = read q 0 size) (hi : i < size) : p.recvfrom payload i = q i := by
  have hl : payload.length = size := by rw [h, length_read]
  rw [recvfrom_at (by rw [List.length_take]; omega), List.getElem_take, getElem_of_eq_read h,
    Nat.zero_add]

end DhcpT

section Reading

variable {p q : DhcpT}

theorem getDhcpOption_congr (h : DhcpT.options p = DhcpT.options q) (tag : UInt8) :
    getDhcpOption p tag = getDhcpOption q tag := by
  simp only [getDhcpOption, h]

theorem derefWord_congr (h : DhcpT.options p = DhcpT.options q) (value : Option ℕ) :
    derefWord p value = derefWord q value := by
  cases value <;> simp only [derefWord, h]

theorem getDhcpOption_absent {tag len : UInt8} (h : getDhcpOption p tag = .ok (len, none)) :
    len = 0 := by
  simp only [getDhcpOption] at h
  split at h
  · cases h
  · cases h; rfl
  · split at h <;> cases h

/-- A value of the right length is there exactly when it is found and stands inside the options. -/
theorem checkedValue_iff {α : Type} {deref : Option ℕ → Except Fault α} {tag n : UInt8} {x : α}
    (hnone : ∀ x, deref none ≠ .ok x) :
    (match getDhcpOption p tag with
      | .ok (len, value) => if len = n then (deref value).toOption else none
      | .error _ => none) = some x ↔
    ∃ o, getDhcpOption p tag = .ok (n, some o) ∧ deref (some o) = .ok x := by
  constructor
  · intro h
    split at h
    · rename_i len value hg
      split at h
      · rename_i hlen
        subst hlen
        have hx := toOption_eq_some.mp h
        cases value with
        | none => exact absurd hx (hnone x)
        | some o => exact ⟨o, hg, hx⟩
      · cases h
    · cases h
  · rintro ⟨o, hg, hx⟩
    simp only [hg, if_true]
    exact toOption_eq_some.mpr hx

theorem optionByte_iff {tag x : UInt8} : optionByte p tag = some x ↔
    ∃ o, getDhcpOption p tag = .ok (1, some o) ∧ derefByte p (some o) = .ok x :=
  checkedValue_iff fun _ h ↦ nomatch h

theorem optionWord_iff {tag : UInt8} {x : UInt32} : optionWord p tag = some x ↔
    ∃ o, getDhcpOption p tag = .ok (4, some o) ∧ derefWord p (some o) = .ok x :=
  checkedValue_iff fun _ h ↦ nomatch h

end Reading

section Fields

variable {p : DhcpT} {before after : List Field} {f : Field}

def packed (p : DhcpT) (fields : List Field) : DhcpT × ℕ :=
  (write p dhcpFixedNonUdp (encode fields), (encode fields).length)

theorem packed_nil (p : DhcpT) : packed p [] = (p, 0) := by
  simp only [packed, encode_nil, write_nil, List.length_nil]

theorem appendOption_packed (p : DhcpT) (fields : List Field) (code : UInt8) (data : List UInt8) :
    appendOption (packed p fields) code data = packed p (fields ++ [⟨code, data⟩]) := by
  have he : encode (fields ++ [⟨code, data⟩]) = encode fields ++ Field.bytes ⟨code, data⟩ := by
    rw [encode_append, encode_cons, encode_nil, List.append_nil]
  simp only [appendOption, fillDhcpOption, packed, write_append, he, List.length_append,
    Field.length_bytes]

theorem packed_append_ite (p : DhcpT) (fields more : List Field) (P : Prop) [Decidable P] :
    (if P then packed p (fields ++ more) else packed p fields) =
      packed p (fields ++ if P then more else []) := by
  split
  · rfl
  · rw [List.append_nil]

def endField : Field := ⟨optionEnd, [0]⟩

structure Carries (p : DhcpT) (fields : List Field) : Prop where
  wellFormed : ∀ f ∈ fields, f.WellFormed
  fits : (encode fields).length ≤ dhcpMaxOptionLen
  holds : Holds p.options 0 (encode fields)

theorem Carries.getDhcpOption (h : Carries p (before ++ f :: after))
    (hne : ∀ g ∈ before, g.tag ≠ f.tag) :
    getDhcpOption p f.tag =
      .ok (UInt8.ofNat f.value.length, some ((encode before).length + 2)) ∧
    Holds p.options ((encode before).length + 2) f.value ∧
    (encode before).length + 2 + f.value.length ≤ dhcpMaxOptionLen := by
  have hfits := h.fits
  obtain ⟨hs, hf⟩ : search p.options dhcpMaxOptionLen f.tag 0 = .found _ ∧ _ :=
    search_encode h.wellFormed h.holds (by omega) hne
  obtain ⟨-, hlen, hvalue⟩ := Field.holds hf
  rw [encode_append, encode_cons, List.length_append, List.length_append,
    Field.length_bytes] at hfits
  rw [Nat.zero_add] at hs hlen hvalue
  refine ⟨?_, hvalue, by omega⟩
  rw [Dhcp.getDhcpOption, hs]
  simp only
  rw [if_pos (by omega), hlen]

/-- Every field that comes first with its tag is found, whatever stands behind the fields. -/
theorem Carries.lookup {fields : List Field} {tag : UInt8} (h : Carries p fields)
    (hf : fields.find? (fun f ↦ f.tag = tag) = some f) :
    ∃ o, Dhcp.getDhcpOption p tag = .ok (UInt8.ofNat f.value.length, some o) ∧
      Holds p.options o f.value ∧ o + f.value.length ≤ (encode fields).length := by
  have hfits := h.fits
  obtain ⟨q, hs, hholds, hq⟩ : ∃ q, search p.options dhcpMaxOptionLen tag 0 = .found q ∧ _ :=
    search_first h.wellFormed h.holds (by omega) hf
  obtain ⟨-, hlen, hvalue⟩ := Field.holds hholds
  rw [Field.length_bytes] at hq
  refine ⟨q + 2, ?_, hvalue, by omega⟩
  rw [Dhcp.getDhcpOption, hs]
  simp only
  rw [if_pos (by omega), hlen]

theorem Carries.optionByte (h : Carries p (before ++ f :: after))
    (hne : ∀ g ∈ before, g.tag ≠ f.tag) {x : UInt8} (hv : f.value = [x]) :
    optionByte p f.tag = some x := by
  obtain ⟨hg, hh, hl⟩ := h.getDhcpOption hne
  rw [hv] at hg hh hl
  have hx : p.options ((encode before).length + 2) = x := (holds_cons.mp hh).1
  refine optionByte_iff.mpr ⟨_, hg, ?_⟩
  rw [derefByte, if_pos (show _ < _ from hl), hx]

theorem Carries.word (h : Carries p (before ++ f :: after))
    (hne : ∀ g ∈ before, g.tag ≠ f.tag) {w : UInt32} (hv : f.value = wordBytes w) :
    ∃ o, Dhcp.getDhcpOption p f.tag = .ok (4, some o) ∧ derefWord p (some o) = .ok w := by
  obtain ⟨hg, hh, hl⟩ := h.getDhcpOption hne
  rw [hv] at hg hh hl
  refine ⟨_, hg, ?_⟩
  rw [derefWord, if_pos (by simpa using hl), hh.loadWord]

theorem Carries.first {tag x : UInt8} (h : Carries p (⟨tag, [x]⟩ :: after)) :
    Dhcp.getDhcpOption p tag = .ok (1, some 2) ∧ p.options 2 = x := by
  obtain ⟨hg, hh, -⟩ := (show Carries p ([] ++ ⟨tag, [x]⟩ :: after) from h).getDhcpOption (by simp)
  exact ⟨hg, (holds_cons.mp hh).1⟩

theorem Carries.absent {fields : List Field} {tag : UInt8} (h : Carries p fields)
    (hlt : (encode fields).length < dhcpMaxOptionLen) (hz : p.options (encode fields).length = 0)
    (hne : ∀ f ∈ fields, f.tag ≠ tag) : Dhcp.getDhcpOption p tag = .ok (0, none) := by
  have hs : search p.options dhcpMaxOptionLen tag 0 = _ :=
    search_fields h.wellFormed h.holds (by omega) hne
  have hend : search p.options dhcpMaxOptionLen tag (encode fields).length = .absent := by
    rw [search_eq, if_neg (by omega), if_pos (Or.inr hz), if_pos hz]
  rw [Nat.zero_add] at hs
  rw [Dhcp.getDhcpOption, hs, hend]

end Fields

end InternetApplications.Dhcp
