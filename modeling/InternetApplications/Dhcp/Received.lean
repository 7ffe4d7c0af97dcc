import InternetApplications.Dhcp.Reaction

namespace InternetApplications.Dhcp

open ByteMemory TagScan Executions LeaseTable

def covered (datagram : List UInt8) : ℕ := (datagram.take sizeofDhcpT).length - dhcpFixedNonUdp

def clean (datagram : List UInt8) : DhcpT := DhcpT.zero.recvfrom datagram

def Front (n : ℕ) (b b' : DhcpT) : Prop := ∀ i < dhcpFixedNonUdp + n, b i = b' i

/-- The bytes of the datagram alone hold the option with the value. -/
def HasOption (datagram : List UInt8) (tag : UInt8) (value : List UInt8) : Prop :=
  ∃ q, search (clean datagram).options (covered datagram) tag 0 = .found q ∧
    Holds (clean datagram).options (q + 1) (UInt8.ofNat value.length :: value) ∧
    q + 2 + value.length ≤ covered datagram

theorem covered_le (datagram : List UInt8) : covered datagram ≤ dhcpMaxOptionLen := by
  have hsize : sizeofDhcpT = dhcpFixedNonUdp + dhcpMaxOptionLen := rfl
  rw [covered, List.length_take]
  omega

theorem covered_add {datagram : List UInt8} (hlen : dhcpFixedNonUdp ≤ datagram.length) :
    dhcpFixedNonUdp + covered datagram = (datagram.take sizeofDhcpT).length := by
  have hsize : sizeofDhcpT = dhcpFixedNonUdp + dhcpMaxOptionLen := rfl
  rw [covered, List.length_take]
  omega

theorem recvfrom_front {datagram : List UInt8} (hlen : dhcpFixedNonUdp ≤ datagram.length)
    (p q : DhcpT) : Front (covered datagram) (p.recvfrom datagram) (q.recvfrom datagram) := by
  intro i hi
  rw [covered_add hlen] at hi
  rw [DhcpT.recvfrom_at hi, DhcpT.recvfrom_at hi]

namespace Front

variable {n o : ℕ} {b b' : DhcpT} {tag : UInt8}

theorem symm (h : Front n b b') : Front n b' b := fun i hi ↦ (h i hi).symm

theorem options (h : Front n b b') {i : ℕ} (hi : i < n) : b.options i = b'.options i :=
  h (dhcpFixedNonUdp + i) (by omega)

theorem header (h : Front n b b') {i : ℕ} (hi : i < dhcpFixedNonUdp) : b i = b' i :=
  h i (by omega)

theorem opcode (h : Front n b b') : b.opcode = b'.opcode := h.header (by decide)

theorem flags (h : Front n b b') : b.flags = b'.flags := by
  rw [DhcpT.flags, DhcpT.flags, h.header (i := 10) (by decide), h.header (i := 11) (by decide)]

theorem ciaddr (h : Front n b b') : b.ciaddr = b'.ciaddr :=
  loadWord_congr fun i hi ↦ h.header (by simp only [dhcpFixedNonUdp]; omega)

theorem chaddr (h : Front n b b') : b.chaddr = b'.chaddr := by
  have hbytes (i : Fin hardwareAddressLength) : b (28 + i) = b' (28 + i) := by
    have hi : i.val < 6 := i.isLt
    exact h.header (by simp only [dhcpFixedNonUdp]; omega)
  simp only [DhcpT.chaddr, hbytes]

theorem search (h : Front n b b') : search b.options n tag 0 = search b'.options n tag 0 :=
  search_congr fun _ hi ↦ h.options hi

theorem loadWord (h : Front n b b') (ho : o + 4 ≤ n) :
    loadWord b.options o = loadWord b'.options o :=
  loadWord_congr fun i hi ↦ h.options (by omega)

end Front

section Lookup

variable {n q : ℕ} {b : DhcpT} {tag : UInt8}

theorem getDhcpOption_of_found (hn : n ≤ dhcpMaxOptionLen)
    (hs : search b.options n tag 0 = .found q) (hq : q + 1 < dhcpMaxOptionLen) :
    getDhcpOption b tag = .ok (b.options (q + 1), some (q + 2)) := by
  have hs' : search b.options dhcpMaxOptionLen tag 0 = .found q := by
    rw [search_extend hn (by rw [hs]; simp), hs]
  rw [getDhcpOption, hs']
  exact if_pos hq

theorem getDhcpOption_of_absent (hn : n ≤ dhcpMaxOptionLen)
    (hs : search b.options n tag 0 = .absent) : getDhcpOption b tag = .ok (0, none) := by
  have hs' : search b.options dhcpMaxOptionLen tag 0 = .absent := by
    rw [search_extend hn (by rw [hs]; simp), hs]
  rw [getDhcpOption, hs']

end Lookup

section Own

variable {datagram value : List UInt8} {tag x : UInt8}

theorem HasOption.whole (h : HasOption datagram tag value) : dhcpFixedNonUdp ≤ datagram.length := by
  obtain ⟨q, -, -, hq⟩ := h
  rw [covered, List.length_take] at hq
  omega

/-- Every receiver of the datagram finds the option. -/
theorem HasOption.found (h : HasOption datagram tag value) (p : DhcpT) :
    ∃ o, getDhcpOption (p.recvfrom datagram) tag = .ok (UInt8.ofNat value.length, some o) ∧
      Holds (p.recvfrom datagram).options o value ∧ o + value.length ≤ dhcpMaxOptionLen := by
  have hfront := recvfrom_front h.whole DhcpT.zero p
  have hn := covered_le datagram
  obtain ⟨q, hs, hholds, hq⟩ := h
  obtain ⟨hlen, hvalue⟩ := holds_cons.mp hholds
  have hsame : ∀ i < covered datagram,
      (clean datagram).options i = DhcpT.options (p.recvfrom datagram) i :=
    fun i hi ↦ hfront.options hi
  refine ⟨q + 2, ?_, fun i hi ↦ ?_, by omega⟩
  · rw [getDhcpOption_of_found hn (hfront.search.symm.trans hs) (by omega), ← hsame _ (by omega), hlen]
  · rw [← hsame _ (by omega)]
    exact hvalue i hi

theorem HasOption.byte (h : HasOption datagram tag [x]) (p : DhcpT) :
    optionByte (p.recvfrom datagram) tag = some x := by
  obtain ⟨o, hg, hvalue, ho⟩ := h.found p
  refine optionByte_iff.mpr ⟨o, hg, ?_⟩
  rw [derefByte, if_pos (Nat.lt_of_succ_le ho)]
  exact congrArg Except.ok (hvalue 0 (by simp))

theorem HasOption.yiaddr (h : HasOption datagram tag value) (p : DhcpT) :
    (p.recvfrom datagram).yiaddr = (clean datagram).yiaddr :=
  loadWord_congr fun i hi ↦ (recvfrom_front h.whole p DhcpT.zero).header (by
    simp only [dhcpFixedNonUdp]
    omega)

end Own

def OwnAddress (x : UInt32) : Prop := InPool x ∨ x = dhcpServerIpAddress

/-- The four bytes have been received, or those that have do not begin an own address. -/
def Legible (m : Memory) (n o : ℕ) : Prop :=
  o + 4 ≤ n ∨ (o + 4 ≤ dhcpMaxOptionLen ∧ ¬read m o (n - o) <+: [192, 168, 0])

/-- The walk for the option ends inside the received bytes, and so does its word if the length is
one for which it is read. -/
def WordReceived (P : UInt8 → Prop) (m : Memory) (n : ℕ) (tag : UInt8) : Prop :=
  search m n tag 0 ≠ .escaped ∧
    ∀ q, search m n tag 0 = .found q → q + 1 < n ∧ (P (m (q + 1)) → Legible m n (q + 2))

section Words

variable {m : Memory} {n o : ℕ} {b b' : DhcpT} {tag : UInt8} {P : UInt8 → Prop}

theorem OwnAddress.bytes (h : OwnAddress (loadWord m o)) :
    m o = 192 ∧ m (o + 1) = 168 ∧ m (o + 2) = 0 := by
  have hword := wordOf_toNat (m o) (m (o + 1)) (m (o + 2)) (m (o + 3))
  have h₀ := (m o).toNat_lt
  have h₁ := (m (o + 1)).toNat_lt
  have h₂ := (m (o + 2)).toNat_lt
  have h₃ := (m (o + 3)).toNat_lt
  have hrange : 0xC0A80001 ≤ (loadWord m o).toNat ∧ (loadWord m o).toNat < 0xC0A80100 := by
    rcases h with hpool | hself
    · simp only [InPool, ipAddressPoolStart, ipAddressPoolAmount, UInt32.le_iff_toNat_le,
        UInt32.toNat_add, UInt32.toNat_sub, UInt32.reduceOfNat, UInt32.toNat_ofNat] at hpool
      omega
    · rw [hself]
      decide
  rw [loadWord, hword] at hrange
  simp only [← UInt8.toNat_inj, UInt8.toNat_ofNat]
  omega

theorem not_own_of_illegible (hn : n < o + 4) (h : ¬read m o (n - o) <+: [192, 168, 0]) :
    ¬OwnAddress (loadWord m o) := by
  intro hown
  obtain ⟨h₀, h₁, h₂⟩ := hown.bytes
  apply h
  have hthree : read m o 3 = [192, 168, 0] := by
    rw [← h₀, ← h₁, ← h₂]
    rfl
  have htake : read m o (n - o) = (read m o 3).take (n - o) := by
    simp only [ByteMemory.read]
    rw [← List.map_take, List.take_range, min_eq_left (by omega)]
  rw [htake, hthree]
  exact List.take_prefix _ _

/-- A legible word is the same over any leftovers, or no own address over any. -/
theorem Legible.alike (h : Front n b b') (hl : Legible b.options n o) (hn : n ≤ dhcpMaxOptionLen) :
    ∃ w w', derefWord b (some o) = .ok w ∧ derefWord b' (some o) = .ok w' ∧
      (w = w' ∨ ¬OwnAddress w ∧ ¬OwnAddress w') := by
  have hfits : o + 4 ≤ dhcpMaxOptionLen := by
    rcases hl with hl | hl
    · omega
    · exact hl.1
  refine ⟨loadWord b.options o, loadWord b'.options o, if_pos hfits, if_pos hfits, ?_⟩
  rcases Nat.lt_or_ge n (o + 4) with hlt | hle
  · have hno := (hl.resolve_left (by omega)).2
    have hread : read b'.options o (n - o) = read b.options o (n - o) := by
      refine List.map_congr_left fun i hi ↦ ?_
      rw [List.mem_range] at hi
      exact h.symm.options (by omega)
    refine .inr ⟨not_own_of_illegible hlt hno, not_own_of_illegible hlt ?_⟩
    rwa [hread]
  · exact .inl (h.loadWord hle)

theorem WordReceived.alike (h : Front n b b') (hw : WordReceived P b.options n tag)
    (hn : n ≤ dhcpMaxOptionLen) : ∃ len value, getDhcpOption b tag = .ok (len, value) ∧
      getDhcpOption b' tag = .ok (len, value) ∧ ∀ o, value = some o → P len →
        ∃ w w', derefWord b value = .ok w ∧ derefWord b' value = .ok w' ∧
          (w = w' ∨ ¬OwnAddress w ∧ ¬OwnAddress w') := by
  cases hs : TagScan.search b.options n tag 0 with
  | escaped => exact absurd hs hw.1
  | absent =>
    refine ⟨0, none, getDhcpOption_of_absent hn hs,
      getDhcpOption_of_absent hn (h.search.symm.trans hs), ?_⟩
    intro o ho
    cases ho
  | found q =>
    obtain ⟨hq, hl⟩ := hw.2 q hs
    refine ⟨b.options (q + 1), some (q + 2), getDhcpOption_of_found hn hs (by omega), ?_, ?_⟩
    · rw [h.options hq]
      exact getDhcpOption_of_found hn (h.search.symm.trans hs) (by omega)
    · rintro o ⟨⟩ hP
      exact (hl hP).alike h hn

/-- What is received decides, when an address that is not its own means nothing to the server. -/
theorem WordReceived.checkedWord {α : Type} {f : Option ℕ → UInt32 → Option α}
    (h : Front n b b') (hn : n ≤ dhcpMaxOptionLen)
    (hw : WordReceived (fun len ↦ len = 4) b.options n tag)
    (hf : ∀ value w, ¬OwnAddress w → f value w = none) :
    ∃ r, checkedWord b tag f = .ok r ∧ checkedWord b' tag f = .ok r := by
  obtain ⟨len, value, hg, hg', hword⟩ := hw.alike h hn
  by_cases hlen : len = 4
  · subst hlen
    cases value with
    | none => exact absurd (getDhcpOption_absent hg) (by decide)
    | some o =>
      obtain ⟨w, w', hw, hw', heq | ⟨hno, hno'⟩⟩ := hword o rfl rfl
      · rw [← heq] at hw'
        exact ⟨_, checkedWord_of_word hg hw, checkedWord_of_word hg' hw'⟩
      · refine ⟨none, ?_, ?_⟩
        · rw [checkedWord_of_word hg hw, hf _ _ hno]
        · rw [checkedWord_of_word hg' hw', hf _ _ hno']
  · exact ⟨none, checkedWord_of_ne hg hlen, checkedWord_of_ne hg' hlen⟩

theorem WordReceived.requestedIp (h : Front n b b') (hn : n ≤ dhcpMaxOptionLen)
    (hw : WordReceived (fun len ↦ len = 4) b.options n optionRequestedIp) (t : LeaseTable) (now : ℕ) :
    ∃ r, requestedIp b t now = .ok r ∧ requestedIp b' t now = .ok r := by
  rw [requestedIp_eq, requestedIp_eq, h.chaddr]
  refine hw.checkedWord h hn fun _ w hno ↦ if_neg fun hp ↦ ?_
  exact hno (.inl (checkIpaddr_pos.mp hp).1)

theorem WordReceived.selectedServer (h : Front n b b') (hn : n ≤ dhcpMaxOptionLen)
    (hw : WordReceived (fun len ↦ len = 4) b.options n optionDhcpServerIdentifier) :
    ∃ r, selectedServer b = .ok r ∧ selectedServer b' = .ok r := by
  rw [selectedServer_eq, selectedServer_eq]
  exact hw.checkedWord h hn fun _ _ hno ↦ if_neg fun hself ↦ hno (.inr hself)

end Words

end InternetApplications.Dhcp
