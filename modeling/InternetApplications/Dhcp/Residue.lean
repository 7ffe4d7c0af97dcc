import InternetApplications.Dhcp.Leftovers

namespace InternetApplications.Dhcp

open ByteMemory TagScan Executions LeaseTable

structure Over (datagram : List UInt8) (m : Memory) (b : DhcpT) : Prop where
  front : Front (covered datagram) (clean datagram) b
  rest : ∀ i, covered datagram ≤ i → i < dhcpMaxOptionLen → b.options i = m i

section Leftovers

variable {datagram : List UInt8} {b : DhcpT} {s : Server} {env : Env} {tag : UInt8}
  {P : UInt8 → Prop}

/-- A datagram that is no request leaves anything in the options, and the table as it is. -/
theorem exists_leftovers (h : ServerReachable s) (m : Memory) : ∃ s', ServerReachable s' ∧
    s'.table = s.table ∧ ∀ i < dhcpMaxOptionLen, s'.dhcpRecv.options i = m i := by
  have hfill : Holds (s.dhcpRecv.recvfrom (List.replicate 240 0 ++ read m 0 dhcpMaxOptionLen)) 0
      (List.replicate 240 0 ++ read m 0 dhcpMaxOptionLen) := by
    have hsize : (List.replicate 240 (0 : UInt8) ++ read m 0 dhcpMaxOptionLen).length ≤ sizeofDhcpT := by
      rw [List.length_append, List.length_replicate, length_read]
      exact Nat.le_refl _
    rw [DhcpT.recvfrom, List.take_of_length_le hsize]
    exact holds_write
  obtain ⟨hheader, hoptions⟩ := holds_append.mp hfill
  have hopcode : (s.dhcpRecv.recvfrom (List.replicate 240 0 ++ read m 0 dhcpMaxOptionLen)).opcode =
      0 := by
    have hbyte := hheader 0 (by rw [List.length_replicate]; omega)
    rwa [List.getElem_replicate] at hbyte
  have hsilent : ∃ s', mainLoop s ⟨⟨0, [], 0⟩, List.replicate 240 0 ++ read m 0 dhcpMaxOptionLen⟩ =
      .ok (s', none) ∧ s'.table = s.table ∧
      s'.dhcpRecv = s.dhcpRecv.recvfrom (List.replicate 240 0 ++ read m 0 dhcpMaxOptionLen) := by
    rw [mainLoop]
    simp only [Server.changeSocketSetup_dhcpRecv]
    rw [receivedType, if_neg (by rw [hopcode]; decide)]
    exact ⟨_, rfl, rfl, rfl⟩
  obtain ⟨s', hstep, htable, hrecv⟩ := hsilent
  refine ⟨s', h.next hstep, htable, fun i hi ↦ ?_⟩
  rw [hrecv, DhcpT.options]
  have hbyte := hoptions i (by simpa using hi)
  rw [getElem_read, Nat.zero_add, Nat.zero_add, List.length_replicate] at hbyte
  exact hbyte

theorem exists_over (hlen : dhcpFixedNonUdp ≤ datagram.length) (h : ServerReachable s) (m : Memory) :
    ∃ s', ServerReachable s' ∧ s'.table = s.table ∧
      ∀ env, Over datagram m (s'.received ⟨env, datagram⟩) := by
  obtain ⟨s', hs', htable, hoptions⟩ := exists_leftovers h m
  refine ⟨s', hs', htable, fun env ↦ ⟨recvfrom_front hlen DhcpT.zero s'.dhcpRecv, ?_⟩⟩
  intro i hle hi
  rw [← hoptions i hi]
  refine DhcpT.recvfrom_behind ?_
  show (datagram.take sizeofDhcpT).length ≤ dhcpFixedNonUdp + i
  rw [← covered_add hlen]
  omega

def Overruns (P : UInt8 → Prop) (b : DhcpT) (tag : UInt8) : Prop :=
  getDhcpOption b tag = .error .outOfBounds ∨
    ∃ len o, getDhcpOption b tag = .ok (len, some o) ∧ P len ∧
      derefWord b (some o) = .error .outOfBounds

def FindsWord (P : UInt8 → Prop) (b : DhcpT) (tag : UInt8) (w : UInt32) : Prop :=
  ∃ len o, getDhcpOption b tag = .ok (len, some o) ∧ P len ∧ derefWord b (some o) = .ok w

theorem Over.completed {q : ℕ} {y : UInt8} (h : Over datagram (write DhcpT.zero (q + 1) [4, 192, 168, 0, y]) b)
    (hfit : q + 6 ≤ dhcpMaxOptionLen) (hout : covered datagram < q + 6)
    (hstart : read (clean datagram).options (q + 2) (covered datagram - (q + 2)) <+: [192, 168, 0]) :
    loadWord b.options (q + 2) = wordOf 192 168 0 y := by
  have hbyte : Holds b.options (q + 2) [192, 168, 0, y] := by
    intro i hi
    rw [List.length_cons, List.length_cons, List.length_cons, List.length_singleton] at hi
    rcases Nat.lt_or_ge (q + 2 + i) (covered datagram) with hlt | hge
    · have hread : i < (read (clean datagram).options (q + 2) (covered datagram - (q + 2))).length := by
        rw [length_read]
        omega
      have hvalue := hstart.getElem hread
      rw [getElem_read] at hvalue
      rw [← h.front.options hlt, hvalue]
      exact (List.getElem_append_left (α := UInt8) (by
        simp only [List.length_cons, List.length_nil]
        omega)).symm
    · rw [h.rest _ hge (by omega)]
      have hwritten : write DhcpT.zero (q + 1) [4, 192, 168, 0, y] (q + 1 + (i + 1)) = _ :=
        write_at (by simp only [List.length_cons, List.length_nil]; omega)
      rw [show q + 2 + i = q + 1 + (i + 1) by omega, hwritten]
      exact List.getElem_cons_succ _ _ _ _
  obtain ⟨h₀, hbyte⟩ := holds_cons.mp hbyte
  obtain ⟨h₁, hbyte⟩ := holds_cons.mp hbyte
  obtain ⟨h₂, hbyte⟩ := holds_cons.mp hbyte
  obtain ⟨h₃, -⟩ := holds_cons.mp hbyte
  rw [loadWord, h₀, h₁, h₂, h₃]

/-- An option that has not been received: some leftovers lead behind the buffer, or the leftovers
can complete the word to any own address. -/
theorem overruns_or_finds (h : ¬WordReceived P (clean datagram).options (covered datagram) tag)
    (htag : tag ≠ 255) (hP : P 4) :
    (∃ m, ∀ b, Over datagram m b → Overruns P b tag) ∨
      ∀ y, ∃ m, ∀ b, Over datagram m b → FindsWord P b tag (wordOf 192 168 0 y) := by
  have hn := covered_le datagram
  cases hs : search (clean datagram).options (covered datagram) tag 0 with
  | escaped =>
    refine .inl ⟨fun _ ↦ 255, fun b hover ↦ .inl ?_⟩
    rw [getDhcpOption, search_filler (hover.front.search.symm.trans hs) hover.rest htag]
  | absent =>
    refine absurd ⟨by simp [hs], fun q hq ↦ ?_⟩ h
    cases hs.symm.trans hq
  | found q =>
    have hfound {b : DhcpT} {m : Memory} (hover : Over datagram m b) :
        search b.options (covered datagram) tag 0 = .found q := hover.front.search.symm.trans hs
    have hopen : covered datagram ≤ q + 1 ∨ P ((clean datagram).options (q + 1)) ∧
        ¬Legible (clean datagram).options (covered datagram) (q + 2) := by
      by_contra hno
      rw [not_or, Nat.not_le, not_and, not_not] at hno
      refine h ⟨by simp [hs], fun q' hq' ↦ ?_⟩
      cases hs.symm.trans hq'
      exact hno
    have hillegible : ¬Legible (clean datagram).options (covered datagram) (q + 2) := by
      rcases hopen with hle | ⟨-, hno⟩
      · rintro (hfit | ⟨-, hstart⟩)
        · omega
        · rw [Nat.sub_eq_zero_of_le (by omega)] at hstart
          exact hstart List.nil_prefix
      · exact hno
    have hlength {b : DhcpT} {y : UInt8} (hq : q + 1 < dhcpMaxOptionLen)
        (hover : Over datagram (write DhcpT.zero (q + 1) [4, 192, 168, 0, y]) b) :
        P (b.options (q + 1)) := by
      rcases Nat.lt_or_ge (q + 1) (covered datagram) with hlt | hge
      · rw [← hover.front.options hlt]
        exact (hopen.resolve_left (by omega)).1
      · have hfour : write DhcpT.zero (q + 1) [4, 192, 168, 0, y] (q + 1 + 0) = 4 :=
          write_at (by simp)
        rw [hover.rest _ hge hq, show q + 1 = q + 1 + 0 from rfl, hfour]
        exact hP
    rcases Nat.lt_or_ge dhcpMaxOptionLen (q + 6) with hlong | hfit
    · refine .inl ⟨write DhcpT.zero (q + 1) [4, 192, 168, 0, 0], fun b hover ↦ ?_⟩
      rcases Nat.lt_or_ge (q + 1) dhcpMaxOptionLen with hlt | hge
      · exact .inr ⟨_, _, getDhcpOption_of_found hn (hfound hover) hlt, hlength hlt hover,
          if_neg (by omega)⟩
      · left
        rw [getDhcpOption, search_extend hn (by rw [hfound hover]; simp), hfound hover]
        exact if_neg (by omega)
    · rw [Legible, not_or, not_and, not_not, Nat.not_le] at hillegible
      refine .inr fun y ↦ ⟨write DhcpT.zero (q + 1) [4, 192, 168, 0, y], fun b hover ↦ ?_⟩
      refine ⟨_, _, getDhcpOption_of_found hn (hfound hover) (by omega), hlength (by omega) hover, ?_⟩
      rw [derefWord, if_pos (by omega), hover.completed hfit hillegible.1 (hillegible.2 hfit)]

end Leftovers

section Consulted

variable {b : DhcpT} {t : LeaseTable} {env : Env} {now o identifier : ℕ} {w : UInt32}
  {P : UInt8 → Prop}

theorem Overruns.checkedWord {α : Type} {tag : UInt8} (h : Overruns (fun len ↦ len = 4) b tag)
    (f : Option ℕ → UInt32 → Option α) : checkedWord b tag f = .error .outOfBounds := by
  rcases h with hg | ⟨len, o, hg, hlen, hw⟩
  · rw [Dhcp.checkedWord, hg, error_bind]
  · rw [Dhcp.checkedWord, hg, ok_bind, if_pos hlen, hw, error_bind]

theorem Overruns.requestedIp (h : Overruns (fun len ↦ len = 4) b optionRequestedIp)
    (t : LeaseTable) (now : ℕ) : requestedIp b t now = .error .outOfBounds := by
  rw [requestedIp_eq, h.checkedWord]

theorem Overruns.selectedServer (h : Overruns (fun len ↦ len = 4) b optionDhcpServerIdentifier) :
    selectedServer b = .error .outOfBounds := by
  rw [selectedServer_eq, h.checkedWord]

theorem FindsWord.requestedIp (h : FindsWord (fun len ↦ len = 4) b optionRequestedIp w)
    (t : LeaseTable) (now : ℕ) :
    requestedIp b t now = .ok (if 0 < checkIpaddr t now w b.chaddr then some w else none) := by
  obtain ⟨len, o, hg, rfl, hw⟩ := h
  rw [requestedIp_eq, checkedWord_of_word hg hw]

theorem FindsWord.selectedServer (h : FindsWord (fun len ↦ len = 4) b optionDhcpServerIdentifier w) :
    ∃ o, selectedServer b = .ok (if w = dhcpServerIpAddress then some o else none) := by
  obtain ⟨len, o, hg, rfl, hw⟩ := h
  refine ⟨o, ?_⟩
  rw [selectedServer_eq, checkedWord_of_word hg hw]

theorem replyDest_fine (h : ∃ r, requestedIp b t now = .ok r) : ∃ dest, replyDest b t now = .ok dest := by
  obtain ⟨r, hr⟩ := h
  rw [replyDest, hr]
  split
  · exact ⟨_, rfl⟩
  · exact ⟨_, rfl⟩

theorem replyDest_overruns (h : requestedIp b t now = .error .outOfBounds) :
    replyDest b t now = .error .outOfBounds ∨ ∃ dest, replyDest b t now = .ok dest := by
  rw [replyDest, h]
  split
  · exact .inl rfl
  · exact .inr ⟨_, rfl⟩

theorem Overruns.onDiscover (h : Overruns (fun len ↦ len = 4) b optionRequestedIp) :
    onDiscover b t env o = .error .outOfBounds := by
  have hreq := h.requestedIp t env.now
  rw [Dhcp.onDiscover]
  rcases replyDest_overruns hreq with hdest | ⟨dest, hdest⟩
  · rw [hdest, error_bind]
  · rw [hdest, ok_bind, answer, yourIpAddress_offer_eq, hreq, error_bind, error_bind]

theorem FindsWord.onDiscover (h : FindsWord (fun len ↦ len = 4) b optionRequestedIp w)
    (t : LeaseTable) (env : Env) (o : ℕ) :
    ∃ dest, onDiscover b t env o = offered t env b.chaddr
      (if 0 < checkIpaddr t env.now w b.chaddr then some w else none) >>= fun p ↦
        .ok (p.2, some ⟨dest, replyBytes b dhcpoffer o p.1⟩) := by
  have hreq := h.requestedIp t env.now
  obtain ⟨dest, hdest⟩ := replyDest_fine ⟨_, hreq⟩
  refine ⟨dest, ?_⟩
  rw [Dhcp.onDiscover, hdest, ok_bind, answer, yourIpAddress_offer_eq, hreq, ok_bind]

theorem Overruns.judged (h : Overruns (fun _ ↦ True) b optionRequestedIp) (hc : b.ciaddr = inaddrAny)
    (identifier : ℕ) : judgedAddress b identifier = .error .outOfBounds := by
  rw [judgedAddress, if_pos hc]
  rcases h with hg | ⟨len, o, hg, -, hw⟩
  · rw [hg, error_bind]
  · rw [hg, ok_bind]
    exact hw

theorem FindsWord.judged (h : FindsWord (fun _ ↦ True) b optionRequestedIp w)
    (hc : b.ciaddr = inaddrAny) (identifier : ℕ) : judgedAddress b identifier = .ok w := by
  obtain ⟨len, o, hg, -, hw⟩ := h
  rw [judgedAddress, if_pos hc, hg, ok_bind]
  exact hw

theorem Overruns.onRequest (h : Overruns (fun _ ↦ True) b optionRequestedIp)
    (hsel : Dhcp.selectedServer b = .ok (some identifier)) (hc : b.ciaddr = inaddrAny) :
    Dhcp.onRequest b t env o = .error .outOfBounds := by
  have hreq : Dhcp.requestedIp b t env.now = .error .outOfBounds ∨
      ∃ r, Dhcp.requestedIp b t env.now = .ok r := by
    rcases id h with hg | ⟨len, o, hg, -, hw⟩
    · exact .inl (Overruns.requestedIp (.inl hg) t env.now)
    · by_cases hlen : len = 4
      · exact .inl (Overruns.requestedIp (.inr ⟨len, o, hg, hlen, hw⟩) t env.now)
      · exact .inr ⟨none, requestedIp_of_ne hg hlen t env.now⟩
  have hdest : replyDest b t env.now = .error .outOfBounds ∨
      ∃ dest, replyDest b t env.now = .ok dest := by
    rcases hreq with hreq | hreq
    · exact replyDest_overruns hreq
    · exact .inr (replyDest_fine hreq)
  rw [Dhcp.onRequest, hsel, ok_bind]
  simp only
  rw [if_pos hc]
  rcases hdest with hdest | ⟨dest, hdest⟩
  · rw [hdest, error_bind]
  · rw [hdest, ok_bind, h.judged hc, error_bind]

theorem onRequest_answers {t' : LeaseTable} (hsel : selectedServer b = .ok (some identifier)) :
    onRequest b t env o ≠ .ok (t', none) := by
  intro h
  rw [onRequest, hsel, ok_bind] at h
  obtain ⟨dest, -, h⟩ := bind_eq_ok.mp h
  obtain ⟨x, -, h⟩ := bind_eq_ok.mp h
  obtain ⟨p, -, h⟩ := bind_eq_ok.mp h
  cases h

theorem FindsWord.onRequest (h : FindsWord (fun _ ↦ True) b optionRequestedIp w) (t : LeaseTable)
    (env : Env) (o : ℕ) (hsel : Dhcp.selectedServer b = .ok (some identifier)) (hc : b.ciaddr = inaddrAny) :
    ∃ dest, Dhcp.onRequest b t env o = granted t env b.ciaddr b.chaddr w >>= fun p ↦
      .ok (p.2, some ⟨dest, replyBytes b (verdict b t env.now w) o p.1⟩) := by
  have hreq : ∃ r, Dhcp.requestedIp b t env.now = .ok r := by
    obtain ⟨len, o, hg, -, hw⟩ := h
    by_cases hlen : len = 4
    · exact ⟨_, FindsWord.requestedIp ⟨len, o, hg, hlen, hw⟩ t env.now⟩
    · exact ⟨none, requestedIp_of_ne hg hlen t env.now⟩
  obtain ⟨dest, hdest⟩ := replyDest_fine hreq
  have hx := h.judged hc identifier
  refine ⟨dest, ?_⟩
  rw [Dhcp.onRequest, hsel, ok_bind]
  simp only
  rw [if_pos hc, hdest, ok_bind, hx, ok_bind, answer, yourIpAddress_judged t env hsel hx]

end Consulted

end InternetApplications.Dhcp
