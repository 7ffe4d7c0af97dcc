import InternetApplications.Dhcp.ClientPacket
import InternetApplications.Dhcp.ServerRuns

namespace InternetApplications.Dhcp

open ByteMemory TagScan Executions Tracing LeaseTable

section Construct

variable {s : Server} {env : Env} {state : UInt8} {o : ℕ} {y : UInt32} {t : LeaseTable}

/-- Once `yiaddr` is chosen, the rest of the reply can always be built. -/
theorem constructDhcpPacket_returns
    (ho : getDhcpOption s.dhcpRecv optionDhcpMessageType = .ok (1, some o))
    (hlt : o < dhcpMaxOptionLen)
    (hy : yourIpAddress s.dhcpRecv s.table env state = .ok (some y, t)) :
    ∃ s' size, constructDhcpPacket s env state = .ok (s', size) ∧ s'.table = t := by
  have hy' : yourIpAddress (write s.dhcpRecv 0 [bootpMessageTypeReply]) s.table env state =
      .ok (some y, t) := by
    rw [yourIpAddress_opcode, hy]
  have hg : getDhcpOption (replyHeader s.dhcpRecv y) optionDhcpMessageType = .ok (1, some o) := by
    rw [replyHeader_lookup, ho]
  have hf : ∃ w, fillOptions (replyHeader s.dhcpRecv y) state (some o) = .ok w := by
    by_cases hs : state = dhcpnak
    · subst hs
      exact ⟨_, fillOptions_nak _ _ true⟩
    · rw [fillOptions_eq hs, derefByte, if_pos hlt]
      exact ⟨_, rfl⟩
  obtain ⟨w, hf⟩ := hf
  refine ⟨{ s with dhcpRecv := w.1, table := t }, dhcpFixedNonUdp + w.2, ?_, rfl⟩
  apply bind_eq_ok.mpr
  refine ⟨_, hy', ?_⟩
  apply bind_eq_ok.mpr
  refine ⟨_, hg, ?_⟩
  apply bind_eq_ok.mpr
  exact ⟨w, hf, rfl⟩

theorem constructDhcpPacket_none (hy : yourIpAddress s.dhcpRecv s.table env state = .ok (none, t)) :
    ∃ s', constructDhcpPacket s env state = .ok (s', 0) ∧ s'.table = t := by
  rw [← yourIpAddress_opcode] at hy
  rw [constructDhcpPacket]
  simp only
  rw [hy, ok_bind]
  exact ⟨_, rfl, rfl⟩

theorem constructDhcpPacket_error {e : Fault}
    (hy : yourIpAddress s.dhcpRecv s.table env state = .error e) :
    constructDhcpPacket s env state = .error e := by
  rw [← yourIpAddress_opcode] at hy
  rw [constructDhcpPacket]
  simp only
  rw [hy, error_bind]

end Construct

section Dispatch

variable {s : Server} {i : Input}

theorem mainLoop_request (h : receivedType (s.received i) = .ok (some dhcprequest)) :
    mainLoop s i = (s.ready i).dhcpHandleRequest i.env := by
  have h' : receivedType ((s.changeSocketSetup inaddrAny inaddrBroadcast).dhcpRecv.recvfrom
      i.datagram) = .ok (some dhcprequest) := h
  simp only [mainLoop, h']
  rfl

variable {env : Env} {identifier o : ℕ} {x y : UInt32} {t : LeaseTable} {value : Option ℕ}
  {len : UInt8}

theorem dhcpHandleRequest_selecting (hsel : selectedServer s.dhcpRecv = .ok (some identifier))
    (hc : s.dhcpRecv.ciaddr = inaddrAny) (hf : s.dhcpRecv.flags ≠ bootpFlagsUnicast)
    (hg : getDhcpOption s.dhcpRecv optionRequestedIp = .ok (len, some o))
    (hx : derefWord s.dhcpRecv (some o) = .ok x) :
    s.dhcpHandleRequest env =
      (s.changeSocketSetup inaddrAny inaddrBroadcast).answerRequest env x := by
  have hu : (s.changeSocketSetup inaddrAny inaddrBroadcast).unicastSetup env =
      .ok (s.changeSocketSetup inaddrAny inaddrBroadcast) := if_neg hf
  rw [dhcpHandleRequest_eq hsel, Server.answering, if_pos hc, hu, ok_bind, judgedAddress, if_pos hc,
    hg, ok_bind]
  simp only [Option.getD_some]
  rw [hx, ok_bind]

theorem dhcpHandleRequest_renewing (hsel : selectedServer s.dhcpRecv = .ok (some identifier))
    (hc : s.dhcpRecv.ciaddr ≠ inaddrAny) :
    s.dhcpHandleRequest env = (s.changeSocketSetup dhcpServerIpAddress
      s.dhcpRecv.ciaddr).answerRequest env s.dhcpRecv.ciaddr := by
  rw [dhcpHandleRequest_eq hsel, Server.answering, if_neg hc, ok_bind, judgedAddress, if_neg hc,
    ok_bind]

theorem answerRequest_ack (ho : getDhcpOption s.dhcpRecv optionDhcpMessageType = .ok (1, some o))
    (hlt : o < dhcpMaxOptionLen) (hp : 0 < checkIpaddr s.table env.now x s.dhcpRecv.chaddr)
    (hy : yourIpAddress s.dhcpRecv s.table env dhcpack = .ok (some y, t)) :
    ∃ s' sent, s.answerRequest env x = .ok (s', some sent) ∧ s'.table = t ∧
      Answers s.dhcpRecv sent dhcpack y := by
  obtain ⟨s', size, hc, ht⟩ := constructDhcpPacket_returns ho hlt hy
  refine ⟨s', s'.sendto size, ?_, ht, ?_⟩
  · rw [Server.answerRequest, if_pos hp, hc]
    rfl
  · obtain ⟨-, yiaddr, hy', hreply⟩ := constructDhcpPacket_ok ho hc
    rw [hy] at hy'
    cases hy'
    exact ⟨o, ho, hreply⟩

end Dispatch

section ClientPackets

variable {b : DhcpT} {c : Client} {addr : UInt32} {mac : Mac} {state : UInt8}

namespace Client

theorem ReadsRequest.messageType (h : ReadsRequest b c addr mac state) :
    getDhcpOption b optionDhcpMessageType = .ok (1, some 2) ∧ b.options 2 = state :=
  h.carries.first

theorem ReadsRequest.receivedType (h : ReadsRequest b c addr mac state) :
    receivedType b = .ok (some state) := by
  obtain ⟨hg, hv⟩ := h.messageType
  rw [Dhcp.receivedType, if_pos h.opcode, findOption_eq, hg, ok_bind]
  simp only [if_true]
  rw [readByte_eq, derefByte, if_pos (by decide), hv]
  rfl

theorem ReadsRequest.identifier (h : ReadsRequest b c addr mac state)
    (hs : state = dhcprequest ∨ state = dhcprelease) :
    ∃ o, getDhcpOption b optionDhcpServerIdentifier = .ok (4, some o) ∧
      derefWord b (some o) = .ok c.dhcpServerIdentifier := by
  have hcarries := h.carries
  rw [requestFields, if_pos hs] at hcarries
  exact (show Carries b ([⟨optionDhcpMessageType, [state]⟩] ++
      ⟨optionDhcpServerIdentifier, wordBytes c.dhcpServerIdentifier⟩ :: _) from by
    simpa only [List.append_assoc, List.cons_append, List.nil_append] using hcarries).word
    (by simp; decide) rfl

theorem ReadsRequest.requested (h : ReadsRequest b c addr mac state) (ha : addr = inaddrAny) :
    ∃ o, getDhcpOption b optionRequestedIp = .ok (4, some o) ∧
      derefWord b (some o) = .ok c.yiaddr := by
  have hcarries := h.carries
  rw [requestFields, if_pos ha] at hcarries
  simp only [List.append_assoc] at hcarries
  rw [← List.append_assoc] at hcarries
  refine hcarries.word ?_ rfl
  intro f hf
  rcases List.mem_append.mp hf with hf | hf
  · rw [List.mem_singleton.mp hf]
    exact show optionDhcpMessageType ≠ optionRequestedIp from by decide
  · split at hf
    · rw [List.mem_singleton.mp hf]
      exact show optionDhcpServerIdentifier ≠ optionRequestedIp from by decide
    · cases hf

theorem ReadsRequest.requestedOption (h : ReadsRequest b c addr mac state)
    (ha : addr = inaddrAny) : requestedOption b = some c.yiaddr := by
  obtain ⟨o, hg, hx⟩ := h.requested ha
  exact requestedOption_of_deref hg hx

theorem ReadsRequest.selectedServer (h : ReadsRequest b c addr mac state)
    (hs : state = dhcprequest ∨ state = dhcprelease)
    (hid : c.dhcpServerIdentifier = dhcpServerIpAddress) :
    ∃ o, selectedServer b = .ok (some o) := by
  obtain ⟨o, hg, hx⟩ := h.identifier hs
  rw [hid] at hx
  exact selectedServer_self (optionWord_iff.mpr ⟨o, hg, hx⟩)

end Client

/-- The message type of the reply has taken the place of that of the request. -/
theorem leasedAt_two (b : DhcpT) (state : UInt8) (y : UInt32) :
    leasedAt b state y 2 = decide (state ≠ dhcpinform) := by
  have hlen : 2 < (encode (identityFields state ++ networkFields)).length :=
    Nat.le_of_ble_eq_true rfl
  have hwritten : write (replyHeader b y) dhcpFixedNonUdp
      (encode (identityFields state ++ networkFields)) (dhcpFixedNonUdp + 2) = _ := write_at hlen
  simp only [leasedAt, packed, DhcpT.options, hwritten]
  rfl

theorem Answers.isReply {sent : Sent} {y : UInt32} (h : Answers b sent state y)
    (ho : getDhcpOption b optionDhcpMessageType = .ok (1, some 2)) (hs : state ≠ dhcpinform) :
    IsReply b sent state y true := by
  obtain ⟨o, ho', hr⟩ := h
  rw [ho] at ho'
  cases ho'
  rw [leasedAt_two, decide_eq_true hs] at hr
  exact hr

open Client

variable {s : Server} {i : Input} {t : LeaseTable}

theorem mainLoop_selecting (h : ReadsRequest (s.received i) c inaddrAny mac dhcprequest)
    (hid : c.dhcpServerIdentifier = dhcpServerIpAddress)
    (hp : 0 < checkIpaddr s.table i.env.now c.yiaddr mac)
    (hadd : addLease s.table i.env.now c.yiaddr mac = .ok t) :
    ∃ s' sent, mainLoop s i = .ok (s', some sent) ∧ s'.table = t ∧
      Answers (s.received i) sent dhcpack c.yiaddr := by
  obtain ⟨identifier, hsel⟩ := h.selectedServer (.inl rfl) hid
  obtain ⟨o, hg, hx⟩ := h.requested rfl
  obtain ⟨ho, -⟩ := h.messageType
  have hflags : (s.received i).flags ≠ bootpFlagsUnicast := by
    rw [h.flags]
    decide
  rw [mainLoop_request h.receivedType,
    dhcpHandleRequest_selecting (s := s.ready i) hsel h.ciaddr hflags hg hx]
  have hchaddr : (s.received i).chaddr = mac := h.chaddr
  refine answerRequest_ack ho (by decide) (hchaddr ▸ hp) ?_
  have hcia : (s.received i).ciaddr = inaddrAny := h.ciaddr
  have hadd' : addLease s.table i.env.now c.yiaddr (s.received i).chaddr = .ok t := by
    rw [hchaddr, hadd]
  change yourIpAddress (s.received i) s.table i.env dhcpack = _
  rw [yourIpAddress_selected_eq _ _ hcia (h.requestedOption rfl), hadd']
  rfl

theorem mainLoop_renewing {r : ℤ} {y : UInt32} (h : ReadsRequest (s.received i) c addr mac dhcprequest)
    (hid : c.dhcpServerIdentifier = dhcpServerIpAddress) (hc : addr ≠ inaddrAny)
    (hp : 0 < checkIpaddr s.table i.env.now addr mac)
    (halloc : allocateIp s.table i.env i.env.stale mac = .ok (r, y, t)) :
    ∃ s' sent, mainLoop s i = .ok (s', some sent) ∧ s'.table = t ∧
      Answers (s.received i) sent dhcpack y := by
  obtain ⟨identifier, hsel⟩ := h.selectedServer (.inl rfl) hid
  obtain ⟨ho, -⟩ := h.messageType
  have hcia : (s.received i).ciaddr ≠ inaddrAny := by rw [h.ciaddr]; exact hc
  have hchaddr : (s.received i).chaddr = mac := h.chaddr
  rw [mainLoop_request h.receivedType, dhcpHandleRequest_renewing (s := s.ready i) hsel hcia]
  have hp' : 0 < checkIpaddr s.table i.env.now (s.received i).ciaddr (s.received i).chaddr := by
    rw [h.ciaddr, hchaddr]
    exact hp
  have halloc' : allocateIp s.table i.env i.env.stale (s.received i).chaddr = .ok (r, y, t) := by
    rw [hchaddr, halloc]
  refine answerRequest_ack ho (by decide) hp' ?_
  change yourIpAddress (s.received i) s.table i.env dhcpack = _
  rw [yourIpAddress_known_eq _ _ hcia, halloc']
  rfl

theorem exists_isRequest (mac : Mac) (addr x : UInt32) (type : UInt8) :
    ∃ (c : Client) (m : Sent), c.yiaddr = x ∧ c.dhcpServerIdentifier = dhcpServerIpAddress ∧
      c.IsRequest m addr mac type := by
  obtain ⟨c, hyiaddr, hid⟩ : ∃ c : Client, c.yiaddr = x ∧
      c.dhcpServerIdentifier = dhcpServerIpAddress :=
    ⟨((Client.dhcpSetup ⟨mac, 0⟩).setIdentifier dhcpServerIpAddress).setYiaddr x, rfl, rfl⟩
  exact ⟨c, ⟨0, _⟩, hyiaddr, hid, rfl⟩

theorem exists_request (s : Server) (env : Env) (mac : Mac) (addr x : UInt32) (type : UInt8) :
    ∃ (c : Client) (datagram : List UInt8), c.yiaddr = x ∧
      c.dhcpServerIdentifier = dhcpServerIpAddress ∧ dhcpFixedNonUdp ≤ datagram.length ∧
      ReadsRequest (s.received ⟨env, datagram⟩) c addr mac type := by
  obtain ⟨c, m, hyiaddr, hid, hrequest⟩ := exists_isRequest mac addr x type
  refine ⟨c, m.payload, hyiaddr, hid, ?_, hrequest.reads s.dhcpRecv⟩
  rw [hrequest, length_read, requestSize]
  exact Nat.le_add_right _ _

end ClientPackets

end InternetApplications.Dhcp
