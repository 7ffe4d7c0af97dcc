import InternetApplications.Dhcp.Client
import InternetApplications.Dhcp.Options

namespace InternetApplications.Dhcp

open ByteMemory TagScan Executions

namespace Client

section Options

/-- The options of a packet of the client, in the order in which they are written. -/
def requestFields (c : Client) (ciaddr : UInt32) (state : UInt8) : List Field :=
  [⟨optionDhcpMessageType, [state]⟩] ++
    (if state = dhcprequest ∨ state = dhcprelease then
      [⟨optionDhcpServerIdentifier, wordBytes c.dhcpServerIdentifier⟩] else []) ++
    (if ciaddr = inaddrAny then [⟨optionRequestedIp, wordBytes c.yiaddr⟩] else []) ++
    (if state ≠ dhcprelease ∧ state ≠ dhcpdecline then
      [⟨optionParameterRequestList, parameterReqList⟩,
        ⟨optionVendorClassIdentifier, dhcpClientVendorClassId⟩] else []) ++ [endField]

def requestPacket (c : Client) (ciaddr : UInt32) (mac : Mac) (state : UInt8) : DhcpT :=
  write (c.packetHeader ciaddr mac state) dhcpFixedNonUdp (encode (c.requestFields ciaddr state))

def requestSize (c : Client) (ciaddr : UInt32) (state : UInt8) : ℕ :=
  dhcpFixedNonUdp + (encode (c.requestFields ciaddr state)).length

variable {c : Client} {host : Host} {ciaddr : UInt32} {mac : Mac} {state : UInt8}

theorem constructDhcpPacket_eq (hm : c.getMacAddress host = some mac) (state : UInt8) :
    c.constructDhcpPacket host state =
      .ok (c.requestPacket (c.getIpAddress host) mac state,
        c.requestSize (c.getIpAddress host) state) := by
  have hpair (p : DhcpT) (fields : List Field) :
      packed p (fields ++ [⟨optionParameterRequestList, parameterReqList⟩] ++
          [⟨optionVendorClassIdentifier, dhcpClientVendorClassId⟩]) =
        packed p (fields ++ [⟨optionParameterRequestList, parameterReqList⟩,
          ⟨optionVendorClassIdentifier, dhcpClientVendorClassId⟩]) := by
    rw [List.append_assoc]
    rfl
  simp only [constructDhcpPacket, hm, ← packed_nil (c.packetHeader _ _ _), appendOption_packed,
    packed_append_ite, hpair]
  rfl

theorem requestFields_wellFormed : ∀ f ∈ c.requestFields ciaddr state, f.WellFormed := by
  intro f hf
  simp only [requestFields, List.mem_append, List.mem_singleton] at hf
  rcases hf with (((rfl | hf) | hf) | hf) | rfl
  · exact ⟨show optionDhcpMessageType ≠ 0 by decide, by simp⟩
  · split at hf
    · rw [List.mem_singleton.mp hf]
      exact ⟨show optionDhcpServerIdentifier ≠ 0 by decide, by simp⟩
    · cases hf
  · split at hf
    · rw [List.mem_singleton.mp hf]
      exact ⟨show optionRequestedIp ≠ 0 by decide, by simp⟩
    · cases hf
  · split at hf
    · revert f
      decide
    · cases hf
  · decide

theorem length_encode_ite (P : Prop) [Decidable P] (more : List Field) :
    (encode (if P then more else [])).length ≤ (encode more).length := by
  split
  · exact le_rfl
  · exact Nat.zero_le _

theorem length_requestFields (c : Client) (ciaddr : UInt32) (state : UInt8) :
    (encode (c.requestFields ciaddr state)).length ≤ 39 := by
  have hid := length_encode_ite (state = dhcprequest ∨ state = dhcprelease)
    [⟨optionDhcpServerIdentifier, wordBytes c.dhcpServerIdentifier⟩]
  have hip := length_encode_ite (ciaddr = inaddrAny) [⟨optionRequestedIp, wordBytes c.yiaddr⟩]
  have hlist := length_encode_ite (state ≠ dhcprelease ∧ state ≠ dhcpdecline)
    [⟨optionParameterRequestList, parameterReqList⟩,
      ⟨optionVendorClassIdentifier, dhcpClientVendorClassId⟩]
  simp only [requestFields, encode_append, List.length_append]
  have htype : (encode [⟨optionDhcpMessageType, [state]⟩]).length = 3 := rfl
  have hend : (encode [endField]).length = 3 := rfl
  have hid' : (encode [⟨optionDhcpServerIdentifier, wordBytes c.dhcpServerIdentifier⟩]).length =
    6 := rfl
  have hip' : (encode [⟨optionRequestedIp, wordBytes c.yiaddr⟩]).length = 6 := rfl
  have hlist' : (encode [⟨optionParameterRequestList, parameterReqList⟩,
    ⟨optionVendorClassIdentifier, dhcpClientVendorClassId⟩]).length = 21 := rfl
  omega

end Options

def IsRequest (c : Client) (m : Sent) (ciaddr : UInt32) (mac : Mac) (state : UInt8) : Prop :=
  m.payload = read (c.requestPacket ciaddr mac state) 0 (c.requestSize ciaddr state)

structure ReadsRequest (q : DhcpT) (c : Client) (addr : UInt32) (mac : Mac) (state : UInt8) :
    Prop where
  opcode : q.opcode = bootpMessageTypeRequest
  xid : q.xid = c.xid
  flags : q.flags = requestFlags state
  ciaddr : q.ciaddr = addr
  chaddr : q.chaddr = mac
  carries : Carries q (c.requestFields addr state)

section Header

variable {c : Client} {ciaddr : UInt32} {mac : Mac} {state : UInt8}

theorem packetHeader_opcode : (c.packetHeader ciaddr mac state).opcode = bootpMessageTypeRequest := by
  simp only [packetHeader, DhcpT.opcode]
  repeat rw [write_before (by omega)]
  rfl

theorem packetHeader_xid : (c.packetHeader ciaddr mac state).xid = c.xid := by
  simp only [packetHeader, DhcpT.xid]
  iterate 8 rw [DhcpT.loadWord_write (by simp)]
  exact holds_write.loadWord

theorem packetHeader_flags : (c.packetHeader ciaddr mac state).flags = requestFlags state := by
  have hflags : Holds (c.packetHeader ciaddr mac state) 10 (halfBytes (requestFlags state)) := by
    simp only [packetHeader]
    iterate 6 refine Holds.write ?_ (by simp)
    exact holds_write
  obtain ⟨h₀, h₁, -⟩ := (holds_cons.trans (and_congr_right' holds_cons)).mp hflags
  rw [DhcpT.flags, h₀, h₁]
  unfold requestFlags
  split <;> rfl

theorem packetHeader_ciaddr : (c.packetHeader ciaddr mac state).ciaddr = ciaddr := by
  simp only [packetHeader, DhcpT.ciaddr]
  iterate 5 rw [DhcpT.loadWord_write (by simp)]
  exact holds_write.loadWord

theorem packetHeader_chaddr : (c.packetHeader ciaddr mac state).chaddr = mac := by
  simp only [packetHeader]
  rw [DhcpT.chaddr_write (by simp [hardwareAddressLength])]
  apply Vector.ext
  intro i hi
  have hlen : i < mac.toList.length := by simpa using hi
  simp only [DhcpT.chaddr, Vector.getElem_ofFn, write_at hlen]
  simp

end Header

theorem IsRequest.reads {c : Client} {m : Sent} {ciaddr : UInt32} {mac : Mac} {state : UInt8}
    (h : c.IsRequest m ciaddr mac state) (p : DhcpT) :
    ReadsRequest (p.recvfrom m.payload) c ciaddr mac state := by
  have hlen := c.length_requestFields ciaddr state
  have hsize : c.requestSize ciaddr state =
    240 + (encode (c.requestFields ciaddr state)).length := rfl
  have hbuffer {i : ℕ} (hi : i < c.requestSize ciaddr state) :
      p.recvfrom m.payload i = c.requestPacket ciaddr mac state i :=
    DhcpT.recvfrom_eq (by rw [sizeofDhcpT_eq]; omega) h hi
  have hhead {i : ℕ} (hi : i < dhcpFixedNonUdp) :
      p.recvfrom m.payload i = c.packetHeader ciaddr mac state i := by
    have hi' : i < 240 := hi
    rw [hbuffer (by omega), requestPacket, write_before hi]
  have hword {o : ℕ} (ho : o + 4 ≤ dhcpFixedNonUdp) :
      loadWord (p.recvfrom m.payload) o = loadWord (c.packetHeader ciaddr mac state) o :=
    loadWord_congr fun i hi ↦ hhead (by omega)
  have hfixed : dhcpFixedNonUdp = 240 := rfl
  constructor
  · rw [DhcpT.opcode, hhead (by omega)]
    exact packetHeader_opcode
  · rw [DhcpT.xid, hword (by omega)]
    exact packetHeader_xid
  · rw [DhcpT.flags, hhead (by omega), hhead (by omega)]
    exact packetHeader_flags
  · rw [DhcpT.ciaddr, hword (by omega)]
    exact packetHeader_ciaddr
  · have hbytes (i : Fin hardwareAddressLength) : p.recvfrom m.payload (28 + i) =
        c.packetHeader ciaddr mac state (28 + i) := by
      have hi : i.val < 6 := i.isLt
      exact hhead (by omega)
    have hmac : (c.packetHeader ciaddr mac state).chaddr = mac := packetHeader_chaddr
    rw [← hmac]
    simp only [DhcpT.chaddr, hbytes]
  · refine ⟨requestFields_wellFormed, by rw [dhcpMaxOptionLen_eq]; omega, ?_⟩
    intro i hi
    rw [DhcpT.options, Nat.zero_add, hbuffer (by omega), requestPacket, write_at hi]

theorem IsRequest.not_requested {c : Client} {m : Sent} {ciaddr : UInt32} {mac : Mac} {state : UInt8}
    (h : c.IsRequest m ciaddr mac state) (hc : ciaddr ≠ inaddrAny) :
    getDhcpOption m.packet optionRequestedIp = .ok (0, none) := by
  have hcarries := (h.reads DhcpT.zero).carries
  have hlen := c.length_requestFields ciaddr state
  have hpayload : m.payload.length = 240 + (encode (c.requestFields ciaddr state)).length := by
    rw [h, length_read]
    rfl
  refine hcarries.absent (by rw [dhcpMaxOptionLen_eq]; omega) ?_ ?_
  · rw [DhcpT.options, DhcpT.recvfrom]
    apply write_after
    rw [List.length_take, hpayload]
    simp only [dhcpFixedNonUdp]
    omega
  · intro f hf
    simp only [requestFields, List.mem_append, List.mem_singleton, if_neg hc] at hf
    rcases hf with (((rfl | hf) | hf) | hf) | rfl
    · exact show optionDhcpMessageType ≠ optionRequestedIp from by decide
    · split at hf
      · rw [List.mem_singleton.mp hf]
        exact show optionDhcpServerIdentifier ≠ optionRequestedIp from by decide
      · cases hf
    · cases hf
    · split at hf
      · revert f
        decide
      · cases hf
    · decide

section Sending

variable {c c' : Client} {host : Host} {clientAddr serverAddr : UInt32} {state : UInt8} {m : Sent}

theorem constructDhcpPacket_ok {w : DhcpT × ℕ} (h : c.constructDhcpPacket host state = .ok w) :
    host.getHwaddr ∧ c.IsRequest (c.sendto w) (c.getIpAddress host) c.interface.hwaddr state := by
  have hm : host.getHwaddr := by
    by_contra hm
    rw [constructDhcpPacket, getMacAddress, if_neg hm] at h
    cases h
  have hmac : c.getMacAddress host = some c.interface.hwaddr := if_pos hm
  rw [constructDhcpPacket_eq hmac] at h
  cases h
  exact ⟨hm, rfl⟩

theorem startExchange_ok (h : c.startExchange host clientAddr serverAddr state = .ok (c', m)) :
    c' = (c.drawXid host).changeSocketSetup clientAddr serverAddr ∧
      c'.IsRequest m (c.getIpAddress host) c.interface.hwaddr state := by
  obtain ⟨w, hw, h⟩ := bind_eq_ok.mp h
  cases h
  exact ⟨rfl, (constructDhcpPacket_ok hw).2⟩

theorem startExchange_xid (h : c.startExchange host clientAddr serverAddr state = .ok (c', m)) :
    c'.xid = host.rand := by
  rw [(startExchange_ok h).1]
  rfl

theorem sendRequest_ok (h : c.sendRequest host = .ok m) :
    c.IsRequest m (c.getIpAddress host) c.interface.hwaddr dhcprequest := by
  obtain ⟨w, hw, h⟩ := bind_eq_ok.mp h
  cases h
  exact (constructDhcpPacket_ok hw).2

theorem sendRequest_returns (hm : host.getHwaddr) (c : Client) : ∃ m, c.sendRequest host = .ok m := by
  rw [sendRequest, constructDhcpPacket_eq (if_pos hm)]
  exact ⟨_, rfl⟩

end Sending

end Client

end InternetApplications.Dhcp
