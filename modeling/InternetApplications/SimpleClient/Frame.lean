import InternetApplications.SimpleClient.Checksum

namespace InternetApplications.SimpleClient

open ByteMemory TagScan Executions
open Dhcp (Fault)

def dhcpChaddrLen : ℕ := 16

def dhcpBootrequest : UInt8 := 1
def dhcpHardwareType10Ehthernet : UInt8 := 1

def messageTypeReqSubnetMask : UInt8 := 1
def messageTypeRouter : UInt8 := 3
def messageTypeDns : UInt8 := 6
def messageTypeDomainName : UInt8 := 15
def messageTypeReqIp : UInt8 := 50
def messageTypeDhcp : UInt8 := 53
def messageTypeParameterReqList : UInt8 := 55
def messageTypeEnd : UInt8 := 255

def dhcpOptionDiscover : UInt8 := 1
def dhcpOptionOffer : UInt8 := 2

def dhcpServerPort : UInt16 := 67
def dhcpClientPort : UInt16 := 68
def dhcpMagicCookie : UInt32 := 0x63825363

def etherAddrLen : ℕ := 6
def ethertypeIp : UInt16 := 0x0800
def ipprotoUdp : UInt8 := 17

def sizeofEtherHeader : ℕ := 14
def sizeofIp : ℕ := 20
def sizeofUdphdr : ℕ := 8
def sizeofDhcpT : ℕ := 240

/-- What stands at `mac`: the six bytes of the array of `main` and the ten behind it. -/
abbrev MacBytes := Vector UInt8 dhcpChaddrLen

def fillDhcpOption (packet : Memory) (start : ℕ) (code : UInt8) (data : List UInt8) : Memory × ℕ :=
  (write packet start (Field.bytes ⟨code, data⟩), data.length + 2)

def fillDhcpDiscoveryOptions (o : ByteOrder) (packet : Memory) (dhcp : ℕ) : Memory × ℕ :=
  let bpOptions := dhcp + sizeofDhcpT
  let len := 0
  let (packet, size) := fillDhcpOption packet (bpOptions + len) messageTypeDhcp [dhcpOptionDiscover]
  let len := len + size
  let reqIp := o.storeWord (o.htonl 0xC0A8010A)
  let (packet, size) := fillDhcpOption packet (bpOptions + len) messageTypeReqIp reqIp
  let len := len + size
  let (packet, size) := fillDhcpOption packet (bpOptions + len) messageTypeParameterReqList
    [messageTypeReqSubnetMask, messageTypeRouter, messageTypeDns, messageTypeDomainName]
  let len := len + size
  let (packet, size) := fillDhcpOption packet (bpOptions + len) messageTypeEnd [0]
  (packet, len + size)

def dhcpOutput (o : ByteOrder) (packet : Memory) (dhcp : ℕ) (mac : MacBytes) (len : ℕ) :
    Memory × ℕ :=
  let packet := write packet dhcp (List.replicate sizeofDhcpT 0)
  let packet := write packet dhcp [dhcpBootrequest]
  let packet := write packet (dhcp + 1) [dhcpHardwareType10Ehthernet]
  let packet := write packet (dhcp + 2) [6]
  let packet := write packet (dhcp + 28) mac.toList
  (write packet (dhcp + 236) (o.storeWord (o.htonl dhcpMagicCookie)), len + sizeofDhcpT)

def udpOutput (o : ByteOrder) (packet : Memory) (udpHeader : ℕ) (len : ℕ) : Memory × ℕ :=
  let len := if len % 2 = 1 then len + 1 else len
  let len := len + sizeofUdphdr
  let packet := write packet udpHeader (o.storeHalf (o.htons dhcpClientPort))
  let packet := write packet (udpHeader + 2) (o.storeHalf (o.htons dhcpServerPort))
  let packet := write packet (udpHeader + 4) (o.storeHalf (o.htons (UInt16.ofNat len)))
  (write packet (udpHeader + 6) (o.storeHalf 0), len)

/-- Both halves of the first byte are written, and `ip_id` gets the low half of a long word. -/
def ipOutput (o : ByteOrder) (packet : Memory) (ipHeader : ℕ) (len : ℕ) :
    Except Fault (Memory × ℕ) := do
  let len := len + sizeofIp
  let packet := write packet ipHeader [4 * 16 + 5]
  let packet := write packet (ipHeader + 1) [0x10]
  let packet := write packet (ipHeader + 2) (o.storeHalf (o.htons (UInt16.ofNat len)))
  let packet := write packet (ipHeader + 4) (o.storeHalf (o.htonl 0xFFFF).toUInt16)
  let packet := write packet (ipHeader + 6) (o.storeHalf 0)
  let packet := write packet (ipHeader + 8) [16]
  let packet := write packet (ipHeader + 9) [ipprotoUdp]
  let packet := write packet (ipHeader + 10) (o.storeHalf 0)
  let packet := write packet (ipHeader + 12) (o.storeWord 0)
  let packet := write packet (ipHeader + 16) (o.storeWord 0xFFFFFFFF)
  let ipSum ← inCksum o (read packet ipHeader sizeofIp)
  return (write packet (ipHeader + 10) (o.storeHalf ipSum), len)

def etherOutput (o : ByteOrder) (packet : Memory) (mac : MacBytes) (len : ℕ) : List UInt8 :=
  let packet := write packet 6 (mac.toList.take etherAddrLen)
  let packet := write packet 0 (List.replicate etherAddrLen 0xFF)
  let packet := write packet 12 (o.storeHalf (o.htons ethertypeIp))
  read packet 0 (len + sizeofEtherHeader)

def dhcpDiscovery (o : ByteOrder) (packet : Memory) (mac : MacBytes) :
    Except Fault (List UInt8) := do
  let ipHeader := sizeofEtherHeader
  let udpHeader := ipHeader + sizeofIp
  let dhcp := udpHeader + sizeofUdphdr
  let (packet, len) := fillDhcpDiscoveryOptions o packet dhcp
  let (packet, len) := dhcpOutput o packet dhcp mac len
  let (packet, len) := udpOutput o packet udpHeader len
  let (packet, len) ← ipOutput o packet ipHeader len
  return etherOutput o packet mac len

def discoveryFields : List Field :=
  [⟨messageTypeDhcp, [dhcpOptionDiscover]⟩, ⟨messageTypeReqIp, wordBytes 0xC0A8010A⟩,
    ⟨messageTypeParameterReqList,
      [messageTypeReqSubnetMask, messageTypeRouter, messageTypeDns, messageTypeDomainName]⟩,
    ⟨messageTypeEnd, [0]⟩]

def bootpHeader (mac : MacBytes) : List UInt8 :=
  [dhcpBootrequest, dhcpHardwareType10Ehthernet, 6] ++ List.replicate 25 0 ++ mac.toList ++
    List.replicate 192 0 ++ wordBytes dhcpMagicCookie

def udpHeaderBytes (len : ℕ) : List UInt8 :=
  halfBytes dhcpClientPort ++ halfBytes dhcpServerPort ++ halfBytes (UInt16.ofNat len) ++ [0, 0]

def ipHeaderBytes (o : ByteOrder) (len : ℕ) (ipSum : List UInt8) : List UInt8 :=
  [0x45, 0x10] ++ halfBytes (UInt16.ofNat len) ++ o.storeHalf (o.htonl 0xFFFF).toUInt16 ++
    [0, 0, 16, ipprotoUdp] ++ ipSum ++ [0, 0, 0, 0, 0xFF, 0xFF, 0xFF, 0xFF]

def etherHeaderBytes (mac : MacBytes) : List UInt8 :=
  List.replicate etherAddrLen 0xFF ++ mac.toList.take etherAddrLen ++ halfBytes ethertypeIp

def discoveryFrame (o : ByteOrder) (mac : MacBytes) : List UInt8 :=
  etherHeaderBytes mac ++ (ipHeaderBytes o 286 [0xA9, 0xC0] ++ (udpHeaderBytes 266 ++
    (bootpHeader mac ++ encode discoveryFields)))

section Headers

variable (o : ByteOrder) (packet : Memory) (mac : MacBytes) (len : ℕ)

theorem fillDhcpDiscoveryOptions_eq (dhcp : ℕ) : fillDhcpDiscoveryOptions o packet dhcp =
    (write packet (dhcp + sizeofDhcpT) (encode discoveryFields), 18) := by
  have hfields : encode discoveryFields = Field.bytes ⟨messageTypeDhcp, [dhcpOptionDiscover]⟩ ++
      Field.bytes ⟨messageTypeReqIp, wordBytes 0xC0A8010A⟩ ++
      Field.bytes ⟨messageTypeParameterReqList,
        [messageTypeReqSubnetMask, messageTypeRouter, messageTypeDns, messageTypeDomainName]⟩ ++
      Field.bytes ⟨messageTypeEnd, [0]⟩ := rfl
  rw [hfields, ← write_append, ← write_append, ← write_append, fillDhcpDiscoveryOptions,
    o.storeWord_htonl]
  rfl

theorem length_mac : mac.toList.length = 16 := Vector.length_toList

theorem dhcpOutput_eq (dhcp : ℕ) : dhcpOutput o packet dhcp mac len =
    (write packet dhcp (bootpHeader mac), len + sizeofDhcpT) := by
  have hmac := length_mac mac
  have hopcode : write (write packet dhcp (List.replicate sizeofDhcpT 0)) dhcp [dhcpBootrequest] =
      write packet dhcp (dhcpBootrequest :: List.replicate 239 0) := by
    have h : write (write packet dhcp (List.replicate sizeofDhcpT 0)) (dhcp + 0)
      [dhcpBootrequest] = _ := write_within (by simp [sizeofDhcpT, -List.reduceReplicate])
    simpa [sizeofDhcpT, -List.reduceReplicate] using h
  have hfixed : write (write (write packet dhcp (dhcpBootrequest :: List.replicate 239 0)) (dhcp + 1)
      [dhcpHardwareType10Ehthernet]) (dhcp + 2) [6] = write packet dhcp
        ([dhcpBootrequest, dhcpHardwareType10Ehthernet, 6] ++ List.replicate 237 0) := by
    rw [write_within (by simp [-List.reduceReplicate]), write_within (by simp [-List.reduceReplicate])]
    simp [-List.reduceReplicate]
  have hchaddr : write (write packet dhcp ([dhcpBootrequest, dhcpHardwareType10Ehthernet, 6] ++
      List.replicate 237 0)) (dhcp + 28) mac.toList =
        write packet dhcp (([dhcpBootrequest, dhcpHardwareType10Ehthernet, 6] ++
          List.replicate 25 0 ++ mac.toList) ++ List.replicate 196 0) := by
    rw [write_within (by simp [hmac, -List.reduceReplicate]), hmac]
    simp [-List.reduceReplicate]
  have hcookie : write (write packet dhcp (([dhcpBootrequest, dhcpHardwareType10Ehthernet, 6] ++
      List.replicate 25 0 ++ mac.toList) ++ List.replicate 196 0)) (dhcp + 236)
        (wordBytes dhcpMagicCookie) = write packet dhcp (bootpHeader mac) := by
    have hfront : ([dhcpBootrequest, dhcpHardwareType10Ehthernet, 6] ++ List.replicate 25 0 ++
        mac.toList).length = 44 := by simp [hmac, -List.reduceReplicate]
    rw [write_within (by simp [hmac, -List.reduceReplicate]), List.take_append, List.drop_append, hfront,
      List.take_of_length_le (by omega), List.drop_of_length_le (by simp [hmac, -List.reduceReplicate]), bootpHeader]
    simp [-List.reduceReplicate]
  rw [dhcpOutput, o.storeWord_htonl, hopcode, hfixed, hchaddr, hcookie]

theorem udpOutput_eq (heven : len % 2 = 0) (udpHeader : ℕ) : udpOutput o packet udpHeader len =
    (write packet udpHeader (udpHeaderBytes (len + sizeofUdphdr)), len + sizeofUdphdr) := by
  have hzero : o.storeHalf 0 = [0, 0] := by cases o <;> rfl
  rw [udpOutput, if_neg (by omega), udpHeaderBytes, ← write_append, ← write_append, ← write_append,
    o.storeHalf_htons, o.storeHalf_htons, o.storeHalf_htons, hzero]
  rfl

theorem ipOutput_eq {c : UInt16} (hc : inCksum o (ipHeaderBytes o (len + sizeofIp) [0, 0]) = .ok c)
    (ipHeader : ℕ) : ipOutput o packet ipHeader len =
      .ok (write packet ipHeader (ipHeaderBytes o (len + sizeofIp) (o.storeHalf c)),
        len + sizeofIp) := by
  have hzero : o.storeHalf 0 = [0, 0] := by cases o <;> rfl
  have hsrc : o.storeWord 0 = [0, 0, 0, 0] := by cases o <;> rfl
  have hdst : o.storeWord 0xFFFFFFFF = [0xFF, 0xFF, 0xFF, 0xFF] := by cases o <;> rfl
  have hid : ∃ a b, o.storeHalf (o.htonl 0xFFFF).toUInt16 = [a, b] := by
    cases o with
    | little => exact ⟨_, _, rfl⟩
    | big => exact ⟨_, _, rfl⟩
  have hsum : ∃ a b, o.storeHalf c = [a, b] := by
    cases o with
    | little => exact ⟨_, _, rfl⟩
    | big => exact ⟨_, _, rfl⟩
  obtain ⟨a, b, hid⟩ := hid
  obtain ⟨d, e, hsum⟩ := hsum
  have hfields : ipHeaderBytes o (len + sizeofIp) [0, 0] = [4 * 16 + 5] ++ [0x10] ++
      halfBytes (UInt16.ofNat (len + sizeofIp)) ++ [a, b] ++ [0, 0] ++ [16] ++ [ipprotoUdp] ++ [0, 0] ++
        [0, 0, 0, 0] ++ [0xFF, 0xFF, 0xFF, 0xFF] := by
    rw [ipHeaderBytes, hid]
    rfl
  have hlength : (ipHeaderBytes o (len + sizeofIp) [0, 0]).length = sizeofIp := by
    rw [hfields]
    rfl
  have hread : read (write packet ipHeader (ipHeaderBytes o (len + sizeofIp) [0, 0])) ipHeader
      sizeofIp = ipHeaderBytes o (len + sizeofIp) [0, 0] := by
    rw [← hlength]
    exact holds_write.read
  have hsummed : write (write packet ipHeader (ipHeaderBytes o (len + sizeofIp) [0, 0]))
      (ipHeader + 10) [d, e] = write packet ipHeader (ipHeaderBytes o (len + sizeofIp) [d, e]) := by
    rw [write_within (by rw [hlength]; exact Nat.le_of_ble_eq_true rfl), ipHeaderBytes,
      ipHeaderBytes, hid]
    rfl
  rw [hfields] at hc
  rw [hfields, ← write_append, ← write_append, ← write_append, ← write_append, ← write_append,
    ← write_append, ← write_append, ← write_append, ← write_append] at hread hsummed
  rw [ipOutput, hid, hzero, hsrc, hdst, o.storeHalf_htons, hsum, ← hsummed]
  refine bind_eq_ok.mpr ⟨c, (congrArg (inCksum o) hread).trans hc, ?_⟩
  rw [hsum]
  rfl

theorem etherOutput_eq : etherOutput o packet mac len =
    read (write packet 0 (etherHeaderBytes mac)) 0 (len + sizeofEtherHeader) := by
  have hmac : (mac.toList.take etherAddrLen).length = 6 := by
    rw [List.length_take, length_mac]
    rfl
  have hfront : (List.replicate etherAddrLen 0xFF ++ mac.toList.take etherAddrLen).length = 12 := by
    rw [List.length_append, hmac]
    rfl
  have haddr : write (write packet 6 (mac.toList.take etherAddrLen)) 0
      (List.replicate etherAddrLen 0xFF) = write packet 0
        (List.replicate etherAddrLen 0xFF ++ mac.toList.take etherAddrLen) := by
    rw [write_comm (.inr (Nat.le_refl 6))]
    exact write_append
  have htype : write (write packet 0 (List.replicate etherAddrLen 0xFF ++
    mac.toList.take etherAddrLen)) _ (halfBytes ethertypeIp) = _ := write_append
  rw [hfront] at htype
  rw [etherOutput, haddr, o.storeHalf_htons, etherHeaderBytes, ← htype]

end Headers

section Discovery

variable (o : ByteOrder) (packet : Memory) (mac : MacBytes)

theorem length_etherHeaderBytes : (etherHeaderBytes mac).length = sizeofEtherHeader := by
  rw [etherHeaderBytes, List.length_append, List.length_append, List.length_take, length_mac]
  rfl

theorem length_bootpHeader : (bootpHeader mac).length = sizeofDhcpT := by
  simp only [bootpHeader, List.length_append, List.length_replicate, length_mac]
  rfl

theorem inCksum_discovery : inCksum o (ipHeaderBytes o (266 + sizeofIp) [0, 0]) =
    .ok (UInt16.ofNat (o.turn 0xA9C0)) := by
  cases o with
  | little => decide
  | big => decide

/-- Whatever the array held, the same bytes are sent. -/
theorem dhcpDiscovery_eq : dhcpDiscovery o packet mac = .ok (discoveryFrame o mac) := by
  have hip (packet : Memory) : ipOutput o packet sizeofEtherHeader 266 =
      .ok (write packet sizeofEtherHeader (ipHeaderBytes o 286 [0xA9, 0xC0]), 286) := by
    have hsum : o.storeHalf (UInt16.ofNat (o.turn 0xA9C0)) = [0xA9, 0xC0] := by cases o <;> rfl
    rw [ipOutput_eq o packet 266 (inCksum_discovery o), hsum]
    rfl
  have hether : (etherHeaderBytes mac).length = 14 := length_etherHeaderBytes mac
  have hbootp : (bootpHeader mac).length = 240 := length_bootpHeader mac
  have hudp : (udpHeaderBytes 266).length = 8 := rfl
  have hip_length : (ipHeaderBytes o 286 [0xA9, 0xC0]).length = 20 := by cases o <;> rfl
  have hlength : (discoveryFrame o mac).length = 300 := by
    rw [discoveryFrame, List.length_append, hether, List.length_append, hip_length,
      List.length_append, List.length_append, hbootp]
    rfl
  have hframe : Holds (write (write (write (write (write packet 282 (encode discoveryFields)) 42
      (bootpHeader mac)) 34 (udpHeaderBytes 266)) 14 (ipHeaderBytes o 286 [0xA9, 0xC0])) 0
        (etherHeaderBytes mac)) 0 (discoveryFrame o mac) := by
    rw [discoveryFrame, holds_append, hether, holds_append, hip_length, holds_append, hudp,
      holds_append, hbootp]
    refine ⟨holds_write, holds_write.write ?_, (holds_write.write ?_).write ?_,
      ((holds_write.write ?_).write ?_).write ?_, (((holds_write.write ?_).write ?_).write ?_).write ?_⟩
    all_goals omega
  have houtput : dhcpDiscovery o packet mac = ipOutput o (write (write (write packet 282
      (encode discoveryFields)) 42 (bootpHeader mac)) 34 (udpHeaderBytes 266)) sizeofEtherHeader 266 >>=
        fun p ↦ .ok (etherOutput o p.1 mac p.2) := by
    rw [dhcpDiscovery, fillDhcpDiscoveryOptions_eq]
    simp only
    rw [dhcpOutput_eq]
    simp only
    rw [udpOutput_eq _ _ _ rfl]
    rfl
  rw [houtput, hip, ok_bind, etherOutput_eq]
  have hread := hframe.read
  rw [hlength] at hread
  exact congrArg Except.ok hread

theorem discoveryFrame_split : discoveryFrame o mac =
    (etherHeaderBytes mac ++ [0x45, 0x10, 1, 30]) ++ (o.storeHalf (o.htonl 0xFFFF).toUInt16 ++
      ([0, 0, 16, ipprotoUdp, 0xA9, 0xC0, 0, 0, 0, 0, 0xFF, 0xFF, 0xFF, 0xFF] ++ (udpHeaderBytes 266 ++
        (bootpHeader mac ++ encode discoveryFields)))) := by
  rw [discoveryFrame, List.append_assoc]
  cases o <;> rfl

theorem ipId_eq : o.storeHalf (o.htonl 0xFFFF).toUInt16 =
    match o with
    | .little => [0, 0]
    | .big => [0xFF, 0xFF] := by
  cases o <;> rfl

variable {o packet mac} {o' : ByteOrder} {mac' : MacBytes}

theorem bootpHeader_inj (h : bootpHeader mac = bootpHeader mac') : mac = mac' := by
  simp only [bootpHeader, List.append_assoc] at h
  have hmac := List.append_cancel_left (List.append_cancel_left h)
  have hlen : mac.toList.length = mac'.toList.length := by rw [length_mac, length_mac]
  exact Vector.toList_inj.mp (List.append_inj hmac hlen).1

theorem discoveryFrame_inj (h : discoveryFrame o mac = discoveryFrame o' mac') :
    o = o' ∧ mac = mac' := by
  have hether : (etherHeaderBytes mac).length = (etherHeaderBytes mac').length := by
    rw [length_etherHeaderBytes, length_etherHeaderBytes]
  have hlength (o : ByteOrder) : (o.storeHalf (o.htonl 0xFFFF).toUInt16).length = 2 := by
    cases o <;> rfl
  rw [discoveryFrame_split, discoveryFrame_split] at h
  obtain ⟨-, h⟩ := List.append_inj h (by rw [List.length_append, List.length_append, hether])
  obtain ⟨hid, h⟩ := List.append_inj h (by rw [hlength, hlength])
  have hbytes := List.append_cancel_left (List.append_cancel_left h)
  constructor
  · rw [ipId_eq, ipId_eq] at hid
    cases o with
    | little => cases o' with
      | little => rfl
      | big => simp at hid
    | big => cases o' with
      | little => simp at hid
      | big => rfl
  · exact bootpHeader_inj (List.append_inj hbytes (by rw [length_bootpHeader, length_bootpHeader])).1

theorem getElem?_middle {pre a b post : List UInt8} {i : ℕ} (hlen : a.length = b.length)
    (hi : i < pre.length ∨ pre.length + a.length ≤ i) :
    (pre ++ (a ++ post))[i]? = (pre ++ (b ++ post))[i]? := by
  rcases hi with hlt | hge
  · rw [List.getElem?_append_left hlt, List.getElem?_append_left hlt]
  · rw [List.getElem?_append_right (by omega), List.getElem?_append_right (by omega),
      List.getElem?_append_right (by omega), List.getElem?_append_right (by omega), hlen]

/-- Machines of both byte orders send the same, but for `ip_id`. -/
theorem discoveryFrame_order {i : ℕ} (h₀ : i ≠ 18) (h₁ : i ≠ 19) :
    (discoveryFrame o' mac)[i]? = (discoveryFrame o mac)[i]? := by
  have hether := length_etherHeaderBytes mac
  have hfront : (etherHeaderBytes mac ++ [0x45, 0x10, 1, 30]).length = 18 := by
    rw [List.length_append, hether]
    rfl
  have hlength (o : ByteOrder) : (o.storeHalf (o.htonl 0xFFFF).toUInt16).length = 2 := by
    cases o <;> rfl
  rw [discoveryFrame_split, discoveryFrame_split]
  exact getElem?_middle (by rw [hlength, hlength]) (by rw [hfront, hlength]; omega)

/-- The discovery is sent whatever stands in the array, all machines accept its IP header, and it
shows the sixteen bytes at `mac` and, in `ip_id` alone, the byte order of the machine. -/
theorem discovery_shows (o : ByteOrder) (packet : Memory) (mac : MacBytes) :
    ∃ frame, dhcpDiscovery o packet mac = .ok frame ∧
      (∀ o', inCksum o' ((frame.drop sizeofEtherHeader).take sizeofIp) = .ok 0) ∧
      ∀ o' packet' mac' frame', dhcpDiscovery o' packet' mac' = .ok frame' →
        (frame' = frame ↔ o' = o ∧ mac' = mac) ∧
        (mac' = mac → ∀ i, i ≠ 18 → i ≠ 19 → frame'[i]? = frame[i]?) := by
  refine ⟨_, dhcpDiscovery_eq o packet mac, fun o' ↦ ?_, ?_⟩
  · have hip : ((discoveryFrame o mac).drop sizeofEtherHeader).take sizeofIp =
        ipHeaderBytes o 286 [0xA9, 0xC0] := by
      have hlength : (ipHeaderBytes o 286 [0xA9, 0xC0]).length = sizeofIp := by cases o <;> rfl
      rw [discoveryFrame, List.drop_left' (length_etherHeaderBytes mac), List.take_left' hlength]
    rw [hip]
    cases o <;> cases o' <;> decide
  · intro o' packet' mac' frame' h
    rw [dhcpDiscovery_eq] at h
    cases h
    refine ⟨⟨discoveryFrame_inj, ?_⟩, ?_⟩
    · rintro ⟨rfl, rfl⟩
      rfl
    · rintro rfl i h₀ h₁
      exact discoveryFrame_order h₀ h₁

end Discovery

end InternetApplications.SimpleClient
