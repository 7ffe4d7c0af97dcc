import InternetApplications.Dhcp.Commitment
import InternetApplications.Dhcp.Independence

namespace InternetApplications.Dhcp

open ByteMemory TagScan Executions LeaseTable Client

def Yields (b : DhcpT) (datagram : List UInt8) (tag : UInt8) (value : List UInt8) : Prop :=
  ∃ o, getDhcpOption b tag = .ok (UInt8.ofNat value.length, some o) ∧ Holds b.options o value ∧
    o + value.length ≤ covered datagram

/-- The options that the server looks up before it writes any. -/
inductive Consults (b : DhcpT) : UInt8 → Prop
  | messageType : Consults b optionDhcpMessageType
  | identifier :
      receivedType b = .ok (some dhcprequest) ∨ receivedType b = .ok (some dhcprelease) →
      Consults b optionDhcpServerIdentifier
  | wish : receivedType b = .ok (some dhcpdiscover) → Consults b optionRequestedIp
  | selection {o : ℕ} :
      receivedType b = .ok (some dhcprequest) → selectedServer b = .ok (some o) →
      b.ciaddr = inaddrAny → Consults b optionRequestedIp
  | report :
      receivedType b = .ok (some dhcpinform) → b.ciaddr = inaddrAny → Consults b optionRequestedIp

theorem Carries.yields {b : DhcpT} {fields : List Field} {f : Field} {datagram : List UInt8}
    {tag : UInt8} (h : Carries b fields) (hcovered : covered datagram = (encode fields).length)
    (hf : fields.find? (fun f ↦ f.tag = tag) = some f) : Yields b datagram tag f.value := by
  obtain ⟨o, hg, hholds, ho⟩ := h.lookup hf
  exact ⟨o, hg, hholds, by omega⟩

theorem covered_payload {payload : List UInt8} {n : ℕ} (h : payload.length = dhcpFixedNonUdp + n)
    (hn : n ≤ dhcpMaxOptionLen) : covered payload = n := by
  have hsize : sizeofDhcpT = dhcpFixedNonUdp + dhcpMaxOptionLen := rfl
  rw [covered, List.length_take]
  omega

namespace Client

variable {b : DhcpT} {c : Client} {m : Sent} {addr : UInt32} {mac : Mac} {state tag : UInt8} {f : Field}

def told (c : Client) (state tag : UInt8) : List UInt8 :=
  if tag = optionDhcpMessageType then [state]
  else if tag = optionDhcpServerIdentifier then wordBytes c.dhcpServerIdentifier
  else wordBytes c.yiaddr

theorem requestFields_type : (c.requestFields addr state).find? (fun f ↦ f.tag = optionDhcpMessageType) =
    some ⟨optionDhcpMessageType, [state]⟩ := rfl

theorem requestFields_identifier (hs : state = dhcprequest ∨ state = dhcprelease) :
    (c.requestFields addr state).find? (fun f ↦ f.tag = optionDhcpServerIdentifier) =
      some ⟨optionDhcpServerIdentifier, wordBytes c.dhcpServerIdentifier⟩ := by
  rw [requestFields, if_pos hs]
  rfl

theorem requestFields_requested (ha : addr = inaddrAny) :
    (c.requestFields addr state).find? (fun f ↦ f.tag = optionRequestedIp) =
      some ⟨optionRequestedIp, wordBytes c.yiaddr⟩ := by
  rw [requestFields, if_pos ha]
  by_cases hs : state = dhcprequest ∨ state = dhcprelease
  · rw [if_pos hs]
    rfl
  · rw [if_neg hs]
    rfl

theorem IsRequest.covered_eq (h : c.IsRequest m addr mac state) :
    covered m.payload = (encode (c.requestFields addr state)).length := by
  have hlen := c.length_requestFields addr state
  exact covered_payload (by rw [h, length_read, requestSize]) (by rw [dhcpMaxOptionLen_eq]; omega)

/-- Whatever option the server consults, it finds what the client told. -/
theorem ReadsRequest.yields (h : ReadsRequest b c addr mac state)
    (hcovered : covered m.payload = (encode (c.requestFields addr state)).length)
    (hdiscover : state = dhcpdiscover → addr = inaddrAny) (ht : Consults b tag) :
    Yields b m.payload tag (c.told state tag) := by
  have htype {type : UInt8} (hr : Dhcp.receivedType b = .ok (some type)) : state = type := by
    cases h.receivedType.symm.trans hr
    rfl
  cases ht with
  | messageType => exact h.carries.yields hcovered requestFields_type
  | identifier hr => exact h.carries.yields hcovered (requestFields_identifier (hr.imp htype htype))
  | wish hr => exact h.carries.yields hcovered (requestFields_requested (hdiscover (htype hr)))
  | selection _ _ hc | report _ hc =>
    exact h.carries.yields hcovered (requestFields_requested (h.ciaddr.symm.trans hc))

theorem IsRequest.found (h : c.IsRequest m addr mac state)
    (hf : (c.requestFields addr state).find? (fun f ↦ f.tag = tag) = some f) :
    ∃ q, search (clean m.payload).options (covered m.payload) tag 0 = .found q ∧
      q + 2 + f.value.length ≤ covered m.payload := by
  have hcovered := h.covered_eq
  obtain ⟨q, hs, -, hq⟩ :
      ∃ q, search (clean m.payload).options (covered m.payload) tag 0 = .found q ∧ _ :=
    search_first requestFields_wellFormed (h.reads DhcpT.zero).carries.holds (by omega) hf
  rw [Field.length_bytes] at hq
  exact ⟨q, hs, by omega⟩

theorem IsRequest.wordReceived {P : UInt8 → Prop} {w : UInt32} (h : c.IsRequest m addr mac state)
    (hf : (c.requestFields addr state).find? (fun f ↦ f.tag = tag) = some ⟨tag, wordBytes w⟩) :
    WordReceived P (clean m.payload).options (covered m.payload) tag := by
  obtain ⟨q, hs, hq⟩ := h.found hf
  rw [length_wordBytes] at hq
  refine ⟨by simp [hs], fun q' hq' ↦ ?_⟩
  cases hs.symm.trans hq'
  exact ⟨by omega, fun _ ↦ .inl (by omega)⟩

theorem IsRequest.independent (h : c.IsRequest m addr mac state)
    (hdiscover : state = dhcpdiscover → addr = inaddrAny) : Independent m.payload := by
  have hreads : ReadsRequest (clean m.payload) c addr mac state := h.reads DhcpT.zero
  have htype {type : UInt8} (hr : receivedType (clean m.payload) = .ok (some type)) :
      state = type := by
    cases hreads.receivedType.symm.trans hr
    rfl
  have hlen : dhcpFixedNonUdp ≤ m.payload.length := by
    rw [h, length_read]
    exact Nat.le_add_right _ _
  have hreceived : TypeReceived m.payload := h.found requestFields_type
  refine Determined.independent ⟨?_, ?_, ?_, ?_⟩ hreceived hlen
  · intro hr
    exact h.wordReceived (requestFields_requested (hdiscover (htype hr)))
  · intro hr
    exact h.wordReceived (requestFields_identifier (hr.imp htype htype))
  · intro _ _ hc
    exact h.wordReceived (requestFields_requested (hreads.ciaddr.symm.trans hc))
  · intro _ hc
    exact h.found (requestFields_requested (hreads.ciaddr.symm.trans hc))

end Client

def lookedUp (type : UInt8) : List Field :=
  [⟨optionDhcpMessageType, [type]⟩, ⟨optionDhcpServerIdentifier, wordBytes dhcpServerIpAddress⟩,
    ⟨optionSubnetMask, wordBytes subnetMask⟩, ⟨optionRouter, wordBytes routerIpAddress⟩,
    ⟨optionIpAddressLeaseTime, wordBytes (UInt32.ofNat ipAddressLeaseTime)⟩,
    ⟨optionIpT1RenewalTime, wordBytes (UInt32.ofNat t1RenewalTime)⟩,
    ⟨optionIpT2RebindTime, wordBytes (UInt32.ofNat t2RebindTime)⟩]

section Replies

variable {b : DhcpT} {m : Sent} {type : UInt8} {y : UInt32} {s s' : Server} {i : Input}

theorem lookedUp_first (htype : type = dhcpoffer ∨ type = dhcpack) :
    ∀ f ∈ lookedUp type, (replyFields type true).find? (fun g ↦ g.tag = f.tag) = some f := by
  rcases htype with rfl | rfl
  · decide
  · decide

theorem Answers.yields (h : Answers b m type y) (htype : type = dhcpoffer ∨ type = dhcpack)
    (ho : getDhcpOption b optionDhcpMessageType = .ok (1, some 2)) (p : DhcpT) :
    ∀ f ∈ lookedUp type, Yields (p.recvfrom m.payload) m.payload f.tag f.value := by
  have hinform : type ≠ dhcpinform := by
    rcases htype with rfl | rfl
    · decide
    · decide
  have hreply := h.isReply ho hinform
  have hlen := length_replyFields type true
  have hcovered : covered m.payload = (encode (replyFields type true)).length :=
    covered_payload (by rw [hreply, length_read, replySize]) (by rw [dhcpMaxOptionLen_eq]; omega)
  intro f hf
  exact (hreply.reads p).carries.yields hcovered (lookedUp_first htype f hf)

/-- A non-empty reply other than a refusal, to a discover or a request, is an offer or an
acknowledgement that the client can read. -/
theorem mainLoop_yields (hreads : receivedType (s.received i) = .ok (some dhcpdiscover) ∨
      receivedType (s.received i) = .ok (some dhcprequest))
    (ho : getDhcpOption (s.received i) optionDhcpMessageType = .ok (1, some 2))
    (h : mainLoop s i = .ok (s', some m)) (hne : m.payload ≠ [])
    (hnak : m.messageType ≠ some dhcpnak) : ∃ type, (type = dhcpoffer ∨ type = dhcpack) ∧
      ∀ p : DhcpT, ∀ f ∈ lookedUp type, Yields (p.recvfrom m.payload) m.payload f.tag f.value := by
  rcases hreads with htype | htype
  · have hdiscovered := mainLoop_discovered htype h
    generalize s'.table = t at hdiscovered
    cases hdiscovered with
    | requested _ ha | allocated _ _ _ ha => exact ⟨dhcpoffer, .inl rfl, ha.yields (.inl rfl) ho⟩
    | exhausted _ _ _ he => exact absurd he hne
  · have hrequested := mainLoop_requested htype h
    generalize s'.table = t at hrequested
    cases hrequested with
    | refused _ _ ha => exact absurd ha.messageType hnak
    | selected _ _ _ _ _ ha | renewed _ _ _ _ ha => exact ⟨dhcpack, .inr rfl, ha.yields (.inr rfl) ho⟩

end Replies

/-- What the client builds the server reads, and what the server answers the client reads, over any
leftovers in either buffer. -/
theorem wire_agreement {c : Client} {host : Host} {state : UInt8} {w : DhcpT × ℕ}
    (hstate : state = dhcpdiscover ∧ c.getIpAddress host = inaddrAny ∨ state = dhcprequest ∨
      state = dhcprelease ∨ state = dhcpinform)
    (hw : c.constructDhcpPacket host state = .ok w) :
    (∀ (p : DhcpT) (tag : UInt8), Consults (p.recvfrom (c.sendto w).payload) tag →
      Yields (p.recvfrom (c.sendto w).payload) (c.sendto w).payload tag (c.told state tag)) ∧
    Independent (c.sendto w).payload ∧
    ∀ (s s' : Server) (env : Env) (m : Sent), state = dhcpdiscover ∨ state = dhcprequest →
      mainLoop s ⟨env, (c.sendto w).payload⟩ = .ok (s', some m) →
      m.payload ≠ [] → m.messageType ≠ some dhcpnak →
      ∃ type, (type = dhcpoffer ∨ type = dhcpack) ∧ ∀ p : DhcpT, ∀ f ∈ lookedUp type,
        Yields (p.recvfrom m.payload) m.payload f.tag f.value := by
  obtain ⟨-, hrequest⟩ := Client.constructDhcpPacket_ok hw
  have hdiscover : state = dhcpdiscover → c.getIpAddress host = inaddrAny := by
    rintro rfl
    rcases hstate with ⟨-, ha⟩ | h | h | h
    · exact ha
    · exact absurd h (by decide)
    · exact absurd h (by decide)
    · exact absurd h (by decide)
  refine ⟨fun p tag ↦ (hrequest.reads p).yields hrequest.covered_eq hdiscover,
    hrequest.independent hdiscover, ?_⟩
  intro s s' env m hkind hstep hne hnak
  have hreads : ReadsRequest (s.received ⟨env, (c.sendto w).payload⟩) c (c.getIpAddress host)
      c.interface.hwaddr state := hrequest.reads s.dhcpRecv
  refine mainLoop_yields ?_ hreads.messageType.1 hstep hne hnak
  rcases hkind with rfl | rfl
  · exact .inl hreads.receivedType
  · exact .inr hreads.receivedType

theorem wire_agreement_request : ∃ w,
    (Client.dhcpSetup ⟨clientA, 0⟩).constructDhcpPacket (quietHost 0 7) dhcprequest = .ok w ∧
      Independent ((Client.dhcpSetup ⟨clientA, 0⟩).sendto w).payload := by
  have hw := Client.constructDhcpPacket_eq (c := Client.dhcpSetup ⟨clientA, 0⟩)
    (show (Client.dhcpSetup ⟨clientA, 0⟩).getMacAddress (quietHost 0 7) = some clientA from rfl)
    dhcprequest
  exact ⟨_, hw, (wire_agreement (.inr (.inl rfl)) hw).2.1⟩

end InternetApplications.Dhcp
