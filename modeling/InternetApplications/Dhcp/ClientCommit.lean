import InternetApplications.Dhcp.ClientPacket
import InternetApplications.Dhcp.ClientStep
import InternetApplications.Dhcp.Received
import InternetApplications.Dhcp.ServerAnswer

namespace InternetApplications.Dhcp

open ByteMemory TagScan Executions Client

/-- The first datagram that answers the transaction, as the buffer shows it, with the packet in the
buffer and the deliveries after it. -/
def firstReply (xid : UInt32) (buffer : DhcpT) :
    List Delivery → Option (Delivery × DhcpT × List Delivery)
  | [] => none
  | d :: rest =>
    let p := buffer.recvfrom d.datagram
    if p.opcode = bootpMessageTypeReply ∧ p.xid = xid then some (d, p, rest)
    else firstReply xid p rest

def typeRead (value : OptionValue) (dhcp : DhcpT) : Except Fault UInt8 := do
  let (_, value) ← lookupOption value dhcp optionDhcpMessageType
  pointedByte value

def identifierRead (dhcp : DhcpT) : Except Fault (OptionValue × UInt32) := do
  let (_, value) ← lookupOption none dhcp optionDhcpServerIdentifier
  let identifier ← pointedWord value
  return (value, identifier)

def AckFirst (xid : UInt32) (buffer : DhcpT) (deliveries : List Delivery) : Prop :=
  ∀ ack p rest, firstReply xid buffer deliveries = some (ack, p, rest) →
    typeRead none p = .ok dhcpnak ∨ HasOption ack.datagram optionDhcpMessageType [dhcpack]

/-- The acknowledgement and the offer, from which this identifier is read, belong together. -/
structure AckOfOffer (offer ack : Delivery) (identifier : UInt32) : Prop where
  offered : HasOption offer.datagram optionDhcpMessageType [dhcpoffer]
  acked : HasOption ack.datagram optionDhcpMessageType [dhcpack]
  yiaddr : (clean ack.datagram).yiaddr = (clean offer.datagram).yiaddr
  server : HasOption ack.datagram optionDhcpServerIdentifier (wordBytes identifier)

/-- The first reply is an offer that finds the interface without an address, and the first reply
after it is read as a refusal or is the acknowledgement of this offer. -/
def OfferFirst (c : Client) (host : Host) (deliveries : List Delivery) : Prop :=
  ∀ offer p rest, firstReply host.rand host.offerResidue deliveries = some (offer, p, rest) →
    ∀ ack q rest', firstReply host.rand host.ackResidue rest = some (ack, q, rest') →
      ∀ value identifier, identifierRead p = .ok (value, identifier) →
        typeRead value q = .ok dhcpnak ∨
          (AckOfOffer offer ack identifier ∧ c.getIpAddress offer.host = inaddrAny)

def EndsOnAck (host : Host) (deliveries : List Delivery) : Prop :=
  ∃ ack p rest, firstReply host.rand host.ackResidue deliveries = some (ack, p, rest) ∧
    HasOption ack.datagram optionDhcpMessageType [dhcpack]

/-- What the datagrams of a successful `dhcp_discover` should be: an offer, a request for the
offered address from that server, and the acknowledgement of the request. -/
def CommitsOnAck (host : Host) (deliveries : List Delivery) (sent : List Sent) : Prop :=
  ∃ offer p rest discover request ack q rest',
    firstReply host.rand host.offerResidue deliveries = some (offer, p, rest) ∧
    HasOption offer.datagram optionDhcpMessageType [dhcpoffer] ∧ sent = [discover, request] ∧
    firstReply host.rand host.ackResidue rest = some (ack, q, rest') ∧
    HasOption ack.datagram optionDhcpMessageType [dhcpack] ∧
    optionWord request.packet optionRequestedIp = some (clean ack.datagram).yiaddr ∧
    ∃ identifier, optionWord request.packet optionDhcpServerIdentifier = some identifier ∧
      HasOption ack.datagram optionDhcpServerIdentifier (wordBytes identifier)

namespace Client

variable {c c' : Client} {host host' : Host} {deliveries rest : List Delivery} {buffer : DhcpT}
  {value : OptionValue} {ended : Ended} {sent : List Sent}

theorem takeOffer_eq (c : Client) (dhcp : DhcpT) : c.takeOffer dhcp = do
    let (value, identifier) ← identifierRead dhcp
    return ((c.setIdentifier identifier).setYiaddr dhcp.yiaddr, value) := by
  rw [takeOffer, identifierRead]
  cases lookupOption none dhcp optionDhcpServerIdentifier with
  | error e => rfl
  | ok r =>
    obtain ⟨len, value⟩ := r
    rw [ok_bind, ok_bind]
    simp only
    rw [readPointedWord_eq]
    cases pointedWord value <;> rfl

theorem firstReply_received {xid : UInt32} {d : Delivery} {p : DhcpT}
    (h : firstReply xid buffer deliveries = some (d, p, rest)) :
    ∃ q : DhcpT, p = q.recvfrom d.datagram := by
  induction deliveries generalizing buffer with
  | nil => cases h
  | cons d' deliveries ih =>
    simp only [firstReply] at h
    split at h
    · cases h
      exact ⟨buffer, rfl⟩
    · exact ih h

/-- The client takes every reply for an acknowledgement that it does not read as a refusal. -/
theorem takeAck_accepts {dhcp : DhcpT} {state : ℤ} (h : c.takeAck dhcp value = .ok (state, c')) :
    state = 0 ↔ typeRead value dhcp ≠ .ok dhcpnak := by
  obtain ⟨⟨len, v⟩, hl, h⟩ := bind_eq_ok.mp h
  obtain ⟨type, htype, h⟩ := bind_eq_ok.mp h
  have hread : typeRead value dhcp = .ok type := by
    rw [typeRead, hl, ok_bind]
    exact htype
  rw [hread]
  simp only at h
  split at h
  · rename_i hnak
    cases h
    subst hnak
    simp
  · rename_i hnak
    obtain ⟨⟨len', v'⟩, -, h⟩ := bind_eq_ok.mp h
    obtain ⟨identifier, -, h⟩ := bind_eq_ok.mp h
    cases h
    simpa using hnak

/-- The loop for the acknowledgement ends with the first reply, or with a time-out. -/
theorem awaitAck_ok (h : c.awaitAck buffer value host deliveries = .ok ended) :
    (firstReply c.xid buffer deliveries = none ∧ ended.state = -1 ∧ ended.client = c) ∨
    ∃ d, firstReply c.xid buffer deliveries = some (d, ended.dhcpAck, ended.rest) ∧
      d.host = ended.host ∧ c.takeAck ended.dhcpAck value = .ok (ended.state, ended.client) := by
  induction deliveries generalizing buffer host with
  | nil =>
    cases h
    exact .inl ⟨rfl, rfl, rfl⟩
  | cons d rest ih =>
    rw [awaitAck] at h
    simp only at h
    split at h
    · rename_i htakes
      obtain ⟨⟨state, c'⟩, htake, h⟩ := bind_eq_ok.mp h
      cases h
      exact .inr ⟨d, if_pos htakes, rfl, htake⟩
    · rename_i htakes
      have hfirst : firstReply c.xid buffer (d :: rest) =
          firstReply c.xid (buffer.recvfrom d.datagram) rest := if_neg htakes
      rw [hfirst]
      exact ih h

theorem awaitOffer_ok {r : Option (Client × OptionValue × Host × List Delivery)}
    (h : c.awaitOffer buffer deliveries = .ok r) :
    (firstReply c.xid buffer deliveries = none ∧ r = none) ∨
    ∃ offer p c' value rest, r = some (c', value, offer.host, rest) ∧
      firstReply c.xid buffer deliveries = some (offer, p, rest) ∧
      c.takeOffer p = .ok (c', value) := by
  induction deliveries generalizing buffer with
  | nil =>
    cases h
    exact .inl ⟨rfl, rfl⟩
  | cons d rest ih =>
    rw [awaitOffer] at h
    simp only at h
    split at h
    · rename_i htakes
      obtain ⟨⟨c', value⟩, htake, h⟩ := bind_eq_ok.mp h
      cases h
      exact .inr ⟨_, _, _, _, _, rfl, if_pos htakes, htake⟩
    · rename_i htakes
      have hfirst : firstReply c.xid buffer (d :: rest) =
          firstReply c.xid (buffer.recvfrom d.datagram) rest := if_neg htakes
      rw [hfirst]
      exact ih h

theorem awaitAck_commits_iff (hxid : c.xid = host.rand)
    (h : c.awaitAck host.ackResidue none host deliveries = .ok ended) :
    (ended.state = 0 → EndsOnAck host deliveries) ↔
      AckFirst host.rand host.ackResidue deliveries := by
  rcases awaitAck_ok h with ⟨hnone, hstate, -⟩ | ⟨d, hfirst, -, htake⟩
  · rw [hxid] at hnone
    simp [hstate, AckFirst, hnone]
  · rw [hxid] at hfirst
    rw [takeAck_accepts htake, AckFirst, EndsOnAck]
    simp only [hfirst, Option.some.injEq, Prod.mk.injEq, and_imp]
    constructor
    · rintro himp ack p rest rfl rfl rfl
      apply or_iff_not_imp_left.mpr
      intro hne
      obtain ⟨_, _, _, ⟨rfl, -, -⟩, hack⟩ := himp hne
      exact hack
    · intro hall hne
      exact ⟨_, _, _, ⟨rfl, rfl, rfl⟩, (hall _ _ _ rfl rfl rfl).resolve_left hne⟩

theorem dhcpDiscover_ok (h : c.dhcpDiscover host deliveries = .ok (sent, ended)) :
    ∃ c₁ discover, c.sendDiscover host = .ok (c₁, discover) ∧
      ((firstReply host.rand host.offerResidue deliveries = none ∧ ended.state = -1) ∨
      ∃ offer p rest c₂ value request,
        firstReply host.rand host.offerResidue deliveries = some (offer, p, rest) ∧
        c₁.takeOffer p = .ok (c₂, value) ∧ c₂.sendRequest offer.host = .ok request ∧
        sent = [discover, request] ∧
        c₂.awaitAck host.ackResidue value offer.host rest = .ok ended) := by
  obtain ⟨⟨c₁, discover⟩, hsend, h⟩ := bind_eq_ok.mp h
  refine ⟨c₁, discover, hsend, ?_⟩
  have hxid : c₁.xid = host.rand := startExchange_xid hsend
  simp only at h
  obtain ⟨r, hawait, h⟩ := bind_eq_ok.mp h
  rcases awaitOffer_ok hawait with ⟨hnone, rfl⟩ | ⟨offer, p, c₂, value, rest, rfl, hfirst, htake⟩
  · cases h
    exact .inl ⟨hxid ▸ hnone, rfl⟩
  · simp only at h
    obtain ⟨request, hrequest, h⟩ := bind_eq_ok.mp h
    obtain ⟨e, hack, h⟩ := bind_eq_ok.mp h
    cases h
    exact .inr ⟨offer, p, rest, c₂, value, request, hxid ▸ hfirst, htake, hrequest, rfl, hack⟩

theorem request_options {request : Sent} {offer : DhcpT} (htake : c.takeOffer offer = .ok (c', value))
    (hrequest : c'.sendRequest host = .ok request) :
    ∃ identifier, identifierRead offer = .ok (value, identifier) ∧
      optionWord request.packet optionDhcpServerIdentifier = some identifier ∧
      optionWord request.packet optionRequestedIp =
        if c.getIpAddress host = inaddrAny then some offer.yiaddr else none := by
  rw [takeOffer_eq] at htake
  obtain ⟨⟨v, identifier⟩, hid, htake⟩ := bind_eq_ok.mp htake
  cases htake
  have hsent := sendRequest_ok hrequest
  rw [setYiaddr_getIpAddress, setIdentifier_getIpAddress] at hsent
  have hreads : ReadsRequest request.packet _ _ _ _ := hsent.reads DhcpT.zero
  refine ⟨identifier, hid, ?_, ?_⟩
  · obtain ⟨o, hg, hw⟩ := hreads.identifier (.inl rfl)
    rw [setYiaddr_identifier, setIdentifier_identifier] at hw
    exact optionWord_iff.mpr ⟨o, hg, hw⟩
  · split
    · rename_i hzero
      obtain ⟨o, hg, hw⟩ := hreads.requested hzero
      rw [setYiaddr_yiaddr] at hw
      exact optionWord_iff.mpr ⟨o, hg, hw⟩
    · rename_i hzero
      have hnone := hsent.not_requested hzero
      simp only [optionWord, hnone]
      rfl

/-- An exchange that has come to its second reply commits on what was asked for exactly when the
replies are the right ones. -/
theorem dhcpDiscover_commits_iff (h : c.dhcpDiscover host deliveries = .ok (sent, ended)) :
    (ended.state = 0 → CommitsOnAck host deliveries sent) ↔ OfferFirst c host deliveries := by
  obtain ⟨c₁, discover, hsend, ⟨hnone, hstate⟩ |
    ⟨offer, p, rest, c₂, value, request, hfirst, htake, hrequest, rfl, hawait⟩⟩ := dhcpDiscover_ok h
  · simp [hstate, OfferFirst, hnone]
  have hc₁ := (startExchange_ok hsend).1
  obtain ⟨identifier, hid, hserver, hyiaddr⟩ := request_options htake hrequest
  have hxid : c₂.xid = host.rand := by
    obtain ⟨w, -, rfl⟩ := takeOffer_ok htake
    rw [hc₁]
    rfl
  have haddr : c₁.getIpAddress offer.host = c.getIpAddress offer.host := by
    rw [hc₁]
    rfl
  rw [haddr] at hyiaddr
  have hoffered (ho : HasOption offer.datagram optionDhcpMessageType [dhcpoffer]) :
      p.yiaddr = (clean offer.datagram).yiaddr := by
    obtain ⟨q, rfl⟩ := firstReply_received hfirst
    exact ho.yiaddr q
  rcases awaitAck_ok hawait with ⟨hnone, hstate, -⟩ | ⟨ack, hack, -, htake'⟩
  · rw [hxid] at hnone
    simp [hstate, OfferFirst, hfirst, hnone]
  rw [hxid] at hack
  rw [takeAck_accepts htake']
  constructor
  · intro hcommit offer' p' rest' hfirst' ack' q rest'' hack' v w hid'
    cases hfirst.symm.trans hfirst'
    cases hack.symm.trans hack'
    cases hid.symm.trans hid'
    apply or_iff_not_imp_left.mpr
    intro hne
    obtain ⟨offer', p', rest', d, r, ack', q, rest'', hf, ho, hsent, ha, hacked, hy, w, hw, hs⟩ :=
      hcommit hne
    cases hfirst.symm.trans hf
    cases hack.symm.trans ha
    cases hsent
    cases hserver.symm.trans hw
    rw [hyiaddr] at hy
    split at hy
    · rename_i hzero
      exact ⟨⟨ho, hacked, (Option.some.inj hy).symm.trans (hoffered ho), hs⟩, hzero⟩
    · cases hy
  · intro hall hne
    obtain ⟨hreal, hzero⟩ :=
      (hall _ _ _ hfirst _ _ _ hack _ _ hid).resolve_left hne
    refine ⟨offer, p, rest, discover, request, ack, _, _, hfirst, hreal.offered, rfl, hack,
      hreal.acked, ?_, identifier, hserver, hreal.server⟩
    rw [hyiaddr, if_pos hzero, hreal.yiaddr, hoffered hreal.offered]

theorem exchange_commits_iff {clientAddr serverAddr : UInt32} {type : UInt8}
    (h : (do
      let (c, m) ← c.startExchange host clientAddr serverAddr type
      let ended ← c.awaitAck host.ackResidue none host deliveries
      return ([m], ended)) = .ok (sent, ended)) :
    (ended.state = 0 → EndsOnAck host deliveries) ↔
      AckFirst host.rand host.ackResidue deliveries := by
  obtain ⟨⟨c₁, m⟩, hsend, h⟩ := bind_eq_ok.mp h
  simp only at h
  obtain ⟨e, hawait, h⟩ := bind_eq_ok.mp h
  cases h
  exact awaitAck_commits_iff (startExchange_xid hsend) hawait

end Client

def twice (offer : Sent) : List Delivery :=
  [⟨quietHost 0 0, offer.payload⟩, ⟨quietHost 0 0, offer.payload⟩]

theorem duplicate_offer_run : ∃ (offer : Sent) (sent : List Sent) (ended : Ended),
    (Client.dhcpSetup ⟨clientA, 0⟩).dhcpDiscover (quietHost 0 77) (twice offer) =
        .ok (sent, ended) ∧
      offer.messageType = some dhcpoffer ∧ ended.state = 0 := by
  obtain ⟨⟨c', m⟩, -, hserver⟩ :=
    exists_ok ((Client.dhcpSetup ⟨clientA, 0⟩).sendDiscover (quietHost 0 77))
      (fun r ↦ (Except.toOption (mainLoop dhcpSetup ⟨⟨0, [5], 0⟩, r.2.payload⟩)).any
        (fun r ↦ r.2.any fun offer ↦ offer.messageType = some dhcpoffer ∧
          ((Client.dhcpSetup ⟨clientA, 0⟩).dhcpDiscover (quietHost 0 77) (twice offer)).toOption.any
          (fun r ↦ r.2.state = 0)))
      (by decide +kernel)
  obtain ⟨⟨s₁, out⟩, -, hout⟩ := exists_ok _ _ hserver
  cases out with
  | none => cases hout
  | some offer =>
    obtain ⟨htype, hclient⟩ := of_decide_eq_true hout
    obtain ⟨⟨sent, ended⟩, hrun, hended⟩ := exists_ok _ _ hclient
    exact ⟨offer, sent, ended, hrun, htype, of_decide_eq_true hended⟩

theorem not_commitsOnAck_twice {offer : Sent} {host : Host} {sent : List Sent}
    (htype : offer.messageType = some dhcpoffer) : ¬CommitsOnAck host (twice offer) sent := by
  rintro ⟨_, _, rest, _, _, ack, q, _, hfirst, -, -, hack, hacked, -⟩
  have hpayload : ack.datagram = offer.payload := by
    simp only [twice, firstReply] at hfirst
    split at hfirst
    · cases hfirst
      simp only [firstReply] at hack
      split at hack
      · cases hack
        rfl
      · cases hack
    · split at hfirst
      · cases hfirst
        cases hack
      · cases hfirst
  rw [hpayload] at hacked
  cases htype.symm.trans (hacked.byte DhcpT.zero)

end InternetApplications.Dhcp
