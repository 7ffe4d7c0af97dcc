import InternetApplications.Dhcp.ClientLease
import InternetApplications.Dhcp.LeaseMap
import InternetApplications.Dhcp.LeasePool
import InternetApplications.Dhcp.LeaseSafety
import InternetApplications.Dhcp.ServerAnswer

namespace InternetApplications.Dhcp

open ByteMemory TagScan KeyedList Executions LeaseTable Client

section Server

variable {s s' : Server} {i : Input} {t : LeaseTable} {m : Sent} {x y : UInt32} {now : ℕ} {mac : Mac}

theorem checkIpaddr_later {now' : ℕ} (hn : now ≤ now') (h : 0 < checkIpaddr t now x mac) :
    0 < checkIpaddr t now' x mac := by
  obtain ⟨hpool, hlive⟩ := checkIpaddr_pos.mp h
  refine checkIpaddr_pos.mpr ⟨hpool, ?_⟩
  intro lease hl hl'
  apply hlive lease hl
  unfold LeaseT.Live at *
  omega

/-- However an offered address was chosen, the client may have it from then on. -/
theorem Handled.offer_usable (h : Handled s i t (some m)) (hs : s.table.Valid)
    (hpool : AllInPool s.table) (htype : receivedType (s.received i) = .ok (some dhcpdiscover))
    (hm : m.payload ≠ []) (hn : i.env.now ≤ now) :
    ∃ y, Answers (s.received i) m dhcpoffer y ∧
      0 < checkIpaddr t now y (s.received i).chaddr := by
  cases h with
  | ackSelected h | ackRenewed h | nak h | informSelected h | informKnown h =>
    exact absurd (htype.symm.trans h) (by decide)
  | offerRequested _ hp ha => exact ⟨_, ha, checkIpaddr_later hn hp⟩
  | offerNone _ _ _ he => exact absurd he hm
  | offerAllocated _ halloc hr ha =>
    refine ⟨_, ha, checkIpaddr_pos.mpr ?_⟩
    obtain ⟨lease, hl, -, rfl, rfl⟩ | ⟨-, rfl, -⟩ | ⟨-, -, hin, hfree, rfl⟩ := allocateIp_cases halloc
    · refine ⟨hpool lease (firstOf_some hl).1, ?_⟩
      intro lease' hl' _
      rw [lookup_stampMac hs hl, if_pos rfl] at hl'
      cases hl'
      exact (firstOf_some hl).2
    · exact absurd (by decide) hr
    · refine ⟨hin, ?_⟩
      intro lease hl
      rw [hfree] at hl
      cases hl

theorem addLease_returns_inPool (ht : t.Valid) (hpool : AllInPool t) (now : ℕ) (x : UInt32)
    (mac : Mac) : ∃ t', addLease t now x mac = .ok t' := by
  have hlen := hpool.length_le ht
  have hamount : ipAddressPoolAmount = 100 := rfl
  exact addLease_returns ht now mac (.inr (by omega))

theorem addLease_stamps {t' : LeaseTable} (h : addLease t now x mac = .ok t') :
    ∃ lease ∈ t'.leases, lease.addr = x ∧ lease.timeStamp = now := by
  obtain ⟨lease, hl, rfl⟩ | ⟨_, rfl, _⟩ := addLease_cases h
  · exact ⟨_, mem_touch_found hl, (lookup_some hl).2, rfl⟩
  · exact ⟨_, List.mem_append_right _ (List.mem_singleton_self _), rfl, rfl⟩

end Server

section Client

variable {c : Client} {host : Host} {datagram : List UInt8} {buffer : DhcpT} {value : OptionValue}
  {rest : List Delivery}

theorem awaitOffer_takes {c' : Client} (h : c.Takes (buffer.recvfrom datagram))
    (ht : c.takeOffer (buffer.recvfrom datagram) = .ok (c', value)) :
    c.awaitOffer buffer (⟨host, datagram⟩ :: rest) = .ok (some (c', value, host, rest)) := by
  rw [awaitOffer]
  simp only [if_pos h, ht, ok_bind]
  rfl

theorem awaitAck_takes {c' : Client} {state : ℤ} {host' : Host}
    (h : c.Takes (buffer.recvfrom datagram))
    (ht : c.takeAck (buffer.recvfrom datagram) value = .ok (state, c')) :
    c.awaitAck buffer value host' (⟨host, datagram⟩ :: rest) =
      .ok ⟨state, c', buffer.recvfrom datagram, host, rest⟩ := by
  rw [awaitAck]
  simp only [if_pos h, ht, ok_bind]
  rfl

theorem dhcpDiscover_eq {c₁ c₂ : Client} {m request : Sent} {host' : Host} {ended : Ended}
    {deliveries : List Delivery} (hsend : c.sendDiscover host = .ok (c₁, m))
    (hoffer : c₁.awaitOffer host.offerResidue deliveries = .ok (some (c₂, value, host', rest)))
    (hrequest : c₂.sendRequest host' = .ok request)
    (hack : c₂.awaitAck host.ackResidue value host' rest = .ok ended) :
    c.dhcpDiscover host deliveries = .ok ([m, request], ended) := by
  rw [dhcpDiscover, hsend, ok_bind]
  simp only
  rw [hoffer, ok_bind]
  simp only
  rw [hrequest, ok_bind, hack]
  rfl

theorem discover_eq {c₁ c₂ : Client} {sent : List Sent} {ended : Ended} {deliveries : List Delivery}
    (haddr : c.getIpAddress host = 0) (h : c.dhcpDiscover host deliveries = .ok (sent, ended))
    (hstate : ended.state = 0)
    (hsetup : ended.client.setupInterface ended.host ended.dhcpAck = .ok c₁)
    (halarm : c₁.setAlarm ended.host ended.dhcpAck = .ok c₂) :
    c.discover host deliveries = .ok ⟨c₂, sent, [(ended.host.now, ended.dhcpAck)]⟩ := by
  rw [discover, if_neg (not_not.mpr haddr), h, ok_bind]
  simp only [hstate, gt_iff_lt, hsetup, ok_bind, halarm]
  rfl

end Client

theorem mainLoop_grants {s : Server} {i : Input} {c : Client} {mac : Mac} (hs : s.table.Valid)
    (hpool : AllInPool s.table) (h : ReadsRequest (s.received i) c inaddrAny mac dhcprequest)
    (hid : c.dhcpServerIdentifier = dhcpServerIpAddress)
    (hp : 0 < checkIpaddr s.table i.env.now c.yiaddr mac) :
    ∃ s' ack, mainLoop s i = .ok (s', some ack) ∧ IsReply (s.received i) ack dhcpack c.yiaddr true ∧
      ∃ lease ∈ s'.table.leases, lease.addr = c.yiaddr ∧ lease.timeStamp = i.env.now := by
  obtain ⟨t, hadd⟩ := addLease_returns_inPool hs hpool i.env.now c.yiaddr mac
  obtain ⟨s', ack, hstep, rfl, hanswer⟩ := mainLoop_selecting h hid hp hadd
  exact ⟨s', ack, hstep, hanswer.isReply h.messageType.1 (by decide), addLease_stamps hadd⟩

section Exchange

variable {c : Client} {host₁ host₂ : Host} {b : DhcpT} {offer ack : Sent} {y : UInt32}

theorem getIpAddress_zero (h : c.interface.addr = 0) (host : Host) : c.getIpAddress host = 0 := by
  rw [getIpAddress, h, ite_self]

/-- The client takes the offer and sends the request for the offered address. -/
theorem offer_taken (host : Host) (hoffer : IsReply b offer dhcpoffer y true) (hxid : b.xid = c.xid)
    (hhost₁ : host₁.getHwaddr) (haddr : c.interface.addr = 0) :
    ∃ value request, (∀ rest, c.awaitOffer host.offerResidue (⟨host₁, offer.payload⟩ :: rest) =
        .ok (some ((c.setIdentifier dhcpServerIpAddress).setYiaddr y, value, host₁, rest))) ∧
      ((c.setIdentifier dhcpServerIpAddress).setYiaddr y).sendRequest host₁ = .ok request ∧
      ((c.setIdentifier dhcpServerIpAddress).setYiaddr y).IsRequest request inaddrAny
        c.interface.hwaddr dhcprequest := by
  have hreads := hoffer.reads host.offerResidue
  obtain ⟨o, htake⟩ := hreads.takeOffer c
  obtain ⟨request, hrequest⟩ :=
    sendRequest_returns hhost₁ ((c.setIdentifier dhcpServerIpAddress).setYiaddr y)
  refine ⟨_, request, fun rest ↦ awaitOffer_takes (hreads.takes.mpr hxid) htake, hrequest, ?_⟩
  have hsent := sendRequest_ok hrequest
  rwa [getIpAddress_zero (c := (c.setIdentifier dhcpServerIpAddress).setYiaddr y) haddr host₁]
    at hsent

/-- The client takes the acknowledgement, and configures its interface and its timers. -/
theorem ack_taken (host host₁ : Host) (hack : IsReply b ack dhcpack y true) (hxid : b.xid = c.xid)
    (hhost₂ : host₂.Succeeds) (value : OptionValue) :
    ∃ ended c₁ c₂, c.awaitAck host.ackResidue value host₁ [⟨host₂, ack.payload⟩] = .ok ended ∧
      ended.state = 0 ∧ ended.client.setupInterface ended.host ended.dhcpAck = .ok c₁ ∧
      c₁.setAlarm ended.host ended.dhcpAck = .ok c₂ ∧ c₂.interface.addr = y ∧
      c₂.leaseTime = UInt32.ofNat ipAddressLeaseTime ∧ c₂.t1Time = UInt32.ofNat t1RenewalTime ∧
      c₂.t2Time = UInt32.ofNat t2RebindTime ∧ c₂.deadline = some (host₂.now + t1RenewalTime) := by
  have hreads := hack.reads host.ackResidue
  have htake : c.takeAck (host.ackResidue.recvfrom ack.payload) value =
      .ok (0, c.setIdentifier dhcpServerIpAddress) := hreads.takeAck c value
  exact ⟨_, _, _, awaitAck_takes (hreads.takes.mpr hxid) htake, rfl,
    hreads.setupInterface (by decide) hhost₂.setAddr hhost₂.setNetmask hhost₂.addRoute _,
    hreads.setAlarm (by decide) _ _, rfl, rfl, rfl, rfl, rfl⟩

end Exchange

/-- An offer that the server makes to a client without an address leads to a lease, whenever
the request that the client builds from it arrives, and the client takes it on. -/
theorem discover_exchange_succeeds {trace : List Event} {s s₁ : Server} {c c' : Client}
    {m offer : Sent} {env₁ env₂ : Env} {host host₁ host₂ : Host}
    (hrun : Execution mainLoop dhcpSetup trace s)
    (hinform : ∀ e ∈ trace, receivedType (Event.packet e) ≠ .ok (some dhcpinform))
    (haddr : c.interface.addr = 0) (hhost₁ : host₁.getHwaddr) (hhost₂ : host₂.Succeeds)
    (hm : c.sendDiscover host = .ok (c', m))
    (hoffer : mainLoop s ⟨env₁, m.payload⟩ = .ok (s₁, some offer)) (hne : offer.payload ≠ [])
    (hlater : env₁.now ≤ env₂.now) :
    ∃ request s₂ ack done,
      (∃ ended, c.dhcpDiscover host [⟨host₁, offer.payload⟩] = .ok ([m, request], ended)) ∧
      mainLoop s₁ ⟨env₂, request.payload⟩ = .ok (s₂, some ack) ∧ ack.IsAck ∧
      ack.packet.yiaddr = offer.packet.yiaddr ∧ InPool offer.packet.yiaddr ∧
      (∃ lease ∈ s₂.table.leases,
        lease.addr = offer.packet.yiaddr ∧ lease.timeStamp = env₂.now) ∧
      c.discover host [⟨host₁, offer.payload⟩, ⟨host₂, ack.payload⟩] = .ok done ∧
      done.client.interface.addr = offer.packet.yiaddr ∧
      done.client.leaseTime = UInt32.ofNat ipAddressLeaseTime ∧
      done.client.t1Time = UInt32.ofNat t1RenewalTime ∧
      done.client.t2Time = UInt32.ofNat t2RebindTime ∧
      done.client.deadline = some (host₂.now + t1RenewalTime) := by
  have hvalid : s.table.Valid := ServerReachable.valid ⟨trace, hrun⟩
  have hpool : AllInPool s.table :=
    (hrun.invariant (I := fun s ↦ AllInPool s.table)
      (A := fun e ↦ receivedType (Event.packet e) ≠ Except.ok (some dhcpinform))
      (fun e hstep hne hs ↦ (mainLoop_handled hstep).inPool (fun h ↦ hne h.1) hs) hinform
      (by intro lease hl; cases hl)).1
  -- the discover and the offer
  obtain ⟨hc', hrequest⟩ := startExchange_ok hm
  rw [getIpAddress_zero haddr] at hrequest
  have hread : ReadsRequest (s.received ⟨env₁, m.payload⟩) c' 0 c.interface.hwaddr dhcpdiscover :=
    hrequest.reads s.dhcpRecv
  have hhandled := mainLoop_handled hoffer
  obtain ⟨y, hanswer, hcheck⟩ := hhandled.offer_usable hvalid hpool hread.receivedType hne hlater
  rw [hread.chaddr] at hcheck
  obtain rfl := hanswer.yiaddr
  have haddr' : c'.interface.addr = 0 := by
    rw [hc']
    exact haddr
  have hmac : c'.interface.hwaddr = c.interface.hwaddr := by
    rw [hc']
    rfl
  obtain ⟨value, request, hawait, hsend, hreq⟩ :=
    offer_taken host (hanswer.isReply hread.messageType.1 (by decide)) hread.xid hhost₁ haddr'
  -- the request and the acknowledgement
  rw [hmac] at hreq
  have hread₂ := hreq.reads s₁.dhcpRecv
  have hpool₁ : AllInPool s₁.table := by
    apply hhandled.inPool _ hpool
    intro hout
    exact absurd (hread.receivedType.symm.trans hout.1) (by decide)
  obtain ⟨s₂, ack, hstep, hack, hlease⟩ :=
    mainLoop_grants (i := ⟨env₂, request.payload⟩) (hhandled.valid hvalid) hpool₁ hread₂ rfl hcheck
  obtain ⟨ended, c₁, c₂, hwait, hstate, hsetup, halarm, hresult⟩ :=
    ack_taken host host₁ hack hread₂.xid hhost₂ value
  have hexchange := dhcpDiscover_eq hm (hawait [⟨host₂, ack.payload⟩]) hsend hwait
  exact ⟨request, s₂, ack, _, ⟨_, dhcpDiscover_eq hm (hawait []) hsend rfl⟩, hstep,
    hack.messageType, (hack.reads DhcpT.zero).yiaddr, (checkIpaddr_pos.mp hcheck).1, hlease,
    discover_eq (getIpAddress_zero haddr host) hexchange hstate hsetup halarm, hresult⟩

theorem quietHost_succeeds (now : ℕ) (rand : UInt32) : (quietHost now rand).Succeeds :=
  ⟨rfl, rfl, rfl, rfl, rfl⟩

theorem discover_exchange_succeeds_second : ∃ (s₁ s₂ : Server) (request ack : Sent),
    mainLoop s₁ ⟨⟨9, [], 0⟩, request.payload⟩ = .ok (s₂, some ack) ∧ ack.IsAck ∧
      ack.packet.yiaddr = 0xC0A80003 := by
  obtain ⟨trace, s, hrun, hs⟩ := exists_execution mainLoop dhcpSetup
    [⟨⟨0, [], 0⟩, selectingRequest clientA 0 0xC0A80002⟩]
    (fun trace s ↦ (∀ e ∈ trace, receivedType (Event.packet e) ≠ .ok (some dhcpinform)) ∧
      ((Client.dhcpSetup ⟨clientB, 0⟩).sendDiscover (quietHost 6 77)).toOption.any
        (fun r ↦ (Except.toOption (mainLoop s ⟨⟨6, [0, 101], 0⟩, r.2.payload⟩)).any
          (fun r ↦ r.2.any fun offer ↦ offer.payload ≠ [] ∧ offer.packet.yiaddr = 0xC0A80003)))
    (by decide +kernel)
  obtain ⟨hinform, hclient⟩ := of_decide_eq_true hs
  obtain ⟨⟨c', m⟩, hm, hserver⟩ := exists_ok _ _ hclient
  obtain ⟨⟨s₁, out⟩, hoffer, hout⟩ := exists_ok _ _ hserver
  cases out with
  | none => cases hout
  | some offer =>
    obtain ⟨hne, hyiaddr⟩ := of_decide_eq_true hout
    obtain ⟨request, s₂, ack, -, -, hstep, hack, hy, -⟩ :=
      discover_exchange_succeeds hrun hinform rfl (quietHost_succeeds 6 0).getHwaddr
        (quietHost_succeeds 9 0) hm hoffer hne
        (show (⟨6, [0, 101], 0⟩ : Env).now ≤ (⟨9, [], 0⟩ : Env).now by decide)
    exact ⟨s₁, s₂, request, ack, hstep, hack, hy.trans hyiaddr⟩

end InternetApplications.Dhcp
