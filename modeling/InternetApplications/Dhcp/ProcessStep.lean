import InternetApplications.Dhcp.ClientPacket
import InternetApplications.Dhcp.ClientProcess

namespace InternetApplications.Dhcp

open ByteMemory TagScan Executions Client

def Requesting (m : Sent) (mac : Mac) (xid yiaddr ciaddr : UInt32) (type : UInt8) : Prop :=
  ∃ c : Client, c.xid = xid ∧ c.yiaddr = yiaddr ∧ c.IsRequest m ciaddr mac type

structure Keeps (c c' : Client) : Prop where
  hwaddr : c'.interface.hwaddr = c.interface.hwaddr
  yiaddr : c'.yiaddr = c.yiaddr
  addr : c'.interface.addr = c.interface.addr ∨ c'.interface.addr = 0

structure Configured (c c' : Client) (y : UInt32) : Prop where
  hwaddr : c'.interface.hwaddr = c.interface.hwaddr
  yiaddr : c'.yiaddr = c.yiaddr
  addr : c'.interface.addr = y

inductive Begun (c : Client) (host : Host) : Progress → Prop
  | idle {c' : Client} : Keeps c c' → Begun c host c'.atMenu
  | discovers {c' : Client} {m : Sent} : c.getIpAddress host = 0 → Keeps c c' →
      c'.xid = host.rand → Requesting m c.interface.hwaddr host.rand c.yiaddr 0 dhcpdiscover →
      Begun c host ⟨c', .awaitOffer host.offerResidue host.ackResidue, [m], none, []⟩
  | releases {c' : Client} {m : Sent} : Keeps c c' → (host.setAddr → c'.interface.addr = 0) →
      Requesting m c.interface.hwaddr host.rand c.yiaddr (c.getIpAddress host) dhcprelease →
      Begun c host ⟨c', .menu, [m], none, []⟩
  | asks {c' : Client} {m : Sent} {call : Command} {type : UInt8} : call ≠ .discover →
      type = dhcprequest ∨ type = dhcpinform → Keeps c c' → c'.xid = host.rand →
      Requesting m c.interface.hwaddr host.rand c.yiaddr (c.getIpAddress host) type →
      Begun c host ⟨c', .awaitAck call host.ackResidue none, [m], none, []⟩

inductive Resumed (c : Client) (d : Delivery) : Phase → Progress → Prop
  | passesOffer {dhcpOffer dhcpAck : DhcpT} : ¬c.Takes (dhcpOffer.recvfrom d.datagram) →
      Resumed c d (.awaitOffer dhcpOffer dhcpAck)
        ⟨c, .awaitOffer (dhcpOffer.recvfrom d.datagram) dhcpAck, [], none, []⟩
  | takesOffer {dhcpOffer dhcpAck : DhcpT} {c' : Client} {value : OptionValue} {m : Sent} :
      c.Takes (dhcpOffer.recvfrom d.datagram) → c'.xid = c.xid → c'.interface = c.interface →
      c'.yiaddr = DhcpT.yiaddr (dhcpOffer.recvfrom d.datagram) →
      Requesting m c.interface.hwaddr c.xid c'.yiaddr (c.getIpAddress d.host) dhcprequest →
      Resumed c d (.awaitOffer dhcpOffer dhcpAck)
        ⟨c', .awaitAck .discover dhcpAck value, [m], none, []⟩
  | passesAck {call : Command} {dhcpAck : DhcpT} {value : OptionValue} :
      ¬c.Takes (dhcpAck.recvfrom d.datagram) →
      Resumed c d (.awaitAck call dhcpAck value)
        ⟨c, .awaitAck call (dhcpAck.recvfrom d.datagram) value, [], none, []⟩
  | ends {call : Command} {dhcpAck : DhcpT} {value : OptionValue} {c' : Client} {phase : Phase}
      {accepted : List (ℕ × DhcpT)} : Keeps c c' → phase = .menu ∨ phase = .rediscover →
      Resumed c d (.awaitAck call dhcpAck value) ⟨c', phase, [], none, accepted⟩
  | configures {dhcpAck : DhcpT} {value : OptionValue} {c₁ c' : Client} : d.host.setAddr →
      c.Takes (dhcpAck.recvfrom d.datagram) →
      c.takeAck (dhcpAck.recvfrom d.datagram) value = .ok (0, c₁) →
      Configured c c' (DhcpT.yiaddr (dhcpAck.recvfrom d.datagram)) →
      Resumed c d (.awaitAck .discover dhcpAck value)
        ⟨c', .menu, [], some (DhcpT.yiaddr (dhcpAck.recvfrom d.datagram)),
          [(d.host.now, dhcpAck.recvfrom d.datagram)]⟩

section Requests

variable {m : Sent} {mac : Mac} {x y ciaddr : UInt32} {type : UInt8}

namespace Requesting

theorem reads (h : Requesting m mac x y ciaddr type) (p : DhcpT) :
    ∃ c : Client, c.xid = x ∧ c.yiaddr = y ∧
      ReadsRequest (p.recvfrom m.payload) c ciaddr mac type := by
  obtain ⟨c, hx, hy, hm⟩ := h
  exact ⟨c, hx, hy, hm.reads p⟩

theorem xid (h : Requesting m mac x y ciaddr type) : m.packet.xid = x := by
  obtain ⟨c, rfl, -, hreads⟩ := h.reads DhcpT.zero
  exact hreads.xid

theorem messageType (h : Requesting m mac x y ciaddr type) : m.messageType = some type := by
  obtain ⟨c, -, -, hreads⟩ := h.reads DhcpT.zero
  exact (show Carries m.packet ([] ++ ⟨optionDhcpMessageType, [type]⟩ :: _) from
    hreads.carries).optionByte (by simp) rfl

end Requesting

end Requests

section Keeping

variable {c c' c'' : Client} {host : Host} {p : DhcpT}

theorem Keeps.refl (c : Client) : Keeps c c := ⟨rfl, rfl, .inl rfl⟩

theorem Keeps.trans (h : Keeps c c') (h' : Keeps c' c'') : Keeps c c'' := by
  refine ⟨h'.hwaddr.trans h.hwaddr, h'.yiaddr.trans h.yiaddr, ?_⟩
  rcases h'.addr with ha | ha
  · rw [ha]
    exact h.addr
  · exact .inr ha

theorem configured_siocsifaddr (c : Client) (y : UInt32) : Configured c (c.siocsifaddr y) y :=
  ⟨rfl, rfl, rfl⟩

namespace Client

theorem keeps_setupInterfaceRelease (c : Client) (host : Host) :
    Keeps c (c.setupInterfaceRelease host) := by
  rw [setupInterfaceRelease]
  split
  · exact .refl c
  · exact ⟨rfl, rfl, .inr rfl⟩

theorem setAlarm_interface (h : c.setAlarm host p = .ok c') :
    c'.interface = c.interface ∧ c'.yiaddr = c.yiaddr := by
  obtain ⟨lease, -, h⟩ := bind_eq_ok.mp h
  cases lease with
  | none =>
    cases h
    exact ⟨rfl, rfl⟩
  | some lease =>
    obtain ⟨t1, -, h⟩ := bind_eq_ok.mp h
    obtain ⟨t2, -, h⟩ := bind_eq_ok.mp h
    cases h
    exact ⟨rfl, rfl⟩

theorem setupInterface_configured (ha : host.setAddr) (h : c.setupInterface host p = .ok c') :
    Configured c c' p.yiaddr := by
  rw [setupInterface_ok h, if_pos ha]
  exact configured_siocsifaddr c p.yiaddr

end Client

end Keeping

section Starting

variable {c c' : Client} {host : Host} {p : Progress} {m : Sent} {clientAddr serverAddr : UInt32}
  {type : UInt8}

namespace Client

theorem startExchange_requesting (h : c.startExchange host clientAddr serverAddr type = .ok (c', m)) :
    Keeps c c' ∧ c'.xid = host.rand ∧
      Requesting m c.interface.hwaddr host.rand c.yiaddr (c.getIpAddress host) type := by
  obtain ⟨hc, hm⟩ := startExchange_ok h
  have hxid : c'.xid = host.rand := by rw [hc]; rfl
  have hyiaddr : c'.yiaddr = c.yiaddr := by rw [hc]; rfl
  have hinterface : c'.interface = c.interface := by rw [hc]; rfl
  exact ⟨⟨by rw [hinterface], hyiaddr, .inl (by rw [hinterface])⟩, hxid, c', hxid, hyiaddr, hm⟩

theorem beginDiscover_ok (h : c.beginDiscover host = .ok p) : Begun c host p := by
  rw [beginDiscover] at h
  split at h
  · cases h
    exact .idle (.refl c)
  · rename_i haddr
    obtain ⟨⟨c₁, discover⟩, hsend, h⟩ := bind_eq_ok.mp h
    cases h
    obtain ⟨hkeeps, hxid, hreq⟩ := startExchange_requesting hsend
    rw [not_not.mp haddr] at hreq
    exact .discovers (not_not.mp haddr) hkeeps hxid hreq

theorem beginCall_ok {command : Command} (h : c.beginCall host command = .ok p) :
    Begun c host p := by
  cases command with
  | discover => exact beginDiscover_ok h
  | release =>
    obtain ⟨⟨c₁, sent⟩, hsend, h⟩ := bind_eq_ok.mp h
    cases h
    obtain ⟨hkeeps, -, hreq⟩ := startExchange_requesting hsend
    have hkeeps' : Keeps c c₁ := ⟨hkeeps.hwaddr, hkeeps.yiaddr, hkeeps.addr⟩
    refine .releases (hkeeps'.trans (keeps_setupInterfaceRelease c₁ host)) ?_ hreq
    intro ha
    rw [setupInterfaceRelease, ha]
    rfl
  | inform =>
    obtain ⟨⟨c₁, sent⟩, hsend, h⟩ := bind_eq_ok.mp h
    cases h
    obtain ⟨hkeeps, hxid, hreq⟩ := startExchange_requesting hsend
    exact .asks (by decide) (.inr rfl) hkeeps hxid hreq
  | renew =>
    obtain ⟨⟨c₁, sent⟩, hsend, h⟩ := bind_eq_ok.mp h
    cases h
    obtain ⟨hkeeps, hxid, hreq⟩ := startExchange_requesting hsend
    exact .asks (by decide) (.inl rfl) hkeeps hxid hreq
  | rebind =>
    obtain ⟨⟨c₁, sent⟩, hsend, h⟩ := bind_eq_ok.mp h
    cases h
    obtain ⟨hkeeps, hxid, hreq⟩ := startExchange_requesting hsend
    exact .asks (by decide) (.inl rfl) hkeeps hxid hreq

end Client

/-- What is only read off the interface and the last offer carries over. -/
theorem Begun.congr (h : Begun c' host p) (hi : c'.interface = c.interface)
    (hy : c'.yiaddr = c.yiaddr) : Begun c host p := by
  have hkeeps {c'' : Client} (hk : Keeps c' c'') : Keeps c c'' :=
    ⟨hi ▸ hk.hwaddr, hy ▸ hk.yiaddr, hi ▸ hk.addr⟩
  have haddr : c.getIpAddress host = c'.getIpAddress host := by
    rw [getIpAddress, getIpAddress, hi]
  cases h with
  | idle hk => exact .idle (hkeeps hk)
  | discovers ha hk hx hm => exact .discovers (haddr ▸ ha) (hkeeps hk) hx (hi ▸ hy ▸ hm)
  | releases hk hz hm => exact .releases (hkeeps hk) hz (haddr ▸ hi ▸ hy ▸ hm)
  | asks hc ht hk hx hm => exact .asks hc ht (hkeeps hk) hx (haddr ▸ hi ▸ hy ▸ hm)

theorem Client.begin_ok {trigger : Trigger} (h : c.begin host trigger = .ok p) : Begun c host p := by
  cases trigger with
  | command command => exact beginCall_ok h
  | rediscover => exact beginDiscover_ok h
  | alarm =>
    have h' : c.alarmGone.beginTimeOut host = .ok p := h
    rw [beginTimeOut] at h'
    split at h'
    · exact (beginCall_ok h').congr rfl rfl
    · split at h'
      · exact (beginCall_ok h').congr rfl rfl
      · cases h'
        have hk := keeps_setupInterfaceRelease c.alarmGone host
        exact .idle ⟨hk.hwaddr, hk.yiaddr, hk.addr⟩

end Starting

section Receiving

variable {c : Client} {d : Delivery} {phase : Phase} {p : Progress}

namespace Client

theorem takeAck_keeps {dhcp : DhcpT} {value : OptionValue} {state : ℤ} {c₁ : Client}
    (h : c.takeAck dhcp value = .ok (state, c₁)) :
    c₁.interface = c.interface ∧ c₁.yiaddr = c.yiaddr := by
  obtain ⟨-, hc⟩ | ⟨-, identifier, hc⟩ := takeAck_ok h
  · rw [hc]
    exact ⟨rfl, rfl⟩
  · rw [hc]
    exact ⟨rfl, rfl⟩

theorem settle_ok {state : ℤ} {dhcpAck : DhcpT} {value : OptionValue} {call : Command} {c₁ : Client}
    (htakes : c.Takes (dhcpAck.recvfrom d.datagram))
    (htake : c.takeAck (dhcpAck.recvfrom d.datagram) value = .ok (state, c₁))
    (h : c₁.settle d.host state (dhcpAck.recvfrom d.datagram) call = .ok p) :
    Resumed c d (.awaitAck call dhcpAck value) p := by
  obtain ⟨hinterface, hyiaddr⟩ := takeAck_keeps htake
  have hkeeps {c' : Client} (hk : Keeps c₁ c') : Keeps c c' :=
    ⟨hinterface ▸ hk.hwaddr, hyiaddr ▸ hk.yiaddr, hinterface ▸ hk.addr⟩
  have halarm {c' c'' : Client} (hk : Keeps c c')
      (ha : c'.setAlarm d.host (dhcpAck.recvfrom d.datagram) = .ok c'') : Keeps c c'' := by
    obtain ⟨hi, hy⟩ := setAlarm_interface ha
    exact hk.trans ⟨by rw [hi], hy, .inl (by rw [hi])⟩
  have hextend (h : c₁.settle d.host state (dhcpAck.recvfrom d.datagram) .renew = .ok p) :
      Resumed c d (.awaitAck call dhcpAck value) p := by
    rw [settle] at h
    split at h
    · cases h
      exact .ends (hkeeps (keeps_setupInterfaceRelease c₁ d.host)) (.inr rfl)
    · obtain ⟨c₂, ha, h⟩ := bind_eq_ok.mp h
      cases h
      exact .ends (halarm (hkeeps (.refl c₁)) ha) (.inl rfl)
  cases call with
  | release =>
    cases h
    exact .ends (hkeeps (.refl c₁)) (.inl rfl)
  | inform =>
    cases h
    exact .ends (hkeeps (.refl c₁)) (.inl rfl)
  | renew => exact hextend h
  | rebind => exact hextend h
  | discover =>
    rw [settle] at h
    split at h
    · cases h
      exact .ends (hkeeps (keeps_setupInterfaceRelease c₁ d.host)) (.inl rfl)
    · rename_i hstate
      obtain ⟨c₂, hsetup, h⟩ := bind_eq_ok.mp h
      obtain ⟨c₃, ha, h⟩ := bind_eq_ok.mp h
      cases h
      obtain ⟨hi, hy⟩ := setAlarm_interface ha
      cases hset : d.host.setAddr with
      | false =>
        have hc : c₂ = c₁ := by
          rw [setupInterface_ok hsetup, hset]
          rfl
        rw [hc] at ha
        exact .ends (halarm (hkeeps (.refl c₁)) ha) (.inl rfl)
      | true =>
        obtain ⟨hmac, hy', haddr⟩ := setupInterface_configured hset hsetup
        have hzero : state = 0 := by
          rcases takeAck_ok htake with ⟨rfl, -⟩ | ⟨rfl, -⟩
          · exact absurd (by decide) hstate
          · rfl
        rw [hzero] at htake
        refine .configures hset htakes htake ⟨?_, ?_, ?_⟩
        · rw [hi, hmac, hinterface]
        · rw [hy, hy', hyiaddr]
        · rw [hi, haddr]

theorem resume_ok (hphase : phase.isWaiting) (h : c.resume d phase = .ok p) :
    Resumed c d phase p := by
  cases phase with
  | menu => cases hphase
  | rediscover => cases hphase
  | awaitOffer dhcpOffer dhcpAck =>
    rw [resume] at h
    simp only at h
    split at h
    · rename_i htakes
      obtain ⟨⟨c', value⟩, htake, h⟩ := bind_eq_ok.mp h
      obtain ⟨request, hsend, h⟩ := bind_eq_ok.mp h
      cases h
      obtain ⟨identifier, -, hc⟩ := takeOffer_ok htake
      have hxid : c'.xid = c.xid := by rw [hc, setYiaddr_xid, setIdentifier_xid]
      have hinterface : c'.interface = c.interface := by
        rw [hc, setYiaddr_interface, setIdentifier_interface]
      have hyiaddr : c'.yiaddr = DhcpT.yiaddr (dhcpOffer.recvfrom d.datagram) := by
        rw [hc, setYiaddr_yiaddr]
      refine .takesOffer htakes hxid hinterface hyiaddr ⟨c', hxid, rfl, ?_⟩
      have hrequest := sendRequest_ok hsend
      rwa [getIpAddress, hinterface] at hrequest
    · rename_i htakes
      cases h
      exact .passesOffer htakes
  | awaitAck call dhcpAck value =>
    rw [resume] at h
    simp only at h
    split at h
    · rename_i htakes
      obtain ⟨⟨state, c₁⟩, htake, h⟩ := bind_eq_ok.mp h
      simp only at h
      exact settle_ok htakes htake h
    · rename_i htakes
      cases h
      exact .passesAck htakes

end Client

end Receiving

end InternetApplications.Dhcp
