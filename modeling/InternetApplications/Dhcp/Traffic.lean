import InternetApplications.Dhcp.NetStep
import InternetApplications.Dhcp.ServerAnswer

namespace InternetApplications.Dhcp

open ByteMemory TagScan Executions Client

def Sent.Asks (m : Sent) (x : UInt32) : Prop :=
  m.packet.xid = x ∧ m.messageType ≠ some dhcprelease

instance (m : Sent) (x : UInt32) : Decidable (m.Asks x) := inferInstanceAs (Decidable (_ ∧ _))

def Replies (m : Sent) (mac : Mac) (x : UInt32) (type : UInt8) : Prop :=
  m.payload = [] ∨ ∃ (b : DhcpT) (state : UInt8) (y : UInt32),
    IsReply b m state y true ∧ b.chaddr = mac ∧ b.xid = x ∧
      (type = dhcprequest → state = dhcpack ∨ state = dhcpnak)

section Answering

variable {s s' : Server} {env : Env} {m r : Sent} {mac : Mac} {x y ciaddr : UInt32} {type : UInt8}

/-- The options of a packet of the client begin with its type, so every reply carries lease times. -/
theorem Answers.replies {b : DhcpT} {state : UInt8} (h : Answers b r state y)
    (ho : getDhcpOption b optionDhcpMessageType = .ok (1, some 2)) (hmac : b.chaddr = mac)
    (hx : b.xid = x) (hne : state ≠ dhcpinform)
    (hs : type = dhcprequest → state = dhcpack ∨ state = dhcpnak) : Replies r mac x type :=
  .inr ⟨b, state, y, h.isReply ho hne, hmac, hx, hs⟩

/-- A reply goes back under the address and the transaction id of the request; a release has none. -/
theorem Requesting.replies (h : Requesting m mac x y ciaddr type)
    (hm : mainLoop s ⟨env, m.payload⟩ = .ok (s', some r)) :
    type ≠ dhcprelease ∧ Replies r mac x type := by
  obtain ⟨c, hx, -, hreads⟩ := h.reads s.dhcpRecv
  have htype : receivedType (s.received ⟨env, m.payload⟩) = .ok (some type) := hreads.receivedType
  have hmac : (s.received ⟨env, m.payload⟩).chaddr = mac := hreads.chaddr
  have hxid : (s.received ⟨env, m.payload⟩).xid = x := hreads.xid.trans hx
  have ho := hreads.messageType.1
  have hkind {type' : UInt8} (h' : receivedType (s.received ⟨env, m.payload⟩) = .ok (some type')) :
      type = type' := by
    rw [htype] at h'
    cases h'
    rfl
  have hhandled := mainLoop_handled hm
  generalize s'.table = t at hhandled
  cases hhandled with
  | offerRequested hd _ ha | offerAllocated hd _ _ ha =>
    rw [hkind hd]
    exact ⟨by decide, ha.replies ho hmac hxid (by decide) (by decide)⟩
  | offerNone hd _ _ hempty =>
    rw [hkind hd]
    exact ⟨by decide, .inl hempty⟩
  | ackSelected hr _ _ _ _ ha | ackRenewed hr _ _ _ ha =>
    rw [hkind hr]
    exact ⟨by decide, ha.replies ho hmac hxid (by decide) fun _ ↦ .inl rfl⟩
  | nak hr _ ha =>
    rw [hkind hr]
    exact ⟨by decide, ha.replies ho hmac hxid (by decide) fun _ ↦ .inr rfl⟩
  | informSelected hi _ _ _ ha | informKnown hi _ _ ha =>
    rw [hkind hi]
    exact ⟨by decide, ha.replies ho hmac hxid (by decide) (by decide)⟩

end Answering

section Taking

variable {m : Sent} {mac : Mac} {x : UInt32} {type : UInt8} {c : Client} {p : DhcpT}

theorem packet_empty (h : m.payload = []) : m.packet = DhcpT.zero := by
  rw [Sent.packet, h]
  rfl

theorem not_takes_empty (h : m.payload = []) : ¬c.Takes m.packet := by
  rw [packet_empty h]
  intro ht
  exact absurd ht.1 (by decide)

namespace Replies

theorem xid (h : Replies m mac x type) (ht : c.Takes m.packet) : c.xid = x := by
  rcases h with hempty | ⟨b, state, y, hreply, -, hx, -⟩
  · exact absurd ht (not_takes_empty hempty)
  · rw [← hx]
    exact ((hreply.reads DhcpT.zero).takes.mp ht).symm

theorem chaddr (h : Replies m mac x type) (ht : c.Takes m.packet) : m.packet.chaddr = mac := by
  rcases h with hempty | ⟨b, state, y, hreply, hmac, -, -⟩
  · exact absurd ht (not_takes_empty hempty)
  · exact (hreply.reads DhcpT.zero).chaddr.trans hmac

theorem messageType (h : Replies m mac x dhcprequest) (ht : c.Takes m.packet) :
    m.messageType = some dhcpack ∨ m.messageType = some dhcpnak := by
  rcases h with hempty | ⟨b, state, y, hreply, -, -, hs⟩
  · exact absurd ht (not_takes_empty hempty)
  · rw [hreply.messageType]
    exact (hs rfl).imp (congrArg some) (congrArg some)

/-- A buffer that is not taken for a reply is one only through the datagram, and so is every buffer if
the datagram is not empty. -/
theorem takes_recvfrom (h : Replies m mac x type) (hp : m.payload ≠ [] ∨ ¬c.Takes p) :
    c.Takes (p.recvfrom m.payload) ↔ c.Takes m.packet := by
  rcases h with hempty | ⟨b, state, y, hreply, -, -, -⟩
  · replace hp := hp.resolve_left (not_not.mpr hempty)
    have hsame : p.recvfrom m.payload = p := by
      rw [hempty]
      rfl
    rw [hsame]
    exact iff_of_false hp (not_takes_empty hempty)
  · rw [(hreply.reads p).takes, Sent.packet, (hreply.reads DhcpT.zero).takes]

theorem yiaddr (h : Replies m mac x type) (hp : m.payload ≠ [] ∨ ¬c.Takes p)
    (ht : c.Takes (p.recvfrom m.payload)) :
    DhcpT.yiaddr (p.recvfrom m.payload) = m.packet.yiaddr := by
  rcases h with hempty | ⟨b, state, y, hreply, -, -, -⟩
  · refine absurd ht ?_
    rw [hempty]
    exact hp.resolve_left (not_not.mpr hempty)
  · rw [(hreply.reads p).yiaddr, Sent.packet, (hreply.reads DhcpT.zero).yiaddr]

/-- The client goes on to set its interface only if the reply is no `DHCPNAK`. -/
theorem takeAck {value : OptionValue} {c' : Client} (h : Replies m mac x type)
    (hp : m.payload ≠ [] ∨ ¬c.Takes p) (ht : c.Takes (p.recvfrom m.payload))
    (hack : c.takeAck (p.recvfrom m.payload) value = .ok (0, c')) :
    m.messageType ≠ some dhcpnak := by
  rcases h with hempty | ⟨b, state, y, hreply, -, -, -⟩
  · refine absurd ht ?_
    rw [hempty]
    exact hp.resolve_left (not_not.mpr hempty)
  · rw [hreply.messageType]
    rw [(hreply.reads p).takeAck] at hack
    split at hack
    · cases hack
    · rename_i hs
      simpa using hs

end Replies

end Taking

section Asking

variable {m : Sent} {mac : Mac} {x x' y addr : UInt32} {type : UInt8}

theorem Requesting.chaddr (h : Requesting m mac x y addr type) : m.packet.chaddr = mac := by
  obtain ⟨c, -, -, hreads⟩ := h.reads DhcpT.zero
  exact hreads.chaddr

theorem Requesting.ciaddr (h : Requesting m mac x y addr type) : m.packet.ciaddr = addr := by
  obtain ⟨c, -, -, hreads⟩ := h.reads DhcpT.zero
  exact hreads.ciaddr

theorem Requesting.asks_iff (h : Requesting m mac x y addr type) :
    m.Asks x' ↔ x = x' ∧ type ≠ dhcprelease := by
  rw [Sent.Asks, h.xid, h.messageType]
  simp

end Asking

section Lists

variable {α : Type} {l : List α} {k : ℕ} {a : α}

theorem perm_of_getElem? (h : l[k]? = some a) : l.Perm (a :: l.eraseIdx k) := by
  obtain ⟨hk, rfl⟩ := List.getElem?_eq_some_iff.mp h
  exact (List.getElem_cons_eraseIdx_perm hk).symm

theorem Node.expect_pending (node : Node) (flights : List Flight) :
    (node.expect flights).pending.Perm (node.pending ++ flights) := by
  rw [Node.expect, Node.pending, Node.pending, List.append_assoc, List.append_assoc]
  exact List.perm_append_comm.append_left node.inbound

end Lists

structure Net.Carried {ι : Type} (mac : ι → Mac) (net : Net ι) : Prop where
  hwaddr : ∀ i, (net.node i).client.interface.hwaddr = mac i
  asked : ∀ f ∈ net.outbound, ∃ i x y ciaddr type, Requesting f.sent (mac i) x y ciaddr type
  answered : ∀ i, ∀ f ∈ (net.node i).pending, f.sentAt ≤ net.now ∧ f.sent ∈ net.replies ∧
    ∃ mac x type, Replies f.sent mac x type

section Carrying

variable {ι : Type} {rand : ℕ → ℕ → ℕ} {net net' : Net ι} {mac : ι → Mac} {action : Action ι}

theorem Begun.hwaddr {c : Client} {host : Host} {p : Progress} (h : Begun c host p) :
    p.client.interface.hwaddr = c.interface.hwaddr := by
  cases h with
  | idle hk => exact hk.hwaddr
  | discovers _ hk => exact hk.hwaddr
  | releases hk => exact hk.hwaddr
  | asks _ _ hk => exact hk.hwaddr

theorem Begun.requesting {c : Client} {host : Host} {p : Progress} (h : Begun c host p) :
    ∀ m ∈ p.sent, ∃ type, Requesting m c.interface.hwaddr host.rand c.yiaddr (c.getIpAddress host) type := by
  cases h with
  | idle => exact fun m hm ↦ by cases hm
  | discovers ha _ _ hr =>
    intro m hm
    rw [List.mem_singleton.mp hm, ha]
    exact ⟨_, hr⟩
  | releases _ _ hr | asks _ _ _ _ hr =>
    intro m hm
    rw [List.mem_singleton.mp hm]
    exact ⟨_, hr⟩

theorem Resumed.hwaddr {c : Client} {d : Delivery} {phase : Phase} {p : Progress}
    (h : Resumed c d phase p) : p.client.interface.hwaddr = c.interface.hwaddr := by
  cases h with
  | passesOffer | passesAck => rfl
  | takesOffer _ _ hi => rw [hi]
  | ends hk => exact hk.hwaddr
  | configures _ _ _ hc => exact hc.hwaddr

theorem Resumed.requesting {c : Client} {d : Delivery} {phase : Phase} {p : Progress}
    (h : Resumed c d phase p) : ∀ m ∈ p.sent,
      Requesting m c.interface.hwaddr c.xid p.client.yiaddr (c.getIpAddress d.host) dhcprequest := by
  cases h with
  | passesOffer | passesAck | ends | configures => exact fun m hm ↦ by cases hm
  | takesOffer _ _ _ _ hr =>
    intro m hm
    rw [List.mem_singleton.mp hm]
    exact hr

namespace Net

@[simp] theorem send_outbound (net : Net ι) (sent : List Sent) :
    (net.send sent).outbound = net.outbound ++ sent.map (Flight.mk net.now) := rfl

@[simp] theorem send_node (net : Net ι) (sent : List Sent) : (net.send sent).node = net.node := rfl

theorem Carried.wanes (h : net.Carried mac) (hw : net.Wanes net') : net'.Carried mac := by
  constructor
  · intro i
    rw [(hw.node i).client]
    exact h.hwaddr i
  · intro f hf
    exact h.asked f (hw.outbound.subset hf)
  · intro i f hf
    obtain ⟨hsent, hreplies, hreplied⟩ := h.answered i f ((hw.node i).pending.subset hf)
    exact ⟨hsent.trans hw.now, hw.replies ▸ hreplies, hreplied⟩

theorem took_pending {node : Node} {now : ℕ} {f : Flight} {rest : List Flight} {p : Progress}
    (hqueue : node.queue = f :: rest) : (f :: (node.took now f rest p).pending).Perm node.pending := by
  have hpending : node.pending = node.inbound ++ f :: rest := by rw [Node.pending, hqueue]
  rw [hpending]
  exact List.perm_middle.symm

theorem carried_start (interface : ι → Interface) (now : ℕ) :
    (start interface now).Carried fun i ↦ (interface i).hwaddr := by
  constructor
  · exact fun _ ↦ rfl
  · exact fun f hf ↦ absurd hf List.not_mem_nil
  · exact fun i f hf ↦ absurd hf List.not_mem_nil

variable [DecidableEq ι]

theorem Carried.acts (h : net.Carried mac) {i : ι} {node : Node} {sent : List Sent}
    (hmac : node.client.interface.hwaddr = (net.node i).client.interface.hwaddr)
    (hpending : node.pending.Subperm (net.node i).pending)
    (hsent : ∀ m ∈ sent, ∃ x y ciaddr type,
      Requesting m (net.node i).client.interface.hwaddr x y ciaddr type) :
    ((net.put i node).send sent).Carried mac := by
  constructor
  · intro j
    by_cases hj : j = i
    · rw [hj, send_node, put_self, hmac]
      exact h.hwaddr i
    · rw [send_node, put_of_ne hj]
      exact h.hwaddr j
  · intro f hf
    rcases List.mem_append.mp hf with hf | hf
    · exact h.asked f hf
    · obtain ⟨m, hm, rfl⟩ := List.mem_map.mp hf
      obtain ⟨x, y, ciaddr, type, hr⟩ := hsent m hm
      rw [h.hwaddr i] at hr
      exact ⟨i, x, y, ciaddr, type, hr⟩
  · intro j f hf
    by_cases hj : j = i
    · rw [hj, send_node, put_self] at hf
      exact h.answered i f (hpending.subset hf)
    · rw [send_node, put_of_ne hj] at hf
      exact h.answered j f hf

theorem Carried.moved (h : net.Carried mac) (hm : Moved rand net action net') : net'.Carried mac := by
  cases hm with
  | wanes hw => exact h.wanes hw
  | begins hp =>
    have hbegun := begin_ok hp
    refine h.acts hbegun.hwaddr (.refl _) fun m hm ↦ ?_
    obtain ⟨type, hr⟩ := hbegun.requesting m hm
    exact ⟨_, _, _, type, hr⟩
  | receives hqueue hresumed =>
    refine h.acts hresumed.hwaddr ?_ fun m hm ↦ ⟨_, _, _, _, hresumed.requesting m hm⟩
    exact (List.sublist_cons_self _ _).subperm.trans (took_pending hqueue).subperm
  | @serves k draws stale f server out hf hserved =>
    obtain ⟨i, x, y, ciaddr, type, hr⟩ := h.asked f (List.mem_of_getElem? hf)
    constructor
    · exact h.hwaddr
    · intro g hg
      exact h.asked g (List.mem_of_mem_eraseIdx hg)
    · intro j g hg
      rcases List.mem_append.mp ((Node.expect_pending _ _).subset hg) with hg | hg
      · obtain ⟨hsent, hreplies, hreplied⟩ := h.answered j g hg
        exact ⟨hsent, List.mem_append_left _ hreplies, hreplied⟩
      · obtain ⟨m, hm, rfl⟩ := List.mem_map.mp hg
        refine ⟨le_rfl, List.mem_append_right _ hm, ?_⟩
        rw [Option.mem_toList] at hm
        cases hm
        exact ⟨_, _, _, (hr.replies hserved).2⟩

end Net

end Carrying

end InternetApplications.Dhcp
