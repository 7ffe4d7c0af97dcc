import InternetApplications.Dhcp.Traffic

namespace InternetApplications.Dhcp

open ByteMemory TagScan Executions Client

def AnswersTo (p : DhcpT) (x : UInt32) : Prop := p.opcode = bootpMessageTypeReply ∧ p.xid = x

instance (p : DhcpT) (x : UInt32) : Decidable (AnswersTo p x) := inferInstanceAs (Decidable (_ ∧ _))

def Phase.isDiscovering : Phase → Bool
  | .awaitOffer _ _ | .awaitAck .discover _ _ => true
  | _ => false

theorem Phase.isWaiting_of_isDiscovering {phase : Phase} (h : phase.isDiscovering) :
    phase.isWaiting := by
  cases phase with
  | menu | rediscover => cases h
  | awaitOffer | awaitAck => rfl

def Trigger.discovers : Trigger → Bool
  | .command .discover | .rediscover => true
  | _ => false

def Trigger.Asks (c : Client) (host : Host) : Trigger → Prop
  | .command .discover | .rediscover => c.getIpAddress host = 0
  | .command .release => False
  | .command .inform | .command .renew | .command .rebind => True
  | .alarm => c.t1Time ≠ 0 ∨ c.t2Time ≠ 0

instance (c : Client) (host : Host) : (trigger : Trigger) → Decidable (trigger.Asks c host)
  | .command .discover | .rediscover => inferInstanceAs (Decidable (_ = _))
  | .command .release => inferInstanceAs (Decidable False)
  | .command .inform | .command .renew | .command .rebind => inferInstanceAs (Decidable True)
  | .alarm => inferInstanceAs (Decidable (_ ∨ _))

namespace Net

variable {ι : Type}

/-- No other client is in the middle of a discover with this transaction id. -/
def Unshared (net : Net ι) (i : ι) (x : UInt32) : Prop :=
  ∀ j, j ≠ i → (net.node j).phase.isDiscovering → (net.node j).client.xid ≠ x

/-- Nothing on the link and nothing in the buffers bears this transaction id. -/
def Unused (net : Net ι) (i : ι) (host : Host) (x : UInt32) : Prop :=
  (∀ f ∈ net.outbound, ¬f.sent.Asks x) ∧ (∀ f ∈ (net.node i).pending, ¬AnswersTo f.sent.packet x) ∧
    ¬AnswersTo host.offerResidue x ∧ ¬AnswersTo host.ackResidue x

def Fresh (rand : ℕ → ℕ → ℕ) (net : Net ι) : Action ι → Prop
  | .begin i trigger host =>
    let x := UInt32.ofNat (rand net.now 0)
    trigger.Asks (net.node i).client host →
      net.Unshared i x ∧ (trigger.discovers → net.Unused i host x)
  | _ => True

variable [DecidableEq ι] [Fintype ι]

instance (net : Net ι) (i : ι) (x : UInt32) : Decidable (net.Unshared i x) :=
  inferInstanceAs (Decidable (∀ j, j ≠ i → _ → _))

instance (net : Net ι) (i : ι) (host : Host) (x : UInt32) : Decidable (net.Unused i host x) :=
  inferInstanceAs (Decidable (_ ∧ _ ∧ _ ∧ _))

instance (rand : ℕ → ℕ → ℕ) (net : Net ι) : (action : Action ι) → Decidable (net.Fresh rand action)
  | .begin _ _ _ => inferInstanceAs (Decidable (_ → _ ∧ (_ → _)))
  | .wait _ | .receive _ _ | .timeOut _ | .arrive _ _ | .lose _ _ | .serve _ _ _ | .drop _ =>
    inferInstanceAs (Decidable True)

end Net

/-- What is on its way for a client in the middle of a discover: at most one message, first from
either side; then its own request, and what answers it. -/
def Client.Follows (c : Client) (outbound pending : List Flight) : Phase → Prop
  | .awaitOffer dhcpOffer dhcpAck =>
    ¬c.Takes dhcpOffer ∧ ¬c.Takes dhcpAck ∧ (outbound.countP fun f ↦ f.sent.Asks c.xid) +
      (pending.countP fun f ↦ c.Takes f.sent.packet) ≤ 1
  | .awaitAck .discover dhcpAck _ =>
    ¬c.Takes dhcpAck ∧
      (∀ f ∈ outbound, f.sent.Asks c.xid →
        f.sent.packet.chaddr = c.interface.hwaddr ∧ f.sent.messageType = some dhcprequest) ∧
      ∀ f ∈ pending, c.Takes f.sent.packet → f.sent.packet.chaddr = c.interface.hwaddr ∧
        (f.sent.messageType = some dhcpack ∨ f.sent.messageType = some dhcpnak)
  | _ => True

section Following

variable {c : Client} {outbound outbound' pending pending' more : List Flight} {phase : Phase}

namespace Client

theorem Follows.shrink (h : c.Follows outbound pending phase) (ho : outbound'.Subperm outbound)
    (hp : pending'.Subperm pending) : c.Follows outbound' pending' phase := by
  cases phase with
  | menu | rediscover => trivial
  | awaitOffer dhcpOffer dhcpAck =>
    obtain ⟨hoffer, hack, hcount⟩ := h
    have hout := ho.countP_le fun f ↦ decide (f.sent.Asks c.xid)
    have hin := hp.countP_le fun f ↦ decide (c.Takes f.sent.packet)
    exact ⟨hoffer, hack, by omega⟩
  | awaitAck call dhcpAck value => cases call with
    | release | inform | renew | rebind => trivial
    | discover =>
      obtain ⟨hack, hout, hin⟩ := h
      exact ⟨hack, fun f hf ↦ hout f (ho.subset hf), fun f hf ↦ hin f (hp.subset hf)⟩

theorem Follows.send (h : c.Follows outbound pending phase)
    (hmore : phase.isDiscovering → ∀ f ∈ more, ¬f.sent.Asks c.xid) :
    c.Follows (outbound ++ more) pending phase := by
  cases phase with
  | menu | rediscover => trivial
  | awaitOffer dhcpOffer dhcpAck =>
    obtain ⟨hoffer, hack, hcount⟩ := h
    refine ⟨hoffer, hack, ?_⟩
    have hnone : (more.countP fun f ↦ f.sent.Asks c.xid) = 0 := by
      apply List.countP_eq_zero.mpr
      intro f hf
      simpa using hmore rfl f hf
    rw [List.countP_append, hnone]
    exact hcount
  | awaitAck call dhcpAck value => cases call with
    | release | inform | renew | rebind => trivial
    | discover =>
      obtain ⟨hack, hout, hin⟩ := h
      refine ⟨hack, fun f hf hasks ↦ ?_, hin⟩
      rcases List.mem_append.mp hf with hf | hf
      · exact hout f hf hasks
      · exact absurd hasks (hmore rfl f hf)

theorem Follows.serve {f : Flight} {k : ℕ} {mac : Mac} {x y ciaddr : UInt32} {type : UInt8}
    (h : c.Follows outbound pending phase) (hf : outbound[k]? = some f)
    (hr : Requesting f.sent mac x y ciaddr type) (hlen : more.length ≤ 1)
    (hmore : ∀ g ∈ more, type ≠ dhcprelease ∧ Replies g.sent mac x type)
    (hp : pending'.Perm (pending ++ more)) :
    c.Follows (outbound.eraseIdx k) pending' phase := by
  have hout := perm_of_getElem? hf
  have hasks {g : Flight} (hg : g ∈ more) (ht : c.Takes g.sent.packet) : f.sent.Asks c.xid := by
    obtain ⟨hne, hreplies⟩ := hmore g hg
    exact hr.asks_iff.mpr ⟨(hreplies.xid ht).symm, hne⟩
  cases phase with
  | menu | rediscover => trivial
  | awaitOffer dhcpOffer dhcpAck =>
    obtain ⟨hoffer, hack, hcount⟩ := h
    refine ⟨hoffer, hack, ?_⟩
    have hmoved : (more.countP fun g ↦ c.Takes g.sent.packet) ≤
        [f].countP fun f ↦ f.sent.Asks c.xid := by
      by_cases hf' : f.sent.Asks c.xid
      · rw [List.countP_singleton, decide_eq_true hf']
        exact List.countP_le_length.trans hlen
      · rw [List.countP_eq_zero.mpr fun g hg ↦ by simpa using fun ht ↦ hf' (hasks hg ht)]
        exact Nat.zero_le _
    rw [hout.countP_eq, ← List.singleton_append, List.countP_append] at hcount
    rw [hp.countP_eq, List.countP_append]
    omega
  | awaitAck call dhcpAck value => cases call with
    | release | inform | renew | rebind => trivial
    | discover =>
      obtain ⟨hack, hmine, hin⟩ := h
      refine ⟨hack, fun g hg ↦ hmine g (List.mem_of_mem_eraseIdx hg), fun g hg ht ↦ ?_⟩
      rcases List.mem_append.mp (hp.subset hg) with hg | hg
      · exact hin g hg ht
      · obtain ⟨-, hreplies⟩ := hmore g hg
        obtain ⟨hmac, htype⟩ := hmine f (List.mem_of_getElem? hf) (hasks hg ht)
        rw [hr.chaddr] at hmac
        rw [hr.messageType] at htype
        cases htype
        exact ⟨(hreplies.chaddr ht).trans hmac, hreplies.messageType ht⟩

end Client

variable {d : Delivery} {p : Progress} {f : Flight} {mac : Mac} {x : UInt32} {type : UInt8} {host : Host}
  {now : ℕ} {dhcpOffer dhcpAck : DhcpT}

/-- When the reply to the discover has come, nothing else of the exchange is on its way. -/
theorem Client.Follows.only (h : c.Follows outbound (f :: pending) (.awaitOffer dhcpOffer dhcpAck))
    (hf : c.Takes f.sent.packet) :
    (∀ g ∈ outbound, ¬g.sent.Asks c.xid) ∧ ∀ g ∈ pending, ¬c.Takes g.sent.packet := by
  obtain ⟨-, -, hcount⟩ := h
  rw [List.countP_cons_of_pos (by simpa using hf)] at hcount
  have hout : (outbound.countP fun f ↦ f.sent.Asks c.xid) = 0 := by omega
  have hin : (pending.countP fun f ↦ c.Takes f.sent.packet) = 0 := by omega
  constructor
  · intro g hg
    simpa using List.countP_eq_zero.mp hout g hg
  · intro g hg
    simpa using List.countP_eq_zero.mp hin g hg

theorem Resumed.discovering (h : Resumed c d phase p) (hp : p.phase.isDiscovering) :
    phase.isDiscovering ∧ p.client.xid = c.xid := by
  cases h with
  | passesOffer => exact ⟨hp, rfl⟩
  | takesOffer _ hx => exact ⟨rfl, hx⟩
  | @passesAck call => cases call with
    | discover => exact ⟨rfl, rfl⟩
    | release | inform | renew | rebind => cases hp
  | configures => cases hp
  | ends _ hphase =>
    rcases hphase with rfl | rfl
    · cases hp
    · cases hp

theorem Resumed.sending (h : Resumed c d phase p) {m : Sent} (hm : m ∈ p.sent) :
    phase.isDiscovering := by
  cases h with
  | passesOffer | passesAck | ends | configures => cases hm
  | takesOffer => rfl

theorem Resumed.follows (h : Resumed c ⟨host, f.sent.payload⟩ phase p)
    (hf : Replies f.sent mac x type) (hc : c.Follows outbound (f :: pending) phase) :
    p.client.Follows (outbound ++ p.sent.map (Flight.mk now)) pending p.phase := by
  have hrest : c.Follows outbound pending phase :=
    hc.shrink (.refl _) (List.sublist_cons_self f pending).subperm
  cases h with
  | @passesOffer dhcpOffer dhcpAck hno =>
    obtain ⟨-, hack, hcount⟩ := hrest
    rw [List.map_nil, List.append_nil]
    exact ⟨hno, hack, hcount⟩
  | @passesAck call dhcpAck value hno =>
    rw [List.map_nil, List.append_nil]
    cases call with
    | release | inform | renew | rebind => trivial
    | discover => exact ⟨hno, hrest.2⟩
  | configures => trivial
  | ends _ hphase =>
    rcases hphase with rfl | rfl
    · trivial
    · trivial
  | @takesOffer dhcpOffer dhcpAck c' value m htakes hx hi hy hr =>
    obtain ⟨hout, hin⟩ := hc.only ((hf.takes_recvfrom (.inr hc.1)).mp htakes)
    have hack : ¬c.Takes dhcpAck := hc.2.1
    have hsame (q : DhcpT) : c'.Takes q ↔ c.Takes q := by rw [Takes, Takes, hx]
    refine ⟨(hsame dhcpAck).not.mpr hack, fun g hg hasks ↦ ?_, fun g hg ht ↦ ?_⟩
    · rcases List.mem_append.mp hg with hg | hg
      · rw [hx] at hasks
        exact absurd hasks (hout g hg)
      · cases List.mem_singleton.mp hg
        rw [hi]
        exact ⟨hr.chaddr, hr.messageType⟩
    · exact absurd ((hsame _).mp ht) (hin g hg)

/-- The address that the client sets is that of an acknowledgement for it. -/
theorem Resumed.acked {y : UInt32} (h : Resumed c ⟨host, f.sent.payload⟩ phase p)
    (hf : Replies f.sent mac x type) (hc : c.Follows outbound (f :: pending) phase)
    (hy : p.configured = some y) :
    f.sent.IsAck ∧ f.sent.packet.yiaddr = y ∧ f.sent.packet.chaddr = c.interface.hwaddr := by
  cases h with
  | passesOffer | takesOffer | passesAck | ends => cases hy
  | @configures dhcpAck value c₁ c' hset htakes htake hconf =>
    obtain ⟨hack, -, hin⟩ := hc
    have hnak := hf.takeAck (.inr hack) htakes htake
    have hyiaddr := hf.yiaddr (.inr hack) htakes
    obtain ⟨hmac, htype⟩ := hin f List.mem_cons_self ((hf.takes_recvfrom (.inr hack)).mp htakes)
    cases hy
    exact ⟨htype.resolve_right hnak, hyiaddr.symm, hmac⟩

end Following

section Starting

variable {c : Client} {host : Host} {trigger : Trigger} {p : Progress} {x : UInt32}
  {outbound pending : List Flight} {now : ℕ}

theorem Client.begin_waits (h : c.begin host trigger = .ok p) :
    (p.phase.isWaiting → trigger.Asks c host) ∧ (p.phase.isDiscovering → trigger.discovers) := by
  have hdiscover (h : c.beginDiscover host = .ok p) : p.phase.isWaiting → c.getIpAddress host = 0 := by
    rw [beginDiscover] at h
    split at h
    · cases h
      intro hp
      cases hp
    · rename_i haddr
      exact fun _ ↦ not_not.mp haddr
  cases trigger with
  | rediscover => exact ⟨hdiscover h, fun _ ↦ rfl⟩
  | command call =>
    cases call with
    | discover => exact ⟨hdiscover h, fun _ ↦ rfl⟩
    | release =>
      obtain ⟨⟨c₁, sent⟩, -, h⟩ := bind_eq_ok.mp h
      cases h
      constructor
      · intro hp
        cases hp
      · intro hp
        cases hp
    | inform | renew | rebind =>
      obtain ⟨⟨c₁, sent⟩, -, h⟩ := bind_eq_ok.mp h
      cases h
      exact ⟨fun _ ↦ trivial, fun hp ↦ by cases hp⟩
  | alarm =>
    have h' : c.alarmGone.beginTimeOut host = .ok p := h
    rw [beginTimeOut] at h'
    split at h'
    · rename_i ht1
      obtain ⟨⟨c₁, sent⟩, -, h'⟩ := bind_eq_ok.mp h'
      cases h'
      exact ⟨fun _ ↦ .inl ht1, fun hp ↦ by cases hp⟩
    · split at h'
      · rename_i ht2
        obtain ⟨⟨c₁, sent⟩, -, h'⟩ := bind_eq_ok.mp h'
        cases h'
        exact ⟨fun _ ↦ .inr ht2, fun hp ↦ by cases hp⟩
      · cases h'
        constructor
        · intro hp
          cases hp
        · intro hp
          cases hp

namespace Begun

theorem configured (h : Begun c host p) : p.configured = none := by
  cases h <;> rfl

theorem asking (h : Begun c host p) {m : Sent} (hm : m ∈ p.sent) (hasks : m.Asks x) :
    p.phase.isWaiting ∧ host.rand = x := by
  cases h with
  | idle => cases hm
  | discovers _ _ _ hr | asks _ _ _ _ hr =>
    rw [List.mem_singleton.mp hm] at hasks
    exact ⟨rfl, (hr.asks_iff.mp hasks).1⟩
  | releases _ _ hr =>
    rw [List.mem_singleton.mp hm] at hasks
    exact absurd rfl (hr.asks_iff.mp hasks).2

theorem xid (h : Begun c host p) (hp : p.phase.isWaiting) : p.client.xid = host.rand := by
  cases h with
  | idle | releases => cases hp
  | discovers _ _ hx | asks _ _ _ hx => exact hx

/-- An exchange that begins with an unused transaction id has nothing else on its way. -/
theorem follows (h : Begun c host p) (hfresh : p.phase.isDiscovering →
      (∀ f ∈ outbound, ¬f.sent.Asks host.rand) ∧ (∀ f ∈ pending, ¬AnswersTo f.sent.packet host.rand) ∧
        ¬AnswersTo host.offerResidue host.rand ∧ ¬AnswersTo host.ackResidue host.rand) :
    p.client.Follows (outbound ++ p.sent.map (Flight.mk now)) pending p.phase := by
  cases h with
  | idle | releases => trivial
  | @asks c' m call type hcall => cases call with
    | discover => exact absurd rfl hcall
    | release | inform | renew | rebind => trivial
  | @discovers c' m ha hk hx hr =>
    obtain ⟨hout, hin, hoffer, hack⟩ := hfresh rfl
    have hsame (q : DhcpT) : c'.Takes q ↔ AnswersTo q host.rand := by
      rw [Takes, AnswersTo, hx]
    refine ⟨(hsame _).not.mpr hoffer, (hsame _).not.mpr hack, ?_⟩
    have hnone : (outbound.countP fun f ↦ f.sent.Asks c'.xid) = 0 := by
      apply List.countP_eq_zero.mpr
      intro f hf
      rw [hx]
      simpa using hout f hf
    have hnone' : (pending.countP fun f ↦ c'.Takes f.sent.packet) = 0 := by
      apply List.countP_eq_zero.mpr
      intro f hf
      simpa using (hsame _).not.mpr (hin f hf)
    rw [List.countP_append, hnone, hnone', Nat.zero_add, Nat.add_zero]
    exact List.countP_le_length

end Begun

end Starting

namespace Net

variable {ι : Type} {rand : ℕ → ℕ → ℕ} {net net' : Net ι} {mac : ι → Mac} {action : Action ι}

structure Separate (mac : ι → Mac) (net : Net ι) : Prop where
  carried : net.Carried mac
  apart : ∀ i j, j ≠ i → (net.node i).phase.isDiscovering → (net.node j).phase.isDiscovering →
    (net.node j).client.xid ≠ (net.node i).client.xid
  follows : ∀ i, (net.node i).client.Follows net.outbound (net.node i).pending (net.node i).phase
  acked : ∀ i x, (net.node i).configured = some x →
    ∃ m ∈ net.replies, m.IsAck ∧ m.packet.yiaddr = x ∧ m.packet.chaddr = mac i

theorem separate_start (interface : ι → Interface) (now : ℕ) :
    (start interface now).Separate fun i ↦ (interface i).hwaddr := by
  constructor
  · exact carried_start interface now
  · intro i j _ hi
    cases hi
  · exact fun _ ↦ trivial
  · intro i x hx
    cases hx

theorem Separate.wanes (h : net.Separate mac) (hw : net.Wanes net') : net'.Separate mac := by
  have hphase {i : ι} (hi : (net'.node i).phase.isDiscovering) : (net.node i).phase.isDiscovering := by
    rcases (hw.node i).phase with hsame | hmenu
    · rwa [← hsame]
    · rw [hmenu] at hi
      cases hi
  constructor
  · exact h.carried.wanes hw
  · intro i j hne hi hj
    rw [(hw.node i).client, (hw.node j).client]
    exact h.apart i j hne (hphase hi) (hphase hj)
  · intro i
    rw [(hw.node i).client]
    rcases (hw.node i).phase with hsame | hmenu
    · rw [hsame]
      exact (h.follows i).shrink hw.outbound.subperm (hw.node i).pending
    · rw [hmenu]
      trivial
  · intro i x hx
    rw [(hw.node i).configured] at hx
    rw [hw.replies]
    exact h.acked i x hx

section Stepping

variable [DecidableEq ι]

theorem Separate.acts {i : ι} {node : Node} {sent : List Sent} (h : net.Separate mac)
    (hcarried : ((net.put i node).send sent).Carried mac)
    (hxid : node.phase.isDiscovering → net.Unshared i node.client.xid)
    (hsent : ∀ j, j ≠ i → (net.node j).phase.isDiscovering →
      ∀ m ∈ sent, ¬m.Asks (net.node j).client.xid)
    (hfollows : node.client.Follows (net.outbound ++ sent.map (Flight.mk net.now)) node.pending
      node.phase)
    (hacked : ∀ x, node.configured = some x →
      ∃ m ∈ net.replies, m.IsAck ∧ m.packet.yiaddr = x ∧ m.packet.chaddr = mac i) :
    ((net.put i node).send sent).Separate mac := by
  refine ⟨hcarried, ?_, ?_, ?_⟩
  · intro j k hne
    rw [send_node]
    by_cases hj : j = i
    · rw [hj] at hne ⊢
      rw [put_self, put_of_ne hne]
      exact fun hnode hk ↦ hxid hnode k hne hk
    · rw [put_of_ne hj]
      by_cases hk : k = i
      · rw [hk, put_self]
        exact fun hj' hnode ↦ (hxid hnode j hj hj').symm
      · rw [put_of_ne hk]
        exact h.apart j k hne
  · intro j
    rw [send_node]
    by_cases hj : j = i
    · rw [hj, put_self]
      exact hfollows
    · rw [put_of_ne hj]
      refine (h.follows j).send fun hphase f hf ↦ ?_
      obtain ⟨m, hm, rfl⟩ := List.mem_map.mp hf
      exact hsent j hj hphase m hm
  · intro j x
    rw [send_node]
    by_cases hj : j = i
    · rw [hj, put_self]
      exact hacked x
    · rw [put_of_ne hj]
      exact h.acked j x

theorem Separate.begins {i : ι} {trigger : Trigger} {host : Host} {handling : Bool} {p : Progress}
    (h : net.Separate mac) (hfresh : net.Fresh rand (.begin i trigger host))
    (hp : (net.node i).client.begin (host.seeded rand net.now) trigger = .ok p) :
    ((net.put i ((net.node i).adopt net.now handling p)).send p.sent).Separate mac := by
  have hbegun := begin_ok hp
  obtain ⟨hwaits, hdiscovers⟩ := begin_waits hp
  have hasks (hphase : p.phase.isWaiting) : net.Unshared i (UInt32.ofNat (rand net.now 0)) ∧
      (trigger.discovers → net.Unused i host (UInt32.ofNat (rand net.now 0))) := hfresh (hwaits hphase)
  have hwaiting (hphase : p.phase.isDiscovering) : p.phase.isWaiting :=
    Phase.isWaiting_of_isDiscovering hphase
  have hmoved : Moved rand net (.begin i trigger host)
      ((net.put i ((net.node i).adopt net.now handling p)).send p.sent) := .begins hp
  apply h.acts (h.carried.moved hmoved)
  · intro hphase
    have hx : p.client.xid = UInt32.ofNat (rand net.now 0) := hbegun.xid (hwaiting hphase)
    rw [Node.adopt, hx]
    exact (hasks (hwaiting hphase)).1
  · intro j hj hphase m hm hm'
    obtain ⟨hphase', hx⟩ := hbegun.asking hm hm'
    exact (hasks hphase').1 j hj hphase hx.symm
  · apply hbegun.follows
    intro hphase
    exact (hasks (hwaiting hphase)).2 (hdiscovers hphase)
  · intro x hx
    rw [Node.adopt, hbegun.configured] at hx
    exact h.acked i x hx

theorem Separate.receives {i : ι} {host : Host} {f : Flight} {rest : List Flight} {p : Progress}
    (h : net.Separate mac) (hqueue : (net.node i).queue = f :: rest)
    (hp : Resumed (net.node i).client ⟨host.seeded rand net.now, f.sent.payload⟩ (net.node i).phase p) :
    ((net.put i ((net.node i).took net.now f rest p)).send p.sent).Separate mac := by
  have hpending : (f :: ((net.node i).took net.now f rest p).pending).Perm (net.node i).pending :=
    took_pending hqueue
  obtain ⟨-, hreplies, mac', x', type, hreplied⟩ :=
    h.carried.answered i f (hpending.subset List.mem_cons_self)
  have hfollows := (h.follows i).shrink (.refl _) hpending.subperm
  apply h.acts (h.carried.moved (.receives hqueue hp))
  · intro hphase j hj hphase'
    obtain ⟨hbefore, hx⟩ := hp.discovering hphase
    rw [Node.took, Node.adopt, hx]
    exact h.apart i j hj hbefore hphase'
  · intro j hj hphase m hm hm'
    have hr := hp.requesting m hm
    exact h.apart i j hj (hp.sending hm) hphase (hr.asks_iff.mp hm').1.symm
  · exact hp.follows hreplied hfollows
  · intro x hx
    rcases Option.or_eq_some_iff.mp hx with hx | ⟨-, hx⟩
    · obtain ⟨hack, hy, hmac⟩ := hp.acked hreplied hfollows hx
      exact ⟨f.sent, hreplies, hack, hy, hmac.trans (h.carried.hwaddr i)⟩
    · exact h.acked i x hx

theorem Separate.serves {k draws : ℕ} {stale : UInt32} {f : Flight} {server : Server}
    {out : Option Sent} (h : net.Separate mac) (hf : net.outbound[k]? = some f)
    (hserved : mainLoop net.server
      ⟨⟨net.now, (List.range draws).map (rand net.now), stale⟩, f.sent.payload⟩ = .ok (server, out)) :
    ((net.drop k).reply server out.toList).Separate mac := by
  obtain ⟨i, x, y, ciaddr, type, hr⟩ := h.carried.asked f (List.mem_of_getElem? hf)
  refine ⟨h.carried.moved (.serves hf hserved), h.apart, ?_, ?_⟩
  · intro j
    refine (h.follows j).serve hf hr ?_ ?_
      (Node.expect_pending _ _)
    · cases out with
      | none => exact Nat.zero_le _
      | some m => exact le_rfl
    · intro g hg
      obtain ⟨m, hm, rfl⟩ := List.mem_map.mp hg
      rw [Option.mem_toList] at hm
      cases hm
      exact hr.replies hserved
  · intro j y hy
    obtain ⟨m, hm, hacked⟩ := h.acked j y hy
    exact ⟨m, List.mem_append_left _ hm, hacked⟩

theorem Separate.moved (h : net.Separate mac) (hfresh : net.Fresh rand action)
    (hm : Moved rand net action net') : net'.Separate mac := by
  cases hm with
  | wanes hw => exact h.wanes hw
  | begins hp => exact h.begins hfresh hp
  | receives hqueue hp => exact h.receives hqueue hp
  | serves hf hserved => exact h.serves hf hserved

end Stepping

end Net

variable {ι : Type} [DecidableEq ι] [Fintype ι]

/-- In a run in which no client draws a transaction id that is in use, a client sets its interface
only to an address that the server has acknowledged to it. -/
theorem configured_only_acked {rand : ℕ → ℕ → ℕ} {interface : ι → Interface} {now : ℕ}
    {trace : List (Transition (Net ι) (Action ι) Unit)} {net : Net ι}
    (h : Execution (Net.step rand) (Net.start interface now) trace net)
    (hfresh : ∀ e ∈ trace, e.before.Fresh rand e.input) (i : ι) (x : UInt32)
    (hx : (net.node i).configured = some x) :
    ∃ m ∈ net.replies, m.IsAck ∧ m.packet.yiaddr = x ∧ m.packet.chaddr = (interface i).hwaddr := by
  have hsep := (h.invariant (I := Net.Separate fun i ↦ (interface i).hwaddr)
    (fun e he hfresh hsep ↦ hsep.moved hfresh (Net.step_moved he)) hfresh
    (Net.separate_start interface now)).1
  exact hsep.acked i x hx

section Samples

def sampleRand (seed k : ℕ) : ℕ := 7919 * seed + 31 * k + 5

def twoClients (i : Bool) : Interface := ⟨if i then clientB else clientA, 0⟩

theorem configured_only_acked_two : ∃ net : Net Bool, ∀ i, ∃ x,
    (net.node i).configured = some x ∧
      ∃ m ∈ net.replies, m.IsAck ∧ m.packet.yiaddr = x ∧ m.packet.chaddr = (twoClients i).hwaddr := by
  obtain ⟨trace, net, hrun, hnet⟩ := exists_execution (Net.step sampleRand) (Net.start twoClients 0)
    [.begin false (.command .discover) (quietHost 0 0), .wait 1,
      .begin true (.command .discover) (quietHost 0 0), .serve 0 1 0, .wait 1, .serve 0 1 0,
      .arrive false 0, .arrive true 0, .arrive true 0, .receive false (quietHost 0 0),
      .receive true (quietHost 0 0), .receive true (quietHost 0 0), .serve 0 0 0, .serve 0 0 0,
      .arrive false 1, .receive false (quietHost 0 0), .arrive true 0, .arrive true 0,
      .receive true (quietHost 0 0), .receive true (quietHost 0 0)]
    (fun trace net ↦ (∀ e ∈ trace, e.before.Fresh sampleRand e.input) ∧
      ∀ i, (net.node i).configured.isSome) (by decide +kernel)
  obtain ⟨hfresh, hset⟩ := of_decide_eq_true hnet
  refine ⟨net, fun i ↦ ?_⟩
  obtain ⟨x, hx⟩ := Option.isSome_iff_exists.mp (hset i)
  exact ⟨x, hx, configured_only_acked hrun hfresh i x hx⟩

/-- Two clients start in the same second, and both take the server's replies to the first. -/
theorem configured_by_another : ∃ (trace : List (Transition (Net Bool) (Action Bool) Unit))
    (net : Net Bool), Execution (Net.step sampleRand) (Net.start twoClients 0) trace net ∧
      (net.node true).configured = some 0xC0A80007 ∧
      ¬∃ m ∈ net.replies, m.IsAck ∧ m.packet.yiaddr = 0xC0A80007 ∧
        m.packet.chaddr = (twoClients true).hwaddr := by
  obtain ⟨trace, net, hrun, hnet⟩ := exists_execution (Net.step sampleRand) (Net.start twoClients 0)
    [.begin false (.command .discover) (quietHost 0 0),
      .begin true (.command .discover) (quietHost 0 0), .serve 0 1 0, .arrive false 0, .arrive true 0,
      .receive false (quietHost 0 0), .receive true (quietHost 0 0), .serve 1 0 0, .arrive true 0,
      .receive true (quietHost 0 0)]
    (fun _ net ↦ (net.node true).configured = some 0xC0A80007 ∧
      ∀ m ∈ net.replies, m.packet.chaddr = clientA) (by decide +kernel)
  obtain ⟨hset, hothers⟩ := of_decide_eq_true hnet
  refine ⟨trace, net, hrun, hset, ?_⟩
  rintro ⟨m, hm, -, -, hmac⟩
  rw [hothers m hm] at hmac
  exact absurd hmac (by decide)

end Samples

end InternetApplications.Dhcp
