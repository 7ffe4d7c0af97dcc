import InternetApplications.Dhcp.LeaseClock
import InternetApplications.Dhcp.LeaseTraffic

namespace InternetApplications.Dhcp

open ByteMemory TagScan Executions Client LeaseTable

def Trigger.renews : Trigger → Bool
  | .command .renew | .command .rebind | .alarm => true
  | .command .discover | .command .release | .command .inform | .rediscover => false

def Action.Succeeds {ι : Type} : Action ι → Prop
  | .begin _ _ host | .receive _ host => host.getAddr ∧ host.setAddr
  | _ => True

namespace Net

/-- A datagram is on its way for less time than the client waits, and a client that waits takes what
has arrived. -/
def Prompt (net : Net Unit) : Action Unit → Prop
  | .wait _ => (net.node ()).phase.isWaiting → (net.node ()).queue = []
  | .serve k _ _ => ∀ f ∈ net.outbound[k]?, net.now < f.sentAt + maxWaitTime
  | .arrive _ k => ∀ f ∈ (net.node ()).inbound[k]?, net.now < f.sentAt + maxWaitTime
  | _ => True

def Sequential : Action Unit → Prop
  | .serve k _ _ => k = 0
  | _ => True

/-- No discover begins with a transaction id that something on the link bears. -/
def Unborne (rand : ℕ → ℕ → ℕ) (net : Net Unit) : Action Unit → Prop
  | .begin _ trigger host =>
    let x := UInt32.ofNat (rand net.now 0)
    trigger.discovers → trigger.Asks (net.node ()).client host →
      (∀ f ∈ net.outbound, ¬f.sent.Asks x) ∧ ∀ f ∈ (net.node ()).pending, ¬AnswersTo f.sent.packet x
  | _ => True

/-- No renewal begins with the transaction id of a reply that was sent a whole wait ago. -/
def Unrepeated (rand : ℕ → ℕ → ℕ) (net : Net Unit) : Action Unit → Prop
  | .begin _ trigger host =>
    trigger.renews → trigger.Asks (net.node ()).client host → ∀ f ∈ (net.node ()).pending,
      AnswersTo f.sent.packet (UInt32.ofNat (rand net.now 0)) → net.now < f.sentAt + maxWaitTime
  | _ => True

structure Orderly (rand : ℕ → ℕ → ℕ) (net : Net Unit) (action : Action Unit) : Prop where
  succeeds : action.Succeeds
  prompt : net.Prompt action
  sequential : Sequential action
  unborne : net.Unborne rand action
  unrepeated : net.Unrepeated rand action

section Instances

variable {rand : ℕ → ℕ → ℕ} {net : Net Unit}

instance : (action : Action Unit) → Decidable action.Succeeds
  | .begin _ _ _ | .receive _ _ => inferInstanceAs (Decidable (_ ∧ _))
  | .wait _ | .timeOut _ | .arrive _ _ | .lose _ _ | .serve _ _ _ | .drop _ =>
    inferInstanceAs (Decidable True)

instance : (action : Action Unit) → Decidable (net.Prompt action)
  | .wait _ => decidable_of_iff ((net.node ()).phase.isWaiting → (net.node ()).queue.isEmpty)
      (imp_congr_right fun _ ↦ List.isEmpty_iff)
  | .serve _ _ _ | .arrive _ _ => inferInstanceAs (Decidable (∀ f ∈ _, _))
  | .begin _ _ _ | .receive _ _ | .timeOut _ | .lose _ _ | .drop _ => inferInstanceAs (Decidable True)

instance : (action : Action Unit) → Decidable (Sequential action)
  | .serve _ _ _ => inferInstanceAs (Decidable (_ = _))
  | .wait _ | .begin _ _ _ | .receive _ _ | .timeOut _ | .arrive _ _ | .lose _ _ | .drop _ =>
    inferInstanceAs (Decidable True)

instance : (action : Action Unit) → Decidable (net.Unborne rand action)
  | .begin _ _ _ => inferInstanceAs (Decidable (_ → _ → _ ∧ _))
  | .wait _ | .receive _ _ | .timeOut _ | .arrive _ _ | .lose _ _ | .serve _ _ _ | .drop _ =>
    inferInstanceAs (Decidable True)

instance : (action : Action Unit) → Decidable (net.Unrepeated rand action)
  | .begin _ _ _ => inferInstanceAs (Decidable (_ → _ → ∀ f ∈ _, _ → _))
  | .wait _ | .receive _ _ | .timeOut _ | .arrive _ _ | .lose _ _ | .serve _ _ _ | .drop _ =>
    inferInstanceAs (Decidable True)

instance (action : Action Unit) : Decidable (net.Orderly rand action) :=
  decidable_of_iff (action.Succeeds ∧ net.Prompt action ∧ Sequential action ∧
      net.Unborne rand action ∧ net.Unrepeated rand action)
    ⟨fun ⟨h₁, h₂, h₃, h₄, h₅⟩ ↦ ⟨h₁, h₂, h₃, h₄, h₅⟩, fun h ↦ ⟨h.1, h.2, h.3, h.4, h.5⟩⟩

end Instances

/-- The client has the address of the lease: it asks for no other, and no reply that it may still
receive is newer than the lease. -/
structure Tenancy (net : Net Unit) (z : UInt32) (stamp : ℕ) : Prop where
  offered : z = (net.node ()).client.yiaddr
  lastAck : (net.node ()).lastAck.isSome
  asks : ∀ f ∈ net.outbound,
    (f.sent.messageType = some dhcprequest ∨ f.sent.messageType = some dhcpinform) ∧
      f.sent.packet.ciaddr = z
  replied : ∀ f ∈ (net.node ()).pending, f.sentAt ≤ stamp

structure Agreement (mac : Mac) (stamp : Option ℕ) (net : Net Unit) : Prop where
  carried : net.Carried fun _ ↦ mac
  valid : net.server.table.Valid
  records : Records net.server.table mac (net.node ()).client.yiaddr stamp
  stamped : ∀ t, stamp = some t → t ≤ net.now
  asked : ∀ f ∈ net.outbound, ∃ x ciaddr type,
    Requesting f.sent mac x (net.node ()).client.yiaddr ciaddr type ∧
      (type = dhcpdiscover → ciaddr = inaddrAny)
  answered : ∀ f ∈ (net.node ()).pending, f.sent.payload ≠ []
  acks : ∀ f ∈ (net.node ()).pending, f.sent.IsAck → ∀ t, stamp = some t → f.sentAt ≤ t
  lastAck : ∀ sent, (net.node ()).lastAck = some sent →
    sent ≤ net.now ∧ ∀ t, stamp = some t → sent ≤ t
  awaits : (net.node ()).client.Agrees net.outbound (net.node ()).pending stamp (net.node ()).phase
  held : ∀ z, (net.node ()).configured = some z → InPool z ∧
    ((net.node ()).client.interface.addr = z → ∃ t, stamp = some t ∧ net.Tenancy z t)

variable {rand : ℕ → ℕ → ℕ} {net net' : Net Unit} {mac : Mac} {stamp : Option ℕ}
  {action : Action Unit}

theorem agreement_start (interface : Unit → Interface) (now : ℕ) :
    (start interface now).Agreement (interface ()).hwaddr none := by
  constructor
  · exact carried_start interface now
  · exact valid_setup
  · rfl
  · intro t ht
    cases ht
  · exact fun f hf ↦ absurd hf List.not_mem_nil
  · exact fun f hf ↦ absurd hf List.not_mem_nil
  · exact fun f hf ↦ absurd hf List.not_mem_nil
  · intro sent hsent
    cases hsent
  · trivial
  · intro z hz
    cases hz

/-- The address is kept while the client and the link do nothing about it. -/
theorem Tenancy.keep {z : UInt32} {t : ℕ} (h : net.Tenancy z t)
    (hy : (net'.node ()).client.yiaddr = (net.node ()).client.yiaddr)
    (hlast : (net.node ()).lastAck.isSome → (net'.node ()).lastAck.isSome)
    (hout : ∀ f ∈ net'.outbound, f ∈ net.outbound ∨
      (f.sent.messageType = some dhcprequest ∨ f.sent.messageType = some dhcpinform) ∧
        f.sent.packet.ciaddr = z)
    (hpending : (net'.node ()).pending ⊆ (net.node ()).pending) : net'.Tenancy z t := by
  constructor
  · rw [hy]
    exact h.offered
  · exact hlast h.lastAck
  · intro f hf
    rcases hout f hf with hf | hasks
    · exact h.asks f hf
    · exact hasks
  · exact fun f hf ↦ h.replied f (hpending hf)

theorem Agreement.wanes (h : net.Agreement mac stamp) (hw : net.Wanes net') :
    net'.Agreement mac stamp := by
  have hnode := hw.node ()
  constructor
  · exact h.carried.wanes hw
  · rw [hw.server]
    exact h.valid
  · rw [hw.server, hnode.client]
    exact h.records
  · exact fun t ht ↦ (h.stamped t ht).trans hw.now
  · rw [hnode.client]
    exact fun f hf ↦ h.asked f (hw.outbound.subset hf)
  · exact fun f hf ↦ h.answered f (hnode.pending.subset hf)
  · exact fun f hf ↦ h.acks f (hnode.pending.subset hf)
  · intro sent hsent
    rw [hnode.lastAck] at hsent
    obtain ⟨hnow, hstamp⟩ := h.lastAck sent hsent
    exact ⟨hnow.trans hw.now, hstamp⟩
  · rw [hnode.client]
    rcases hnode.phase with hsame | hmenu
    · rw [hsame]
      exact h.awaits.shrink hw.outbound hnode.pending
    · rw [hmenu]
      trivial
  · intro z hz
    rw [hnode.configured] at hz
    rw [hnode.client]
    obtain ⟨hpool, hheld⟩ := h.held z hz
    refine ⟨hpool, fun haddr ↦ ?_⟩
    obtain ⟨t, ht, htenancy⟩ := hheld haddr
    refine ⟨t, ht, htenancy.keep ?_ ?_ (fun f hf ↦ .inl (hw.outbound.subset hf)) hnode.pending.subset⟩
    · rw [hnode.client]
    · rw [hnode.lastAck]
      exact id

theorem Agreement.begins {trigger : Trigger} {host : Host} {handling : Bool} {p : Progress}
    (h : net.Agreement mac stamp) (hsucc : Action.Succeeds (.begin () trigger host))
    (hunborne : net.Unborne rand (.begin () trigger host))
    (hp : (net.node ()).client.begin (host.seeded rand net.now) trigger = .ok p) :
    ((net.put () ((net.node ()).adopt net.now handling p)).send p.sent).Agreement mac stamp := by
  obtain ⟨hget, hset⟩ := hsucc
  have hbegun := begin_ok hp
  obtain ⟨hwaits, hdiscovers⟩ := begin_waits hp
  have hmac : (net.node ()).client.interface.hwaddr = mac := h.carried.hwaddr ()
  have hmoved : Moved rand net (.begin () trigger host)
      ((net.put () ((net.node ()).adopt net.now handling p)).send p.sent) := .begins hp
  constructor
  · exact h.carried.moved hmoved
  · exact h.valid
  · rw [send_node, put_self, Node.adopt, hbegun.yiaddr]
    exact h.records
  · exact h.stamped
  · rw [send_node, put_self, Node.adopt, hbegun.yiaddr]
    intro f hf
    rcases List.mem_append.mp hf with hf | hf
    · exact h.asked f hf
    · obtain ⟨m, hm, rfl⟩ := List.mem_map.mp hf
      obtain ⟨x, ciaddr, type, hr, hd⟩ := hbegun.asked m hm
      exact ⟨x, ciaddr, type, hmac ▸ hr, hd⟩
  · rw [send_node, put_self]
    exact h.answered
  · rw [send_node, put_self]
    exact h.acks
  · rw [send_node, put_self]
    exact h.lastAck
  · rw [send_node, put_self]
    apply hbegun.agrees hget
    intro hphase
    have hwaiting : p.phase.isWaiting := Phase.isWaiting_of_isDiscovering hphase
    exact hunborne (hdiscovers hphase) (hwaits hwaiting)
  · intro z hz
    rw [send_node, put_self, Node.adopt, hbegun.configured] at hz
    obtain ⟨hpool, hheld⟩ := h.held z hz
    rw [send_node, put_self]
    refine ⟨hpool, fun haddr ↦ ?_⟩
    have haddr' : p.client.interface.addr = z := haddr
    have hne : p.client.interface.addr ≠ inaddrAny := haddr' ▸ hpool.ne_any
    have hbefore : (net.node ()).client.interface.addr = z :=
      (hbegun.addr.resolve_right hne).symm.trans haddr'
    obtain ⟨t, ht, htenancy⟩ := hheld hbefore
    refine ⟨t, ht, htenancy.keep ?_ ?_ ?_ ?_⟩
    · rw [send_node, put_self]
      exact hbegun.yiaddr
    · rw [send_node, put_self]
      exact id
    · intro f hf
      rcases List.mem_append.mp hf with hf | hf
      · exact .inl hf
      · obtain ⟨m, hm, rfl⟩ := List.mem_map.mp hf
        obtain ⟨htype, hciaddr⟩ := hbegun.keeping hget hset hne m hm
        exact .inr ⟨htype, hciaddr.trans hbefore⟩
    · rw [send_node, put_self]
      exact List.Subset.refl _

theorem took_lastAck {node : Node} {now : ℕ} {f : Flight} {rest : List Flight} {p : Progress}
    (h : node.lastAck.isSome ∨ f.sent.IsAck ∧ p.accepted ≠ []) :
    (node.took now f rest p).lastAck.isSome := by
  rw [Node.took]
  simp only
  split
  · rfl
  · rename_i hno
    rcases h with hsome | ⟨hack, haccepted⟩
    · exact hsome
    · exact absurd ⟨by simpa using haccepted, hack⟩ hno

section Receiving

variable {host : Host} {f : Flight} {rest : List Flight} {p : Progress}

theorem Tenancy.receives {z : UInt32} {t : ℕ} (h : net.Tenancy z t)
    (hqueue : (net.node ()).queue = f :: rest)
    (hy : p.client.yiaddr = (net.node ()).client.yiaddr) (hnil : p.sent = []) :
    ((net.put () ((net.node ()).took net.now f rest p)).send p.sent).Tenancy z t := by
  have hpending : (f :: ((net.node ()).took net.now f rest p).pending).Perm (net.node ()).pending :=
    took_pending hqueue
  refine h.keep ?_ ?_ (fun g hg ↦ .inl ?_) ?_
  · rw [send_node, put_self]
    exact hy
  · rw [send_node, put_self]
    exact fun hack ↦ took_lastAck (.inl hack)
  · rw [send_outbound, hnil, List.map_nil, List.append_nil] at hg
    exact hg
  · rw [send_node, put_self]
    exact fun g hg ↦ hpending.subset (List.mem_cons_of_mem f hg)

theorem tenancy_of_configures (h : (net.node ()).client.Configures net.outbound
      ((net.node ()).took net.now f rest p).pending stamp f p) :
    ((net.put () ((net.node ()).took net.now f rest p)).send p.sent).Tenancy
      (net.node ()).client.yiaddr f.sentAt := by
  constructor
  · rw [send_node, put_self]
    exact h.yiaddr.symm
  · rw [send_node, put_self]
    exact took_lastAck (.inr h.acked)
  · intro g hg
    have hg' : g ∈ net.outbound ++ p.sent.map (Flight.mk net.now) := hg
    rw [h.outbound, h.sent] at hg'
    cases hg'
  · rw [send_node, put_self]
    exact h.newest

/-- The address that a client has after it has received a reply is the one from before, or that of an
acknowledgement. -/
theorem Agreement.source (h : net.Agreement mac stamp) (hqueue : (net.node ()).queue = f :: rest)
    (hp : Resumed (net.node ()).client ⟨host.seeded rand net.now, f.sent.payload⟩
      (net.node ()).phase p) {z : UInt32}
    (hz : p.configured.or (net.node ()).configured = some z) :
    InPool z ∧ (p.client.interface.addr = z →
      (p.client.yiaddr = (net.node ()).client.yiaddr ∧ p.sent = [] ∧
          ∃ t, stamp = some t ∧ net.Tenancy z t) ∨
        (net.node ()).client.yiaddr = z ∧ (net.node ()).client.Configures net.outbound
          ((net.node ()).took net.now f rest p).pending stamp f p) := by
  have hpending : (f :: ((net.node ()).took net.now f rest p).pending).Perm (net.node ()).pending :=
    took_pending hqueue
  have hf : f ∈ (net.node ()).pending := hpending.subset List.mem_cons_self
  obtain ⟨-, -, mac', x', type, hreplied⟩ := h.carried.answered () f hf
  have hagrees := h.awaits.shrink (.refl _) hpending.subperm
  rcases hp.holds hreplied (h.answered f hf) hagrees with
      ⟨hnone, hy, hnil, hsame⟩ | ⟨hnone, hzero⟩ | hconf
  · rw [hnone, Option.none_or] at hz
    obtain ⟨hpool, hheld⟩ := h.held z hz
    refine ⟨hpool, fun haddr ↦ .inl ⟨hy, hnil, hheld ?_⟩⟩
    exact (hsame.resolve_right (haddr ▸ hpool.ne_any)).symm.trans haddr
  · rw [hnone, Option.none_or] at hz
    obtain ⟨hpool, -⟩ := h.held z hz
    exact ⟨hpool, fun haddr ↦ absurd (haddr.symm.trans hzero) hpool.ne_any⟩
  · rw [hconf.configured, Option.some_or] at hz
    cases hz
    exact ⟨hconf.inPool, fun _ ↦ .inr ⟨rfl, hconf⟩⟩

theorem Agreement.receives (h : net.Agreement mac stamp) (hget : host.getAddr)
    (hqueue : (net.node ()).queue = f :: rest)
    (hp : Resumed (net.node ()).client ⟨host.seeded rand net.now, f.sent.payload⟩
      (net.node ()).phase p) :
    ((net.put () ((net.node ()).took net.now f rest p)).send p.sent).Agreement mac stamp := by
  have hpending : (f :: ((net.node ()).took net.now f rest p).pending).Perm (net.node ()).pending :=
    took_pending hqueue
  have hf : f ∈ (net.node ()).pending := hpending.subset List.mem_cons_self
  have hrest : ((net.node ()).took net.now f rest p).pending ⊆ (net.node ()).pending :=
    fun g hg ↦ hpending.subset (List.mem_cons_of_mem f hg)
  obtain ⟨hsent, -, mac', x', type, hreplied⟩ := h.carried.answered () f hf
  have hne := h.answered f hf
  have hagrees := h.awaits.shrink (.refl _) hpending.subperm
  have hmac : (net.node ()).client.interface.hwaddr = mac := h.carried.hwaddr ()
  constructor
  · exact h.carried.moved (.receives hqueue hp)
  · exact h.valid
  · rw [send_node, put_self]
    change Records net.server.table mac p.client.yiaddr stamp
    rcases hp.yiaddr hreplied hne hagrees with hsame | ⟨-, hnone⟩
    · rw [hsame]
      exact h.records
    · have hrecords := h.records
      rw [hnone] at hrecords ⊢
      exact hrecords.of_none
  · exact h.stamped
  · rw [send_node, put_self]
    intro g hg
    rcases List.mem_append.mp hg with hg | hg
    · rcases hp.yiaddr hreplied hne hagrees with hsame | ⟨hnil, -⟩
      · obtain ⟨x, ciaddr, type, hr, hd⟩ := h.asked g hg
        exact ⟨x, ciaddr, type, hsame.symm ▸ hr, hd⟩
      · have hg' : g ∈ net.outbound := hg
        rw [hnil] at hg'
        cases hg'
    · obtain ⟨m, hm, rfl⟩ := List.mem_map.mp hg
      obtain ⟨x, ciaddr, type, hr, hd⟩ := hp.asked m hm
      exact ⟨x, ciaddr, type, hmac ▸ hr, hd⟩
  · rw [send_node, put_self]
    exact fun g hg ↦ h.answered g (hrest hg)
  · rw [send_node, put_self]
    exact fun g hg ↦ h.acks g (hrest hg)
  · rw [send_node, put_self]
    intro sent hlast
    rw [Node.took] at hlast
    simp only at hlast
    split at hlast
    · rename_i hack
      cases hlast
      exact ⟨hsent, h.acks f hf hack.2⟩
    · exact h.lastAck sent hlast
  · rw [send_node, put_self]
    exact hp.agrees hget hreplied hne hagrees
  · intro z hz
    rw [send_node, put_self] at hz ⊢
    obtain ⟨hpool, hsource⟩ := h.source hqueue hp hz
    refine ⟨hpool, fun haddr ↦ ?_⟩
    rcases hsource haddr with ⟨hy, hnil, t, ht, htenancy⟩ | ⟨rfl, hconf⟩
    · exact ⟨t, ht, htenancy.receives hqueue hy hnil⟩
    · exact ⟨f.sentAt, hconf.stamp, tenancy_of_configures hconf⟩

theorem Agreement.received (h : net.Agreement mac stamp) (hqueue : (net.node ()).queue = f :: rest)
    (hp : Resumed (net.node ()).client ⟨host.seeded rand net.now, f.sent.payload⟩
      (net.node ()).phase p) {z : UInt32}
    (hz : p.configured.or (net.node ()).configured = some z) (haddr : p.client.interface.addr = z)
    {t : ℕ} (ht : stamp = some t) : z ≠ inaddrAny ∧ f.sentAt ≤ t := by
  obtain ⟨hpool, hsource⟩ := h.source hqueue hp hz
  refine ⟨hpool.ne_any, ?_⟩
  rcases hsource haddr with ⟨-, -, t', ht', htenancy⟩ | ⟨-, hconf⟩
  · cases ht.symm.trans ht'
    have hpending : (f :: ((net.node ()).took net.now f rest p).pending).Perm (net.node ()).pending :=
      took_pending hqueue
    exact htenancy.replied f (hpending.subset List.mem_cons_self)
  · cases ht.symm.trans hconf.stamp
    exact le_rfl

end Receiving

section Serving

variable {f : Flight} {server : Server} {out : Option Sent} {stamp' : Option ℕ} {x ciaddr : UInt32}
  {type : UInt8}

theorem reply_pending {g : Flight}
    (hg : g ∈ (((net.drop 0).reply server out.toList).node ()).pending) :
    g ∈ (net.node ()).pending ∨ g.sentAt = net.now ∧ out = some g.sent := by
  have hpending := Node.expect_pending (net.node ()) (out.toList.map (Flight.mk net.now))
  rcases List.mem_append.mp (hpending.subset hg) with hg | hg
  · exact .inl hg
  · obtain ⟨m, hm, rfl⟩ := List.mem_map.mp hg
    exact .inr ⟨rfl, Option.mem_toList.mp hm⟩

/-- A request of a client that keeps its address renews the lease. -/
theorem Tenancy.serves {z : UInt32} {t : ℕ} (h : net.Tenancy z t) (hcarried : net.Carried fun _ ↦ mac)
    (hpool : InPool z) (hf : net.outbound[0]? = some f)
    (hr : Requesting f.sent mac x (net.node ()).client.yiaddr ciaddr type)
    (hout : Served net.now (net.node ()).client.yiaddr ciaddr type (some t) stamp' out) :
    ∃ t', stamp' = some t' ∧ ((net.drop 0).reply server out.toList).Tenancy z t' := by
  obtain ⟨htype, hciaddr⟩ := h.asks f (List.mem_of_getElem? hf)
  rw [hr.messageType, Option.some_inj, Option.some_inj] at htype
  rw [hr.ciaddr] at hciaddr
  have hkept : stamp'.isSome := by
    apply hout.kept ?_ rfl
    rcases htype with rfl | rfl
    · decide
    · decide
  obtain ⟨t', ht'⟩ := Option.isSome_iff_exists.mp hkept
  refine ⟨t', ht', ?_⟩
  constructor
  · exact h.offered
  · exact h.lastAck
  · exact fun g hg ↦ h.asks g ((List.eraseIdx_sublist _ _).subset hg)
  · intro g hg
    rcases reply_pending hg with hg | ⟨hsent, hsome⟩
    · rcases hout.stamped t' ht' with rfl | hsame
      · exact (hcarried.answered () g hg).1
      · cases hsame
        exact h.replied g hg
    · have hrenewed : stamp' = some net.now := by
        apply hout.renewed htype (hciaddr.trans h.offered) (h.offered ▸ hpool) rfl
        rw [hsome]
        rfl
      rw [hsent]
      cases ht'.symm.trans hrenewed
      exact le_rfl

theorem Agreement.serves {draws : ℕ} {stale : UInt32} (h : net.Agreement mac stamp)
    (hf : net.outbound[0]? = some f)
    (hserved : mainLoop net.server
      ⟨⟨net.now, (List.range draws).map (rand net.now), stale⟩, f.sent.payload⟩ = .ok (server, out)) :
    ∃ stamp', ((net.drop 0).reply server out.toList).Agreement mac stamp' ∧
      ∀ t', stamp' = some t' → t' = net.now ∨ stamp = some t' := by
  obtain ⟨x, ciaddr, type, hr, hd⟩ := h.asked f (List.mem_of_getElem? hf)
  obtain ⟨stamp', hrecords, hout⟩ := hr.served hd h.valid h.records hserved
  have hnow {t : ℕ} (hs : stamp' = some t) {sent : ℕ} (hsent : sent ≤ net.now)
      (hstamp : ∀ t, stamp = some t → sent ≤ t) : sent ≤ t := by
    rcases hout.stamped t hs with rfl | hsame
    · exact hsent
    · exact hstamp t hsame
  refine ⟨stamp', ⟨h.carried.moved (.serves hf hserved), mainLoop_valid hserved h.valid, hrecords,
    ?_, ?_, ?_, ?_, ?_, ?_, ?_⟩, hout.stamped⟩
  · intro t hs
    rcases hout.stamped t hs with rfl | hsame
    · exact le_rfl
    · exact h.stamped t hsame
  · exact fun g hg ↦ h.asked g ((List.eraseIdx_sublist _ _).subset hg)
  · intro g hg
    rcases reply_pending hg with hg | ⟨-, hsome⟩
    · exact h.answered g hg
    · exact hout.answered _ hsome
  · intro g hg hack t hs
    rcases reply_pending hg with hg | ⟨hsent, hsome⟩
    · exact hnow hs (h.carried.answered () g hg).1 (h.acks g hg hack)
    · rw [hsent]
      exact (hout.acked _ hsome hack t hs).ge
  · intro sent hsent
    obtain ⟨hle, hstamp⟩ := h.lastAck sent hsent
    exact ⟨hle, fun t hs ↦ hnow hs hle hstamp⟩
  · obtain ⟨rest, hrest⟩ : ∃ rest, net.outbound = f :: rest :=
      List.head?_eq_some_iff.mp (List.head?_eq_getElem?.trans hf)
    have hdrop : ((net.drop 0).reply server out.toList).outbound = rest := by
      change net.outbound.eraseIdx 0 = rest
      rw [hrest]
      rfl
    rw [hdrop]
    have hbefore := h.awaits
    rw [hrest] at hbefore
    apply hbefore.serve hr ?_ hout (fun g hg ↦ (h.carried.answered () g hg).1)
      (Node.expect_pending _ _)
    intro r hr'
    cases hr'
    exact hr.replies hserved
  · intro z hz
    obtain ⟨hpool, hheld⟩ := h.held z hz
    refine ⟨hpool, fun haddr ↦ ?_⟩
    obtain ⟨t, rfl, htenancy⟩ := hheld haddr
    exact htenancy.serves h.carried hpool hf hr hout

end Serving

end Net

/-- The client is in time: no datagram has lain in its queue while it has waited, and the timers of its
lease run from when the lease was given. -/
structure Node.Timely (node : Node) (now : ℕ) (stamp : Option ℕ) : Prop where
  busy : node.handling → ¬node.phase.isMenu
  rediscovers : node.phase.isRediscover → node.client.interface.addr = inaddrAny
  arrived : node.phase.isWaiting → ∀ f ∈ node.queue, now = node.since ∨ now ≤ f.sentAt + maxDelay
  taken : node.phase.setsTimers → ∀ f ∈ node.queue, node.client.Takes f.sent.packet →
    now ≤ f.sentAt + maxDelay
  within : ∀ z, node.configured = some z → node.client.interface.addr = z →
    ∀ t, stamp = some t → node.Within now t

section Phases

variable {c : Client} {host : Host} {trigger : Trigger} {phase : Phase} {d : Delivery} {p : Progress}

theorem Phase.isWaiting_of_setsTimers (h : phase.setsTimers) : phase.isWaiting := by
  cases phase with
  | menu | rediscover => cases h
  | awaitOffer | awaitAck => rfl

theorem Client.begin_setsTimers (h : c.begin host trigger = .ok p) (hp : p.phase.setsTimers) :
    trigger.discovers ∨ trigger.renews := by
  cases trigger with
  | rediscover => exact .inl rfl
  | alarm => exact .inr rfl
  | command call =>
    cases call with
    | discover => exact .inl rfl
    | renew | rebind => exact .inr rfl
    | release | inform =>
      obtain ⟨⟨c₁, m⟩, -, h⟩ := bind_eq_ok.mp h
      cases h
      cases hp

theorem Begun.not_rediscover (h : Begun c host p) : ¬p.phase.isRediscover := by
  intro hp
  cases h with
  | idle | discovers | releases | asks => cases hp

theorem Resumed.setsTimers (h : Resumed c d phase p) (hp : p.phase.setsTimers) :
    phase.setsTimers ∧ p.client.xid = c.xid := by
  cases h with
  | passesOffer => exact ⟨rfl, rfl⟩
  | @passesAck call => cases call with
    | discover | renew | rebind => exact ⟨rfl, rfl⟩
    | release | inform => cases hp
  | takesOffer _ hx => exact ⟨rfl, hx⟩
  | configures => cases hp
  | ends _ hphase =>
    rcases hphase with rfl | rfl
    · cases hp
    · cases hp

end Phases

namespace Node

variable {node node' : Node} {now seconds : ℕ} {stamp stamp' : Option ℕ} {host : Host}
  {trigger : Trigger} {p : Progress} {f : Flight} {rest : List Flight}

theorem timely_start (interface : Interface) (now : ℕ) : (start interface now).Timely now none := by
  constructor
  · intro hh
    cases hh
  · intro hp
    cases hp
  · intro hp
    cases hp
  · intro hp
    cases hp
  · intro z hz
    cases hz

theorem Timely.wait (h : node.Timely now stamp) (hrests : node.RestsUntil (now + seconds))
    (hempty : node.phase.isWaiting → node.queue = []) : node.Timely (now + seconds) stamp := by
  constructor
  · exact h.busy
  · exact h.rediscovers
  · intro hp f hf
    rw [hempty hp] at hf
    cases hf
  · intro hp f hf
    rw [hempty (Phase.isWaiting_of_setsTimers hp)] at hf
    cases hf
  · exact fun z hz haddr t ht ↦ (h.within z hz haddr t ht).wait hrests h.busy

theorem Timely.idle (h : node.Timely now stamp) (hc : node'.client = node.client)
    (hp : node'.phase = node.phase) (hs : node'.since = node.since)
    (hh : node'.handling = node.handling) (hconf : node'.configured = node.configured)
    (hqueue : ∀ f ∈ node'.queue, f ∈ node.queue ∨ now ≤ f.sentAt + maxDelay) :
    node'.Timely now stamp := by
  constructor
  · rw [hh, hp]
    exact h.busy
  · rw [hc, hp]
    exact h.rediscovers
  · rw [hp, hs]
    intro hw f hf
    rcases hqueue f hf with hf | hle
    · exact h.arrived hw f hf
    · exact .inr hle
  · rw [hc, hp]
    intro hw f hf ht
    rcases hqueue f hf with hf | hle
    · exact h.taken hw f hf ht
    · exact hle
  · rw [hc, hconf]
    exact fun z hz haddr t ht ↦ (h.within z hz haddr t ht).of_same hc hh hs

theorem Timely.lose (h : node.Timely now stamp) (k : ℕ) : (node.lose k).Timely now stamp :=
  h.idle rfl rfl rfl rfl rfl fun _ hf ↦ .inl hf

theorem Timely.arrive {k : ℕ} (h : node.Timely now stamp) (ha : node.arrive k = .ok node')
    (hprompt : ∀ f ∈ node.inbound[k]?, now < f.sentAt + maxWaitTime) : node'.Timely now stamp := by
  rw [Node.arrive] at ha
  split at ha
  · cases ha
  · rename_i f hf
    split at ha
    · cases ha
      refine h.idle rfl rfl rfl rfl rfl fun g hg ↦ ?_
      rcases List.mem_append.mp hg with hg | hg
      · exact .inl hg
      · rw [List.mem_singleton.mp hg]
        exact .inr (Nat.le_pred_of_lt (hprompt f hf))
    · cases ha
      exact h.lose k

theorem Timely.timeOut (h : node.Timely now stamp) (ht : node.timeOut now = .ok node') :
    node'.Timely now stamp := by
  rw [Node.timeOut] at ht
  split at ht
  · cases ht
    constructor
    · intro hh
      cases hh
    · intro hp
      cases hp
    · intro hp
      cases hp
    · intro hp
      cases hp
    · intro z hz haddr t hs
      have hz' : node.configured = some z := by rwa [Node.adopt, atMenu, Option.none_or] at hz
      exact (h.within z hz' haddr t hs).adopt (.refl _) fun hh ↦ by cases hh
  · cases ht

/-- The server has answered, and given or renewed the lease. -/
theorem Timely.expect (h : node.Timely now stamp) (flights : List Flight)
    (hmono : ∀ z, node.configured = some z → node.client.interface.addr = z →
      ∀ t', stamp' = some t' → ∃ t, stamp = some t ∧ t ≤ t') :
    (node.expect flights).Timely now stamp' := by
  constructor
  · exact h.busy
  · exact h.rediscovers
  · exact h.arrived
  · exact h.taken
  · intro z hz haddr t' ht'
    obtain ⟨t, ht, hle⟩ := hmono z hz haddr t' ht'
    exact ((h.within z hz haddr t ht).mono hle).of_same rfl rfl rfl

theorem Timely.begin (h : node.Timely now stamp) (hready : node.Ready now trigger)
    (hp : node.client.begin host trigger = .ok p) (hhost : host.now = now) (hset : host.setAddr)
    (hheld : ∀ z, node.configured = some z → z ≠ inaddrAny)
    (hids : p.phase.setsTimers → ∀ f ∈ node.queue, AnswersTo f.sent.packet host.rand →
      now ≤ f.sentAt + maxDelay) :
    (node.adopt now (trigger.isAlarm || node.handling) p).Timely now stamp := by
  have hbegun := Client.begin_ok hp
  constructor
  · intro hh
    change ¬p.phase.isMenu
    simpa using (Bool.and_eq_true_iff.mp hh).2
  · exact fun hphase ↦ absurd hphase hbegun.not_rediscover
  · exact fun _ f _ ↦ .inl rfl
  · intro hphase f hf ht
    have hx : p.client.xid = host.rand := hbegun.xid (Phase.isWaiting_of_setsTimers hphase)
    have ht' : p.client.Takes f.sent.packet := ht
    rw [Takes, hx] at ht'
    exact hids hphase f hf ht'
  · intro z hz haddr t ht
    rw [Node.adopt, hbegun.configured, Option.none_or] at hz
    have haddr' : p.client.interface.addr = z := haddr
    have hne : p.client.interface.addr ≠ inaddrAny := haddr' ▸ hheld z hz
    have hbefore : node.client.interface.addr = z :=
      (hbegun.addr.resolve_right hne).symm.trans haddr'
    have hwithin := h.within z hz hbefore t ht
    cases trigger with
    | alarm => exact hwithin.alarm hp hhost hset hne
    | command call =>
      refine hwithin.adopt (begin_same hp (fun hh ↦ by cases hh) hset hne) fun hh ↦ ?_
      exact absurd hready (h.busy hh)
    | rediscover =>
      exact absurd (hbefore.symm.trans (h.rediscovers hready)) (hheld z hz)

theorem Timely.receive {mac : Mac} {x : UInt32} {type : UInt8} (h : node.Timely now stamp)
    (hqueue : node.queue = f :: rest) (hwaiting : node.phase.isWaiting)
    (hp : node.client.resume ⟨host, f.sent.payload⟩ node.phase = .ok p) (hhost : host.now = now)
    (hset : host.setAddr) (hf : Replies f.sent mac x type) (hne : f.sent.payload ≠ [])
    (hheld : ∀ z, p.configured.or node.configured = some z → p.client.interface.addr = z →
      ∀ t, stamp = some t → z ≠ inaddrAny ∧ f.sentAt ≤ t) :
    (node.took now f rest p).Timely now stamp := by
  have hresumed := resume_ok hwaiting hp
  have hmem : f ∈ node.queue := by
    rw [hqueue]
    exact List.mem_cons_self
  have hrest : ∀ g ∈ rest, g ∈ node.queue := by
    intro g hg
    rw [hqueue]
    exact List.mem_cons_of_mem f hg
  constructor
  · intro hh
    change ¬p.phase.isMenu
    simpa using (Bool.and_eq_true_iff.mp hh).2
  · intro hphase
    refine resume_rediscovers hp hset hwaiting ?_
    have hphase' : p.phase.isRediscover := hphase
    cases hcase : p.phase with
    | rediscover => rfl
    | menu | awaitOffer | awaitAck =>
      rw [hcase] at hphase'
      cases hphase'
  · exact fun _ g _ ↦ .inl rfl
  · intro hphase g hg ht
    obtain ⟨hphase', hx⟩ := hresumed.setsTimers hphase
    have ht' : p.client.Takes g.sent.packet := ht
    rw [Takes, hx] at ht'
    exact h.taken hphase' g (hrest g hg) ht'
  · intro z hz haddr t ht
    have haddr' : p.client.interface.addr = z := haddr
    obtain ⟨hz', hsent⟩ := hheld z hz haddr' t ht
    suffices hwithin : (node.adopt now node.handling p).Within now t from hwithin.of_same rfl rfl rfl
    rcases resume_timers hp hf hne hset (haddr' ▸ hz') with
        ⟨hsame, hnone⟩ | ⟨hrestarted, hmenu, htakes, hphase⟩
    · rw [Node.took, Node.adopt, hnone, Option.none_or] at hz
      have hbefore : node.client.interface.addr = z := by
        rw [← hsame.interface]
        exact haddr'
      refine (h.within z hz hbefore t ht).adopt hsame fun hh ↦ ⟨hh, ?_⟩
      rcases h.arrived hwaiting f hmem with hnow | hle
      · exact .inl hnow
      · exact .inr (hle.trans (Nat.add_le_add_right hsent _))
    · have hle := h.taken hphase f hmem htakes
      exact .restart (hhost ▸ hrestarted) hmenu (hle.trans (Nat.add_le_add_right hsent _))

end Node

namespace Net

variable {rand : ℕ → ℕ → ℕ} {net net' : Net Unit} {mac : Mac} {stamp : Option ℕ}
  {action : Action Unit}

def InTime (mac : Mac) (net : Net Unit) : Prop :=
  ∃ stamp, net.Agreement mac stamp ∧ (net.node ()).Timely net.now stamp

theorem inTime_start (interface : Unit → Interface) (now : ℕ) :
    (start interface now).InTime (interface ()).hwaddr :=
  ⟨none, agreement_start interface now, Node.timely_start (interface ()) now⟩

theorem InTime.step {u : Unit} (h : net.InTime mac) (horder : net.Orderly rand action)
    (hstep : net.step rand action = .ok (net', u)) : net'.InTime mac := by
  obtain ⟨stamp, hagree, htimely⟩ := h
  obtain ⟨hsucc, hprompt, hsequential, hunborne, hunrepeated⟩ := horder
  have hwanes {net₁ : Net Unit} (hw : net.Wanes net₁)
      (ht : (net₁.node ()).Timely net₁.now stamp) : net₁.InTime mac :=
    ⟨stamp, hagree.wanes hw, ht⟩
  cases action with
  | wait seconds =>
    rw [Net.step] at hstep
    split at hstep
    · rename_i hrests
      cases hstep
      refine hwanes ⟨Nat.le_add_right _ _, rfl, rfl, .refl _, fun i ↦ .refl _⟩ ?_
      exact htimely.wait (hrests ()) hprompt
    · cases hstep
  | lose i k =>
    cases hstep
    refine hwanes (put_wanes (Node.lose_wanes _ k)) ?_
    rw [put_self]
    exact htimely.lose k
  | drop k =>
    cases hstep
    exact hwanes ⟨le_rfl, rfl, rfl, List.eraseIdx_sublist _ _, fun i ↦ .refl _⟩ htimely
  | arrive i k =>
    obtain ⟨node, harrive, hstep⟩ := bind_eq_ok.mp hstep
    cases hstep
    refine hwanes (put_wanes (Node.arrive_wanes harrive)) ?_
    rw [put_self]
    exact htimely.arrive harrive hprompt
  | timeOut i =>
    obtain ⟨node, htime, hstep⟩ := bind_eq_ok.mp hstep
    cases hstep
    refine hwanes (put_wanes (Node.timeOut_wanes htime)) ?_
    rw [put_self]
    exact htimely.timeOut htime
  | begin i trigger host =>
    obtain ⟨⟨node, sent⟩, hbegin, hstep⟩ := bind_eq_ok.mp hstep
    cases hstep
    obtain ⟨hready, p, hp, rfl, rfl⟩ := Node.begin_ok hbegin
    refine ⟨stamp, hagree.begins hsucc hunborne hp, ?_⟩
    rw [send_node, put_self]
    refine htimely.begin hready hp rfl hsucc.2 (fun z hz ↦ (hagree.held z hz).1.ne_any) ?_
    intro hphase f hf hanswers
    have hasks := (begin_waits hp).1 (Phase.isWaiting_of_setsTimers hphase)
    have hpending : f ∈ (net.node ()).pending := List.mem_append_right _ hf
    rcases begin_setsTimers hp hphase with hdiscovers | hrenews
    · exact absurd hanswers ((hunborne hdiscovers hasks).2 f hpending)
    · exact Nat.le_pred_of_lt (hunrepeated hrenews hasks f hpending hanswers)
  | receive i host =>
    obtain ⟨⟨node, sent⟩, hreceive, hstep⟩ := bind_eq_ok.mp hstep
    cases hstep
    obtain ⟨f, rest, p, hqueue, hwaiting, hp, rfl, rfl⟩ := Node.receive_ok hreceive
    have hresumed := resume_ok hwaiting hp
    refine ⟨stamp, hagree.receives hsucc.1 hqueue hresumed, ?_⟩
    rw [send_node, put_self]
    have hf : f ∈ (net.node ()).pending := by
      rw [Node.pending, hqueue]
      exact List.mem_append_right _ List.mem_cons_self
    obtain ⟨-, -, mac', x, type, hreplies⟩ := hagree.carried.answered () f hf
    refine htimely.receive hqueue hwaiting hp rfl hsucc.2 hreplies (hagree.answered f hf) ?_
    exact fun z hz haddr t ht ↦ hagree.received hqueue hresumed hz haddr ht
  | serve k draws stale =>
    cases hsequential
    obtain ⟨net₁, hserve, hstep⟩ := bind_eq_ok.mp hstep
    cases hstep
    obtain ⟨f, server, out, hf, hserved, rfl⟩ := serve_ok hserve
    obtain ⟨stamp', hagree', hstamped⟩ := hagree.serves hf hserved
    refine ⟨stamp', hagree', htimely.expect _ fun z hz haddr t' ht' ↦ ?_⟩
    obtain ⟨t, ht, -⟩ := (hagree.held z hz).2 haddr
    refine ⟨t, ht, ?_⟩
    rcases hstamped t' ht' with rfl | hsame
    · exact hagree.stamped t ht
    · cases ht.symm.trans hsame
      exact le_rfl

end Net

section Samples

def oneClient (addr : UInt32) (_ : Unit) : Interface := ⟨clientA, addr⟩

/-- The client still holds an address so long after its leases of it have run out, if it has any. -/
def Net.Overrun (net : Net Unit) (late : ℕ) : Prop :=
  ∃ x ∈ (net.node ()).configured, (net.node ()).lastAck.isSome ∧
    (net.node ()).client.interface.addr = x ∧ ∀ lease ∈ net.server.table.leases, lease.addr = x →
      lease.chaddr = (net.node ()).client.interface.hwaddr →
        lease.timeStamp + ipAddressLeaseTime + late ≤ net.now

instance (net : Net Unit) (late : ℕ) : Decidable (net.Overrun late) :=
  Option.decidableExistsMem _

def Disagrees (rand : ℕ → ℕ → ℕ) (addr : UInt32) (late : ℕ) (kind : Net Unit → Action Unit → Prop)
    (inputs : List (Action Unit)) : Prop :=
  ∃ trace net, execute (Net.step rand) (Net.start (oneClient addr) 0) inputs = .ok (trace, net) ∧
    (∀ e ∈ trace, kind e.before e.input) ∧ net.Overrun late

theorem disagrees_of {rand : ℕ → ℕ → ℕ} {addr : UInt32} {late : ℕ}
    {kind : Net Unit → Action Unit → Prop} [∀ net action, Decidable (kind net action)]
    {inputs : List (Action Unit)}
    (h : (execute (Net.step rand) (Net.start (oneClient addr) 0) inputs).toOption.any (fun r ↦
      (∀ e ∈ r.1, kind e.before e.input) ∧ r.2.Overrun late) = true) :
    Disagrees rand addr late kind inputs := by
  obtain ⟨⟨trace, net⟩, hrun, hr⟩ := exists_ok _ _ h
  exact ⟨trace, net, hrun, of_decide_eq_true hr⟩

def command (c : Command) : Action Unit := .begin () (.command c) (quietHost 0 0)

def alarm : Action Unit := .begin () .alarm (quietHost 0 0)

def takes (k : ℕ) : List (Action Unit) := [.arrive () k, .receive () (quietHost 0 0)]

/-- The acknowledgement takes four seconds, and the renewal and the rebinding are lost. -/
def lateAck : List (Action Unit) :=
  [command .discover, .serve 0 1 0] ++ takes 0 ++ [.serve 0 0 0, .wait 4] ++ takes 0 ++
    [.wait 16, alarm, .drop 0, .wait 5, .timeOut (), .wait 7, alarm, .drop 0, .wait 5]

/-- The client gives up the address that it had from the start, and the release reaches the server
after the discover that follows it. -/
def overtaken : List (Action Unit) :=
  [command .inform, .serve 0 1 0] ++ takes 0 ++
    [command .release, command .discover, .serve 1 1 0] ++ takes 0 ++ [.serve 1 0 0] ++ takes 0 ++
    [.serve 0 0 0]

/-- The alarm cuts a renewal short, and in the same second the client gives its address up: the
second acknowledgement is taken for an offer, and the offer for an acknowledgement. -/
def mistaken : List (Action Unit) :=
  [command .inform, .serve 0 1 0] ++ takes 0 ++ [command .renew, .serve 0 1 0] ++ takes 0 ++
    [.wait 16, command .renew, alarm, .serve 0 1 0, .serve 0 1 0] ++ takes 0 ++
    [.arrive () 0, command .release, .drop 0, command .discover, .receive () (quietHost 0 0),
      .serve 0 1 0, .drop 0] ++ takes 0

def recurringRand (seed k : ℕ) : ℕ := sampleRand (seed % 7) k

/-- Offer and acknowledgement for a discover that has timed out are taken for those of a later one
with the same number, when the lease has run out. -/
def revived : List (Action Unit) :=
  [command .discover, .wait 4, .serve 0 1 0, .wait 1, .timeOut (), .wait 2, command .discover] ++
    takes 0 ++ [.wait 4, .serve 0 1 0, .serve 0 0 0, .wait 1, .timeOut (), .arrive () 0,
      .arrive () 0, .wait 37, command .discover, .drop 0, .receive () (quietHost 0 0), .drop 0,
      .receive () (quietHost 0 0)]

/-- The acknowledgement of an inform that has timed out is taken for that of a later renewal with
the same number, and what follows is lost. -/
def retaken : List (Action Unit) :=
  [command .inform, .wait 4, .serve 0 1 0, .wait 1, .timeOut (), command .release, .drop 0,
    command .discover, .serve 0 1 0] ++ takes 1 ++ [.serve 0 0 0] ++ takes 1 ++
    [.wait 3, .arrive () 0, .wait 13, alarm, .receive () (quietHost 0 0), .drop 0, .wait 16, alarm,
      .drop 0, .wait 5, .timeOut (), .wait 1]

end Samples

end InternetApplications.Dhcp
