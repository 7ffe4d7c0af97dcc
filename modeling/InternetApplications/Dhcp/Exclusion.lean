import InternetApplications.Dhcp.ExclusiveGrant
import InternetApplications.Dhcp.LeaseTraffic

namespace InternetApplications.Dhcp

open ByteMemory TagScan Executions Client LeaseTable

/-- The packet asks for an address of the pool whose lease to another client has run out. -/
def TakesOver (t : LeaseTable) (now : ℕ) (b : DhcpT) : Prop :=
  b.ciaddr = inaddrAny ∧ ∃ x ∈ requestedOption b, InPool x ∧ ∃ lease ∈ t.lookup x,
    lease.chaddr ≠ b.chaddr ∧ ¬lease.Live now

instance (t : LeaseTable) (now : ℕ) (b : DhcpT) : Decidable (TakesOver t now b) :=
  inferInstanceAs (Decidable (_ ∧ _))

structure Node.Holds (node : Node) (x : UInt32) : Prop where
  configured : node.configured = some x
  addr : node.client.interface.addr = x

instance (node : Node) (x : UInt32) : Decidable (node.Holds x) :=
  decidable_of_iff (node.configured = some x ∧ node.client.interface.addr = x)
    ⟨fun h ↦ ⟨h.1, h.2⟩, fun h ↦ ⟨h.1, h.2⟩⟩

/-- The datagrams of each client reach the server in the order in which they were sent, no request
takes over an address, the address of an interface can be read and cleared, and no transaction id
is drawn that is in use. -/
def Net.InOrder {ι : Type} (rand : ℕ → ℕ → ℕ) (net : Net ι) : Action ι → Prop
  | .begin i trigger host => host.getAddr ∧ host.setAddr ∧ net.Fresh rand (.begin i trigger host)
  | .receive _ host => host.getAddr
  | .serve k _ _ => ∀ f ∈ net.outbound[k]?,
      (∀ g ∈ net.outbound.take k, g.sent.packet.chaddr ≠ f.sent.packet.chaddr) ∧
      (f.sent.messageType = some dhcprequest → ¬TakesOver net.server.table net.now f.sent.packet)
  | _ => True

instance {ι : Type} [DecidableEq ι] [Fintype ι] (rand : ℕ → ℕ → ℕ) (net : Net ι) :
    (action : Action ι) → Decidable (net.InOrder rand action)
  | .begin _ _ _ => inferInstanceAs (Decidable (_ ∧ _ ∧ _))
  | .receive _ _ => inferInstanceAs (Decidable (_ = _))
  | .serve _ _ _ => inferInstanceAs (Decidable (∀ f ∈ _, _))
  | .wait _ | .timeOut _ | .arrive _ _ | .lose _ _ | .drop _ => inferInstanceAs (Decidable True)

def Unreleased (mac : Mac) (flights : List Flight) : Prop :=
  ∀ f ∈ flights, f.sent.packet.chaddr = mac → f.sent.messageType ≠ some dhcprelease

/-- The client waits, without an address, for the acknowledgement of a request. Behind the request
it has sent no release, and an acknowledgement on its way to it is for an address on record. -/
structure Client.Expects (c : Client) (outbound pending : List Flight) (t : LeaseTable) : Prop where
  addr : c.interface.addr = inaddrAny
  asked : ∀ f ∈ outbound, f.sent.Asks c.xid → f.sent.packet.ciaddr = inaddrAny
  last : outbound.Pairwise fun f g ↦ f.sent.Asks c.xid →
    g.sent.packet.chaddr = c.interface.hwaddr → g.sent.messageType ≠ some dhcprelease
  answered : ∀ f ∈ pending, c.Takes f.sent.packet → f.sent.IsAck →
    f.sent.packet.yiaddr ≠ inaddrAny ∧ Holding 0 f.sent.packet.yiaddr c.interface.hwaddr t ∧
      Unreleased c.interface.hwaddr outbound

def Client.Secured (c : Client) (outbound pending : List Flight) (t : LeaseTable) : Phase → Prop
  | .awaitOffer _ _ => c.interface.addr = inaddrAny
  | .awaitAck .discover _ _ => c.Expects outbound pending t
  | _ => True

section Expecting

variable {c : Client} {outbound outbound' pending pending' more : List Flight} {t t' : LeaseTable}
  {phase : Phase} {mac : Mac}

theorem Unreleased.mono (h : Unreleased mac outbound) (ho : outbound' ⊆ outbound) :
    Unreleased mac outbound' :=
  fun f hf ↦ h f (ho hf)

theorem Unreleased.append (h : Unreleased mac outbound) (hmore : Unreleased mac more) :
    Unreleased mac (outbound ++ more) := by
  intro f hf
  rcases List.mem_append.mp hf with hf | hf
  · exact h f hf
  · exact hmore f hf

theorem unreleased_of_ne (h : ∀ f ∈ more, f.sent.packet.chaddr ≠ mac) : Unreleased mac more :=
  fun f hf hmac ↦ absurd hmac (h f hf)

namespace Client

theorem Secured.shrink (h : c.Secured outbound pending t phase) (ho : outbound'.Sublist outbound)
    (hp : pending' ⊆ pending) : c.Secured outbound' pending' t phase := by
  cases phase with
  | menu | rediscover => trivial
  | awaitOffer => exact h
  | awaitAck call => cases call with
    | release | inform | renew | rebind => trivial
    | discover =>
      constructor
      · exact Expects.addr h
      · exact fun f hf ↦ Expects.asked h f (ho.subset hf)
      · exact (Expects.last h).sublist ho
      · intro f hf ht hack
        obtain ⟨hne, hheld, hout⟩ := Expects.answered h f (hp hf) ht hack
        exact ⟨hne, hheld, hout.mono ho.subset⟩

theorem Secured.send (h : c.Secured outbound pending t phase)
    (hfollows : c.Follows (outbound ++ more) pending phase)
    (hmac : ∀ f ∈ more, f.sent.packet.chaddr ≠ c.interface.hwaddr) :
    c.Secured (outbound ++ more) pending t phase := by
  cases phase with
  | menu | rediscover => trivial
  | awaitOffer => exact h
  | awaitAck call => cases call with
    | release | inform | renew | rebind => trivial
    | discover =>
      have hasks : ∀ f ∈ more, ¬f.sent.Asks c.xid := fun f hf ha ↦
        hmac f hf (hfollows.2.1 f (List.mem_append_right _ hf) ha).1
      constructor
      · exact Expects.addr h
      · intro f hf ha
        rcases List.mem_append.mp hf with hf | hf
        · exact Expects.asked h f hf ha
        · exact absurd ha (hasks f hf)
      · refine List.pairwise_append.mpr ⟨Expects.last h, ?_, ?_⟩
        · exact List.pairwise_of_forall_mem_list fun f hf g _ ha ↦ absurd ha (hasks f hf)
        · exact fun f _ g hg _ hmac' ↦ absurd hmac' (hmac g hg)
      · intro f hf ht hack
        obtain ⟨hne, hheld, hout⟩ := Expects.answered h f hf ht hack
        exact ⟨hne, hheld, hout.append (unreleased_of_ne hmac)⟩

end Client

end Expecting

section Taking

variable {c : Client} {outbound pending : List Flight} {t : LeaseTable} {phase : Phase}
  {host : Host} {p : Progress} {f : Flight} {mac : Mac} {x : UInt32} {type : UInt8} {now : ℕ}

theorem Begun.secured (h : Begun c host p) (hget : host.getAddr) :
    p.client.Secured outbound pending t p.phase := by
  cases h with
  | idle | releases => trivial
  | @asks c' m call type hcall => cases call with
    | discover => exact absurd rfl hcall
    | release | inform | renew | rebind => trivial
  | discovers ha hk =>
    rw [getIpAddress_eq hget] at ha
    rcases hk.addr with hsame | hzero
    · exact hsame.trans ha
    · exact hzero

theorem Resumed.secured (h : Resumed c ⟨host, f.sent.payload⟩ phase p) (hget : host.getAddr)
    (hf : Replies f.sent mac x type) (hfollows : c.Follows outbound (f :: pending) phase)
    (hc : c.Secured outbound (f :: pending) t phase) :
    p.client.Secured (outbound ++ p.sent.map (Flight.mk now)) pending t p.phase := by
  have hrest : c.Secured outbound pending t phase :=
    hc.shrink (.refl _) (List.subset_cons_self f pending)
  cases h with
  | passesOffer => exact hc
  | @passesAck call =>
    rw [List.map_nil, List.append_nil]
    cases call with
    | release | inform | renew | rebind => trivial
    | discover => exact hrest
  | configures => trivial
  | ends _ hphase =>
    rcases hphase with rfl | rfl
    · trivial
    · trivial
  | @takesOffer dhcpOffer dhcpAck c' value m htakes hx hi hy hr =>
    obtain ⟨hout, hin⟩ := hfollows.only ((hf.takes_recvfrom (.inr hfollows.1)).mp htakes)
    have haddr : c.interface.addr = inaddrAny := hc
    rw [getIpAddress_eq hget, haddr] at hr
    constructor
    · rw [hi]
      exact haddr
    · intro g hg hasks
      rw [hx] at hasks
      rcases List.mem_append.mp hg with hg | hg
      · exact absurd hasks (hout g hg)
      · cases List.mem_singleton.mp hg
        exact hr.ciaddr
    · rw [hx]
      refine List.pairwise_append.mpr ⟨?_, List.pairwise_singleton _ _, ?_⟩
      · exact List.pairwise_of_forall_mem_list fun g hg _ _ hasks ↦ absurd hasks (hout g hg)
      · exact fun g hg _ _ hasks ↦ absurd hasks (hout g hg)
    · intro g hg ht
      rw [Takes, hx] at ht
      exact absurd ht (hin g hg)

/-- The client puts only an address on its interface that is on record for it. -/
theorem Resumed.granted (h : Resumed c ⟨host, f.sent.payload⟩ phase p)
    (hf : Replies f.sent mac x type) (hfollows : c.Follows outbound (f :: pending) phase)
    (hc : c.Secured outbound (f :: pending) t phase) {y : UInt32} (hy : p.configured = some y) :
    y ≠ inaddrAny ∧ Holding 0 y c.interface.hwaddr t ∧ Unreleased c.interface.hwaddr outbound ∧
      p.sent = [] := by
  obtain ⟨hack, hyiaddr, -⟩ := h.acked hf hfollows hy
  cases h with
  | passesOffer | takesOffer | passesAck | ends => cases hy
  | @configures dhcpAck value c₁ c' hset htakes htake hconf =>
    have htaken := (hf.takes_recvfrom (.inr hfollows.1)).mp htakes
    obtain ⟨hne, hheld, hout⟩ := Expects.answered hc f List.mem_cons_self htaken hack
    rw [hyiaddr] at hne hheld
    exact ⟨hne, hheld, hout, rfl⟩

theorem Resumed.addr (h : Resumed c ⟨host, f.sent.payload⟩ phase p) (hy : p.configured = none) :
    p.client.interface.addr = inaddrAny ∨
      p.client.interface.addr = c.interface.addr ∧
        ∀ m ∈ p.sent, m.messageType ≠ some dhcprelease := by
  cases h with
  | passesOffer | passesAck => exact .inr ⟨rfl, fun m hm ↦ by cases hm⟩
  | ends hk =>
    rcases hk.addr with hsame | hzero
    · exact .inr ⟨hsame, fun m hm ↦ by cases hm⟩
    · exact .inl hzero
  | configures => cases hy
  | takesOffer _ _ hi _ hr =>
    refine .inr ⟨by rw [hi], fun m hm ↦ ?_⟩
    rw [List.mem_singleton.mp hm, hr.messageType]
    decide

end Taking

section Granting

variable {s s' : Server} {env : Env} {m r : Sent} {mac : Mac} {x y ciaddr z : UInt32} {type : UInt8}
  {out : Option Sent} {since : ℕ}

theorem Requesting.holding {mac' : Mac} (h : Requesting m mac x y ciaddr type)
    (hm : mainLoop s ⟨env, m.payload⟩ = .ok (s', out)) (hheld : Holding 0 z mac' s.table)
    (hno : mac = mac' → type ≠ dhcprelease) : Holding 0 z mac' s'.table := by
  obtain ⟨c, -, -, hreads⟩ := h.reads s.dhcpRecv
  refine (mainLoop_handled hm).holding hheld (Nat.zero_le _) ?_
  intro hr
  have htype : receivedType (s.received ⟨env, m.payload⟩) = .ok (some type) := hreads.receivedType
  have hrelease : receivedType (s.received ⟨env, m.payload⟩) = .ok (some dhcprelease) := hr.release
  have hmac : (s.received ⟨env, m.payload⟩).chaddr = mac := hreads.chaddr
  cases htype.symm.trans hrelease
  exact hno (hmac.symm.trans hr.client) rfl

theorem addLease_holding_self {t t' : LeaseTable} {now : ℕ} (ht : t.Valid)
    (ha : addLease t now x mac = .ok t')
    (hown : ∀ lease, t.lookup x = some lease → lease.chaddr = mac) : Holding 0 x mac t' := by
  obtain ⟨lease, hl, hx, hm, -⟩ := (addLease_onRecord ht ha).mpr hown
  exact ⟨lease, hl, hx, hm, Nat.zero_le _⟩

theorem Requesting.granted (h : Requesting m mac x y inaddrAny dhcprequest) (ht : s.table.Valid)
    (hm : mainLoop s ⟨env, m.payload⟩ = .ok (s', some r)) (hack : r.IsAck)
    (htake : ¬TakesOver s.table env.now m.packet) :
    r.packet.yiaddr ≠ inaddrAny ∧ Holding 0 r.packet.yiaddr mac s'.table := by
  obtain ⟨c, -, hy, hreads⟩ := h.reads s.dhcpRecv
  obtain ⟨c', -, hy', hreads'⟩ := h.reads DhcpT.zero
  have htype : receivedType (s.received ⟨env, m.payload⟩) = .ok (some dhcprequest) :=
    hreads.receivedType
  have hmac : (s.received ⟨env, m.payload⟩).chaddr = mac := hreads.chaddr
  have hciaddr : (s.received ⟨env, m.payload⟩).ciaddr = inaddrAny := hreads.ciaddr
  have hoption : requestedOption (s.received ⟨env, m.payload⟩) = some c.yiaddr :=
    hreads.requestedOption rfl
  have hoption' : requestedOption m.packet = some c'.yiaddr := hreads'.requestedOption rfl
  rcases (mainLoop_handled hm).of_ack htype hack with
    ⟨-, x', hx', hp, hadd, ha⟩ | ⟨hne, -⟩
  · rw [hmac] at hp hadd
    obtain rfl : c.yiaddr = x' := Option.some.inj (hoption.symm.trans hx')
    obtain ⟨hpool, hlive⟩ := checkIpaddr_pos.mp hp
    rw [ha]
    refine ⟨hpool.ne_any, addLease_holding_self ht hadd fun lease hl ↦ ?_⟩
    by_contra hother
    refine htake ⟨hreads'.ciaddr, c'.yiaddr, hoption', ?_, lease, ?_, ?_,
      fun hl' ↦ hother (hlive lease hl hl')⟩
    · rw [hy', ← hy]
      exact hpool
    · rw [hy', ← hy]
      exact hl
    · rw [Sent.packet, hreads'.chaddr]
      exact hother
  · exact absurd hciaddr hne

end Granting

section Lists

variable {α : Type} {l : List α} {R : α → α → Prop} {k : ℕ} {a b : α}

theorem mem_eraseIdx_cases (hb : b ∈ l.eraseIdx k) (ha : l[k]? = some a) (hl : l.Pairwise R) :
    b ∈ l.take k ∨ R a b := by
  obtain ⟨hk, rfl⟩ := List.getElem?_eq_some_iff.mp ha
  rw [List.eraseIdx_eq_take_drop_succ] at hb
  rcases List.mem_append.mp hb with hb | hb
  · exact .inl hb
  · rw [← List.take_append_drop k l, List.drop_eq_getElem_cons hk] at hl
    exact .inr ((List.pairwise_cons.mp (List.pairwise_append.mp hl).2.1).1 b hb)

end Lists

namespace Net

variable {ι : Type} {rand : ℕ → ℕ → ℕ} {net net' : Net ι} {mac : ι → Mac} {action : Action ι}

/-- Every address that a client has been given is on record for it, and every one that it will
take is. -/
structure Granted (mac : ι → Mac) (net : Net ι) : Prop where
  separate : net.Separate mac
  valid : net.server.table.Valid
  secured : ∀ i, (net.node i).client.Secured net.outbound (net.node i).pending net.server.table
    (net.node i).phase
  held : ∀ i z, (net.node i).configured = some z → z ≠ inaddrAny ∧
    ((net.node i).client.interface.addr = z →
      Holding 0 z (mac i) net.server.table ∧ Unreleased (mac i) net.outbound)

theorem granted_start (interface : ι → Interface) (now : ℕ) :
    (start interface now).Granted fun i ↦ (interface i).hwaddr := by
  refine ⟨separate_start interface now, valid_setup, fun _ ↦ trivial, ?_⟩
  intro i z hz
  cases hz

theorem Granted.wanes (h : net.Granted mac) (hw : net.Wanes net') : net'.Granted mac := by
  refine ⟨h.separate.wanes hw, hw.server ▸ h.valid, ?_, ?_⟩
  · intro i
    rw [hw.server, (hw.node i).client]
    rcases (hw.node i).phase with hsame | hmenu
    · rw [hsame]
      exact (h.secured i).shrink hw.outbound (hw.node i).pending.subset
    · rw [hmenu]
      trivial
  · intro i z hz
    rw [(hw.node i).configured] at hz
    rw [hw.server, (hw.node i).client]
    obtain ⟨hne, hheld⟩ := h.held i z hz
    refine ⟨hne, fun haddr ↦ ?_⟩
    obtain ⟨hrecord, hout⟩ := hheld haddr
    exact ⟨hrecord, hout.mono hw.outbound.subset⟩

variable [DecidableEq ι]

theorem Granted.acts {i : ι} {node : Node} {sent : List Sent} (h : net.Granted mac)
    (hmac : Function.Injective mac) (hsep : ((net.put i node).send sent).Separate mac)
    (hsent : ∀ m ∈ sent, m.packet.chaddr = mac i)
    (hsecured : node.client.Secured (net.outbound ++ sent.map (Flight.mk net.now)) node.pending
      net.server.table node.phase)
    (hheld : ∀ z, node.configured = some z → z ≠ inaddrAny ∧
      (node.client.interface.addr = z → Holding 0 z (mac i) net.server.table ∧
        Unreleased (mac i) net.outbound ∧ ∀ m ∈ sent, m.messageType ≠ some dhcprelease)) :
    ((net.put i node).send sent).Granted mac := by
  have hothers {j : ι} (hj : j ≠ i) :
      ∀ f ∈ sent.map (Flight.mk net.now), f.sent.packet.chaddr ≠ mac j := by
    intro f hf
    obtain ⟨m, hm, rfl⟩ := List.mem_map.mp hf
    rw [hsent m hm]
    exact fun hsame ↦ hj (hmac hsame).symm
  refine ⟨hsep, h.valid, ?_, ?_⟩
  · intro j
    rw [send_node]
    by_cases hj : j = i
    · rw [hj, put_self]
      exact hsecured
    · have hfollows := hsep.follows j
      rw [send_node, put_of_ne hj] at hfollows
      rw [put_of_ne hj]
      refine (h.secured j).send hfollows ?_
      rw [h.separate.carried.hwaddr j]
      exact hothers hj
  · intro j z
    rw [send_node]
    by_cases hj : j = i
    · rw [hj, put_self]
      intro hz
      obtain ⟨hne, hrecord⟩ := hheld z hz
      refine ⟨hne, fun haddr ↦ ?_⟩
      obtain ⟨hrecord, hout, hno⟩ := hrecord haddr
      refine ⟨hrecord, hout.append fun f hf _ ↦ ?_⟩
      obtain ⟨m, hm, rfl⟩ := List.mem_map.mp hf
      exact hno m hm
    · rw [put_of_ne hj]
      intro hz
      obtain ⟨hne, hrecord⟩ := h.held j z hz
      refine ⟨hne, fun haddr ↦ ?_⟩
      obtain ⟨hrecord, hout⟩ := hrecord haddr
      exact ⟨hrecord, hout.append (unreleased_of_ne (hothers hj))⟩

theorem Granted.begins {i : ι} {trigger : Trigger} {host : Host} {handling : Bool} {p : Progress}
    (h : net.Granted mac) (hmac : Function.Injective mac)
    (horder : net.InOrder rand (.begin i trigger host))
    (hp : (net.node i).client.begin (host.seeded rand net.now) trigger = .ok p) :
    ((net.put i ((net.node i).adopt net.now handling p)).send p.sent).Granted mac := by
  obtain ⟨hget, hset, hfresh⟩ := horder
  have hbegun := begin_ok hp
  refine h.acts hmac (h.separate.begins hfresh hp) ?_ (hbegun.secured hget) ?_
  · intro m hm
    obtain ⟨type, hr⟩ := hbegun.requesting m hm
    exact hr.chaddr.trans (h.separate.carried.hwaddr i)
  · intro z hz
    rw [Node.adopt, hbegun.configured] at hz
    obtain ⟨hne, hheld⟩ := h.held i z hz
    refine ⟨hne, fun haddr ↦ ?_⟩
    have haddr' : p.client.interface.addr = z := haddr
    rcases hbegun.addr with hsame | hzero
    · obtain ⟨hrecord, hout⟩ := hheld (hsame.symm.trans haddr')
      refine ⟨hrecord, hout, fun m hm ↦ ?_⟩
      rcases (hbegun.keeping hget hset (haddr' ▸ hne) m hm).1 with htype | htype
      · rw [htype]
        decide
      · rw [htype]
        decide
    · exact absurd (haddr'.symm.trans hzero) hne

theorem Granted.receives {i : ι} {host : Host} {f : Flight} {rest : List Flight} {p : Progress}
    (h : net.Granted mac) (hmac : Function.Injective mac) (hget : host.getAddr)
    (hqueue : (net.node i).queue = f :: rest)
    (hp : Resumed (net.node i).client ⟨host.seeded rand net.now, f.sent.payload⟩ (net.node i).phase p) :
    ((net.put i ((net.node i).took net.now f rest p)).send p.sent).Granted mac := by
  have hpending : (f :: ((net.node i).took net.now f rest p).pending).Perm (net.node i).pending :=
    took_pending hqueue
  obtain ⟨-, -, mac', x', type, hreplied⟩ :=
    h.separate.carried.answered i f (hpending.subset List.mem_cons_self)
  have hfollows := (h.separate.follows i).shrink (.refl _) hpending.subperm
  have hsecured := (h.secured i).shrink (.refl _) hpending.subset
  have hhwaddr := h.separate.carried.hwaddr i
  refine h.acts hmac (h.separate.receives hqueue hp) ?_ (hp.secured hget hreplied hfollows hsecured) ?_
  · intro m hm
    exact (hp.requesting m hm).chaddr.trans hhwaddr
  · intro z hz
    rcases Option.or_eq_some_iff.mp hz with hz | ⟨hnone, hz⟩
    · obtain ⟨hne, hrecord, hout, hsent⟩ := hp.granted hreplied hfollows hsecured hz
      rw [hhwaddr] at hrecord hout
      refine ⟨hne, fun _ ↦ ⟨hrecord, hout, fun m hm ↦ ?_⟩⟩
      rw [hsent] at hm
      cases hm
    · obtain ⟨hne, hheld⟩ := h.held i z hz
      refine ⟨hne, fun haddr ↦ ?_⟩
      have haddr' : p.client.interface.addr = z := haddr
      rcases hp.addr hnone with hzero | ⟨hsame, hno⟩
      · exact absurd (haddr'.symm.trans hzero) hne
      · obtain ⟨hrecord, hout⟩ := hheld (hsame.symm.trans haddr')
        exact ⟨hrecord, hout, hno⟩

theorem Granted.serves {k draws : ℕ} {stale : UInt32} {f : Flight} {server : Server}
    {out : Option Sent} (h : net.Granted mac) (horder : net.InOrder rand (.serve k draws stale))
    (hf : net.outbound[k]? = some f)
    (hserved : mainLoop net.server
      ⟨⟨net.now, (List.range draws).map (rand net.now), stale⟩, f.sent.payload⟩ = .ok (server, out)) :
    ((net.drop k).reply server out.toList).Granted mac := by
  obtain ⟨i, x, y, ciaddr, type, hr⟩ := h.separate.carried.asked f (List.mem_of_getElem? hf)
  obtain ⟨hfirst, htake⟩ := horder f hf
  have hmem := List.mem_of_getElem? hf
  have hrest : net.outbound.eraseIdx k ⊆ net.outbound := (List.eraseIdx_sublist _ _).subset
  have hkept {j : ι} {z : UInt32} (hheld : Holding 0 z (mac j) net.server.table)
      (hout : Unreleased (mac j) net.outbound) : Holding 0 z (mac j) server.table := by
    refine hr.holding hserved hheld fun hsame hrelease ↦ ?_
    exact hout f hmem (hr.chaddr.trans hsame) (hr.messageType.trans (congrArg some hrelease))
  refine ⟨h.separate.serves hf hserved, mainLoop_valid hserved h.valid, ?_, ?_⟩
  · intro j
    have hbefore := h.secured j
    have hfollows := h.separate.follows j
    have hhwaddr := h.separate.carried.hwaddr j
    change (net.node j).client.Secured (net.outbound.eraseIdx k) ((net.node j).expect _).pending
      server.table (net.node j).phase
    cases hphase : (net.node j).phase with
    | menu | rediscover => trivial
    | awaitOffer =>
      rw [hphase] at hbefore
      exact hbefore
    | awaitAck call => cases call with
      | release | inform | renew | rebind => trivial
      | discover =>
        rw [hphase] at hbefore hfollows
        obtain ⟨haddr, hasked, hlast, hanswered⟩ := hbefore
        obtain ⟨-, hmine, -⟩ := hfollows
        refine ⟨haddr, fun g hg ↦ hasked g (hrest hg), hlast.sublist (List.eraseIdx_sublist _ _), ?_⟩
        rw [hhwaddr] at hanswered hlast hmine ⊢
        intro g hg ht hack
        rcases List.mem_append.mp ((Node.expect_pending _ _).subset hg) with hg | hg
        · obtain ⟨hne, hheld, hout⟩ := hanswered g hg ht hack
          exact ⟨hne, hkept hheld hout, hout.mono hrest⟩
        · obtain ⟨m, hm, rfl⟩ := List.mem_map.mp hg
          rw [Option.mem_toList] at hm
          cases hm
          -- the reply is for this client, so the packet was its request
          obtain ⟨hne, hreplies⟩ := hr.replies hserved
          have hasks : f.sent.Asks (net.node j).client.xid :=
            hr.asks_iff.mpr ⟨(hreplies.xid ht).symm, hne⟩
          obtain ⟨hchaddr, htype⟩ := hmine f hmem hasks
          have hciaddr := hasked f hmem hasks
          rw [hr.ciaddr] at hciaddr
          have hsame := htype
          rw [hr.messageType] at hsame
          cases hsame
          rw [hciaddr] at hr
          obtain ⟨hany, hrecord⟩ := hr.granted h.valid hserved hack (htake htype)
          rw [hr.chaddr] at hchaddr
          rw [hchaddr] at hrecord
          refine ⟨hany, hrecord, fun g hg hg' ↦ ?_⟩
          rcases mem_eraseIdx_cases hg hf hlast with hbefore | hbehind
          · exact absurd (hg'.trans (hr.chaddr.trans hchaddr).symm) (hfirst g hbefore)
          · exact hbehind hasks hg'
  · intro j z hz
    obtain ⟨hne, hheld⟩ := h.held j z hz
    refine ⟨hne, fun haddr ↦ ?_⟩
    obtain ⟨hrecord, hout⟩ := hheld haddr
    exact ⟨hkept hrecord hout, hout.mono hrest⟩

theorem Granted.moved (h : net.Granted mac) (hmac : Function.Injective mac)
    (horder : net.InOrder rand action) (hm : Moved rand net action net') : net'.Granted mac := by
  cases hm with
  | wanes hw => exact h.wanes hw
  | begins hp => exact h.begins hmac horder hp
  | receives hqueue hp => exact h.receives hmac horder hqueue hp
  | serves hf hserved => exact h.serves horder hf hserved

end Net

variable {ι : Type} [DecidableEq ι] [Fintype ι]

/-- In a run in order the server has every address that a client holds on record for that client,
and no two clients hold the same one. -/
theorem addresses_exclusive {rand : ℕ → ℕ → ℕ} {interface : ι → Interface} {now : ℕ}
    {trace : List (Transition (Net ι) (Action ι) Unit)} {net : Net ι}
    (hmac : Function.Injective fun i ↦ (interface i).hwaddr)
    (h : Execution (Net.step rand) (Net.start interface now) trace net)
    (horder : ∀ e ∈ trace, e.before.InOrder rand e.input) :
    (∀ i x, (net.node i).Holds x →
      ∃ lease ∈ net.server.table.leases, lease.addr = x ∧ lease.chaddr = (interface i).hwaddr) ∧
    ∀ i j x, (net.node i).Holds x → (net.node j).Holds x → i = j := by
  have hgranted := (h.invariant (I := Net.Granted fun i ↦ (interface i).hwaddr)
    (fun e he horder hgranted ↦ hgranted.moved hmac horder (Net.step_moved he)) horder
    (Net.granted_start interface now)).1
  have hrecord {i : ι} {x : UInt32} (hi : (net.node i).Holds x) :
      ∃ lease ∈ net.server.table.leases, lease.addr = x ∧ lease.chaddr = (interface i).hwaddr := by
    obtain ⟨lease, hl, hx, hm, -⟩ := ((hgranted.held i x hi.configured).2 hi.addr).1
    exact ⟨lease, hl, hx, hm⟩
  refine ⟨fun i x hi ↦ hrecord hi, fun i j x hi hj ↦ ?_⟩
  obtain ⟨lease, hl, hx, hm⟩ := hrecord hi
  obtain ⟨lease', hl', hx', hm'⟩ := hrecord hj
  have hsame := hgranted.valid.distinct.eq_of_key hl hl' (hx.trans hx'.symm)
  exact hmac (hm.symm.trans ((congrArg LeaseT.chaddr hsame).trans hm'))

theorem addresses_exclusive_two : ∃ (net : Net Bool) (x y : UInt32),
    (net.node false).Holds x ∧ (net.node true).Holds y ∧ x ≠ y := by
  obtain ⟨trace, net, hrun, hnet⟩ := exists_execution (Net.step sampleRand) (Net.start twoClients 0)
    [.begin false (.command .discover) (quietHost 0 0), .wait 1,
      .begin true (.command .discover) (quietHost 0 0), .serve 0 1 0, .wait 1, .serve 0 1 0,
      .arrive false 0, .arrive true 0, .arrive true 0, .receive false (quietHost 0 0),
      .receive true (quietHost 0 0), .receive true (quietHost 0 0), .serve 0 0 0, .serve 0 0 0,
      .arrive false 1, .receive false (quietHost 0 0), .arrive true 0, .arrive true 0,
      .receive true (quietHost 0 0), .receive true (quietHost 0 0)]
    (fun trace net ↦ (∀ e ∈ trace, e.before.InOrder sampleRand e.input) ∧
      ∀ i, ∃ x ∈ (net.node i).configured, (net.node i).client.interface.addr = x) (by decide +kernel)
  obtain ⟨horder, hset⟩ := of_decide_eq_true hnet
  have hmac : Function.Injective fun i ↦ (twoClients i).hwaddr := by decide
  obtain ⟨-, honly⟩ := addresses_exclusive hmac hrun horder
  obtain ⟨x, hx, haddr⟩ := hset false
  obtain ⟨y, hy, haddr'⟩ := hset true
  refine ⟨net, x, y, ⟨hx, haddr⟩, ⟨hy, haddr'⟩, ?_⟩
  rintro rfl
  exact Bool.noConfusion (honly false true x ⟨hx, haddr⟩ ⟨hy, haddr'⟩)

end InternetApplications.Dhcp
