import InternetApplications.Dhcp.CrossTalk
import InternetApplications.Dhcp.SoleClient

namespace InternetApplications.Dhcp

open ByteMemory TagScan Executions Client LeaseTable

/-- The client waits, without an address, for a reply to the last message that it has sent. Once it
is answered nothing else is on its way to the server, and nothing newer to the client. -/
structure Client.Awaits (c : Client) (outbound pending : List Flight) (type : UInt8)
    (promise : Flight → Prop) : Prop where
  addr : c.interface.addr = inaddrAny
  last : ∀ f ∈ outbound.dropLast, ¬f.sent.Asks c.xid
  asked : ∀ f ∈ outbound, f.sent.Asks c.xid →
    f.sent.messageType = some type ∧ f.sent.packet.ciaddr = inaddrAny
  once : (pending.countP fun f ↦ c.Takes f.sent.packet) ≤ 1
  answered : ∀ f ∈ pending, c.Takes f.sent.packet →
    outbound = [] ∧ promise f ∧ ∀ g ∈ pending, g.sentAt ≤ f.sentAt

/-- What an offer says of the table: its address is the one on record, if there is any. -/
def Client.OfferHolds (c : Client) (stamp : Option ℕ) (f : Flight) : Prop :=
  stamp = none ∨ f.sent.packet.yiaddr = c.yiaddr

/-- What the answer to a request says of the table: if it is an acknowledgement, the address has been
put on record when it was sent. -/
def Client.AckHolds (c : Client) (stamp : Option ℕ) (f : Flight) : Prop :=
  (f.sent.IsAck ∨ f.sent.messageType = some dhcpnak) ∧
    (f.sent.IsAck → stamp = some f.sentAt ∧ f.sent.packet.yiaddr = c.yiaddr ∧ InPool c.yiaddr)

def Client.Agrees (c : Client) (outbound pending : List Flight) (stamp : Option ℕ) : Phase → Prop
  | .awaitOffer _ _ => c.Awaits outbound pending dhcpdiscover (c.OfferHolds stamp)
  | .awaitAck .discover _ _ => c.Awaits outbound pending dhcprequest (c.AckHolds stamp)
  | _ => True

section Lists

variable {α : Type} {l l' : List α}

theorem sublist_dropLast (h : l'.Sublist l) : l'.dropLast.Sublist l.dropLast := by
  induction h with
  | slnil => exact .slnil
  | @cons l' l a h ih =>
    cases l with
    | nil =>
      cases h
      exact .slnil
    | cons b l =>
      rw [List.dropLast_cons_cons]
      exact ih.cons a
  | @cons_cons l' l a h ih =>
    cases l' with
    | nil => exact List.nil_sublist _
    | cons b l' =>
      cases l with
      | nil => cases h
      | cons c l =>
        rw [List.dropLast_cons_cons, List.dropLast_cons_cons]
        exact ih.cons_cons a

end Lists

section Waiting

variable {c : Client} {outbound outbound' pending pending' more : List Flight} {type : UInt8}
  {promise promise' : Flight → Prop} {phase : Phase} {stamp stamp' : Option ℕ} {now : ℕ}

namespace Client

theorem Awaits.shrink (h : c.Awaits outbound pending type promise) (ho : outbound'.Sublist outbound)
    (hp : pending'.Subperm pending) : c.Awaits outbound' pending' type promise := by
  constructor
  · exact h.addr
  · exact fun f hf ↦ h.last f ((sublist_dropLast ho).subset hf)
  · exact fun f hf ↦ h.asked f (ho.subset hf)
  · exact (hp.countP_le _).trans h.once
  · intro f hf ht
    obtain ⟨hnil, hpromise, hnewest⟩ := h.answered f (hp.subset hf) ht
    rw [hnil] at ho
    exact ⟨List.sublist_nil.mp ho, hpromise, fun g hg ↦ hnewest g (hp.subset hg)⟩

/-- The server has taken the oldest datagram and answered it. -/
theorem Awaits.serve {f : Flight} {rest : List Flight} {mac : Mac} {x y ciaddr : UInt32}
    {type' : UInt8} (h : c.Awaits (f :: rest) pending type promise)
    (hr : Requesting f.sent mac x y ciaddr type') (hlen : more.length ≤ 1)
    (hmore : ∀ g ∈ more, g.sentAt = now ∧ type' ≠ dhcprelease ∧ Replies g.sent mac x type')
    (hnow : ∀ g ∈ pending, g.sentAt ≤ now)
    (hpromise : type' = type → ciaddr = inaddrAny → ∀ g ∈ more, c.Takes g.sent.packet → promise' g)
    (hp : pending'.Perm (pending ++ more)) : c.Awaits rest pending' type promise' := by
  have hnone : ∀ g ∈ pending, ¬c.Takes g.sent.packet := fun g hg ht ↦
    absurd (h.answered g hg ht).1 (List.cons_ne_nil f rest)
  constructor
  · exact h.addr
  · intro g hg
    exact h.last g ((sublist_dropLast (List.sublist_cons_self f rest)).subset hg)
  · exact fun g hg ↦ h.asked g (List.mem_cons_of_mem f hg)
  · have hzero : (pending.countP fun g ↦ c.Takes g.sent.packet) = 0 :=
      List.countP_eq_zero.mpr fun g hg ↦ by simpa using hnone g hg
    rw [hp.countP_eq, List.countP_append, hzero, Nat.zero_add]
    exact List.countP_le_length.trans hlen
  · intro g hg ht
    rcases List.mem_append.mp (hp.subset hg) with hg | hg
    · exact absurd ht (hnone g hg)
    · obtain ⟨hsent, hne, hreplies⟩ := hmore g hg
      have hasks : f.sent.Asks c.xid := hr.asks_iff.mpr ⟨(hreplies.xid ht).symm, hne⟩
      obtain ⟨htype, hciaddr⟩ := h.asked f List.mem_cons_self hasks
      rw [hr.messageType] at htype
      rw [hr.ciaddr] at hciaddr
      refine ⟨?_, hpromise (Option.some.inj htype) hciaddr g hg ht, ?_⟩
      · cases rest with
        | nil => rfl
        | cons g' rest =>
          refine absurd hasks (h.last f ?_)
          rw [List.dropLast_cons_cons]
          exact List.mem_cons_self
      · intro g' hg'
        rw [hsent]
        rcases List.mem_append.mp (hp.subset hg') with hg' | hg'
        · exact hnow g' hg'
        · exact (hmore g' hg').1.le

theorem Awaits.only {f : Flight} (h : c.Awaits outbound (f :: pending) type promise)
    (hf : c.Takes f.sent.packet) : ∀ g ∈ pending, ¬c.Takes g.sent.packet := by
  have honce := h.once
  rw [List.countP_cons_of_pos (by simpa using hf)] at honce
  have hzero : (pending.countP fun g ↦ c.Takes g.sent.packet) = 0 := by omega
  intro g hg
  simpa using List.countP_eq_zero.mp hzero g hg

theorem Agrees.shrink (h : c.Agrees outbound pending stamp phase) (ho : outbound'.Sublist outbound)
    (hp : pending'.Subperm pending) : c.Agrees outbound' pending' stamp phase := by
  cases phase with
  | awaitOffer => exact Awaits.shrink h ho hp
  | menu | rediscover => trivial
  | awaitAck call => cases call with
    | discover => exact Awaits.shrink h ho hp
    | release | inform | renew | rebind => trivial

theorem Agrees.serve {f : Flight} {rest : List Flight} {mac : Mac} {x ciaddr : UInt32}
    {out : Option Sent} (h : c.Agrees (f :: rest) pending stamp phase)
    (hr : Requesting f.sent mac x c.yiaddr ciaddr type)
    (hreplies : ∀ r, out = some r → type ≠ dhcprelease ∧ Replies r mac x type)
    (hserved : Served now c.yiaddr ciaddr type stamp stamp' out)
    (hnow : ∀ g ∈ pending, g.sentAt ≤ now)
    (hp : pending'.Perm (pending ++ out.toList.map (Flight.mk now))) :
    c.Agrees rest pending' stamp' phase := by
  have hflights {g : Flight} (hg : g ∈ out.toList.map (Flight.mk now)) :
      g.sentAt = now ∧ out = some g.sent := by
    obtain ⟨m, hm, rfl⟩ := List.mem_map.mp hg
    exact ⟨rfl, Option.mem_toList.mp hm⟩
  have hlen : (out.toList.map (Flight.mk now)).length ≤ 1 := by
    rw [List.length_map]
    exact Option.length_toList_le
  have hmore {g : Flight} (hg : g ∈ out.toList.map (Flight.mk now)) :
      g.sentAt = now ∧ type ≠ dhcprelease ∧ Replies g.sent mac x type := by
    obtain ⟨hsent, hout⟩ := hflights hg
    exact ⟨hsent, hreplies _ hout⟩
  cases phase with
  | menu | rediscover => trivial
  | awaitOffer =>
    refine Awaits.serve h hr hlen (fun g hg ↦ hmore hg) hnow ?_ hp
    exact fun htype _ g hg _ ↦ hserved.offered htype _ (hflights hg).2
  | awaitAck call => cases call with
    | release | inform | renew | rebind => trivial
    | discover =>
      refine Awaits.serve h hr hlen (fun g hg ↦ hmore hg) hnow ?_ hp
      intro htype hc g hg ht
      obtain ⟨hsent, -, hreplies⟩ := hmore hg
      rw [htype] at hreplies
      refine ⟨hreplies.messageType ht, fun hack ↦ ?_⟩
      rw [hsent]
      exact hserved.granted htype hc _ (hflights hg).2 hack

end Client

variable {host : Host} {p : Progress} {f : Flight} {mac : Mac} {x z : UInt32}

theorem getIpAddress_eq (h : host.getAddr) : c.getIpAddress host = c.interface.addr := if_pos h

namespace Begun

theorem yiaddr (h : Begun c host p) : p.client.yiaddr = c.yiaddr := by
  cases h with
  | idle hk => exact hk.yiaddr
  | discovers _ hk => exact hk.yiaddr
  | releases hk => exact hk.yiaddr
  | asks _ _ hk => exact hk.yiaddr

theorem addr (h : Begun c host p) :
    p.client.interface.addr = c.interface.addr ∨ p.client.interface.addr = inaddrAny := by
  cases h with
  | idle hk => exact hk.addr
  | discovers _ hk => exact hk.addr
  | releases hk => exact hk.addr
  | asks _ _ hk => exact hk.addr

theorem asked (h : Begun c host p) : ∀ m ∈ p.sent, ∃ x ciaddr type,
    Requesting m c.interface.hwaddr x c.yiaddr ciaddr type ∧
      (type = dhcpdiscover → ciaddr = inaddrAny) := by
  cases h with
  | idle => exact fun m hm ↦ by cases hm
  | discovers _ _ _ hr =>
    intro m hm
    rw [List.mem_singleton.mp hm]
    exact ⟨_, _, _, hr, fun _ ↦ rfl⟩
  | releases _ _ hr =>
    intro m hm
    rw [List.mem_singleton.mp hm]
    exact ⟨_, _, _, hr, fun h ↦ absurd h (by decide)⟩
  | asks _ htype _ _ hr =>
    intro m hm
    rw [List.mem_singleton.mp hm]
    refine ⟨_, _, _, hr, fun h ↦ ?_⟩
    rcases htype with rfl | rfl
    · exact absurd h (by decide)
    · exact absurd h (by decide)

/-- A client that keeps its address only asks for it. -/
theorem keeping (h : Begun c host p) (hget : host.getAddr) (hset : host.setAddr)
    (ha : p.client.interface.addr ≠ inaddrAny) : ∀ m ∈ p.sent,
      (m.messageType = some dhcprequest ∨ m.messageType = some dhcpinform) ∧
        m.packet.ciaddr = c.interface.addr := by
  cases h with
  | idle => exact fun m hm ↦ by cases hm
  | discovers hzero hk =>
    rw [getIpAddress_eq hget] at hzero
    rcases hk.addr with hsame | hgone
    · exact absurd (hsame.trans hzero) ha
    · exact absurd hgone ha
  | releases _ hzero => exact absurd (hzero hset) ha
  | asks _ htype _ _ hr =>
    intro m hm
    rw [List.mem_singleton.mp hm, hr.messageType, hr.ciaddr, getIpAddress_eq hget]
    exact ⟨htype.imp (congrArg some) (congrArg some), rfl⟩

theorem agrees (h : Begun c host p) (hget : host.getAddr) (hunborne : p.phase.isDiscovering →
      (∀ f ∈ outbound, ¬f.sent.Asks host.rand) ∧ ∀ f ∈ pending, ¬AnswersTo f.sent.packet host.rand) :
    p.client.Agrees (outbound ++ p.sent.map (Flight.mk now)) pending stamp p.phase := by
  cases h with
  | idle | releases => trivial
  | @asks c' m call type hcall => cases call with
    | discover => exact absurd rfl hcall
    | release | inform | renew | rebind => trivial
  | @discovers c' m ha hk hx hr =>
    obtain ⟨hout, hin⟩ := hunborne rfl
    have hnone : ∀ f ∈ pending, ¬c'.Takes f.sent.packet := by
      intro f hf
      rw [Takes, hx]
      exact hin f hf
    constructor
    · rw [getIpAddress_eq hget] at ha
      rcases hk.addr with hsame | hzero
      · exact hsame.trans ha
      · exact hzero
    · intro f hf
      rw [List.map_singleton, List.dropLast_concat] at hf
      rw [hx]
      exact hout f hf
    · intro f hf hasks
      rcases List.mem_append.mp hf with hf | hf
      · rw [hx] at hasks
        exact absurd hasks (hout f hf)
      · cases List.mem_singleton.mp hf
        exact ⟨hr.messageType, hr.ciaddr⟩
    · rw [List.countP_eq_zero.mpr fun f hf ↦ by simpa using hnone f hf]
      exact Nat.zero_le 1
    · exact fun f hf ht ↦ absurd ht (hnone f hf)

end Begun

namespace Resumed

theorem agrees (h : Resumed c ⟨host, f.sent.payload⟩ phase p) (hget : host.getAddr)
    (hf : Replies f.sent mac x type) (hne : f.sent.payload ≠ [])
    (hc : c.Agrees outbound (f :: pending) stamp phase) :
    p.client.Agrees (outbound ++ p.sent.map (Flight.mk now)) pending stamp p.phase := by
  have hrest : c.Agrees outbound pending stamp phase :=
    hc.shrink (.refl _) (List.sublist_cons_self f pending).subperm
  cases h with
  | passesOffer =>
    rw [List.map_nil, List.append_nil]
    exact hrest
  | @passesAck call =>
    rw [List.map_nil, List.append_nil]
    cases call with
    | release | inform | renew | rebind => trivial
    | discover => exact hrest
  | configures => trivial
  | ends _ hphase =>
    rcases hphase with rfl | rfl
    · trivial
    · trivial
  | @takesOffer dhcpOffer dhcpAck c' value m htakes hx hi hy hr =>
    have htaken := (hf.takes_recvfrom (.inl hne)).mp htakes
    have hin : ∀ g ∈ pending, ¬c'.Takes g.sent.packet := by
      intro g hg
      rw [Takes, hx]
      exact Awaits.only hc htaken g hg
    obtain ⟨hnil, -⟩ := Awaits.answered hc f List.mem_cons_self htaken
    have haddr : c.interface.addr = inaddrAny := Awaits.addr hc
    rw [getIpAddress_eq hget, haddr] at hr
    rw [hnil]
    constructor
    · rw [hi]
      exact haddr
    · exact fun g hg ↦ by cases hg
    · intro g hg _
      cases List.mem_singleton.mp hg
      exact ⟨hr.messageType, hr.ciaddr⟩
    · rw [List.countP_eq_zero.mpr fun g hg ↦ by simpa using hin g hg]
      exact Nat.zero_le 1
    · exact fun g hg ht ↦ absurd ht (hin g hg)

theorem yiaddr (h : Resumed c ⟨host, f.sent.payload⟩ phase p) (hf : Replies f.sent mac x type)
    (hne : f.sent.payload ≠ []) (hc : c.Agrees outbound (f :: pending) stamp phase) :
    p.client.yiaddr = c.yiaddr ∨ outbound = [] ∧ stamp = none := by
  cases h with
  | passesOffer | passesAck => exact .inl rfl
  | ends hk => exact .inl hk.yiaddr
  | configures _ _ _ hconf => exact .inl hconf.yiaddr
  | @takesOffer dhcpOffer dhcpAck c' value m htakes hx hi hy hr =>
    have htaken := (hf.takes_recvfrom (.inl hne)).mp htakes
    obtain ⟨hnil, hholds, -⟩ := Awaits.answered hc f List.mem_cons_self htaken
    rcases hholds with hnone | hsame
    · exact .inr ⟨hnil, hnone⟩
    · exact .inl (hy.trans ((hf.yiaddr (.inl hne) htakes).trans hsame))

theorem asked (h : Resumed c ⟨host, f.sent.payload⟩ phase p) : ∀ m ∈ p.sent, ∃ x ciaddr type,
    Requesting m c.interface.hwaddr x p.client.yiaddr ciaddr type ∧
      (type = dhcpdiscover → ciaddr = inaddrAny) := by
  intro m hm
  exact ⟨_, _, _, h.requesting m hm, fun h ↦ absurd h (by decide)⟩

end Resumed

/-- The client puts the address on its interface that it has been offered and that an acknowledgement
has put on record; nothing else is on its way to the server. -/
structure Client.Configures (c : Client) (outbound pending : List Flight) (stamp : Option ℕ)
    (f : Flight) (p : Progress) : Prop where
  configured : p.configured = some c.yiaddr
  yiaddr : p.client.yiaddr = c.yiaddr
  inPool : InPool c.yiaddr
  stamp : stamp = some f.sentAt
  outbound : outbound = []
  sent : p.sent = []
  acked : f.sent.IsAck ∧ p.accepted ≠ []
  newest : ∀ g ∈ pending, g.sentAt ≤ f.sentAt

/-- The address on the interface stays, or it is given up, or it is that of an acknowledgement. -/
theorem Resumed.holds (h : Resumed c ⟨host, f.sent.payload⟩ phase p) (hf : Replies f.sent mac x type)
    (hne : f.sent.payload ≠ []) (hc : c.Agrees outbound (f :: pending) stamp phase) :
    p.configured = none ∧ p.client.yiaddr = c.yiaddr ∧ p.sent = [] ∧
        (p.client.interface.addr = c.interface.addr ∨ p.client.interface.addr = inaddrAny) ∨
      p.configured = none ∧ p.client.interface.addr = inaddrAny ∨
      c.Configures outbound pending stamp f p := by
  cases h with
  | passesOffer | passesAck => exact .inl ⟨rfl, rfl, rfl, .inl rfl⟩
  | ends hk => exact .inl ⟨rfl, hk.yiaddr, rfl, hk.addr⟩
  | @takesOffer dhcpOffer dhcpAck c' value m htakes hx hi =>
    refine .inr (.inl ⟨rfl, ?_⟩)
    rw [hi]
    exact Awaits.addr hc
  | @configures dhcpAck value c₁ c' hset htakes htake hconf =>
    have htaken := (hf.takes_recvfrom (.inl hne)).mp htakes
    have hyiaddr := hf.yiaddr (.inl hne) htakes
    obtain ⟨hnil, ⟨htype, hholds⟩, hnewest⟩ := Awaits.answered hc f List.mem_cons_self htaken
    have hack : f.sent.IsAck := htype.resolve_right (hf.takeAck (.inl hne) htakes htake)
    obtain ⟨hstamp, hsame, hpool⟩ := hholds hack
    refine .inr (.inr ⟨?_, hconf.yiaddr, hpool, hstamp, hnil, rfl, ⟨hack, List.cons_ne_nil _ _⟩, ?_⟩)
    · rw [hyiaddr, hsame]
    · exact fun g hg ↦ hnewest g (List.mem_cons_of_mem f hg)

end Waiting

end InternetApplications.Dhcp
