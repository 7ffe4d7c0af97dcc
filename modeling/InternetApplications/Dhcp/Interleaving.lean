import InternetApplications.Library.Cells
import InternetApplications.Dhcp.LeaseMap
import InternetApplications.Dhcp.Residue

namespace InternetApplications.Dhcp

open ByteMemory TagScan KeyedList Executions Cells LeaseTable

/-- The packet names this server, and an address: as option 50 of a request without a client address,
or as the client address of a release. -/
inductive Names (b : DhcpT) (mac : Mac) (x : UInt32) : Bool → Prop
  | request :
      receivedType b = .ok (some dhcprequest) →
      optionWord b optionDhcpServerIdentifier = some dhcpServerIpAddress → b.chaddr = mac →
      b.ciaddr = inaddrAny → optionWord b optionRequestedIp = some x → Names b mac x true
  | release :
      receivedType b = .ok (some dhcprelease) →
      optionWord b optionDhcpServerIdentifier = some dhcpServerIpAddress → b.chaddr = mac →
      b.ciaddr = x → Names b mac x false

structure Naming where
  datagram : List UInt8
  mac : Mac
  addr : UInt32
  requests : Bool
  names : ∀ p : DhcpT, Names (p.recvfrom datagram) mac addr requests

abbrev Verdict := Option (Option UInt8 × UInt32)

def Event.verdict (e : Event) : Verdict := e.output.map fun m ↦ (m.messageType, m.packet.yiaddr)

def usable (now : ℕ) (mac : Mac) (v : Option (Mac × ℕ)) : Bool :=
  v.all fun p ↦ p.2 + ipAddressLeaseTime ≤ now ∨ p.1 = mac

/-- What a packet does to the entry of the address it names, and how it is answered. -/
def Naming.act (now : ℕ) (a : Naming) (v : Option (Mac × ℕ)) : Option (Mac × ℕ) × Verdict :=
  if a.requests then
    if InPool a.addr ∧ usable now a.mac v then
      (some ((v.map Prod.fst).getD a.mac, now), some (some dhcpack, a.addr))
    else (v, some (some dhcpnak, inaddrAny))
  else (if v.map Prod.fst = some a.mac then none else v, none)

def Serves (now : ℕ) (s : Server) (l : List Naming) (trace : List Event) (u : Server) : Prop :=
  Execution mainLoop s trace u ∧
    List.Forall₂ (fun a e ↦ e.input.datagram = a.datagram ∧ e.now = now) l trace

section Reading

variable {b : DhcpT} {t t' : LeaseTable} {now : ℕ} {x : UInt32} {mac : Mac} {tag : UInt8} {o : ℕ}

theorem checkIpaddr_usable : 0 < checkIpaddr t now x mac ↔
    InPool x ∧ usable now mac (t.toMap x) = true := by
  rw [checkIpaddr_pos]
  refine and_congr_right fun _ ↦ ?_
  cases hl : t.lookup x with
  | none =>
    rw [toMap_none hl]
    simp [usable]
  | some lease =>
    rw [toMap_some hl]
    simp only [usable, Option.all_some, decide_eq_true_eq, Option.some.injEq, forall_eq',
      LeaseT.Live]
    constructor
    · intro h
      by_cases hlive : now < lease.timeStamp + ipAddressLeaseTime
      · exact .inr (h hlive)
      · exact .inl (by omega)
    · rintro (hle | hm) hlive
      · omega
      · exact hm

theorem numOfLease_congr (ht : t.Valid) (ht' : t'.Valid) (h : t.toMap = t'.toMap) :
    t.numOfLease = t'.numOfLease := by
  have hmem (u : LeaseTable) (hu : u.Valid) (x : UInt32) :
      x ∈ u.leases.map LeaseT.addr ↔ (u.toMap x).isSome := by
    rw [toMap, Option.isSome_map]
    constructor
    · intro hx
      obtain ⟨lease, hl, rfl⟩ := List.mem_map.mp hx
      rw [lookup_mem hu hl]
      rfl
    · intro hx
      obtain ⟨lease, hl⟩ := Option.isSome_iff_exists.mp hx
      obtain ⟨hmem, rfl⟩ := lookup_some hl
      exact List.mem_map_of_mem hmem
  have hperm : (t.leases.map LeaseT.addr).Perm (t'.leases.map LeaseT.addr) := by
    refine (List.perm_ext_iff_of_nodup ht.distinct ht'.distinct).mpr fun x ↦ ?_
    rw [hmem t ht, hmem t' ht', h]
  have hlen := hperm.length_eq
  rw [List.length_map, List.length_map] at hlen
  rw [ht.counted, ht'.counted, hlen]

end Reading

section Steps

variable {s s' u : Server} {i : Input} {a : Naming} {now : ℕ} {out : Option Sent} {l : List Naming}
  {trace : List Event}

theorem Handled.of_release {t : LeaseTable} (h : Handled s i t out)
    (htype : receivedType (s.received i) = .ok (some dhcprelease))
    (hself : optionWord (s.received i) optionDhcpServerIdentifier = some dhcpServerIpAddress) :
    out = none ∧ deleteLease s.table (s.received i).ciaddr (s.received i).chaddr = .ok t := by
  cases h with
  | silent hsilent => exact absurd hself ((hsilent _ htype).2.2 (.inr rfl))
  | offerRequested h | offerAllocated h | offerNone h | ackSelected h | ackRenewed h | nak h
  | informSelected h | informKnown h => exact absurd (htype.symm.trans h) (by decide)
  | released _ _ hdelete => exact ⟨rfl, hdelete⟩

/-- A pass acts on the entry of the one address that the packet names. -/
theorem Naming.step (a : Naming) (ht : s.table.Valid) (hd : i.datagram = a.datagram)
    (hn : i.env.now = now) (h : mainLoop s i = .ok (s', out)) :
    s'.table.toMap =
      Function.update s.table.toMap a.addr (a.act now (s.table.toMap a.addr)).1 ∧
    (out.map fun m ↦ (m.messageType, m.packet.yiaddr)) = (a.act now (s.table.toMap a.addr)).2 := by
  have hnames : Names (s.received i) a.mac a.addr a.requests := by
    rw [Server.received, hd]
    exact a.names s.dhcpRecv
  rw [Naming.act]
  generalize a.mac = mac at *
  generalize a.addr = x at *
  generalize a.requests = requests at *
  cases hnames with
  | request htype hself hm hc hx =>
    obtain ⟨o, hg, hw⟩ := optionWord_iff.mp hx
    have hreq : requestedOption (s.received i) = some x := requestedOption_of_deref hg hw
    have hacc : Acceptable s.table i.env.now (s.received i) ↔
        InPool x ∧ usable now mac (s.table.toMap x) = true := by
      rw [← checkIpaddr_usable, Acceptable, requestedAddress, if_pos hc, hreq, hm, hn]
      simp
    have hrequested := mainLoop_requested htype h
    generalize s'.table = t at hrequested ⊢
    rw [if_pos rfl]
    cases hrequested with
    | elsewhere hother => exact absurd hself hother
    | refused _ hp ha =>
      rw [if_neg (hacc.not.mp hp), Function.update_eq_self, Option.map_some, ha.messageType, ha.yiaddr]
      exact ⟨rfl, rfl⟩
    | selected _ hp _ hreq' hadd ha =>
      cases hreq.symm.trans hreq'
      rw [if_pos (hacc.mp hp), Option.map_some, ha.messageType, ha.yiaddr]
      rw [hm, hn] at hadd
      exact ⟨toMap_addLease ht hadd, rfl⟩
    | renewed _ _ hc' => exact absurd hc hc'
  | release htype hself hm hx =>
    obtain ⟨rfl, hdelete⟩ := (mainLoop_handled h).of_release htype hself
    obtain ⟨t, hdelete', hmap⟩ := toMap_deleteLease ht (s.received i).ciaddr (s.received i).chaddr
    cases hdelete.symm.trans hdelete'
    rw [hx, hm] at hmap
    rw [if_neg (by simp), hmap, LeaseMap.delete, LeaseMap.holder]
    refine ⟨?_, rfl⟩
    split
    · rfl
    · rw [Function.update_eq_self]

theorem Serves.runCells (h : Serves now s l trace u) (ht : s.table.Valid) :
    u.table.Valid ∧
    Cells.runCells Naming.addr (Naming.act now) s.table.toMap l =
      (u.table.toMap, l.zip (trace.map Event.verdict)) := by
  obtain ⟨hrun, hpairs⟩ := h
  induction hpairs generalizing s with
  | nil =>
    cases hrun
    exact ⟨ht, rfl⟩
  | @cons a e l trace he _ ih =>
    cases hrun with
    | @cons _ s' _ i out _ hstep hrest =>
      obtain ⟨hmap, hverdict⟩ := a.step ht he.1 he.2 hstep
      obtain ⟨hvalid, hcells⟩ := ih (mainLoop_valid hstep ht) hrest
      rw [hmap] at hcells
      refine ⟨hvalid, ?_⟩
      rw [Cells.runCells, hcells, ← hverdict]
      rfl

end Steps

section Returns

variable {s : Server} {i : Input} {a : Naming} {now : ℕ}

/-- A pass comes to an end while there is room for one more lease. -/
theorem Naming.returns (a : Naming) (ht : s.table.Valid) (hd : i.datagram = a.datagram)
    (hroom : s.table.leases.length + 1 < 2 ^ 31) : ∃ s' out, mainLoop s i = .ok (s', out) ∧
      s'.table.leases.length ≤ s.table.leases.length + 1 := by
  have hnames : Names (s.received i) a.mac a.addr a.requests := by
    rw [Server.received, hd]
    exact a.names s.dhcpRecv
  generalize a.requests = requests at hnames
  cases hnames with
  | request htype hself hm hc hx =>
    obtain ⟨o, ho, -⟩ := receivedType_ok htype
    obtain ⟨identifier, hsel⟩ := selectedServer_self hself
    obtain ⟨o', hg, hw⟩ := optionWord_iff.mp hx
    have hfinds : FindsWord (fun _ ↦ True) (s.received i) optionRequestedIp a.addr :=
      ⟨4, o', hg, trivial, hw⟩
    obtain ⟨dest, hanswer⟩ := hfinds.onRequest s.table i.env o hsel hc
    have hgranted : ∃ y t, granted s.table i.env (s.received i).ciaddr (s.received i).chaddr a.addr =
        .ok (y, t) ∧ t.leases.length ≤ s.table.leases.length + 1 := by
      rw [granted, if_pos hc]
      split
      · obtain ⟨t, hadd⟩ := addLease_returns (x := a.addr) ht i.env.now (s.received i).chaddr
          (.inr hroom)
        rw [hadd, ok_bind]
        refine ⟨_, t, rfl, ?_⟩
        obtain ⟨lease, -, rfl⟩ | ⟨-, rfl, -⟩ := addLease_cases hadd
        · simp [LeaseTable.stampAddr]
        · simp [LeaseTable.append]
      · exact ⟨_, _, rfl, Nat.le_succ _⟩
    obtain ⟨y, t, hgrant, hlen⟩ := hgranted
    rw [hgrant, ok_bind] at hanswer
    obtain ⟨s', hstep, rfl⟩ := mainLoop_of_reaction ((reaction_request htype ho).trans hanswer)
    exact ⟨s', _, hstep, hlen⟩
  | release htype hself hm hx =>
    obtain ⟨o, ho, -⟩ := receivedType_ok htype
    obtain ⟨identifier, hsel⟩ := selectedServer_self hself
    obtain ⟨t, hdelete, -⟩ := toMap_deleteLease ht (s.received i).ciaddr (s.received i).chaddr
    have hanswer : onRelease (s.received i) s.table = .ok (t, none) := by
      rw [onRelease, hsel, ok_bind]
      simp only
      rw [hdelete, ok_bind]
    obtain ⟨s', hstep, rfl⟩ := mainLoop_of_reaction ((reaction_release htype ho).trans hanswer)
    refine ⟨s', _, hstep, ?_⟩
    obtain ⟨lease, -, ht'⟩ | ⟨-, ht'⟩ := deleteLease_cases hdelete
    · rw [ht']
      exact List.length_eraseP_le.trans (Nat.le_succ _)
    · rw [ht']
      exact Nat.le_succ _

/-- Every sequence of such datagrams can be served while there is room for their leases. -/
theorem exists_serves (now : ℕ) (l : List Naming) (ht : s.table.Valid)
    (hroom : s.table.leases.length + l.length < 2 ^ 31) : ∃ trace u, Serves now s l trace u := by
  induction l generalizing s with
  | nil => exact ⟨[], s, .nil s, .nil⟩
  | cons a l ih =>
    rw [List.length_cons] at hroom
    obtain ⟨s', out, hstep, hlen⟩ := a.returns (i := ⟨⟨now, [], 0⟩, a.datagram⟩) ht rfl (by omega)
    obtain ⟨trace, u, hrun, hpairs⟩ := ih (mainLoop_valid hstep ht) (by omega)
    exact ⟨_, u, .cons hstep hrun, .cons ⟨rfl, rfl⟩ hpairs⟩

end Returns

/-- Clients that name different addresses do not disturb one another: any two orders in which each
client keeps its own give every packet the same verdict, and end with the same leases. -/
theorem interleavings_agree {s : Server} (h : ServerReachable s) (now : ℕ) :
    (∀ l : List Naming, s.table.leases.length + l.length < 2 ^ 31 →
      ∃ trace u, Serves now s l trace u) ∧
    ∀ (l₁ l₂ : List Naming) (trace₁ trace₂ : List Event) (u₁ u₂ : Server),
      (∀ m, l₁.filter (fun a ↦ a.mac = m) = l₂.filter (fun a ↦ a.mac = m)) →
      (∀ a ∈ l₁, ∀ b ∈ l₁, a.mac ≠ b.mac → a.addr ≠ b.addr) →
      Serves now s l₁ trace₁ u₁ → Serves now s l₂ trace₂ u₂ →
      (∀ m, (l₁.zip (trace₁.map Event.verdict)).filter (fun p ↦ p.1.mac = m) =
        (l₂.zip (trace₂.map Event.verdict)).filter (fun p ↦ p.1.mac = m)) ∧
      u₁.table.toMap = u₂.table.toMap ∧ u₁.table.numOfLease = u₂.table.numOfLease := by
  refine ⟨fun l ↦ exists_serves now l h.valid, ?_⟩
  intro l₁ l₂ trace₁ trace₂ u₁ u₂ horder hsep h₁ h₂
  obtain ⟨hvalid₁, hcells₁⟩ := h₁.runCells h.valid
  obtain ⟨hvalid₂, hcells₂⟩ := h₂.runCells h.valid
  obtain ⟨hout, hmap⟩ := runCells_agree Naming.addr (Naming.act now) s.table.toMap horder hsep
  rw [hcells₁, hcells₂] at hout hmap
  exact ⟨hout, hmap, numOfLease_congr hvalid₁ hvalid₂ hmap⟩

theorem exists_naming (mac : Mac) (x : UInt32) :
    ∃ a : Naming, a.mac = mac ∧ a.addr = x ∧ a.requests = true := by
  obtain ⟨c, hyiaddr, hid⟩ : ∃ c : Client, c.yiaddr = x ∧
      c.dhcpServerIdentifier = dhcpServerIpAddress :=
    ⟨((Client.dhcpSetup ⟨mac, 0⟩).setIdentifier dhcpServerIpAddress).setYiaddr x, rfl, rfl⟩
  have hrequest : c.IsRequest ⟨0, read (c.requestPacket inaddrAny mac dhcprequest) 0
      (c.requestSize inaddrAny dhcprequest)⟩ inaddrAny mac dhcprequest := rfl
  have hnames (p : DhcpT) : Names (p.recvfrom (read (c.requestPacket inaddrAny mac dhcprequest) 0
      (c.requestSize inaddrAny dhcprequest))) mac x true := by
    have hreads := hrequest.reads p
    obtain ⟨o, hg, hw⟩ := hreads.identifier (.inl rfl)
    obtain ⟨o', hg', hw'⟩ := hreads.requested rfl
    rw [hid] at hw
    rw [hyiaddr] at hw'
    exact .request hreads.receivedType (optionWord_iff.mpr ⟨_, hg, hw⟩) hreads.chaddr hreads.ciaddr
      (optionWord_iff.mpr ⟨_, hg', hw'⟩)
  exact ⟨⟨_, mac, x, true, hnames⟩, rfl, rfl, rfl⟩

theorem interleavings_agree_two : ∃ (a b : Naming) (trace₁ trace₂ : List Event) (u₁ u₂ : Server),
    a.mac = clientA ∧ b.mac = clientB ∧ Serves 5 dhcpSetup [a, b] trace₁ u₁ ∧
      Serves 5 dhcpSetup [b, a] trace₂ u₂ ∧ u₁.table.toMap = u₂.table.toMap := by
  obtain ⟨a, hma, hxa, -⟩ := exists_naming clientA 0xC0A80002
  obtain ⟨b, hmb, hxb, -⟩ := exists_naming clientB 0xC0A80003
  obtain ⟨hserves, hagree⟩ := interleavings_agree .refl 5
  have hroom : dhcpSetup.table.leases.length + 2 < 2 ^ 31 := by decide
  obtain ⟨trace₁, u₁, h₁⟩ := hserves [a, b] hroom
  obtain ⟨trace₂, u₂, h₂⟩ := hserves [b, a] hroom
  have hne : clientA ≠ clientB := by decide
  refine ⟨a, b, trace₁, trace₂, u₁, u₂, hma, hmb, h₁, h₂,
    (hagree [a, b] [b, a] trace₁ trace₂ u₁ u₂ ?_ ?_ h₁ h₂).2.1⟩
  · intro m
    by_cases hm : clientA = m
    · subst hm
      simp [hma, hmb, hne.symm]
    · simp [hma, hm, List.filter_cons]
  · simp [hma, hmb, hxa, hxb, hne]

end InternetApplications.Dhcp
