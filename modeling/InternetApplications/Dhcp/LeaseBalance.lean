import InternetApplications.Dhcp.CompleteReply
import InternetApplications.Dhcp.ExclusiveGrant
import InternetApplications.Dhcp.Reaction

namespace InternetApplications.Dhcp

open ByteMemory TagScan KeyedList Executions LeaseTable

/-- The step acknowledges an address that is on no lease to a client that names it in option 50. -/
def Event.Records (e : Event) : Prop :=
  (∃ m ∈ e.output, m.messageType = some dhcpack) ∧ e.packet.ciaddr = inaddrAny ∧
    ∃ x ∈ requestedOption e.packet, e.before.table.lookup x = none

def Event.Deletes (e : Event) : Prop :=
  e.Releases e.packet.ciaddr e.packet.chaddr ∧
    ∃ lease ∈ e.before.table.leases, lease.addr = e.packet.ciaddr ∧ lease.chaddr = e.packet.chaddr

instance (e : Event) (x : UInt32) (m : Mac) : Decidable (e.Releases x m) :=
  decidable_of_iff (receivedType e.packet = .ok (some dhcprelease) ∧
      optionWord e.packet optionDhcpServerIdentifier = some dhcpServerIpAddress ∧
      e.packet.ciaddr = x ∧ e.packet.chaddr = m)
    ⟨fun ⟨h₁, h₂, h₃, h₄⟩ ↦ ⟨h₁, h₂, h₃, h₄⟩, fun ⟨h₁, h₂, h₃, h₄⟩ ↦ ⟨h₁, h₂, h₃, h₄⟩⟩

instance (e : Event) : Decidable e.Records :=
  inferInstanceAs (Decidable (_ ∧ _ ∧ _))

instance (e : Event) : Decidable e.Deletes :=
  inferInstanceAs (Decidable (_ ∧ _))

section Steps

variable {e : Event} {type : UInt8} {t : LeaseTable} {m : Sent}

theorem not_records (h : ∀ m ∈ e.output, m.messageType ≠ some dhcpack) : ¬e.Records := by
  rintro ⟨⟨m, hm, hack⟩, -⟩
  exact h m hm hack

theorem not_deletes (h : receivedType e.packet = .ok (some type)) (hne : type ≠ dhcprelease) :
    ¬e.Deletes := by
  rintro ⟨hreleases, -⟩
  cases h.symm.trans hreleases.release
  exact hne rfl

def Event.Balanced (e : Event) (t : LeaseTable) : Prop :=
  t.leases.length + (if e.Deletes then 1 else 0) =
    e.before.table.leases.length + if e.Records then 1 else 0

theorem balanced_of_not (hlen : t.leases.length = e.before.table.leases.length) (hd : ¬e.Deletes)
    (hr : ¬e.Records) : e.Balanced t := by
  rw [Event.Balanced, if_neg hd, if_neg hr, hlen]

theorem allocateIp_length {env : Env} {stale y : UInt32} {mac : Mac} {r : ℤ} {t t' : LeaseTable}
    (h : allocateIp t env stale mac = .ok (r, y, t')) : t'.leases.length = t.leases.length := by
  obtain ⟨_, -, -, -, rfl⟩ | ⟨-, -, -, rfl, -⟩ | ⟨-, -, -, -, rfl⟩ := allocateIp_cases h
  · exact length_touch
  · rfl
  · rfl

theorem balanced_of_add {x : UInt32} {now : ℕ} {mac : Mac} (hout : e.output = some m)
    (hack : m.messageType = some dhcpack) (hd : ¬e.Deletes) (hc : e.packet.ciaddr = inaddrAny)
    (hx : requestedOption e.packet = some x)
    (hadd : addLease e.before.table now x mac = .ok t) : e.Balanced t := by
  have hrecords : e.Records ↔ e.before.table.lookup x = none := by
    rw [Event.Records, hout, hx]
    simp [hack, hc]
  obtain ⟨lease, hlookup, rfl⟩ | ⟨hnone, rfl, -⟩ := addLease_cases hadd
  · refine balanced_of_not (length_touch) hd ?_
    rw [hrecords, hlookup]
    exact nofun
  · rw [Event.Balanced, if_neg hd, if_pos (hrecords.mpr hnone), LeaseTable.append]
    exact List.length_append

theorem Handled.balanced {s s' : Server} {i : Input} {out : Option Sent} (h : Handled s i t out) :
    Event.Balanced ⟨s, i, out, s'⟩ t := by
  have hother {type : UInt8} (htype : receivedType (s.received i) = Except.ok (some type))
      (hne : type ≠ dhcprelease) : ¬Event.Deletes ⟨s, i, out, s'⟩ := not_deletes htype hne
  cases h with
  | silent hignored =>
    refine balanced_of_not rfl ?_ (not_records fun m hm ↦ nomatch hm)
    rintro ⟨hreleases, -⟩
    exact (hignored _ hreleases.release).2.2 (.inr rfl) hreleases.server
  | offerRequested htype _ ha =>
    refine balanced_of_not rfl (hother htype (by decide)) (not_records ?_)
    rintro m ⟨⟩
    rw [ha.messageType]
    decide
  | offerAllocated htype halloc _ ha =>
    refine balanced_of_not (allocateIp_length halloc) (hother htype (by decide)) (not_records ?_)
    rintro m ⟨⟩
    rw [ha.messageType]
    decide
  | offerNone htype halloc _ hempty =>
    refine balanced_of_not (allocateIp_length halloc) (hother htype (by decide)) (not_records ?_)
    rintro m ⟨⟩
    rw [messageType_empty hempty]
    exact nofun
  | nak htype _ ha =>
    refine balanced_of_not rfl (hother htype (by decide)) (not_records ?_)
    rintro m ⟨⟩
    rw [ha.messageType]
    decide
  | ackRenewed htype hc _ halloc | informKnown htype hc halloc =>
    refine balanced_of_not (allocateIp_length halloc) (hother htype (by decide)) ?_
    rintro ⟨-, hzero, -⟩
    exact hc hzero
  | ackSelected htype hc hx _ hadd ha | informSelected htype hc hx hadd ha =>
    exact balanced_of_add rfl ha.messageType (hother htype (by decide)) hc hx hadd
  | released htype hserver hdelete =>
    have hrecords : ¬Event.Records ⟨s, i, none, s'⟩ := not_records fun m hm ↦ nomatch hm
    have hreleases : Event.Releases ⟨s, i, none, s'⟩ (s.received i).ciaddr (s.received i).chaddr :=
      ⟨htype, hserver, rfl, rfl⟩
    obtain ⟨lease, hfound, rfl⟩ | ⟨hnone, rfl⟩ := deleteLease_cases hdelete
    · have hmem := List.mem_of_find?_eq_some hfound
      have hlease : lease.addr = (s.received i).ciaddr ∧ lease.chaddr = (s.received i).chaddr := by
        simpa using List.find?_some hfound
      have hdeletes : Event.Deletes ⟨s, i, none, s'⟩ := ⟨hreleases, lease, hmem, hlease⟩
      have hpos := List.length_pos_of_mem hmem
      have herase := List.length_eraseP_of_mem
        (p := fun lease ↦ lease.addr = (s.received i).ciaddr ∧ lease.chaddr = (s.received i).chaddr)
        hmem (decide_eq_true hlease)
      rw [Event.Balanced, if_pos hdeletes, if_neg hrecords, LeaseTable.erase]
      simp only at herase ⊢
      omega
    · refine balanced_of_not rfl ?_ hrecords
      rintro ⟨-, lease, hl, haddr, hmac⟩
      have hno := List.find?_eq_none.mp hnone lease hl
      exact hno (by simpa using ⟨haddr, hmac⟩)

end Steps

theorem discover_refused {s : Server} {i : Input}
    (htype : receivedType (s.received i) = .ok (some dhcpdiscover))
    (hunknown : s.table.firstOf (s.received i).chaddr = none)
    (hunusable : requestedIp (s.received i) s.table i.env.now = .ok none)
    (hfull : (ipAddressPoolAmount : ℤ) ≤ s.table.numOfLease) :
    ∃ s' m, mainLoop s i = .ok (s', some m) ∧ m.payload = [] := by
  obtain ⟨o, ho, -⟩ := receivedType_ok htype
  obtain ⟨y, t, halloc⟩ := (allocateIp_exhausted_iff hunknown i.env i.env.stale).mpr hfull
  obtain ⟨dest, hdest⟩ : ∃ dest, replyDest (s.received i) s.table i.env.now = .ok dest := by
    rw [replyDest, hunusable]
    split
    · exact ⟨_, rfl⟩
    · exact ⟨_, rfl⟩
  have hreaction : reaction (s.received i) s.table i.env = .ok (t, some ⟨dest, []⟩) := by
    rw [reaction_discover htype ho, onDiscover, hdest, ok_bind, answer, yourIpAddress_offer_eq,
      hunusable, ok_bind, offered, halloc]
    rfl
  obtain ⟨s', hstep, -⟩ := mainLoop_of_reaction hreaction
  exact ⟨s', _, hstep, rfl⟩

/-- The leases on record are those that have been recorded and not deleted, however long ago. So a
client without a lease that asks for no usable address is refused exactly when as many more leases
have been recorded than deleted as the pool has addresses. -/
theorem lease_balance {trace : List Event} {s : Server} (hrun : Execution mainLoop dhcpSetup trace s) :
    s.table.leases.length + trace.countP Event.Deletes = trace.countP Event.Records ∧
    ∀ i : Input, receivedType (s.received i) = .ok (some dhcpdiscover) →
      s.table.firstOf (s.received i).chaddr = none →
      requestedIp (s.received i) s.table i.env.now = .ok none →
      (ipAddressPoolAmount + trace.countP Event.Deletes ≤ trace.countP Event.Records ↔
        ∃ s' m, mainLoop s i = .ok (s', some m) ∧ m.payload = []) := by
  have hbalance : s.table.leases.length + trace.countP Event.Deletes =
      dhcpSetup.table.leases.length + trace.countP Event.Records := by
    apply hrun.balance (n := fun s ↦ s.table.leases.length)
    intro e he
    exact (mainLoop_handled he).balanced
  have hstart : dhcpSetup.table.leases.length = 0 := rfl
  rw [hstart, Nat.zero_add] at hbalance
  refine ⟨hbalance, fun i htype hunknown hunusable ↦ ?_⟩
  have hcounted := (ServerReachable.valid ⟨trace, hrun⟩).counted
  have hfull : ipAddressPoolAmount + trace.countP Event.Deletes ≤ trace.countP Event.Records ↔
      (ipAddressPoolAmount : ℤ) ≤ s.table.numOfLease := by
    omega
  rw [hfull]
  refine ⟨discover_refused htype hunknown hunusable, ?_⟩
  rintro ⟨s', m, hstep, hempty⟩
  have hdiscovered := mainLoop_discovered htype hstep
  generalize s'.table = t at hdiscovered
  cases hdiscovered with
  | requested hreq => cases hreq.symm.trans hunusable
  | allocated _ halloc hr ha =>
    have htype := ha.messageType
    rw [messageType_empty hempty] at htype
    cases htype
  | exhausted _ halloc hr _ =>
    obtain ⟨_, -, rfl, -⟩ | ⟨-, -, -, -, hn⟩ | ⟨-, rfl, -⟩ := allocateIp_cases halloc
    · exact absurd hr (by decide)
    · exact hn
    · exact absurd hr (by decide)

theorem lease_balance_full : ∃ (trace : List Event) (s : Server),
    Execution mainLoop dhcpSetup trace s ∧ s.table = filled ipAddressPoolAmount ∧
      trace.countP Event.Records = ipAddressPoolAmount + trace.countP Event.Deletes := by
  obtain ⟨s, ⟨trace, hrun⟩, ht⟩ := exists_filled le_rfl
  refine ⟨trace, s, hrun, ht, ?_⟩
  have hbalance := (lease_balance hrun).1
  rw [ht, filled, List.length_map, List.length_range] at hbalance
  exact hbalance.symm

end InternetApplications.Dhcp
