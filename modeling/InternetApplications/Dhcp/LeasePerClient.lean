import InternetApplications.Dhcp.LeasePool
import InternetApplications.Dhcp.RequestDecision

namespace InternetApplications.Dhcp

open KeyedList Executions LeaseTable

def OnePerClient (t : LeaseTable) : Prop := Distinct LeaseT.chaddr t.leases

instance (t : LeaseTable) : Decidable (OnePerClient t) :=
  inferInstanceAs (Decidable (List.Nodup _))

/-- A client with a lease asks, without a client address, for an address that nobody has: by an
inform, or by a request to this server for a usable address. -/
structure SecondLease (s : Server) (i : Input) : Prop where
  ciaddr : (s.received i).ciaddr = inaddrAny
  known : s.table.firstOf (s.received i).chaddr ≠ none
  free : ∃ x, requestedOption (s.received i) = some x ∧ s.table.lookup x = none
  recorded : receivedType (s.received i) = .ok (some dhcpinform) ∨
    (receivedType (s.received i) = .ok (some dhcprequest) ∧
      optionWord (s.received i) optionDhcpServerIdentifier = some dhcpServerIpAddress ∧
      Acceptable s.table i.env.now (s.received i))

section Tables

variable {t t' : LeaseTable} {env : Env} {now : ℕ} {stale x y : UInt32} {m : Mac} {r : ℤ}

theorem allocateIp_onePerClient (ht : OnePerClient t)
    (h : allocateIp t env stale m = .ok (r, y, t')) : OnePerClient t' := by
  obtain ⟨_, _, _, _, rfl⟩ | ⟨_, _, _, rfl, _⟩ | ⟨_, _, _, _, rfl⟩ := allocateIp_cases h
  · exact Distinct.touch (fun _ ↦ rfl) ht
  · exact ht
  · exact ht

theorem deleteLease_onePerClient (ht : OnePerClient t) (h : deleteLease t x m = .ok t') :
    OnePerClient t' := by
  obtain ⟨_, _, rfl⟩ | ⟨_, rfl⟩ := deleteLease_cases h
  · exact Distinct.eraseP ht
  · exact ht

/-- `add_lease` looks for the address, and not for the client. -/
theorem addLease_onePerClient (ht : OnePerClient t) (h : addLease t now x m = .ok t') :
    OnePerClient t' ↔ (t.lookup x = none → t.firstOf m = none) := by
  obtain ⟨lease, hl, rfl⟩ | ⟨hl, rfl, -⟩ := addLease_cases h
  · constructor
    · intro _ hnone
      cases hl.symm.trans hnone
    · intro _
      exact Distinct.touch (fun _ ↦ rfl) ht
  · constructor
    · intro hone _
      cases hf : t.firstOf m with
      | none => rfl
      | some own =>
        obtain ⟨hmem, hm⟩ := firstOf_some hf
        rw [OnePerClient, Distinct, LeaseTable.append, List.map_append, List.nodup_append] at hone
        exact absurd hm (hone.2.2 _ (List.mem_map_of_mem hmem) _ (by simp))
    · intro hnone
      exact Distinct.append ht (hnone hl)

end Tables

section Steps

variable {s : Server} {i : Input} {t : LeaseTable} {out : Option Sent}

/-- A lease that a request records is a second one when its client has one and nobody has it. -/
theorem recorded_onePerClient {x : UInt32} (hs : OnePerClient s.table)
    (hc : (s.received i).ciaddr = inaddrAny) (hx : requestedOption (s.received i) = some x)
    (hadd : addLease s.table i.env.now x (s.received i).chaddr = .ok t)
    (hrecorded : receivedType (s.received i) = .ok (some dhcpinform) ∨
      (receivedType (s.received i) = .ok (some dhcprequest) ∧
        optionWord (s.received i) optionDhcpServerIdentifier = some dhcpServerIpAddress ∧
        Acceptable s.table i.env.now (s.received i))) :
    OnePerClient t ↔ ¬SecondLease s i := by
  rw [addLease_onePerClient hs hadd]
  constructor
  · intro hnone hsecond
    obtain ⟨y, hy, hfree⟩ := hsecond.free
    cases hx.symm.trans hy
    exact hsecond.known (hnone hfree)
  · intro hno hfree
    by_contra hknown
    exact hno ⟨hc, hknown, ⟨_, hx, hfree⟩, hrecorded⟩

theorem Requested.onePerClient (hs : OnePerClient s.table)
    (htype : receivedType (s.received i) = .ok (some dhcprequest)) (h : Requested s i t out) :
    OnePerClient t ↔ ¬SecondLease s i := by
  cases h with
  | elsewhere hother =>
    refine iff_of_true hs fun hsecond ↦ ?_
    rcases hsecond.recorded with hinform | ⟨-, hself, -⟩
    · cases htype.symm.trans hinform
    · exact hother hself
  | refused _ hp _ =>
    refine iff_of_true hs fun hsecond ↦ ?_
    rcases hsecond.recorded with hinform | ⟨-, -, hacc⟩
    · cases htype.symm.trans hinform
    · exact hp hacc
  | selected hself hp hc hx hadd _ =>
    exact recorded_onePerClient hs hc hx hadd (.inr ⟨htype, hself, hp⟩)
  | renewed _ _ hc halloc _ =>
    exact iff_of_true (allocateIp_onePerClient hs halloc) fun hsecond ↦ hc hsecond.ciaddr

theorem Handled.onePerClient (hs : OnePerClient s.table)
    (hrequest : receivedType (s.received i) ≠ .ok (some dhcprequest)) (h : Handled s i t out) :
    OnePerClient t ↔ ¬SecondLease s i := by
  have hinform {type : UInt8} (htype : receivedType (s.received i) = .ok (some type))
      (hne : type ≠ dhcpinform) : ¬SecondLease s i := by
    intro hsecond
    rcases hsecond.recorded with hinform | ⟨hreq, -⟩
    · cases htype.symm.trans hinform
      exact hne rfl
    · exact hrequest hreq
  cases h with
  | silent hsilent =>
    refine iff_of_true hs fun hsecond ↦ ?_
    rcases hsecond.recorded with hinform | ⟨hreq, -⟩
    · exact (hsilent _ hinform).2.1 rfl
    · exact hrequest hreq
  | offerRequested htype => exact iff_of_true hs (hinform htype (by decide))
  | offerAllocated htype ha | offerNone htype ha =>
    exact iff_of_true (allocateIp_onePerClient hs ha) (hinform htype (by decide))
  | ackSelected htype | ackRenewed htype | nak htype => exact absurd htype hrequest
  | released htype _ hd =>
    exact iff_of_true (deleteLease_onePerClient hs hd) (hinform htype (by decide))
  | informSelected htype hc hx hadd => exact recorded_onePerClient hs hc hx hadd (.inl htype)
  | informKnown _ hc ha =>
    exact iff_of_true (allocateIp_onePerClient hs ha) fun hsecond ↦ hc hsecond.ciaddr

theorem mainLoop_onePerClient {s' : Server} (h : mainLoop s i = .ok (s', out))
    (hs : OnePerClient s.table) : OnePerClient s'.table ↔ ¬SecondLease s i := by
  by_cases htype : receivedType (s.received i) = .ok (some dhcprequest)
  · exact (mainLoop_requested htype h).onePerClient hs htype
  · exact (mainLoop_handled h).onePerClient hs htype

end Steps

theorem onePerClient_setup : OnePerClient dhcpSetup.table := List.nodup_nil

/-- In a run no client ever has two leases exactly when no step gives a client with a lease
another address. -/
theorem lease_per_client_iff {trace : List Event} {u : Server}
    (h : Execution mainLoop dhcpSetup trace u) :
    (∀ e ∈ trace, OnePerClient e.after.table) ↔
      ∀ e ∈ trace, ¬SecondLease e.before e.input :=
  h.invariant_iff (I := fun s ↦ OnePerClient s.table)
    (A := fun e ↦ ¬SecondLease e.before e.input) (fun _ ↦ mainLoop_onePerClient)
    onePerClient_setup

theorem lease_per_client_iff_three : ∃ trace : List Event, trace.length = 3 ∧
    ∀ e ∈ trace, ¬SecondLease e.before e.input := by
  obtain ⟨trace, s, hrun, hs⟩ := exists_execution mainLoop dhcpSetup
    [⟨⟨0, [], 0⟩, selectingRequest clientA 0 0xC0A80002⟩,
      ⟨⟨1, [], 0⟩, selectingRequest clientA 0 0xC0A80002⟩,
      ⟨⟨2, [], 0⟩, selectingRequest clientB 0 0xC0A80003⟩]
    (fun trace _ ↦ trace.length = 3 ∧ ∀ e ∈ trace, OnePerClient e.after.table) (by decide +kernel)
  obtain ⟨hlen, hone⟩ := of_decide_eq_true hs
  exact ⟨trace, hlen, (lease_per_client_iff hrun).mp hone⟩

/-- Two requests of one client give it two addresses. -/
theorem client_with_two_leases : ∃ s : Server, ServerReachable s ∧ ¬OnePerClient s.table := by
  obtain ⟨trace, s, hrun, hs⟩ := exists_execution mainLoop dhcpSetup
    [⟨⟨0, [], 0⟩, selectingRequest clientA 0 0xC0A80002⟩,
      ⟨⟨1, [], 0⟩, selectingRequest clientA 0 0xC0A80003⟩]
    (fun _ s ↦ ¬OnePerClient s.table) (by decide +kernel)
  exact ⟨s, ⟨trace, hrun⟩, of_decide_eq_true hs⟩

end InternetApplications.Dhcp
