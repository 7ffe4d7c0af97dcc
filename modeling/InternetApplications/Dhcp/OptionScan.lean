import InternetApplications.Dhcp.ServerRuns

namespace InternetApplications.Dhcp

open ByteMemory TagScan Executions

/-- The walk of `get_dhcp_option` ends, and everything it looks at lies inside `options`. -/
structure ScansInside (p : DhcpT) (tag : UInt8) : Prop where
  ends : ∃ q, Visits p.options tag 0 q ∧ (p.options q = tag ∨ p.options q = 0)
  stays : Stays p.options dhcpMaxOptionLen tag 0

def ReportsInside (p : DhcpT) (tag : UInt8) : Prop :=
  ∃ len value, getDhcpOption p tag = .ok (len, value) ∧
    ∀ o, value = some o → o + len.toNat ≤ dhcpMaxOptionLen

variable {p : DhcpT} {tag len : UInt8} {o : ℕ}

theorem ScansInside.reports (h : ScansInside p tag) : ReportsInside p tag := by
  rcases h.stays.search with ⟨q, hs, hq, htag, hz⟩ | hs
  · have hlength := h.stays.lengths q hq hz
    have hvalue := h.stays.values q hq htag hz
    refine ⟨p.options (q + 1), some (q + 2), ?_, ?_⟩
    · rw [getDhcpOption, hs]
      simp only
      rw [if_pos hlength]
    · intro o ho
      rw [← Option.some.inj ho]
      exact hvalue
  · refine ⟨0, none, ?_, ?_⟩
    · rw [getDhcpOption, hs]
    · intro o ho
      cases ho

theorem ReportsInside.scans (h : ReportsInside p tag) : ScansInside p tag := by
  obtain ⟨len, value, hg, hvalue⟩ := h
  have hstays : Stays p.options dhcpMaxOptionLen tag 0 := by
    rw [getDhcpOption] at hg
    apply stays_of_search
    · intro hs
      rw [hs] at hg
      cases hg
    · intro q hs
      rw [hs] at hg
      simp only at hg
      split at hg
      · cases hg
        exact hvalue (q + 2) rfl
      · cases hg
  exact ⟨hstays.ends, hstays⟩

theorem Closed.scansInside (h : Closed p.options dhcpMaxOptionLen tag 0) : ScansInside p tag :=
  ⟨h.stays.ends, h.stays⟩

/-- The scan stays inside the options exactly when they begin with whole options of other types,
and then have a zero byte or a whole option of the wanted type. -/
theorem option_scan_inside_iff (p : DhcpT) (tag : UInt8) :
    (ScansInside p tag ∧ ReportsInside p tag) ↔ Closed p.options dhcpMaxOptionLen tag 0 := by
  constructor
  · intro h
    exact h.1.stays.closed
  · intro h
    have hinside := Closed.scansInside h
    exact ⟨hinside, hinside.reports⟩

/-- A full datagram of bytes 255 behind the opcode: the first five fields have 255 bytes each, and
the walk goes on behind the options. -/
theorem option_scan_escapes : ∃ datagram : List UInt8, datagram.length = sizeofDhcpT ∧
    (DhcpT.zero.recvfrom datagram).opcode = bootpMessageTypeRequest ∧
    ¬(ScansInside (DhcpT.zero.recvfrom datagram) optionDhcpMessageType ∧
      ReportsInside (DhcpT.zero.recvfrom datagram) optionDhcpMessageType) := by
  refine ⟨bootpMessageTypeRequest :: List.replicate 1471 255, by decide +kernel, rfl, ?_⟩
  rintro ⟨-, len, value, hg, -⟩
  have hescape : getDhcpOption
      (DhcpT.zero.recvfrom (bootpMessageTypeRequest :: List.replicate 1471 255))
      optionDhcpMessageType = .error .outOfBounds := by decide +kernel
  rw [hescape] at hg
  cases hg

end InternetApplications.Dhcp
