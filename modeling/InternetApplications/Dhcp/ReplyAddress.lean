import InternetApplications.Dhcp.Reaction

namespace InternetApplications.Dhcp

open ByteMemory TagScan Executions

/-- The reply goes to everybody, or to an address of the client: that in its request, or the one
that it is given. -/
def Directed (b : DhcpT) (m : Sent) : Prop :=
  m.dest = inaddrBroadcast ∨ m.dest ≠ inaddrAny ∧ (m.dest = b.ciaddr ∨ m.dest = m.packet.yiaddr)

def AsksUnicast (b : DhcpT) (t : LeaseTable) (now : ℕ) : Prop :=
  b.flags = bootpFlagsUnicast ∧ ∃ x, requestedIp b t now = .ok (some x)

/-- A request without a client address that is answered at that address. -/
def Undirected (b : DhcpT) (t : LeaseTable) (now : ℕ) : Prop :=
  b.ciaddr = inaddrAny ∧ (receivedType b = .ok (some dhcpinform) ∨ AsksUnicast b t now)

section Destinations

variable {b : DhcpT} {t t' : LeaseTable} {env : Env} {now o : ℕ} {state : UInt8} {dest : UInt32}
  {m : Sent}

theorem replyDest_ok (h : replyDest b t now = .ok dest) :
    AsksUnicast b t now ∧ dest = b.ciaddr ∨ ¬AsksUnicast b t now ∧ dest = inaddrBroadcast := by
  rw [replyDest] at h
  split at h
  · rename_i hflags
    obtain ⟨r, hr, h⟩ := bind_eq_ok.mp h
    cases r with
    | some x =>
      cases h
      exact .inl ⟨⟨hflags, x, hr⟩, rfl⟩
    | none =>
      cases h
      refine .inr ⟨?_, rfl⟩
      rintro ⟨-, x, hx⟩
      cases hr.symm.trans hx
  · rename_i hflags
    cases h
    exact .inr ⟨fun hasks ↦ hflags hasks.1, rfl⟩

theorem answer_dest (h : answer b t env state dest o = .ok (t', some m)) : m.dest = dest := by
  obtain ⟨p, -, h⟩ := bind_eq_ok.mp h
  cases h
  rfl

theorem onDiscover_dest (h : onDiscover b t env o = .ok (t', some m)) :
    replyDest b t env.now = .ok m.dest := by
  obtain ⟨dest, hdest, h⟩ := bind_eq_ok.mp h
  rw [answer_dest h, hdest]

theorem onRequest_dest (h : onRequest b t env o = .ok (t', some m)) :
    b.ciaddr = inaddrAny ∧ replyDest b t env.now = .ok m.dest ∨
      b.ciaddr ≠ inaddrAny ∧ m.dest = b.ciaddr := by
  obtain ⟨selected, -, h⟩ := bind_eq_ok.mp h
  cases selected with
  | none => cases h
  | some identifier =>
    obtain ⟨dest, hdest, h⟩ := bind_eq_ok.mp h
    obtain ⟨x, -, h⟩ := bind_eq_ok.mp h
    rw [answer_dest h]
    split at hdest
    · rename_i hc
      exact .inl ⟨hc, hdest⟩
    · rename_i hc
      exact .inr ⟨hc, (Except.ok.inj hdest).symm⟩

theorem onRelease_silent (h : onRelease b t = .ok (t', some m)) : False := by
  obtain ⟨selected, -, h⟩ := bind_eq_ok.mp h
  cases selected with
  | none => cases h
  | some identifier =>
    obtain ⟨u, -, h⟩ := bind_eq_ok.mp h
    cases h

theorem reaction_dest (h : reaction b t env = .ok (t', some m)) :
    (receivedType b = .ok (some dhcpinform) ∧ m.dest = b.ciaddr) ∨
    (receivedType b ≠ .ok (some dhcpinform) ∧
      (replyDest b t env.now = .ok m.dest ∨ b.ciaddr ≠ inaddrAny ∧ m.dest = b.ciaddr)) := by
  cases htype : receivedType b with
  | error e =>
    rw [reaction, htype] at h
    cases h
  | ok type =>
    cases type with
    | none =>
      rw [reaction_of_none htype] at h
      cases h
    | some type =>
      obtain ⟨o, ho, -⟩ := receivedType_ok htype
      rw [reaction_of_type htype ho] at h
      split at h
      · rename_i hdiscover
        subst hdiscover
        exact .inr ⟨by decide, .inl (onDiscover_dest h)⟩
      · split at h
        · rename_i hrequest
          subst hrequest
          exact .inr ⟨by decide, (onRequest_dest h).imp And.right id⟩
        · split at h
          · exact (onRelease_silent h).elim
          · split at h
            · rename_i hinform
              subst hinform
              exact .inl ⟨rfl, answer_dest h⟩
            · cases h

end Destinations

section Steps

variable {s s' : Server} {i : Input} {m : Sent}

/-- Every answer is sent to somebody exactly when the request does not make the server use the
client address that it leaves out. -/
theorem replies_directed_iff (h : mainLoop s i = .ok (s', some m)) :
    Directed (s.received i) m ↔ ¬Undirected (s.received i) s.table i.env.now := by
  have heffect : reaction (s.received i) s.table i.env = .ok (s'.table, some m) := by
    rw [← mainLoop_effect, h]
    rfl
  have hclient (hdest : m.dest = (s.received i).ciaddr) :
      Directed (s.received i) m ↔ (s.received i).ciaddr ≠ inaddrAny := by
    constructor
    · intro hdirected hany
      rw [hany] at hdest
      rcases hdirected with hall | ⟨hne, -⟩
      · rw [hdest] at hall
        exact absurd hall (by decide)
      · exact hne hdest
    · intro hne
      exact .inr ⟨hdest ▸ hne, .inl hdest⟩
  rcases reaction_dest heffect with ⟨htype, hdest⟩ | ⟨htype, hdest | ⟨hc, hdest⟩⟩
  · rw [hclient hdest]
    constructor
    · intro hne hun
      exact hne hun.1
    · intro hun hany
      exact hun ⟨hany, .inl htype⟩
  · rcases replyDest_ok hdest with ⟨hasks, hdest⟩ | ⟨hasks, hdest⟩
    · rw [hclient hdest]
      constructor
      · intro hne hun
        exact hne hun.1
      · intro hun hany
        exact hun ⟨hany, .inr hasks⟩
    · refine iff_of_true (.inl hdest) ?_
      rintro ⟨-, htype' | hasks'⟩
      · exact htype htype'
      · exact hasks hasks'
  · refine iff_of_true ((hclient hdest).mpr hc) ?_
    rintro ⟨hany, -⟩
    exact hc hany

theorem replies_directed_renewal : ∃ (s' : Server) (m : Sent),
    mainLoop dhcpSetup ⟨⟨0, [3], 0⟩, selectingRequest clientA 0xC0A80005 0⟩ = .ok (s', some m) ∧
      m.dest = 0xC0A80005 ∧
      Directed (dhcpSetup.received ⟨⟨0, [3], 0⟩, selectingRequest clientA 0xC0A80005 0⟩) m := by
  obtain ⟨⟨s', out⟩, hstep, hout⟩ := exists_ok
    (mainLoop dhcpSetup ⟨⟨0, [3], 0⟩, selectingRequest clientA 0xC0A80005 0⟩)
    (fun r ↦ r.2.any fun m ↦ m.dest = 0xC0A80005) (by decide +kernel)
  obtain ⟨m, rfl, hm⟩ := (Option.any_eq_true _ _).mp hout
  refine ⟨s', m, hstep, of_decide_eq_true hm, (replies_directed_iff hstep).mpr ?_⟩
  intro hun
  exact absurd hun.1 (by decide +kernel)

/-- A `DHCPREQUEST` without the broadcast flag and without a client address, as after an `OFFER`. -/
theorem acknowledged_nowhere : ∃ (s' : Server) (m : Sent), ServerReachable dhcpSetup ∧
    mainLoop dhcpSetup ⟨⟨0, [], 0⟩, selectingRequest clientA 0 0xC0A80002⟩ = .ok (s', some m) ∧
      m.messageType = some dhcpack ∧ m.dest = inaddrAny ∧
      ¬Directed (dhcpSetup.received ⟨⟨0, [], 0⟩, selectingRequest clientA 0 0xC0A80002⟩) m := by
  obtain ⟨⟨s', out⟩, hstep, hout⟩ := exists_ok
    (mainLoop dhcpSetup ⟨⟨0, [], 0⟩, selectingRequest clientA 0 0xC0A80002⟩)
    (fun r ↦ r.2.any fun m ↦ m.messageType = some dhcpack ∧ m.dest = inaddrAny) (by decide +kernel)
  obtain ⟨m, rfl, hm⟩ := (Option.any_eq_true _ _).mp hout
  obtain ⟨hack, hdest⟩ := of_decide_eq_true hm
  refine ⟨s', m, .refl, hstep, hack, hdest, ?_⟩
  rintro (hall | ⟨hne, -⟩)
  · rw [hdest] at hall
    exact absurd hall (by decide)
  · exact hne hdest

end Steps

end InternetApplications.Dhcp
