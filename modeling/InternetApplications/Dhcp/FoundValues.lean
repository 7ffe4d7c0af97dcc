import InternetApplications.Dhcp.LeasePool
import InternetApplications.Dhcp.Reaction
import InternetApplications.Dhcp.Recorded

namespace InternetApplications.Dhcp

open ByteMemory TagScan KeyedList Executions Tracing Traced LeaseTable

def Present (p : DhcpT) (tag len : UInt8) : Prop :=
  ∃ o, getDhcpOption p tag = .ok (len, some o) ∧ o + len.toNat ≤ dhcpMaxOptionLen

structure Checkable (p : DhcpT) (tag len : UInt8) : Prop where
  inside : ∃ r, getDhcpOption p tag = .ok r
  whole : ∀ value, getDhcpOption p tag = .ok (len, value) → Present p tag len

/-- No lookup runs off the options, and what is read is the value of the option that was looked for,
which has the width that the reader takes. -/
def Found {π : Type} (place : ℕ → π) (p : DhcpT) : OptionUse π → Prop
  | .lookup tag => ∃ r, getDhcpOption p tag = .ok r
  | .read tag width pointer => ∃ o, getDhcpOption p tag = .ok (width, some o) ∧
      o + width.toNat ≤ dhcpMaxOptionLen ∧ pointer = some (place o)

section Lookups

variable {π : Type} {place : ℕ → π} {g : Option ℕ → Option π} {p q : DhcpT} {tag len n : UInt8}
  {value : Option ℕ} {x : UInt32}

theorem found_congr (h : DhcpT.options p = DhcpT.options q) : Found place p = Found place q := by
  funext entry
  cases entry with
  | lookup tag => rw [Found, Found, getDhcpOption_congr h]
  | read tag width pointer => rw [Found, Found, getDhcpOption_congr h]

theorem present_congr (h : DhcpT.options p = DhcpT.options q) :
    Present p tag len ↔ Present q tag len := by
  rw [Present, Present, getDhcpOption_congr h]

theorem checkable_congr (h : DhcpT.options p = DhcpT.options q) :
    Checkable p tag len ↔ Checkable q tag len := by
  have hsame : getDhcpOption p tag = getDhcpOption q tag := getDhcpOption_congr h tag
  constructor
  · rintro ⟨hin, hwhole⟩
    rw [hsame] at hin hwhole
    exact ⟨hin, fun value hg ↦ (present_congr h).mp (hwhole value hg)⟩
  · rintro ⟨hin, hwhole⟩
    rw [← hsame] at hin hwhole
    exact ⟨hin, fun value hg ↦ (present_congr h).mpr (hwhole value hg)⟩

theorem Present.checkable (h : Present p tag len) : Checkable p tag len := by
  obtain ⟨o, hg, -⟩ := id h
  exact ⟨⟨_, hg⟩, fun _ _ ↦ h⟩

theorem Present.optionWord (h : Present p optionRequestedIp 4) (hx : requestedOption p = some x) :
    Dhcp.optionWord p optionRequestedIp = some x := by
  obtain ⟨o, ho, -⟩ := h
  obtain ⟨n, o', hg, hw⟩ := requestedOption_some hx
  cases ho.symm.trans hg
  exact optionWord_iff.mpr ⟨o, hg, hw⟩

/-- However the pointer is kept when the option is missing, it is good only if the option is there. -/
theorem read_found_iff (hg : ∀ o, g (some o) = some (place o))
    (h : getDhcpOption p tag = .ok (n, value)) :
    Found place p (.read tag len (g value)) ↔ Present p tag len := by
  constructor
  · rintro ⟨o, ho, hfits, -⟩
    exact ⟨o, ho, hfits⟩
  · rintro ⟨o, ho, hfits⟩
    cases h.symm.trans ho
    exact ⟨o, ho, hfits, hg o⟩

/-- A reader that checks the length reads what was found. -/
theorem checked_found_iff {α β : Type} {r : Option ℕ → Except Fault α}
    {k : Option ℕ → α → Reading ℕ β} {otherwise : Reading ℕ β}
    (hk : ∀ value a, (k value a).All (Found id p)) (ho : otherwise.All (Found id p)) :
    (findOption p tag >>= fun (n, value) ↦
      if n = len then note (.read tag len value : OptionUse ℕ) (r value) >>= k value
      else otherwise).All (Found id p) ↔ Checkable p tag len := by
  refine all_note_bind.trans ⟨fun h ↦ ⟨h.1, fun value hg ↦ ?_⟩, fun h ↦ ⟨h.inside, ?_⟩⟩
  · have hread := h.2 (len, value) hg
    simp only [if_true] at hread
    exact (read_found_iff (g := id) (fun _ ↦ rfl) hg).mp (all_note_bind.mp hread).1
  · rintro ⟨n, value⟩ hg
    simp only
    split
    · rename_i hn
      subst hn
      refine all_note_bind.mpr ⟨?_, fun a _ ↦ hk value a⟩
      exact (read_found_iff (g := id) (fun _ ↦ rfl) hg).mpr (h.whole value hg)
    · exact ho

/-- A reader that does not check it needs the option. -/
theorem unchecked_found_iff {α β γ : Type} {x : Except Fault (UInt8 × γ)} {w : Option ℕ → γ}
    {r : γ → Except Fault α} {g : γ → Option π} {f : UInt8 × γ → Reading π β}
    {k : γ → α → Reading π β}
    (hx : x = getDhcpOption p tag >>= fun a ↦ .ok (a.1, w a.2))
    (hw : ∀ o, g (w (some o)) = some (place o))
    (hf : ∀ n v, f (n, v) =
      ((note (OptionUse.read tag len (g v)) (r v) : Reading π α) >>= k v)) :
    ((note (.lookup tag : OptionUse π) x : Reading π (UInt8 × γ)) >>= f).All (Found place p) ↔
      Present p tag len ∧ ∀ o, getDhcpOption p tag = .ok (len, some o) →
        ∀ a, r (w (some o)) = .ok a → (k (w (some o)) a).All (Found place p) := by
  refine all_note_bind.trans ⟨?_, ?_⟩
  · rintro ⟨⟨⟨n, value⟩, hg⟩, h⟩
    have hread := h (n, w value) (by rw [hx, hg]; rfl)
    rw [hf] at hread
    obtain ⟨hfound, hrest⟩ := all_note_bind.mp hread
    refine ⟨(read_found_iff (g := fun v ↦ g (w v)) hw hg).mp hfound, fun o ho a ha ↦ ?_⟩
    cases hg.symm.trans ho
    exact hrest a ha
  · rintro ⟨hp, h⟩
    refine ⟨hp.checkable.inside, ?_⟩
    rintro ⟨n, v⟩ hv
    rw [hx] at hv
    obtain ⟨⟨n', value⟩, hg, hv⟩ := bind_eq_ok.mp hv
    cases hv
    rw [hf]
    refine all_note_bind.mpr ⟨(read_found_iff (g := fun v ↦ g (w v)) hw hg).mpr hp,
      fun a ha ↦ ?_⟩
    obtain ⟨o, ho, -⟩ := hp
    cases hg.symm.trans ho
    exact h o ho a ha

/-- A pointer of the server, which the lookup of the option may leave where it is. -/
theorem unchecked_word_iff {β : Type} {g : Option ℕ → Option ℕ}
    {f : UInt8 × Option ℕ → Reading ℕ β} {k : UInt32 → Reading ℕ β}
    (hw : ∀ o, g (some o) = some (id o))
    (hf : ∀ n v, f (n, v) = ((readWord p tag (g v) : Reading ℕ UInt32) >>= k)) :
    ((findOption p tag : Reading ℕ (UInt8 × Option ℕ)) >>= f).All (Found id p) ↔
      Present p tag 4 ∧ ∀ o, getDhcpOption p tag = .ok (4, some o) →
        ∀ a, derefWord p (some o) = .ok a → (k a).All (Found id p) := by
  refine (unchecked_found_iff (w := id) (r := fun v ↦ derefWord p (g v)) (k := fun _ ↦ k)
    (bind_pure _).symm hw hf).trans (and_congr_right fun _ ↦ ?_)
  refine forall₂_congr fun o _ ↦ ?_
  have hsame : g (id (some o)) = some o := hw o
  rw [hsame]

end Lookups

section Handlers

variable {s u : Server} {env : Env} {t : LeaseTable} {b : DhcpT} {state : UInt8} {now o : ℕ}
  {x : UInt32}

theorem receivedType_present (h : receivedType b = .ok (some state)) :
    Present b optionDhcpMessageType 1 := by
  obtain ⟨o, ho, -⟩ := receivedType_ok h
  exact ⟨o, ho, receivedType_inside h ho⟩

theorem receivedType_found (h : receivedType b = .ok (some state)) :
    (receivedType b : Reading ℕ (Option UInt8)).All (Found id b) := by
  rw [receivedType]
  split
  · exact (checked_found_iff (r := derefByte b) (k := fun _ type ↦ pure (some type))
      (fun _ _ ↦ all_pure _) (all_pure none)).mpr (receivedType_present h).checkable
  · exact all_pure _

theorem requestedIp_found_iff : (requestedIp b t now : Reading ℕ (Option UInt32)).All (Found id b) ↔
    Checkable b optionRequestedIp 4 :=
  checked_found_iff (r := derefWord b) (k := fun _ ip ↦
    pure (if 0 < checkIpaddr t now ip b.chaddr then some ip else none))
    (fun _ _ ↦ all_pure _) (all_pure none)

theorem selectedServer_found_iff : (selectedServer b : Reading ℕ (Option ℕ)).All (Found id b) ↔
    Checkable b optionDhcpServerIdentifier 4 :=
  checked_found_iff (r := derefWord b) (k := fun value selected ↦
    pure (if selected = dhcpServerIpAddress then value else none))
    (fun _ _ ↦ all_pure _) (all_pure none)

theorem unicastSetup_found (h : Checkable s.dhcpRecv optionRequestedIp 4) :
    (s.unicastSetup env : Reading ℕ Server).All (Found id s.dhcpRecv) := by
  rw [Server.unicastSetup]
  split
  · refine all_bind.mpr ⟨requestedIp_found_iff.mpr h, fun requested _ ↦ ?_⟩
    cases requested <;> exact all_pure _
  · exact all_pure _

theorem unicastSetup_found_or (env : Env)
    (h : (s.unicastSetup env : Reading ℕ Server).All (Found id s.dhcpRecv)) :
    Checkable s.dhcpRecv optionRequestedIp 4 ∨ s.unicastSetup env = .ok s := by
  rw [Server.unicastSetup] at h
  split at h
  · exact .inl (requestedIp_found_iff.mp (all_bind.mp h).1)
  · rename_i hflags
    exact .inr (if_neg hflags)

/-- An offer checks the length; the address of an acknowledgement is read without a check. -/
theorem yourIpAddress_found_iff :
    (yourIpAddress b t env state : Reading ℕ (Option UInt32 × LeaseTable)).All (Found id b) ↔
      (state = dhcpoffer → Checkable b optionRequestedIp 4) ∧
        (state = dhcpack → b.ciaddr = inaddrAny → Present b optionRequestedIp 4) := by
  rw [yourIpAddress]
  by_cases hnak : state = dhcpnak
  · rw [if_pos hnak]
    subst hnak
    exact iff_of_true (all_pure _) ⟨fun h ↦ absurd h (by decide), fun h ↦ absurd h (by decide)⟩
  rw [if_neg hnak]
  by_cases hoffer : state = dhcpoffer
  · rw [if_pos hoffer]
    subst hoffer
    refine (all_bind.trans (and_iff_left fun requested _ ↦ ?_)).trans
      (requestedIp_found_iff.trans ⟨fun h ↦ ⟨fun _ ↦ h, ?_⟩, fun h ↦ h.1 rfl⟩)
    · cases requested with
      | some ip => exact all_pure _
      | none =>
        refine all_lift_bind.mpr ?_
        rintro ⟨r, offerIp, t'⟩ _
        simp only
        split <;> exact all_pure _
    · exact fun hack ↦ absurd hack (by decide)
  rw [if_neg hoffer]
  by_cases hack : state = dhcpack ∧ b.ciaddr = inaddrAny
  · rw [if_pos hack]
    refine (unchecked_word_iff (g := id) (k := fun ip ↦
      liftM (addLease t env.now ip b.chaddr) >>= fun t' ↦ pure (some ip, t')) (fun _ ↦ rfl)
      (fun _ _ ↦ rfl)).trans ⟨fun h ↦ ⟨fun h' ↦ absurd h' hoffer, fun _ _ ↦ h.1⟩, fun h ↦ ?_⟩
    exact ⟨h.2 hack.1 hack.2, fun o _ ip _ ↦ all_lift_bind.mpr fun t' _ ↦ all_pure _⟩
  · rw [if_neg hack]
    refine iff_of_true (all_lift_bind.mpr fun _ _ ↦ all_pure _) ?_
    exact ⟨fun h ↦ absurd h hoffer, fun hs hc ↦ absurd ⟨hs, hc⟩ hack⟩

theorem fillOptions_found {dhcp : DhcpT} (h : Present b optionDhcpMessageType 1)
    (ho : getDhcpOption b optionDhcpMessageType = .ok (1, some o)) :
    (fillOptions dhcp state (some o) : Reading ℕ (DhcpT × ℕ)).All (Found id b) := by
  rw [fillOptions]
  split
  · refine all_note_bind.mpr ⟨(read_found_iff (g := id) (fun _ ↦ rfl) ho).mpr h, fun type _ ↦ ?_⟩
    split <;> exact all_pure _
  · exact all_pure _

theorem constructDhcpPacket_found_iff (ho : Present s.dhcpRecv optionDhcpMessageType 1) :
    (constructDhcpPacket s env state : Reading ℕ (Server × ℕ)).All (Found id s.dhcpRecv) ↔
      (state = dhcpoffer → Checkable s.dhcpRecv optionRequestedIp 4) ∧
        (state = dhcpack → s.dhcpRecv.ciaddr = inaddrAny →
          Present s.dhcpRecv optionRequestedIp 4) := by
  have hopt : DhcpT.options (write s.dhcpRecv 0 [bootpMessageTypeReply]) = s.dhcpRecv.options :=
    DhcpT.options_write (by decide)
  have hciaddr : DhcpT.ciaddr (write s.dhcpRecv 0 [bootpMessageTypeReply]) = s.dhcpRecv.ciaddr :=
    DhcpT.loadWord_write (by simp)
  have haddress : (yourIpAddress (write s.dhcpRecv 0 [bootpMessageTypeReply]) s.table env state :
      Reading ℕ (Option UInt32 × LeaseTable)).All (Found id _) ↔ _ := yourIpAddress_found_iff
  rw [found_congr hopt, checkable_congr hopt, present_congr hopt, hciaddr] at haddress
  refine all_bind.trans ((and_iff_left ?_).trans haddress)
  rintro ⟨yiaddr, t⟩ -
  cases yiaddr with
  | none => exact all_pure _
  | some y =>
    have hheader := replyHeader_lookup s.dhcpRecv y optionDhcpMessageType
    obtain ⟨o, hg, -⟩ := id ho
    refine all_note_bind.mpr ⟨⟨_, hg⟩, ?_⟩
    rintro ⟨len, msgType⟩ hg'
    cases hg.symm.trans (hheader.symm.trans hg')
    exact all_bind.mpr ⟨fillOptions_found ho hg, fun _ _ ↦ all_pure _⟩

theorem dhcpHandleDiscover_found_iff (ho : Present s.dhcpRecv optionDhcpMessageType 1) :
    (s.dhcpHandleDiscover env : Reading ℕ (Server × Option Sent)).All (Found id s.dhcpRecv) ↔
      Checkable s.dhcpRecv optionRequestedIp 4 := by
  refine all_bind.trans ⟨fun h ↦ ?_, fun h ↦ ⟨unicastSetup_found h, fun u hu ↦ ?_⟩⟩
  · rcases unicastSetup_found_or env h.1 with hchecked | hsame
    · exact hchecked
    · have hbuild := (all_bind.mp (h.2 _ ((unicastSetup_result _ env).trans hsame))).1
      exact ((constructDhcpPacket_found_iff
        (s := s.changeSocketSetup inaddrAny inaddrBroadcast) ho).mp hbuild).1 rfl
  · rw [unicastSetup_result] at hu
    have hrecv : u.dhcpRecv = s.dhcpRecv := (unicastSetup_ok hu).1
    rw [← hrecv] at ho h ⊢
    refine all_bind.mpr ⟨(constructDhcpPacket_found_iff ho).mpr ?_, fun _ _ ↦ all_pure _⟩
    exact ⟨fun _ ↦ h, fun h' ↦ absurd h' (by decide)⟩

theorem dhcpHandleInform_found_iff (ho : Present s.dhcpRecv optionDhcpMessageType 1) :
    (s.dhcpHandleInform env : Reading ℕ (Server × Option Sent)).All (Found id s.dhcpRecv) ↔
      (s.dhcpRecv.ciaddr = inaddrAny → Present s.dhcpRecv optionRequestedIp 4) := by
  refine all_bind.trans ((and_iff_left fun _ _ ↦ all_pure _).trans
    ((constructDhcpPacket_found_iff
      (s := s.changeSocketSetup dhcpServerIpAddress s.dhcpRecv.ciaddr) ho).trans ?_))
  exact ⟨fun h ↦ h.2 rfl, fun h ↦ ⟨fun h' ↦ absurd h' (by decide), fun _ ↦ h⟩⟩

theorem dhcpHandleRelease_found_iff :
    (s.dhcpHandleRelease : Reading ℕ (Server × Option Sent)).All (Found id s.dhcpRecv) ↔
      Checkable s.dhcpRecv optionDhcpServerIdentifier 4 := by
  refine all_bind.trans ((and_iff_left fun selected _ ↦ ?_).trans selectedServer_found_iff)
  cases selected with
  | none => exact all_pure _
  | some identifier => exact all_lift_bind.mpr fun _ _ ↦ all_pure _

theorem answerRequest_found (ho : Present s.dhcpRecv optionDhcpMessageType 1)
    (h : s.dhcpRecv.ciaddr = inaddrAny → Present s.dhcpRecv optionRequestedIp 4) :
    (s.answerRequest env x : Reading ℕ (Server × Option Sent)).All (Found id s.dhcpRecv) := by
  refine all_bind.mpr ⟨(constructDhcpPacket_found_iff ho).mpr ⟨?_, fun _ ↦ h⟩, fun _ _ ↦ all_pure _⟩
  intro hoffer
  split at hoffer <;> cases hoffer

/-- With an option 50 of another length, the answer stays a broadcast. -/
theorem unicastSetup_unchecked (h : Checkable s.dhcpRecv optionRequestedIp 4)
    (hno : ¬Present s.dhcpRecv optionRequestedIp 4) : s.unicastSetup env = .ok s := by
  obtain ⟨⟨n, value⟩, hg⟩ := h.inside
  have hn : n ≠ 4 := by
    rintro rfl
    exact hno (h.whole value hg)
  rw [Server.unicastSetup]
  split
  · rw [requestedIp_of_ne hg hn]
    rfl
  · rfl

/-- A request without a client address is judged by whatever the pointer leads to. -/
theorem dhcpHandleRequest_found_iff (ho : Present s.dhcpRecv optionDhcpMessageType 1) :
    (s.dhcpHandleRequest env : Reading ℕ (Server × Option Sent)).All (Found id s.dhcpRecv) ↔
      Checkable s.dhcpRecv optionDhcpServerIdentifier 4 ∧ (s.dhcpRecv.ciaddr = inaddrAny →
        optionWord s.dhcpRecv optionDhcpServerIdentifier = some dhcpServerIpAddress →
          Present s.dhcpRecv optionRequestedIp 4) := by
  refine all_bind.trans (and_congr selectedServer_found_iff ?_)
  rw [selectedServer_result]
  constructor
  · intro h hc hself
    by_contra hno
    obtain ⟨identifier, hsel⟩ := selectedServer_self hself
    have hrest := h _ hsel
    simp only [if_pos hc] at hrest
    obtain ⟨hsetup, hjudge⟩ := all_bind.mp hrest
    have hsame : (s.changeSocketSetup inaddrAny inaddrBroadcast).unicastSetup env =
        .ok (s.changeSocketSetup inaddrAny inaddrBroadcast) := by
      rcases unicastSetup_found_or env hsetup with hchecked | hsame
      · exact unicastSetup_unchecked hchecked hno
      · exact hsame
    have hread := hjudge _ ((unicastSetup_result _ env).trans hsame)
    exact hno ((unchecked_word_iff (g := fun v ↦ some (v.getD identifier)) (fun _ ↦ rfl)
      (fun _ _ ↦ rfl)).mp hread).1
  · intro h selected hsel
    cases selected with
    | none => exact all_pure _
    | some identifier =>
      simp only
      split
      · rename_i hc
        have hp := h hc (selectedServer_ok hsel).1
        refine all_bind.mpr ⟨unicastSetup_found
          (s := s.changeSocketSetup inaddrAny inaddrBroadcast) hp.checkable, fun u hu ↦ ?_⟩
        rw [unicastSetup_result] at hu
        have hrecv : u.dhcpRecv = s.dhcpRecv := (unicastSetup_ok hu).1
        rw [← hrecv] at hp ho ⊢
        refine (unchecked_word_iff (g := fun v ↦ some (v.getD identifier)) (fun _ ↦ rfl)
          (fun _ _ ↦ rfl)).mpr ⟨hp, fun o _ ip _ ↦ answerRequest_found ho fun _ ↦ hp⟩
      · rename_i hc
        exact answerRequest_found (s := s.changeSocketSetup dhcpServerIpAddress _) ho
          fun hc' ↦ absurd hc' hc

end Handlers

def OptionsReadable (b : DhcpT) (type : UInt8) : Prop :=
  if type = dhcpdiscover then Checkable b optionRequestedIp 4
  else if type = dhcprequest then Checkable b optionDhcpServerIdentifier 4 ∧
    (b.ciaddr = inaddrAny → optionWord b optionDhcpServerIdentifier = some dhcpServerIpAddress →
      Present b optionRequestedIp 4)
  else if type = dhcprelease then Checkable b optionDhcpServerIdentifier 4
  else if type = dhcpinform then b.ciaddr = inaddrAny → Present b optionRequestedIp 4
  else True

/-- Besides, an inform asks for an address, or `allocate_ip` does not come back with one. -/
structure Server.OptionsComplete (s : Server) (i : Input) (type : UInt8) : Prop where
  readable : OptionsReadable (s.received i) type
  asks : type = dhcpinform → Present (s.received i) optionRequestedIp 4 ∨
    ∀ a, allocateIp s.table i.env i.env.stale (s.received i).chaddr ≠ .ok a

def Obtains (b : DhcpT) : Prop :=
  receivedType b = .ok (some dhcprequest) ∧ b.ciaddr = inaddrAny ∨
    receivedType b = .ok (some dhcpinform)

/-- Without an option 50 nothing is acknowledged or leased; without a client address it is the
address of the option 50. -/
structure GrantsRequested (s : Server) (i : Input) (t : LeaseTable) (out : Option Sent) : Prop where
  acknowledged : ∀ m, out = some m → m.messageType = some dhcpack →
    Present (s.received i) optionRequestedIp 4 ∧ ((s.received i).ciaddr = inaddrAny →
      optionWord (s.received i) optionRequestedIp = some m.packet.yiaddr)
  leased : ∀ lease ∈ t.leases, lease ∉ s.table.leases →
    Present (s.received i) optionRequestedIp 4 ∧ ((s.received i).ciaddr = inaddrAny →
      optionWord (s.received i) optionRequestedIp = some lease.addr)

/-- The server uses no option value that it has not found, and grants none. -/
structure Server.UsesFound (s : Server) (i : Input) : Prop where
  uses : ∀ type, receivedType (s.received i) = .ok (some type) →
    (mainLoop s i : Reading ℕ (Server × Option Sent)).All (Found id (s.received i))
  grants : Obtains (s.received i) → ∀ (s' : Server) (out : Option Sent),
    mainLoop s i = .ok (s', out) → GrantsRequested s i s'.table out

section Passes

variable {s s' : Server} {i : Input} {t : LeaseTable} {type : UInt8} {out : Option Sent}

theorem mainLoop_found_iff (h : receivedType (s.received i) = .ok (some type)) :
    (mainLoop s i : Reading ℕ (Server × Option Sent)).All (Found id (s.received i)) ↔
      OptionsReadable (s.received i) type := by
  have ho : Present (s.ready i).dhcpRecv optionDhcpMessageType 1 := receivedType_present h
  refine (all_bind_of_ok ((receivedType_result _).trans h)).trans
    ((and_iff_right (receivedType_found h)).trans ?_)
  rw [OptionsReadable]
  simp only
  split
  · exact dhcpHandleDiscover_found_iff ho
  split
  · exact dhcpHandleRequest_found_iff ho
  split
  · exact dhcpHandleRelease_found_iff (s := s.ready i)
  split
  · exact dhcpHandleInform_found_iff ho
  · exact iff_of_true (all_pure _) trivial

theorem addLease_new {t t' : LeaseTable} {now : ℕ} {x : UInt32} {m : Mac} {lease : LeaseT}
    (h : addLease t now x m = .ok t') (hl : lease ∈ t'.leases) (hnew : lease ∉ t.leases) :
    lease.addr = x := by
  obtain ⟨held, hfound, rfl⟩ | ⟨-, rfl, -⟩ := addLease_cases h
  · obtain hold | ⟨c, hc, rfl⟩ := mem_touch hl
    · exact absurd hold hnew
    · have hx : c.addr = x := by simpa using List.find?_some hc
      exact hx
  · rcases List.mem_append.mp hl with hold | hl
    · exact absurd hold hnew
    · rw [List.mem_singleton.mp hl]

theorem grantsRequested_of_kept (h : ∀ m, out = some m → m.messageType ≠ some dhcpack) :
    GrantsRequested s i s.table out :=
  ⟨fun m hm hack ↦ absurd hack (h m hm), fun _ hl hnew ↦ absurd hl hnew⟩

theorem grantsRequested_of_added {x : UInt32} {m : Sent}
    (hp : Present (s.received i) optionRequestedIp 4) (hx : requestedOption (s.received i) = some x)
    (hadd : addLease s.table i.env.now x (s.received i).chaddr = .ok t)
    (ha : Answers (s.received i) m dhcpack x) : GrantsRequested s i t (some m) := by
  have hword := hp.optionWord hx
  constructor
  · rintro m' ⟨⟩ _
    exact ⟨hp, fun _ ↦ by rw [hword, ha.yiaddr]⟩
  · intro lease hl hnew
    exact ⟨hp, fun _ ↦ by rw [hword, addLease_new hadd hl hnew]⟩

theorem grantsRequested_of_request (hstep : mainLoop s i = .ok (s', out))
    (htype : receivedType (s.received i) = .ok (some dhcprequest))
    (hc : (s.received i).ciaddr = inaddrAny) (h : OptionsReadable (s.received i) dhcprequest) :
    GrantsRequested s i s'.table out := by
  have hrequested := mainLoop_requested htype hstep
  generalize s'.table = t at hrequested ⊢
  cases hrequested with
  | elsewhere hself => exact grantsRequested_of_kept (by rintro m ⟨⟩)
  | refused hself hp ha =>
    refine grantsRequested_of_kept ?_
    rintro m ⟨⟩
    rw [ha.messageType]
    decide
  | selected hself hp _ hx hadd ha => exact grantsRequested_of_added (h.2 hc hself) hx hadd ha
  | renewed _ _ hne => exact absurd hc hne

/-- An inform with a client address is acknowledged with what `allocate_ip` has found. -/
theorem Handled.of_addressed_inform (h : Handled s i t out)
    (htype : receivedType (s.received i) = .ok (some dhcpinform))
    (hc : (s.received i).ciaddr ≠ inaddrAny) :
    ∃ r y m, allocateIp s.table i.env i.env.stale (s.received i).chaddr = .ok (r, y, t) ∧
      out = some m ∧ Answers (s.received i) m dhcpack y := by
  cases h with
  | silent h => exact absurd rfl (h _ htype).2.1
  | offerRequested h | offerAllocated h | offerNone h | ackSelected h | ackRenewed h | nak h
  | released h => exact absurd (htype.symm.trans h) (by decide)
  | informSelected _ hc' => exact absurd hc' hc
  | informKnown _ _ halloc ha => exact ⟨_, _, _, halloc, rfl, ha⟩

theorem grantsRequested_of_inform (hstep : mainLoop s i = .ok (s', out))
    (htype : receivedType (s.received i) = .ok (some dhcpinform))
    (h : s.OptionsComplete i dhcpinform) : GrantsRequested s i s'.table out := by
  by_cases hc : (s.received i).ciaddr = inaddrAny
  · obtain ⟨x, m, hx, hadd, rfl, ha⟩ := (mainLoop_handled hstep).of_inform htype hc
    exact grantsRequested_of_added (h.readable hc) hx hadd ha
  · have hp : Present (s.received i) optionRequestedIp 4 := by
      refine (h.asks rfl).resolve_right fun hnone ↦ ?_
      obtain ⟨r, y, m, halloc, -⟩ := (mainLoop_handled hstep).of_addressed_inform htype hc
      exact hnone _ halloc
    exact ⟨fun _ _ _ ↦ ⟨hp, fun h ↦ absurd h hc⟩, fun _ _ _ ↦ ⟨hp, fun h ↦ absurd h hc⟩⟩

/-- With a client address, the inform is acknowledged once an address has been allocated. -/
theorem inform_acknowledged {a : ℤ × UInt32 × LeaseTable}
    (htype : receivedType (s.received i) = .ok (some dhcpinform))
    (hc : (s.received i).ciaddr ≠ inaddrAny)
    (halloc : allocateIp s.table i.env i.env.stale (s.received i).chaddr = .ok a) :
    ∃ s' m, mainLoop s i = .ok (s', some m) ∧ m.messageType = some dhcpack := by
  obtain ⟨o, ho, -⟩ := receivedType_ok htype
  have hreaction : reaction (s.received i) s.table i.env = _ := reaction_inform htype ho
  rw [onInform, answer, yourIpAddress_known_eq _ _ hc, halloc] at hreaction
  obtain ⟨s', hstep, -⟩ := mainLoop_of_reaction hreaction
  obtain ⟨r, y, m, -, hm, ha⟩ := (mainLoop_handled hstep).of_addressed_inform htype hc
  exact ⟨s', _, hstep, Option.some.inj hm ▸ ha.messageType⟩

theorem Server.usesFound_iff (s : Server) (i : Input) : s.UsesFound i ↔
    ∀ type, receivedType (s.received i) = .ok (some type) → s.OptionsComplete i type := by
  constructor
  · intro h type htype
    have hreadable := (mainLoop_found_iff htype).mp (h.uses type htype)
    refine ⟨hreadable, ?_⟩
    rintro rfl
    by_cases hc : (s.received i).ciaddr = inaddrAny
    · exact .inl (hreadable hc)
    · by_contra hno
      obtain ⟨hp, hnone⟩ := not_or.mp hno
      refine hnone fun a halloc ↦ hp ?_
      obtain ⟨s', m, hstep, hack⟩ := inform_acknowledged htype hc halloc
      exact ((h.grants (.inr htype) s' _ hstep).acknowledged m rfl hack).1
  · intro h
    refine ⟨fun type htype ↦ (mainLoop_found_iff htype).mpr (h type htype).readable, ?_⟩
    rintro (⟨hrequest, hc⟩ | hinform) s' out hstep
    · exact grantsRequested_of_request hstep hrequest hc (h _ hrequest).readable
    · exact grantsRequested_of_inform hstep hinform (h _ hinform)

end Passes

abbrev FoundIn (p : DhcpT) : OptionUse (DhcpT × ℕ) → Prop := Found (fun o ↦ (p, o)) p

/-- `setup_interface` looks for the router once it has set the netmask. -/
def SetupReadable (host : Host) (p : DhcpT) : Prop :=
  host.setAddr → Checkable p optionSubnetMask 4 ∧
    (Present p optionSubnetMask 4 → host.setNetmask → Checkable p optionRouter 4)

/-- `set_alarm` looks for the other two times once it has the lease time. -/
def AlarmReadable (p : DhcpT) : Prop :=
  Checkable p optionIpAddressLeaseTime 4 ∧ (Present p optionIpAddressLeaseTime 4 →
    Checkable p optionIpT1RenewalTime 4 ∧ Checkable p optionIpT2RebindTime 4)

def SettleReadable (host : Host) (p : DhcpT) : Command → Prop
  | .discover => SetupReadable host p ∧ AlarmReadable p
  | .renew | .rebind => AlarmReadable p
  | .release | .inform => True

structure AckComplete (host : Host) (p : DhcpT) (call : Command) : Prop where
  messageType : Present p optionDhcpMessageType 1
  accepted : ∀ type, optionByte p optionDhcpMessageType = some type → type ≠ dhcpnak →
    Present p optionDhcpServerIdentifier 4 ∧ SettleReadable host p call

section Replies

variable {c c' : Client} {host : Host} {p : DhcpT} {tag : UInt8} {value : OptionValue} {w : UInt32}

theorem Present.word (h : Present p tag 4) :
    ∃ o w, getDhcpOption p tag = .ok (4, some o) ∧ derefWord p (some o) = .ok w := by
  obtain ⟨o, hg, hfits⟩ := h
  exact ⟨o, _, hg, if_pos hfits⟩

theorem Present.wordOption (h : Present p tag 4) : ∃ w, wordOption p tag = .ok (some w) := by
  obtain ⟨o, w, hg, hw⟩ := h.word
  refine ⟨w, ?_⟩
  rw [Dhcp.wordOption, lookupOption_of_ok hg, ok_bind]
  simp only [ne_eq, not_true_eq_false, if_false]
  rw [readPointedWord_eq, Option.map_some, Option.some_or, pointedWord, hw]
  rfl

theorem Checkable.wordOption (h : Checkable p tag 4) : ∃ r, wordOption p tag = .ok r := by
  obtain ⟨⟨n, v⟩, hg⟩ := h.inside
  by_cases hn : n = 4
  · subst hn
    obtain ⟨w, hw⟩ := (h.whole v hg).wordOption
    exact ⟨_, hw⟩
  · refine ⟨none, ?_⟩
    rw [Dhcp.wordOption, lookupOption_of_ok hg, ok_bind]
    exact if_pos hn

theorem wordOption_found_iff :
    (wordOption p tag : Reading (DhcpT × ℕ) (Option UInt32)).All (FoundIn p) ↔
      Checkable p tag 4 := by
  refine all_note_bind.trans ⟨fun h ↦ ⟨h.1, fun v hg ↦ ?_⟩, fun h ↦ ⟨h.inside, ?_⟩⟩
  · have hread := h.2 (4, (v.map fun o ↦ (p, o)).or none) (by rw [hg]; rfl)
    simp only [ne_eq, not_true_eq_false, if_false] at hread
    exact (read_found_iff (g := fun v ↦ (v.map fun o ↦ (p, o)).or none) (fun _ ↦ rfl) hg).mp
      (all_note_bind.mp hread).1
  · rintro ⟨n, v⟩ hv
    obtain ⟨⟨n', v'⟩, hg, hv⟩ := bind_eq_ok.mp hv
    cases hv
    simp only
    split
    · exact all_pure _
    · rename_i hn
      obtain rfl : n = 4 := not_not.mp hn
      refine all_note_bind.mpr ⟨?_, fun _ _ ↦ all_pure _⟩
      exact (read_found_iff (g := fun v ↦ (v.map fun o ↦ (p, o)).or none) (fun _ ↦ rfl) hg).mpr
        (h.whole v' hg)

/-- The value that comes back was there. -/
theorem present_of_wordOption (h : Checkable p tag 4) (hw : wordOption p tag = .ok (some w)) :
    Present p tag 4 := by
  obtain ⟨⟨n, v⟩, hg⟩ := h.inside
  by_cases hn : n = 4
  · subst hn
    exact h.whole v hg
  · rw [Dhcp.wordOption, lookupOption_of_ok hg, ok_bind] at hw
    simp only [ne_eq, hn, not_false_eq_true, if_true] at hw
    cases hw

theorem setupRequests_found_iff :
    (setupRequests host p : Reading (DhcpT × ℕ) (List Request)).All (FoundIn p) ↔
      SetupReadable host p := by
  rw [setupRequests, SetupReadable]
  cases hset : host.setAddr with
  | false => exact iff_of_true (all_pure _) fun h ↦ by cases h
  | true =>
    refine (all_bind.trans ?_).trans (imp_iff_right rfl).symm
    rw [wordOption_result]
    refine (and_congr_left' wordOption_found_iff).trans (and_congr_right fun hmask ↦ ?_)
    constructor
    · intro h hp hn
      obtain ⟨netmask, hw⟩ := hp.wordOption
      have hrest := h _ hw
      simp only [hn, Bool.not_true, Bool.false_eq_true, if_false] at hrest
      exact wordOption_found_iff.mp (all_bind.mp hrest).1
    · intro h netmask hw
      cases netmask with
      | none => exact all_pure _
      | some netmask =>
        simp only
        split
        · exact all_pure _
        · rename_i hn
          have hrouter := h (present_of_wordOption hmask hw) (by simpa using hn)
          refine all_bind.mpr ⟨wordOption_found_iff.mpr hrouter, fun gateway _ ↦ ?_⟩
          cases gateway with
          | none => exact all_pure _
          | some gateway =>
            simp only
            split <;> exact all_pure _

theorem SetupReadable.returns (h : SetupReadable host p) :
    ∃ requests, setupRequests host p = .ok requests := by
  rw [setupRequests]
  cases hset : host.setAddr with
  | false => exact ⟨_, rfl⟩
  | true =>
    obtain ⟨hmask, hrouter⟩ := h hset
    obtain ⟨netmask, hw⟩ := hmask.wordOption
    simp only [Bool.not_true, Bool.false_eq_true, if_false, hw, ok_bind]
    cases netmask with
    | none => exact ⟨_, rfl⟩
    | some netmask =>
      cases hn : host.setNetmask with
      | false => exact ⟨_, rfl⟩
      | true =>
        obtain ⟨gateway, hw'⟩ := (hrouter (present_of_wordOption hmask hw) hn).wordOption
        simp only [Bool.not_true, Bool.false_eq_true, if_false, hw', ok_bind]
        cases gateway with
        | none => exact ⟨_, rfl⟩
        | some gateway =>
          simp only
          split
          · exact ⟨_, rfl⟩
          · exact ⟨_, rfl⟩

theorem setAlarm_found_iff :
    (c.setAlarm host p : Reading (DhcpT × ℕ) Client).All (FoundIn p) ↔ AlarmReadable p := by
  refine all_bind.trans ?_
  rw [wordOption_result]
  refine (and_congr_left' wordOption_found_iff).trans (and_congr_right fun hlease ↦ ?_)
  constructor
  · intro h hp
    obtain ⟨leaseTime, hw⟩ := hp.wordOption
    obtain ⟨ht1, hrest⟩ := all_bind.mp (h _ hw)
    have ht1' := wordOption_found_iff.mp ht1
    obtain ⟨t1, hw'⟩ := ht1'.wordOption
    have ht2 := (all_bind.mp (hrest t1 ((wordOption_result _ _).trans hw'))).1
    exact ⟨ht1', wordOption_found_iff.mp ht2⟩
  · intro h leaseTime hw
    cases leaseTime with
    | none => exact all_pure _
    | some leaseTime =>
      obtain ⟨ht1, ht2⟩ := h (present_of_wordOption hlease hw)
      refine all_bind.mpr ⟨wordOption_found_iff.mpr ht1, fun t1 _ ↦ ?_⟩
      exact all_bind.mpr ⟨wordOption_found_iff.mpr ht2, fun t2 _ ↦ all_pure _⟩

theorem setupInterface_found_iff :
    (c.setupInterface host p : Reading (DhcpT × ℕ) Client).All (FoundIn p) ↔ SetupReadable host p :=
  (all_bind.trans (and_iff_left fun _ _ ↦ all_pure _)).trans setupRequests_found_iff

theorem settle_refused_found (call : Command) :
    (c.settle host 1 p call : Reading (DhcpT × ℕ) Progress).All (FoundIn p) := by
  cases call with
  | release | inform | discover | renew | rebind => exact all_pure _

theorem settle_found_iff (call : Command) :
    (c.settle host 0 p call : Reading (DhcpT × ℕ) Progress).All (FoundIn p) ↔
      SettleReadable host p call := by
  have hextends : (c.settle host 0 p .renew : Reading (DhcpT × ℕ) Progress).All (FoundIn p) ↔
      AlarmReadable p := by
    rw [Client.settle, if_neg (by decide)]
    exact (all_bind.trans (and_iff_left fun _ _ ↦ all_pure _)).trans setAlarm_found_iff
  cases call with
  | release | inform => exact iff_of_true (all_pure _) trivial
  | renew | rebind => exact hextends
  | discover =>
    rw [Client.settle, if_neg (by decide)]
    refine all_bind.trans ((and_congr_left' setupInterface_found_iff).trans
      (and_congr_right fun hsetup ↦ ?_))
    obtain ⟨requests, hrequests⟩ := hsetup.returns
    constructor
    · intro h
      have halarm := h (requests.foldl Client.carryOut c)
        ((setupInterface_result c host p).trans (by rw [Client.setupInterface, hrequests]; rfl))
      exact setAlarm_found_iff.mp (all_bind.mp halarm).1
    · exact fun h c' _ ↦ all_bind.mpr ⟨setAlarm_found_iff.mpr h, fun _ _ ↦ all_pure _⟩

theorem unchecked_lookup_iff {α β : Type} {len : UInt8} {r : OptionValue → Except Fault α}
    {f : UInt8 × OptionValue → Reading (DhcpT × ℕ) β} {k : OptionValue → α → Reading (DhcpT × ℕ) β}
    (hf : ∀ n v, f (n, v) =
      ((note (OptionUse.read tag len v) (r v) : Reading (DhcpT × ℕ) α) >>= k v)) :
    ((lookupOption value p tag : Reading (DhcpT × ℕ) (UInt8 × OptionValue)) >>= f).All (FoundIn p) ↔
      Present p tag len ∧ ∀ o, getDhcpOption p tag = .ok (len, some o) →
        ∀ a, r (some (p, o)) = .ok a → (k (some (p, o)) a).All (FoundIn p) :=
  unchecked_found_iff (w := fun o ↦ (o.map fun o ↦ (p, o)).or value) (g := id) rfl
    (fun _ ↦ rfl) hf

theorem takeOffer_found_iff :
    (c.takeOffer p : Reading (DhcpT × ℕ) (Client × OptionValue)).All (FoundIn p) ↔
      Present p optionDhcpServerIdentifier 4 :=
  Iff.trans (unchecked_lookup_iff (r := pointedWord)
    (k := fun v identifier ↦ pure ((c.setIdentifier identifier).setYiaddr p.yiaddr, v))
    fun _ _ ↦ rfl) (and_iff_left fun _ _ _ _ ↦ all_pure _)

theorem takeAck_found_iff :
    (c.takeAck p value : Reading (DhcpT × ℕ) (ℤ × Client)).All (FoundIn p) ↔
      Present p optionDhcpMessageType 1 ∧
        ∀ type, optionByte p optionDhcpMessageType = some type → type ≠ dhcpnak →
          Present p optionDhcpServerIdentifier 4 := by
  have hidentifier (v : OptionValue) : ((lookupOption v p optionDhcpServerIdentifier :
      Reading (DhcpT × ℕ) (UInt8 × OptionValue)) >>= fun a ↦
        readPointedWord optionDhcpServerIdentifier a.2 >>= fun identifier ↦
          pure ((0 : ℤ), c.setIdentifier identifier)).All (FoundIn p) ↔
      Present p optionDhcpServerIdentifier 4 :=
    Iff.trans (unchecked_lookup_iff (r := pointedWord)
      (k := fun _ identifier ↦ pure ((0 : ℤ), c.setIdentifier identifier)) fun _ _ ↦ rfl)
      (and_iff_left fun _ _ _ _ ↦ all_pure _)
  refine Iff.trans (unchecked_lookup_iff (r := pointedByte)
    (k := fun v type ↦ if type = dhcpnak then pure ((1 : ℤ), c) else
      lookupOption v p optionDhcpServerIdentifier >>= fun a ↦
        readPointedWord optionDhcpServerIdentifier a.2 >>= fun identifier ↦
          pure (0, c.setIdentifier identifier)) fun _ _ ↦ rfl) (and_congr_right fun _ ↦ ?_)
  constructor
  · intro h type htype hne
    obtain ⟨o, hg, hx⟩ := optionByte_iff.mp htype
    have hrest := h o hg type hx
    rw [if_neg hne] at hrest
    exact (hidentifier _).mp hrest
  · intro h o hg type hx
    split
    · exact all_pure _
    · rename_i hne
      exact (hidentifier _).mpr (h type (optionByte_iff.mpr ⟨o, hg, hx⟩) hne)

theorem takeAck_returns (c : Client) (value : OptionValue) (h : Present p optionDhcpMessageType 1)
    (hid : ∀ type, optionByte p optionDhcpMessageType = some type → type ≠ dhcpnak →
      Present p optionDhcpServerIdentifier 4) :
    optionByte p optionDhcpMessageType = some dhcpnak ∧ c.takeAck p value = .ok (1, c) ∨
      ∃ type c', optionByte p optionDhcpMessageType = some type ∧ type ≠ dhcpnak ∧
        c.takeAck p value = .ok (0, c') := by
  obtain ⟨o, hg, hfits⟩ := h
  have hx : derefByte p (some o) = .ok (p.options o) := if_pos hfits
  have htype : optionByte p optionDhcpMessageType = some (p.options o) :=
    optionByte_iff.mpr ⟨o, hg, hx⟩
  have htake : c.takeAck p value = if p.options o = dhcpnak then .ok (1, c) else
      lookupOption (some (p, o)) p optionDhcpServerIdentifier >>= fun a ↦
        readPointedWord optionDhcpServerIdentifier a.2 >>= fun identifier ↦
          .ok (0, c.setIdentifier identifier) := by
    rw [Client.takeAck, lookupOption_of_ok hg, ok_bind]
    simp only [Option.map_some, Option.some_or]
    rw [readPointedByte_eq, pointedByte, hx]
    rfl
  by_cases hnak : p.options o = dhcpnak
  · rw [if_pos hnak] at htake
    exact .inl ⟨hnak ▸ htype, htake⟩
  · rw [if_neg hnak] at htake
    obtain ⟨o', w, hg', hw⟩ := (hid _ htype hnak).word
    refine .inr ⟨_, c.setIdentifier w, htype, hnak, ?_⟩
    rw [htake, lookupOption_of_ok hg', ok_bind, Option.map_some, Option.some_or,
      readPointedWord_eq, pointedWord, hw]
    rfl

end Replies

def Phase.receives (d : Delivery) : Phase → Option DhcpT
  | .awaitOffer dhcpOffer _ => some (dhcpOffer.recvfrom d.datagram)
  | .awaitAck _ dhcpAck _ => some (dhcpAck.recvfrom d.datagram)
  | .menu | .rediscover => none

/-- The client uses no option value that it has not found in the packet just received. -/
def Client.UsesFound (c : Client) (d : Delivery) (phase : Phase) : Prop :=
  ∀ p, phase.receives d = some p → c.Takes p →
    (c.resume d phase : Reading (DhcpT × ℕ) Progress).All (FoundIn p)

/-- A reply to the client carries the options that the client reads without a check, and those that
it checks can be looked for. -/
def Client.RepliesComplete (c : Client) (d : Delivery) : Phase → Prop
  | .awaitOffer dhcpOffer _ => c.Takes (dhcpOffer.recvfrom d.datagram) →
    Present (dhcpOffer.recvfrom d.datagram) optionDhcpServerIdentifier 4
  | .awaitAck call dhcpAck _ => c.Takes (dhcpAck.recvfrom d.datagram) →
    AckComplete d.host (dhcpAck.recvfrom d.datagram) call
  | .menu | .rediscover => True

theorem resume_found_iff {c : Client} {d : Delivery} {call : Command} {p : DhcpT}
    {value : OptionValue} :
    ((c.takeAck p value : Reading (DhcpT × ℕ) (ℤ × Client)) >>= fun (state, c') ↦
      c'.settle d.host state p call).All (FoundIn p) ↔ AckComplete d.host p call := by
  refine all_bind.trans ?_
  rw [takeAck_result]
  constructor
  · rintro ⟨htake, hsettle⟩
    obtain ⟨htype, hid⟩ := takeAck_found_iff.mp htake
    refine ⟨htype, fun type htype' hne ↦ ⟨hid type htype' hne, ?_⟩⟩
    obtain ⟨hnak, -⟩ | ⟨type', c', -, -, hreturns⟩ :=
      takeAck_returns c value htype hid
    · exact absurd (Option.some.inj (htype'.symm.trans hnak)) hne
    · exact (settle_found_iff call).mp (hsettle _ hreturns)
  · intro h
    have hid := fun type htype hne ↦ (h.accepted type htype hne).1
    refine ⟨takeAck_found_iff.mpr ⟨h.messageType, hid⟩, ?_⟩
    rintro ⟨state, c'⟩ hstate
    obtain ⟨-, hreturns⟩ | ⟨type, c₁, htype, hne, hreturns⟩ :=
      takeAck_returns c value h.messageType hid
    · cases hreturns.symm.trans hstate
      exact settle_refused_found call
    · cases hreturns.symm.trans hstate
      exact (settle_found_iff call).mpr (h.accepted type htype hne).2

theorem Client.usesFound_iff (c : Client) (d : Delivery) (phase : Phase) :
    c.UsesFound d phase ↔ c.RepliesComplete d phase := by
  cases phase with
  | menu | rediscover => exact iff_of_true (by rintro p ⟨⟩) trivial
  | awaitOffer dhcpOffer dhcpAck =>
    have hone : c.UsesFound d (.awaitOffer dhcpOffer dhcpAck) ↔
        (c.Takes (dhcpOffer.recvfrom d.datagram) →
          (c.resume d (.awaitOffer dhcpOffer dhcpAck) : Reading (DhcpT × ℕ) Progress).All
            (FoundIn (dhcpOffer.recvfrom d.datagram))) :=
      ⟨fun h ↦ h _ rfl, fun h p hp ↦ Option.some.inj hp ▸ h⟩
    refine hone.trans (imp_congr_right fun htakes ↦ ?_)
    rw [resume]
    simp only [htakes, if_true]
    refine (all_bind.trans (and_iff_left fun _ _ ↦ ?_)).trans takeOffer_found_iff
    exact all_lift_bind.mpr fun _ _ ↦ all_pure _
  | awaitAck call dhcpAck value =>
    have hone : c.UsesFound d (.awaitAck call dhcpAck value) ↔
        (c.Takes (dhcpAck.recvfrom d.datagram) →
          (c.resume d (.awaitAck call dhcpAck value) : Reading (DhcpT × ℕ) Progress).All
            (FoundIn (dhcpAck.recvfrom d.datagram))) :=
      ⟨fun h ↦ h _ rfl, fun h p hp ↦ Option.some.inj hp ▸ h⟩
    refine hone.trans (imp_congr_right fun htakes ↦ ?_)
    rw [resume]
    simp only [htakes, if_true]
    exact resume_found_iff

/-- The server uses only option values that it has found exactly when the options it looks for can be
read and a request for an address carries it, and a client exactly when the reply has a message
type of one byte and a server identifier of four, and the other options can be read. -/
theorem option_values_found_iff (s : Server) (i : Input) (c : Client) (d : Delivery) (phase : Phase) :
    (s.UsesFound i ↔ ∀ type, receivedType (s.received i) = .ok (some type) →
      s.OptionsComplete i type) ∧
    (c.UsesFound d phase ↔ c.RepliesComplete d phase) :=
  ⟨s.usesFound_iff i, c.usesFound_iff d phase⟩

def informingShort (mac : Mac) : List UInt8 :=
  bootpRequest mac inaddrAny [⟨optionDhcpMessageType, [dhcpinform]⟩,
    ⟨optionRequestedIp, [10, 0]⟩, endField]

/-- Such an inform obtains a lease on two bytes of its option 50 and the two after it. -/
theorem short_request_leased : ∃ (s' : Server) (m : Sent),
    mainLoop dhcpSetup ⟨⟨0, [], 0⟩, informingShort clientA⟩ = .ok (s', some m) ∧
      optionWord (dhcpSetup.received ⟨⟨0, [], 0⟩, informingShort clientA⟩) optionRequestedIp = none ∧
      m.messageType = some dhcpack ∧ m.packet.yiaddr = 0x0A00FF01 ∧
      s'.table.leases = [⟨0, 0x0A00FF01, clientA⟩] ∧
      ¬dhcpSetup.UsesFound ⟨⟨0, [], 0⟩, informingShort clientA⟩ := by
  obtain ⟨⟨s', out⟩, hstep, hout⟩ := exists_ok
    (mainLoop dhcpSetup ⟨⟨0, [], 0⟩, informingShort clientA⟩)
    (fun r ↦ r.1.table.leases = [⟨0, 0x0A00FF01, clientA⟩] ∧
      r.2.any fun m ↦ m.messageType = some dhcpack ∧ m.packet.yiaddr = 0x0A00FF01)
    (by decide +kernel)
  obtain ⟨htable, hout⟩ := of_decide_eq_true hout
  obtain ⟨m, rfl, hm⟩ := (Option.any_eq_true _ _).mp hout
  obtain ⟨htype, hy⟩ := of_decide_eq_true hm
  have hnone : optionWord (dhcpSetup.received ⟨⟨0, [], 0⟩, informingShort clientA⟩)
      optionRequestedIp = none := by decide +kernel
  have hinform : receivedType (dhcpSetup.received ⟨⟨0, [], 0⟩, informingShort clientA⟩) =
      .ok (some dhcpinform) := by decide +kernel
  refine ⟨s', m, hstep, hnone, htype, hy, htable, fun hfound ↦ ?_⟩
  have hgranted := ((hfound.grants (.inr hinform) s' _ hstep).acknowledged m rfl htype).2
    (by decide +kernel)
  rw [hnone] at hgranted
  cases hgranted

end InternetApplications.Dhcp
