import InternetApplications.Dhcp.Reaction
import InternetApplications.Dhcp.Traffic

namespace InternetApplications.Dhcp

open ByteMemory TagScan KeyedList Executions Client LeaseTable

/-- The table of a server with one client: at most one lease, for the address last offered. -/
def Records (t : LeaseTable) (mac : Mac) (y : UInt32) (stamp : Option ℕ) : Prop :=
  t.leases = (stamp.map fun now ↦ (⟨now, y, mac⟩ : LeaseT)).toList

section Walks

variable {t t' : LeaseTable} {mac : Mac} {x y : UInt32} {stamp : Option ℕ} {env : Env} {now : ℕ}

namespace Records

theorem firstOf (h : Records t mac y stamp) :
    t.firstOf mac = stamp.map fun now ↦ (⟨now, y, mac⟩ : LeaseT) := by
  rw [LeaseTable.firstOf, h]
  cases stamp with
  | none => rfl
  | some s => simp

theorem lookup (h : Records t mac y stamp) :
    t.lookup y = stamp.map fun now ↦ (⟨now, y, mac⟩ : LeaseT) := by
  rw [← find?_addr, h]
  cases stamp with
  | none => rfl
  | some s => simp

theorem allocateIp {stale y' : UInt32} {r : ℤ} (h : Records t mac y stamp) (ht : t.Valid)
    (ha : allocateIp t env stale mac = .ok (r, y', t')) :
    Records t' mac y (stamp.map fun _ ↦ env.now) ∧ (stamp = none ∨ y' = y) ∧ r = 0 := by
  have hfirst := h.firstOf
  obtain ⟨lease, hlease, hr, rfl, rfl⟩ | ⟨hnone, -, -, rfl, hfull⟩ | ⟨hnone, hr, -, -, rfl⟩ :=
    allocateIp_cases ha
  · rw [hlease] at hfirst
    cases stamp with
    | none => cases hfirst
    | some s =>
      cases hfirst
      refine ⟨?_, .inr rfl, hr⟩
      rw [Records, stampMac, h]
      simp [touch, LeaseT.stamped]
  · rw [hnone] at hfirst
    cases stamp with
    | none =>
      have hlen : t'.leases.length = 0 := by
        rw [h]
        rfl
      rw [ht.counted, hlen] at hfull
      exact absurd hfull (by decide)
    | some s => cases hfirst
  · rw [hnone] at hfirst
    cases stamp with
    | none => exact ⟨h, .inl rfl, hr⟩
    | some s => cases hfirst

theorem addLease (h : Records t mac y stamp) (ha : addLease t now y mac = .ok t') :
    Records t' mac y (some now) := by
  have hlookup := h.lookup
  obtain ⟨lease, hlease, rfl⟩ | ⟨hnone, rfl, -⟩ := addLease_cases ha
  · rw [hlease] at hlookup
    cases stamp with
    | none => cases hlookup
    | some s =>
      rw [Records, stampAddr, h]
      simp [touch, LeaseT.stamped]
  · rw [hnone] at hlookup
    cases stamp with
    | none =>
      rw [Records, append, h]
      rfl
    | some s => cases hlookup

theorem deleteLease (h : Records t mac y stamp) (hd : deleteLease t x mac = .ok t') :
    Records t' mac y stamp ∨ Records t' mac y none := by
  obtain ⟨lease, hlease, rfl⟩ | ⟨-, rfl⟩ := deleteLease_cases hd
  · rw [h] at hlease
    cases stamp with
    | none => cases hlease
    | some s =>
      refine .inr ?_
      have hfound := List.find?_some hlease
      have hmem := List.mem_of_find?_eq_some hlease
      rw [Option.map_some, Option.toList_some, List.mem_singleton] at hmem
      rw [hmem] at hfound
      rw [Records, erase, h]
      simp only [Option.map_some, Option.toList_some]
      rw [List.eraseP_cons_of_pos (by exact hfound)]
      rfl
  · exact .inl h

theorem of_none (h : Records t mac x none) : Records t mac y none := h

end Records

end Walks

/-- What the server does with a packet of its only client, which has last been offered `y`. -/
structure Served (now : ℕ) (y ciaddr : UInt32) (type : UInt8) (stamp stamp' : Option ℕ)
    (out : Option Sent) : Prop where
  kept : type ≠ dhcprelease → stamp.isSome → stamp'.isSome
  stamped : ∀ t, stamp' = some t → t = now ∨ stamp = some t
  acked : ∀ m, out = some m → m.IsAck → ∀ t, stamp' = some t → t = now
  answered : ∀ m, out = some m → m.payload ≠ []
  offered : type = dhcpdiscover → ∀ m, out = some m → stamp' = none ∨ m.packet.yiaddr = y
  granted : type = dhcprequest → ciaddr = inaddrAny → ∀ m, out = some m → m.IsAck →
    stamp' = some now ∧ m.packet.yiaddr = y ∧ InPool y
  renewed : type = dhcprequest ∨ type = dhcpinform → ciaddr = y → InPool y → stamp.isSome →
    out.isSome → stamp' = some now

section Serving

variable {s s' : Server} {env : Env} {m r : Sent} {mac : Mac} {x y ciaddr : UInt32} {type : UInt8}
  {stamp : Option ℕ} {out : Option Sent} {i : Input}

theorem mainLoop_offer (htype : receivedType (s.received i) = .ok (some dhcpdiscover))
    (hm : mainLoop s i = .ok (s', out)) : ∃ r yiaddr, out = some r ∧
      yourIpAddress (s.received i) s.table i.env dhcpoffer = .ok (yiaddr, s'.table) ∧
      (yiaddr = none ∧ r.payload = [] ∨
        ∃ y leased, yiaddr = some y ∧ IsReply (s.received i) r dhcpoffer y leased) := by
  obtain ⟨o, ho, -⟩ := receivedType_ok htype
  have heffect : onDiscover (s.received i) s.table i.env o = .ok (s'.table, out) := by
    rw [← reaction_discover htype ho, ← mainLoop_effect, hm]
    rfl
  obtain ⟨dest, -, hanswer⟩ := bind_eq_ok.mp heffect
  obtain ⟨⟨yiaddr, t⟩, hy, hanswer⟩ := bind_eq_ok.mp hanswer
  cases hanswer
  cases yiaddr with
  | none => exact ⟨_, none, rfl, hy, .inl ⟨rfl, rfl⟩⟩
  | some y => exact ⟨_, some y, rfl, hy, .inr ⟨y, _, rfl, rfl⟩⟩

theorem InPool.ne_any (h : InPool y) : y ≠ inaddrAny := by
  rintro rfl
  exact absurd h (by decide)

theorem requestedIp_of_deref {b : DhcpT} {t : LeaseTable} {now o : ℕ} {y' : UInt32}
    (hg : getDhcpOption b optionRequestedIp = .ok (4, some o)) (hx : derefWord b (some o) = .ok y)
    (h : requestedIp b t now = .ok (some y')) : y' = y := by
  rw [requestedIp_eq, checkedWord_of_word hg hx] at h
  have hvalue := Except.ok.inj h
  split at hvalue
  · exact (Option.some.inj hvalue).symm
  · cases hvalue

/-- The server offers the address asked for, the one on record or, with nothing on record, any. -/
theorem Requesting.offered (h : Requesting m mac x y inaddrAny dhcpdiscover) (hvalid : s.table.Valid)
    (ht : Records s.table mac y stamp) (hm : mainLoop s ⟨env, m.payload⟩ = .ok (s', out)) :
    ∃ stamp', Records s'.table mac y stamp' ∧
      Served env.now y inaddrAny dhcpdiscover stamp stamp' out := by
  obtain ⟨c, hx, hy, hreads⟩ := h.reads s.dhcpRecv
  have hmac : (s.received ⟨env, m.payload⟩).chaddr = mac := hreads.chaddr
  obtain ⟨o, hg, hword⟩ := hreads.requested rfl
  have htype : receivedType (s.received ⟨env, m.payload⟩) = .ok (some dhcpdiscover) :=
    hreads.receivedType
  obtain ⟨r, yiaddr, rfl, hchoice, hreply⟩ := mainLoop_offer htype hm
  have hoffer {y' : UInt32} (hsame : yiaddr = some y') :
      r.payload ≠ [] ∧ ¬r.IsAck ∧ r.packet.yiaddr = y' := by
    rcases hreply with ⟨hnone, -⟩ | ⟨y'', leased, hsome, hreply⟩
    · rw [hnone] at hsame
      cases hsame
    · rw [hsome] at hsame
      cases hsame
      refine ⟨hreply.payload_ne, fun hack ↦ ?_, (hreply.reads DhcpT.zero).yiaddr⟩
      rw [Sent.IsAck, hreply.messageType] at hack
      cases hack
  have hserved {y' : UInt32} {stamp' : Option ℕ} (hsame : yiaddr = some y')
      (hkept : stamp.isSome → stamp'.isSome)
      (hstamped : ∀ t, stamp' = some t → t = env.now ∨ stamp = some t)
      (hy' : stamp' = none ∨ y' = y) :
      Served env.now y inaddrAny dhcpdiscover stamp stamp' (some r) := by
    obtain ⟨hne, hno, hyiaddr⟩ := hoffer hsame
    refine ⟨fun _ ↦ hkept, hstamped, ?_, ?_, ?_, fun h ↦ absurd h (by decide), ?_⟩
    · intro m hsome hack
      cases hsome
      exact absurd hack hno
    · intro m hsome
      cases hsome
      exact hne
    · intro _ m hsome
      cases hsome
      rw [hyiaddr]
      exact hy'
    · rintro (h | h)
      · exact absurd h (by decide)
      · exact absurd h (by decide)
  rcases yourIpAddress_offer hchoice with ⟨y', hy', htable, hrequested⟩ |
      ⟨-, r', y', halloc, hres⟩
  · have hsame := requestedIp_of_deref hg hword hrequested
    exact ⟨stamp, htable ▸ ht, hserved hy' id (fun t hs ↦ .inr hs) (.inr (hsame.trans hy))⟩
  · have halloc' : allocateIp s.table env env.stale mac = .ok (r', y', s'.table) := hmac ▸ halloc
    obtain ⟨hrecords, hsame, hzero⟩ := ht.allocateIp hvalid halloc'
    rcases hres with ⟨hneg, -⟩ | ⟨-, hy'⟩
    · rw [hzero] at hneg
      exact absurd hneg (by decide)
    · refine ⟨_, hrecords, hserved hy' ?_ ?_ (hsame.imp (fun hs ↦ by rw [hs]; rfl) id)⟩
      · intro hs
        rwa [Option.isSome_map]
      · intro t hs
        obtain ⟨_, -, rfl⟩ := Option.map_eq_some_iff.mp hs
        exact .inl rfl

/-- The request of a client for the address that it has been offered is not refused. -/
theorem Requesting.not_nak (h : Requesting m mac x y y dhcprequest) (hpool : InPool y)
    (ht : Records s.table mac y stamp) (hm : mainLoop s ⟨env, m.payload⟩ = .ok (s', some r)) :
    r.messageType ≠ some dhcpnak := by
  obtain ⟨c, -, -, hreads⟩ := h.reads s.dhcpRecv
  have htype : receivedType (s.received ⟨env, m.payload⟩) = .ok (some dhcprequest) :=
    hreads.receivedType
  have hmac : (s.received ⟨env, m.payload⟩).chaddr = mac := hreads.chaddr
  have hciaddr : (s.received ⟨env, m.payload⟩).ciaddr = y := hreads.ciaddr
  have hne : (s.received ⟨env, m.payload⟩).ciaddr ≠ inaddrAny := by
    rw [hciaddr]
    exact hpool.ne_any
  have hcheck : 0 < checkIpaddr s.table env.now y mac := by
    refine checkIpaddr_pos.mpr ⟨hpool, fun lease hl _ ↦ ?_⟩
    rw [ht.lookup] at hl
    obtain ⟨_, -, rfl⟩ := Option.map_eq_some_iff.mp hl
    rfl
  obtain ⟨o, ho, -⟩ := receivedType_ok htype
  have heffect : onRequest (s.received ⟨env, m.payload⟩) s.table env o = .ok (s'.table, some r) := by
    rw [← reaction_request htype ho]
    exact (mainLoop_effect s ⟨env, m.payload⟩).symm.trans (congrArg effect hm)
  obtain ⟨selected, -, heffect⟩ := bind_eq_ok.mp heffect
  cases selected with
  | none =>
    have hnone := congrArg Prod.snd (Except.ok.inj heffect)
    cases hnone
  | some identifier =>
    obtain ⟨dest, -, heffect⟩ := bind_eq_ok.mp heffect
    rw [judgedAddress, if_neg hne, ok_bind, hciaddr, verdict, hmac, if_pos hcheck] at heffect
    obtain ⟨⟨yiaddr, t⟩, -, heffect⟩ := bind_eq_ok.mp heffect
    cases heffect
    cases yiaddr with
    | none =>
      rw [messageType_empty rfl]
      exact fun h ↦ by cases h
    | some y' =>
      have hreply : IsReply (s.received ⟨env, m.payload⟩)
        ⟨dest, replyBytes (s.received ⟨env, m.payload⟩) dhcpack o (some y')⟩ dhcpack y' _ := rfl
      rw [hreply.messageType]
      decide

/-- With a reply that is no acknowledgement, a table that stays as it is keeps every promise. -/
theorem Served.same (hd : type ≠ dhcpdiscover) (hno : ∀ m, out = some m → ¬m.IsAck)
    (hne : ∀ m, out = some m → m.payload ≠ [])
    (hrenewed : type = dhcprequest ∨ type = dhcpinform → ciaddr = y → InPool y → out = none) :
    Served env.now y ciaddr type stamp stamp out := by
  refine ⟨fun _ hs ↦ hs, fun t hs ↦ .inr hs, ?_, hne, fun h ↦ absurd h hd, ?_, ?_⟩
  · exact fun m hm hack ↦ absurd hack (hno m hm)
  · exact fun _ _ m hm hack ↦ absurd hack (hno m hm)
  · intro ht hc hp _ hout
    rw [hrenewed ht hc hp] at hout
    cases hout

theorem Served.added (hd : type ≠ dhcpdiscover) (hne : ∀ m, out = some m → m.payload ≠ [])
    (hgranted : type = dhcprequest → ciaddr = inaddrAny → ∀ m, out = some m → m.IsAck →
      m.packet.yiaddr = y ∧ InPool y) :
    Served env.now y ciaddr type stamp (some env.now) out := by
  refine ⟨fun _ _ ↦ rfl, ?_, ?_, hne, fun h ↦ absurd h hd, ?_, fun _ _ _ _ _ ↦ rfl⟩
  · exact fun t hs ↦ .inl (Option.some.inj hs).symm
  · exact fun _ _ _ t hs ↦ (Option.some.inj hs).symm
  · exact fun hr hc m hm hack ↦ ⟨rfl, hgranted hr hc m hm hack⟩

theorem Served.allocated (hd : type ≠ dhcpdiscover) (hc : ciaddr ≠ inaddrAny)
    (hne : ∀ m, out = some m → m.payload ≠ []) :
    Served env.now y ciaddr type stamp (stamp.map fun _ ↦ env.now) out := by
  have hstamp {t : ℕ} (hs : (stamp.map fun _ ↦ env.now) = some t) : t = env.now := by
    obtain ⟨_, -, rfl⟩ := Option.map_eq_some_iff.mp hs
    rfl
  refine ⟨?_, fun t hs ↦ .inl (hstamp hs), fun _ _ _ t hs ↦ hstamp hs, hne, fun h ↦ absurd h hd,
    fun _ h ↦ absurd h hc, ?_⟩
  · intro _ hs
    rwa [Option.isSome_map]
  · intro _ _ _ hs _
    obtain ⟨t, rfl⟩ := Option.isSome_iff_exists.mp hs
    rfl

theorem Requesting.served (h : Requesting m mac x y ciaddr type)
    (hd : type = dhcpdiscover → ciaddr = inaddrAny) (hvalid : s.table.Valid)
    (ht : Records s.table mac y stamp) (hm : mainLoop s ⟨env, m.payload⟩ = .ok (s', out)) :
    ∃ stamp', Records s'.table mac y stamp' ∧ Served env.now y ciaddr type stamp stamp' out := by
  by_cases hdiscover : type = dhcpdiscover
  · rw [hd hdiscover, hdiscover] at h ⊢
    exact h.offered hvalid ht hm
  obtain ⟨c, hx, hy, hreads⟩ := h.reads s.dhcpRecv
  have htype : receivedType (s.received ⟨env, m.payload⟩) = .ok (some type) := hreads.receivedType
  have hmac : (s.received ⟨env, m.payload⟩).chaddr = mac := hreads.chaddr
  have hciaddr : (s.received ⟨env, m.payload⟩).ciaddr = ciaddr := hreads.ciaddr
  have hrequested {x' : UInt32} (hc : (s.received ⟨env, m.payload⟩).ciaddr = inaddrAny)
      (hx' : requestedOption (s.received ⟨env, m.payload⟩) = some x') : x' = y := by
    rw [hciaddr] at hc
    have hoption : requestedOption (s.received ⟨env, m.payload⟩) = some c.yiaddr :=
      hreads.requestedOption hc
    rw [hoption] at hx'
    exact (Option.some.inj hx').symm.trans hy
  have hkind {type' : UInt8}
      (h' : receivedType (s.received ⟨env, m.payload⟩) = .ok (some type')) : type = type' := by
    rw [htype] at h'
    cases h'
    rfl
  have hne {r : Sent} {state : UInt8} {y' : UInt32}
      (ha : Answers (s.received ⟨env, m.payload⟩) r state y') (m : Sent) (hm : some r = some m) :
      m.payload ≠ [] := by
    cases hm
    exact ha.payload_ne
  have hhandled := mainLoop_handled hm
  generalize s'.table = t at hhandled
  cases hhandled with
  | silent => exact ⟨stamp, ht, .same hdiscover (fun m hm ↦ by cases hm) (fun m hm ↦ by cases hm)
      fun _ _ _ ↦ rfl⟩
  | offerRequested ht' | offerAllocated ht' | offerNone ht' => exact absurd (hkind ht') hdiscover
  | @ackSelected x' r t _ hc hx' hp hadd ha =>
    rw [hrequested hc hx'] at hp hadd ha
    refine ⟨some env.now, ht.addLease (hmac ▸ hadd), .added hdiscover (hne ha) ?_⟩
    intro _ _ m hm _
    cases hm
    exact ⟨ha.yiaddr, (checkIpaddr_pos.mp hp).1⟩
  | ackRenewed _ hc _ halloc ha =>
    exact ⟨_, (ht.allocateIp hvalid (hmac ▸ halloc)).1, .allocated hdiscover (hciaddr ▸ hc) (hne ha)⟩
  | nak hr _ ha =>
    refine ⟨stamp, ht, .same hdiscover (fun m hm hack ↦ ?_) (hne ha) fun _ hc hp ↦ ?_⟩
    · cases hm
      rw [Sent.IsAck, ha.messageType] at hack
      cases hack
    · rw [hkind hr, hc] at h
      exact absurd ha.messageType (h.not_nak hp ht hm)
  | released hr _ hdelete =>
    rcases ht.deleteLease (hmac ▸ hdelete) with hkept | hgone
    · exact ⟨stamp, hkept, .same hdiscover (fun m hm ↦ by cases hm) (fun m hm ↦ by cases hm)
        fun _ _ _ ↦ rfl⟩
    · refine ⟨none, hgone, fun hne ↦ absurd (hkind hr) hne, ?_, ?_, ?_,
        fun h ↦ absurd h hdiscover, ?_, ?_⟩
      · exact fun t hs ↦ by cases hs
      · exact fun m hm ↦ by cases hm
      · exact fun m hm ↦ by cases hm
      · exact fun _ _ m hm ↦ by cases hm
      · exact fun _ _ _ _ hout ↦ by cases hout
  | @informSelected x' r t hi hc hx' hadd ha =>
    rw [hrequested hc hx'] at hadd
    refine ⟨some env.now, ht.addLease (hmac ▸ hadd), .added hdiscover (hne ha) ?_⟩
    intro hreq
    rw [hkind hi] at hreq
    exact absurd hreq (by decide)
  | informKnown _ hc halloc ha =>
    exact ⟨_, (ht.allocateIp hvalid (hmac ▸ halloc)).1, .allocated hdiscover (hciaddr ▸ hc) (hne ha)⟩

end Serving

end InternetApplications.Dhcp
