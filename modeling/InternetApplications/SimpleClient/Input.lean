import InternetApplications.SimpleClient.Frame

namespace InternetApplications.SimpleClient

open ByteMemory Executions
open Dhcp (Fault)

def bufsiz : ℕ := 8192

/-- The `len` of a `struct pcap_pkthdr`, and the bytes of the frame that can be read. -/
structure Capture where
  len : ℕ
  bytes : List UInt8
  captured : bytes.length = min len bufsiz

namespace Capture

variable (frame : Capture)

def byte (i : ℕ) : Except Fault UInt8 :=
  match frame.bytes[i]? with
  | some b => .ok b
  | none => .error .outOfBounds

def half (i : ℕ) : Except Fault UInt16 := do
  let a ← frame.byte i
  let b ← frame.byte (i + 1)
  return ByteOrder.big.half a b

def word (i : ℕ) : Except Fault UInt32 := do
  let a ← frame.byte i
  let b ← frame.byte (i + 1)
  let c ← frame.byte (i + 2)
  let d ← frame.byte (i + 3)
  return wordOf a b c d

end Capture

def printPacket (frame : Capture) : Except Fault Unit :=
  if frame.len ≤ frame.bytes.length then .ok () else .error .outOfBounds

/-- The handlers return the new `ip`, and whether the loop is to be left. -/
def dhcpInput (frame : Capture) (dhcp : ℕ) (ip : UInt32) : Except Fault (UInt32 × Bool) := do
  let opcode ← frame.byte dhcp
  if opcode ≠ dhcpOptionOffer then return (ip, false)
  else
    let ip ← frame.word (dhcp + 16)
    return (ip, true)

def udpInput (frame : Capture) (udpPacket : ℕ) (ip : UInt32) : Except Fault (UInt32 × Bool) := do
  let uhSport ← frame.half udpPacket
  if uhSport = dhcpServerPort then dhcpInput frame (udpPacket + sizeofUdphdr) ip
  else return (ip, false)

def ipInput (frame : Capture) (ipPacket : ℕ) (ip : UInt32) : Except Fault (UInt32 × Bool) := do
  let ipP ← frame.byte (ipPacket + 9)
  if ipP = ipprotoUdp then udpInput frame (ipPacket + sizeofIp) ip
  else return (ip, false)

def etherInput (frame : Capture) (ip : UInt32) : Except Fault (UInt32 × Bool) := do
  printPacket frame
  let etherType ← frame.half 12
  if etherType = ethertypeIp then ipInput frame sizeofEtherHeader ip
  else return (ip, false)

inductive PcapRead
  | frame (frame : Capture)
  | failure

/-- `pcap_loop` with the count -1, for a callback that may call `pcap_breakloop`: it does not
return while it waits for the next frame, and it returns on an error. -/
structure PcapLoop where
  run : (Capture → UInt32 → Except Fault (UInt32 × Bool)) → UInt32 → List PcapRead →
    Except Fault UInt32
  waits : ∀ callback ip, run callback ip [] = .error .noReturn
  fails : ∀ callback ip reads, run callback ip (.failure :: reads) = .ok ip
  reads : ∀ callback ip frame reads, run callback ip (.frame frame :: reads) =
    callback frame ip >>= fun r ↦ if r.2 then .ok r.1 else run callback r.1 reads

def runCallback (callback : Capture → UInt32 → Except Fault (UInt32 × Bool)) :
    UInt32 → List PcapRead → Except Fault UInt32
  | _, [] => .error .noReturn
  | ip, .failure :: _ => .ok ip
  | ip, .frame frame :: reads =>
    callback frame ip >>= fun r ↦ if r.2 then .ok r.1 else runCallback callback r.1 reads

def PcapLoop.live : PcapLoop := ⟨runCallback, fun _ _ ↦ rfl, fun _ _ _ ↦ rfl, fun _ _ _ _ ↦ rfl⟩

def gotIp (pcapLoop : PcapLoop) (reads : List PcapRead) : Except Fault (List UInt32) := do
  let ip ← pcapLoop.run etherInput 0 reads
  return [ip >>> 24, (ip <<< 8) >>> 24, (ip <<< 16) >>> 24, (ip <<< 24) >>> 24]

namespace Capture

variable (frame : Capture)

def IsIp : Prop := frame.half 12 = .ok ethertypeIp

def IsUdp : Prop := frame.IsIp ∧ frame.byte 23 = .ok ipprotoUdp

def FromServer : Prop := frame.IsUdp ∧ frame.half 34 = .ok dhcpServerPort

/-- The frame is taken for an offer of the address. -/
structure Offers (y : UInt32) : Prop where
  whole : frame.len ≤ bufsiz
  sender : frame.FromServer
  opcode : frame.byte 42 = .ok dhcpOptionOffer
  yiaddr : frame.word 58 = .ok y

structure Ignored : Prop where
  whole : frame.len ≤ bufsiz
  differs : (∃ t, frame.half 12 = .ok t ∧ t ≠ ethertypeIp) ∨
    (frame.IsIp ∧ ∃ p, frame.byte 23 = .ok p ∧ p ≠ ipprotoUdp) ∨
    (frame.IsUdp ∧ ∃ port, frame.half 34 = .ok port ∧ port ≠ dhcpServerPort) ∨
    (frame.FromServer ∧ ∃ op, frame.byte 42 = .ok op ∧ op ≠ dhcpOptionOffer)

end Capture

def PcapRead.Passed : PcapRead → Prop
  | .frame g => g.Ignored
  | .failure => False

section Handlers

variable {frame : Capture} {ip y : UInt32} {r : UInt32 × Bool}

theorem printPacket_ok : printPacket frame = .ok () ↔ frame.len ≤ bufsiz := by
  rw [printPacket, frame.captured]
  constructor
  · intro h
    split at h
    · omega
    · cases h
  · intro h
    rw [if_pos (by omega)]

theorem bind_noReturn {α β : Type} {x : Except Fault α} {f : α → Except Fault β}
    (hx : x ≠ .error .noReturn) (hf : ∀ a, f a ≠ .error .noReturn) : x >>= f ≠ .error .noReturn := by
  cases x with
  | error e => exact fun h ↦ hx (congrArg Except.error (Except.error.inj h))
  | ok a => exact hf a

theorem test_ok {α : Type} [DecidableEq α] {x : Except Fault α} {expected : α}
    {next : Except Fault (UInt32 × Bool)} :
    (x >>= fun a ↦ if a = expected then next else .ok (ip, false)) = .ok r ↔
      (∃ a, x = .ok a ∧ a ≠ expected) ∧ r = (ip, false) ∨ x = .ok expected ∧ next = .ok r := by
  cases x with
  | error e => simp [error_bind]
  | ok a =>
    rw [ok_bind]
    by_cases ha : a = expected
    · simp [ha]
    · rw [if_neg ha]
      constructor
      · intro h
        cases h
        exact .inl ⟨⟨a, rfl, ha⟩, rfl⟩
      · rintro (⟨-, rfl⟩ | ⟨h, -⟩)
        · rfl
        · cases h
          exact absurd rfl ha

theorem dhcpInput_eq (frame : Capture) (ip : UInt32) : dhcpInput frame 42 ip =
    frame.byte 42 >>= fun op ↦ if op = dhcpOptionOffer then
      frame.word 58 >>= fun y ↦ .ok (y, true) else .ok (ip, false) := by
  rw [dhcpInput]
  refine congrArg (Bind.bind _) (funext fun op ↦ ?_)
  by_cases hop : op = dhcpOptionOffer
  · rw [if_neg (not_not.mpr hop), if_pos hop]
    rfl
  · rw [if_pos hop, if_neg hop]
    rfl

theorem dhcpInput_ok : dhcpInput frame 42 ip = .ok r ↔
    (∃ op, frame.byte 42 = .ok op ∧ op ≠ dhcpOptionOffer) ∧ r = (ip, false) ∨
      frame.byte 42 = .ok dhcpOptionOffer ∧ ∃ y, frame.word 58 = .ok y ∧ r = (y, true) := by
  rw [dhcpInput_eq, test_ok, bind_eq_ok]
  simp only [Except.ok.injEq, eq_comm]

theorem udpInput_ok : udpInput frame 34 ip = .ok r ↔
    (∃ port, frame.half 34 = .ok port ∧ port ≠ dhcpServerPort) ∧ r = (ip, false) ∨
      frame.half 34 = .ok dhcpServerPort ∧ dhcpInput frame 42 ip = .ok r := test_ok

theorem ipInput_ok : ipInput frame 14 ip = .ok r ↔
    (∃ p, frame.byte 23 = .ok p ∧ p ≠ ipprotoUdp) ∧ r = (ip, false) ∨
      frame.byte 23 = .ok ipprotoUdp ∧ udpInput frame 34 ip = .ok r := test_ok

theorem etherInput_ok : etherInput frame ip = .ok r ↔ frame.len ≤ bufsiz ∧
    ((∃ t, frame.half 12 = .ok t ∧ t ≠ ethertypeIp) ∧ r = (ip, false) ∨
      frame.half 12 = .ok ethertypeIp ∧ ipInput frame 14 ip = .ok r) := by
  rw [← printPacket_ok, etherInput, bind_eq_ok]
  constructor
  · rintro ⟨_, hprint, h⟩
    exact ⟨hprint, test_ok.mp h⟩
  · rintro ⟨hprint, h⟩
    exact ⟨(), hprint, test_ok.mpr h⟩

theorem etherInput_stop : etherInput frame ip = .ok (y, true) ↔ frame.Offers y := by
  rw [etherInput_ok, ipInput_ok, udpInput_ok, dhcpInput_ok]
  simp only [Prod.mk.injEq, Bool.true_eq_false, and_false, false_or, and_true, exists_eq_right']
  constructor
  · rintro ⟨hwhole, hip, hudp, hport, hop, hy⟩
    exact ⟨hwhole, ⟨⟨hip, hudp⟩, hport⟩, hop, hy⟩
  · rintro ⟨hwhole, ⟨⟨hip, hudp⟩, hport⟩, hop, hy⟩
    exact ⟨hwhole, hip, hudp, hport, hop, hy⟩

theorem etherInput_skip : etherInput frame ip = .ok (y, false) ↔ frame.Ignored ∧ y = ip := by
  rw [etherInput_ok, ipInput_ok, udpInput_ok, dhcpInput_ok]
  simp only [Prod.mk.injEq, Bool.false_eq_true, and_false, and_true, exists_const, or_false]
  constructor
  · rintro ⟨hwhole, ⟨ht, hy⟩ | ⟨hip, ⟨hp, hy⟩ | ⟨hudp, ⟨hport, hy⟩ | ⟨hserver, hop, hy⟩⟩⟩⟩
    · exact ⟨⟨hwhole, .inl ht⟩, hy⟩
    · exact ⟨⟨hwhole, .inr (.inl ⟨hip, hp⟩)⟩, hy⟩
    · exact ⟨⟨hwhole, .inr (.inr (.inl ⟨⟨hip, hudp⟩, hport⟩))⟩, hy⟩
    · exact ⟨⟨hwhole, .inr (.inr (.inr ⟨⟨⟨hip, hudp⟩, hserver⟩, hop⟩))⟩, hy⟩
  · rintro ⟨⟨hwhole, ht | ⟨hip, hp⟩ | ⟨⟨hip, hudp⟩, hport⟩ | ⟨⟨⟨hip, hudp⟩, hserver⟩, hop⟩⟩, hy⟩
    · exact ⟨hwhole, .inl ⟨ht, hy⟩⟩
    · exact ⟨hwhole, .inr ⟨hip, .inl ⟨hp, hy⟩⟩⟩
    · exact ⟨hwhole, .inr ⟨hip, .inr ⟨hudp, .inl ⟨hport, hy⟩⟩⟩⟩
    · exact ⟨hwhole, .inr ⟨hip, .inr ⟨hudp, .inr ⟨hserver, hop, hy⟩⟩⟩⟩

theorem etherInput_returns (frame : Capture) (ip : UInt32) :
    etherInput frame ip ≠ .error .noReturn := by
  have hbyte (i : ℕ) : frame.byte i ≠ .error .noReturn := by
    rw [Capture.byte]
    split <;> simp
  have hhalf (i : ℕ) : frame.half i ≠ .error .noReturn :=
    bind_noReturn (hbyte i) fun _ ↦ bind_noReturn (hbyte (i + 1)) fun _ h ↦ by cases h
  have hword (i : ℕ) : frame.word i ≠ .error .noReturn :=
    bind_noReturn (hbyte i) fun _ ↦ bind_noReturn (hbyte (i + 1)) fun _ ↦
      bind_noReturn (hbyte (i + 2)) fun _ ↦ bind_noReturn (hbyte (i + 3)) fun _ h ↦ by cases h
  have htest {α : Type} [DecidableEq α] {x : Except Fault α} {expected : α}
      {next : Except Fault (UInt32 × Bool)} (hx : x ≠ .error .noReturn)
      (hnext : next ≠ .error .noReturn) :
      (x >>= fun a ↦ if a = expected then next else .ok (ip, false)) ≠ .error .noReturn := by
    refine bind_noReturn hx fun a ↦ ?_
    split
    · exact hnext
    · simp
  have hdhcp : dhcpInput frame 42 ip ≠ .error .noReturn := by
    rw [dhcpInput_eq]
    exact htest (hbyte 42) (bind_noReturn (hword 58) fun _ h ↦ by cases h)
  have hprint : printPacket frame ≠ .error .noReturn := by
    rw [printPacket]
    split <;> simp
  exact bind_noReturn hprint fun _ ↦ htest (hhalf 12) (htest (hbyte 23) (htest (hhalf 34) hdhcp))

end Handlers

section Loop

variable {pcapLoop : PcapLoop} {ip y : UInt32} {reads : List PcapRead} {nums : List UInt32}

inductive Ends (ip : UInt32) : List PcapRead → UInt32 → Prop
  | offer {pre post : List PcapRead} {frame : Capture} {y : UInt32} :
      (∀ r ∈ pre, r.Passed) → frame.Offers y → Ends ip (pre ++ .frame frame :: post) y
  | failure {pre post : List PcapRead} :
      (∀ r ∈ pre, r.Passed) → Ends ip (pre ++ .failure :: post) ip

theorem Ends.cons {r : PcapRead} (hr : r.Passed) (h : Ends ip reads y) : Ends ip (r :: reads) y := by
  cases h with
  | offer hpre hoffers =>
    rw [← List.cons_append]
    exact .offer (List.forall_mem_cons.mpr ⟨hr, hpre⟩) hoffers
  | failure hpre =>
    rw [← List.cons_append]
    exact .failure (List.forall_mem_cons.mpr ⟨hr, hpre⟩)

/-- The loop ends at the first offer or error, when it can read the frames before it. -/
theorem PcapLoop.run_ok : pcapLoop.run etherInput ip reads = .ok y ↔ Ends ip reads y := by
  constructor
  · intro h
    induction reads generalizing ip with
    | nil => cases (pcapLoop.waits _ _).symm.trans h
    | cons r reads ih =>
      cases r with
      | failure =>
        cases (pcapLoop.fails _ _ _).symm.trans h
        have hends : Ends y ([] ++ .failure :: reads) y := .failure (List.forall_mem_nil _)
        exact hends
      | frame frame =>
        rw [pcapLoop.reads] at h
        obtain ⟨⟨ip', stop⟩, hinput, hrest⟩ := bind_eq_ok.mp h
        cases stop with
        | true =>
          cases hrest
          have hends : Ends ip ([] ++ .frame frame :: reads) ip' :=
            .offer (List.forall_mem_nil _) (etherInput_stop.mp hinput)
          exact hends
        | false =>
          obtain ⟨hignored, rfl⟩ := etherInput_skip.mp hinput
          exact (ih hrest).cons hignored
  · have hpass {pre post : List PcapRead} (hpre : ∀ r ∈ pre, r.Passed) :
        pcapLoop.run etherInput ip (pre ++ post) = pcapLoop.run etherInput ip post := by
      induction pre with
      | nil => rfl
      | cons r pre ih =>
        obtain ⟨hr, hrest⟩ := List.forall_mem_cons.mp hpre
        cases r with
        | failure => cases hr
        | frame frame =>
          rw [List.cons_append, pcapLoop.reads, etherInput_skip.mpr ⟨hr, rfl⟩]
          exact ih hrest
    intro h
    cases h with
    | offer hpre hoffers =>
      rw [hpass hpre, pcapLoop.reads, etherInput_stop.mpr hoffers]
      rfl
    | failure hpre => rw [hpass hpre, pcapLoop.fails]

theorem PcapLoop.run_noReturn :
    pcapLoop.run etherInput ip reads = .error .noReturn ↔ ∀ r ∈ reads, r.Passed := by
  induction reads with
  | nil => simp [pcapLoop.waits]
  | cons r reads ih =>
    rw [List.forall_mem_cons]
    cases r with
    | failure =>
      rw [pcapLoop.fails]
      exact iff_of_false (by simp) fun h ↦ h.1
    | frame frame =>
      rw [pcapLoop.reads]
      cases hinput : etherInput frame ip with
      | error e =>
        refine iff_of_false (fun h ↦ ?_) (fun h ↦ ?_)
        · cases h
          exact etherInput_returns frame ip hinput
        · cases hinput.symm.trans (etherInput_skip.mpr ⟨h.1, rfl⟩)
      | ok p =>
        obtain ⟨ip', stop⟩ := p
        rw [ok_bind]
        cases stop with
        | true =>
          refine iff_of_false (fun h ↦ ?_) (fun h ↦ ?_)
          · cases h
          · cases hinput.symm.trans (etherInput_skip.mpr ⟨h.1, rfl⟩)
        | false =>
          obtain ⟨hignored, rfl⟩ := etherInput_skip.mp hinput
          exact ih.trans (and_iff_right hignored).symm

theorem printed_eq (ip : UInt32) : [ip >>> 24, (ip <<< 8) >>> 24, (ip <<< 16) >>> 24,
    (ip <<< 24) >>> 24] = (wordBytes ip).map UInt8.toUInt32 := by
  have hip := ip.toNat_lt
  simp only [wordBytes, List.map_cons, List.map_nil, List.cons.injEq, ← UInt32.toNat_inj,
    UInt32.toNat_shiftRight, UInt32.toNat_shiftLeft, UInt8.toNat_toUInt32, UInt8.toNat_ofNat',
    Nat.shiftRight_eq_div_pow, Nat.shiftLeft_eq, UInt32.reduceToNat, Nat.reduceMod, Nat.reducePow,
    and_true]
  omega

theorem gotIp_ok : gotIp pcapLoop reads = .ok nums ↔
    ∃ y, Ends 0 reads y ∧ nums = (wordBytes y).map UInt8.toUInt32 := by
  rw [gotIp, bind_eq_ok]
  apply exists_congr
  intro y
  rw [printed_eq, PcapLoop.run_ok]
  apply and_congr_right
  intro _
  constructor
  · intro h
    cases h
    rfl
  · rintro rfl
    rfl

/-- The client prints the address in the first frame that it takes for an offer, whatever client
and exchange that is for, or 0.0.0.0 when an error comes first, and waits exactly as long as it can
pass over all frames. -/
theorem gotIp_iff (pcapLoop : PcapLoop) (reads : List PcapRead) :
    (∀ nums, gotIp pcapLoop reads = .ok nums ↔
      (∃ pre frame post y, reads = pre ++ .frame frame :: post ∧ (∀ r ∈ pre, r.Passed) ∧
        frame.Offers y ∧ nums = (wordBytes y).map UInt8.toUInt32) ∨
      ∃ pre post, reads = pre ++ .failure :: post ∧ (∀ r ∈ pre, r.Passed) ∧
        nums = [0, 0, 0, 0]) ∧
    (gotIp pcapLoop reads = .error .noReturn ↔ ∀ r ∈ reads, r.Passed) := by
  constructor
  · intro nums
    rw [gotIp_ok]
    constructor
    · rintro ⟨y, ⟨hpre, hoffers⟩ | hpre, rfl⟩
      · exact .inl ⟨_, _, _, y, rfl, hpre, hoffers, rfl⟩
      · exact .inr ⟨_, _, rfl, hpre, rfl⟩
    · rintro (⟨pre, frame, post, y, rfl, hpre, hoffers, rfl⟩ | ⟨pre, post, rfl, hpre, rfl⟩)
      · exact ⟨y, .offer hpre hoffers, rfl⟩
      · exact ⟨0, .failure hpre, rfl⟩
  · have hwaits : pcapLoop.run etherInput 0 reads = .error .noReturn ↔ ∀ r ∈ reads, r.Passed :=
      pcapLoop.run_noReturn
    rw [← hwaits, gotIp]
    cases pcapLoop.run etherInput 0 reads with
    | error e => rw [error_bind, Except.error.injEq, Except.error.injEq]
    | ok y => exact iff_of_false (fun h ↦ by cases h) (fun h ↦ by cases h)

end Loop

end InternetApplications.SimpleClient
