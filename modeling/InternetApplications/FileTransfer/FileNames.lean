import InternetApplications.FileTransfer.Loops

namespace InternetApplications.FileTransfer

open ByteMemory Executions

structure FileName where
  bytes : List UInt8
  nonempty : bytes ≠ []
  fits : bytes.length < fileNameSize
  noZero : 0 ∉ bytes

def openedNames (fileName : Memory) : List FileName → Except Fault (List (List UInt8))
  | [] => .ok []
  | name :: names => do
    let (fileName, opened) ← Server.request fileName name.bytes
    let rest ← openedNames fileName names
    return opened :: rest

def OpensSentNames (fileName : Memory) (names : List FileName) : Prop :=
  openedNames fileName names = .ok (names.map FileName.bytes)

section Strings

variable {fileName fileName' : Memory} {received opened : List UInt8} {n : ℕ}

theorem strlen_eq_ok : Server.strlen fileName = .ok n ↔
    n < fileNameSize ∧ fileName n = 0 ∧ ∀ i < n, fileName i ≠ 0 := by
  have hfind : (List.range fileNameSize).find? (fun i ↦ decide (fileName i = 0)) = some n ↔
      n < fileNameSize ∧ fileName n = 0 ∧ ∀ i < n, fileName i ≠ 0 := by
    rw [List.find?_range_eq_some, List.mem_range]
    simp [and_left_comm]
  rw [← hfind, Server.strlen]
  split
  · rename_i k hk
    rw [hk]
    simp
  · rename_i hnone
    rw [hnone]
    simp

theorem terminate_ok (h : Server.terminate fileName = .ok fileName') : fileName' = fileName := by
  obtain ⟨n, hn, h⟩ := bind_eq_ok.mp h
  cases h
  funext i
  rcases eq_or_ne i n with rfl | hne
  · have hwritten : write fileName i [0] (i + 0) = 0 := write_at (by simp)
    exact hwritten.trans (strlen_eq_ok.mp hn).2.1.symm
  · exact write_outside (by simp only [List.length_singleton]; omega)

theorem request_eq_ok : Server.request fileName received = .ok (fileName', opened) ↔
    fileName' = Server.receiveName fileName received ∧
      ∃ n, Server.strlen fileName' = .ok n ∧ opened = read fileName' 0 n := by
  constructor
  · intro h
    obtain ⟨m, hm, h⟩ := bind_eq_ok.mp h
    obtain ⟨name, hname, h⟩ := bind_eq_ok.mp h
    cases h
    obtain ⟨n, hn, hname⟩ := bind_eq_ok.mp hname
    cases hname
    exact ⟨terminate_ok hm, n, hn, rfl⟩
  · rintro ⟨rfl, n, hn, rfl⟩
    have hterminate : ∃ m, Server.terminate (Server.receiveName fileName received) = .ok m := by
      rw [Server.terminate, hn]
      exact ⟨_, rfl⟩
    obtain ⟨m, hm⟩ := hterminate
    rw [Server.request, hm, ok_bind, terminate_ok hm, Server.openedName, hn]
    rfl

end Strings

section Names

variable {fileName fileName' : Memory} {opened : List UInt8} {name : FileName} {names : List FileName}

theorem receiveName_eq (fileName : Memory) (name : FileName) :
    Server.receiveName fileName name.bytes = write fileName 0 name.bytes := by
  rw [Server.receiveName, List.take_of_length_le (Nat.le_of_lt name.fits)]

theorem receiveName_inside {i : ℕ} (hi : i < name.bytes.length) :
    Server.receiveName fileName name.bytes i ≠ 0 := by
  have hwritten : write fileName 0 name.bytes (0 + i) = _ := write_at hi
  rw [Nat.zero_add] at hwritten
  rw [receiveName_eq, hwritten]
  intro hzero
  exact name.noZero (hzero ▸ List.getElem_mem hi)

theorem receiveName_behind {i : ℕ} (hi : name.bytes.length ≤ i) :
    Server.receiveName fileName name.bytes i = fileName i := by
  rw [receiveName_eq]
  exact write_after (by omega)

/-- After a name has been received, there is a zero byte only behind it, where there was one. -/
theorem receiveName_eq_zero {i : ℕ} : Server.receiveName fileName name.bytes i = 0 ↔
    name.bytes.length ≤ i ∧ fileName i = 0 := by
  rcases Nat.lt_or_ge i name.bytes.length with hi | hi
  · exact iff_of_false (receiveName_inside hi) fun h ↦ absurd h.1 (Nat.not_le.mpr hi)
  · rw [receiveName_behind hi]
    simp [hi]

/-- The sent name is opened when a zero byte happens to follow it. -/
theorem request_sent_iff : Server.request fileName name.bytes = .ok (fileName', name.bytes) ↔
    fileName' = Server.receiveName fileName name.bytes ∧ fileName name.bytes.length = 0 := by
  rw [request_eq_ok]
  refine and_congr_right fun hreceived ↦ ?_
  subst hreceived
  constructor
  · rintro ⟨n, hn, hopened⟩
    have hlen : name.bytes.length = n := by rw [hopened, length_read]
    subst hlen
    exact (receiveName_eq_zero.mp (strlen_eq_ok.mp hn).2.1).2
  · intro hzero
    refine ⟨name.bytes.length, ?_, ?_⟩
    · exact strlen_eq_ok.mpr ⟨name.fits, receiveName_eq_zero.mpr ⟨le_rfl, hzero⟩,
        fun i hi ↦ receiveName_inside hi⟩
    · rw [receiveName_eq]
      exact holds_write.read.symm

theorem openedNames_cons_iff : OpensSentNames fileName (name :: names) ↔
    fileName name.bytes.length = 0 ∧
      OpensSentNames (Server.receiveName fileName name.bytes) names := by
  rw [OpensSentNames, OpensSentNames, openedNames, List.map_cons]
  constructor
  · intro h
    obtain ⟨⟨fileName', opened⟩, hrequest, h⟩ := bind_eq_ok.mp h
    obtain ⟨rest, hrest, h⟩ := bind_eq_ok.mp h
    cases h
    obtain ⟨rfl, hzero⟩ := request_sent_iff.mp hrequest
    exact ⟨hzero, hrest⟩
  · rintro ⟨hzero, hrest⟩
    rw [request_sent_iff.mpr ⟨rfl, hzero⟩, ok_bind]
    simp only
    rw [hrest]
    rfl

/-- Every connection opens the name that was sent exactly when no name is shorter than an earlier
one, and the array starts with a zero byte where each of them ends. -/
theorem opens_sent_names_iff (fileName : Memory) (names : List FileName) :
    OpensSentNames fileName names ↔
      names.Pairwise (fun earlier later ↦ earlier.bytes.length ≤ later.bytes.length) ∧
        ∀ name ∈ names, fileName name.bytes.length = 0 := by
  induction names generalizing fileName with
  | nil => exact iff_of_true rfl ⟨.nil, by simp⟩
  | cons name names ih =>
    rw [openedNames_cons_iff, ih, List.pairwise_cons, List.forall_mem_cons]
    simp only [receiveName_eq_zero]
    constructor
    · rintro ⟨hzero, hpairwise, hrest⟩
      exact ⟨⟨fun later hl ↦ (hrest later hl).1, hpairwise⟩, hzero,
        fun later hl ↦ (hrest later hl).2⟩
    · rintro ⟨⟨hle, hpairwise⟩, hzero, hrest⟩
      exact ⟨hzero, hpairwise, fun later hl ↦ ⟨hle later hl, hrest later hl⟩⟩

/-- In a run of the server's loop these are the names that are opened. -/
theorem run_openedNames {trace : List (Transition Memory Connection (Option Served))}
    (h : Execution serve fileName trace fileName')
    (hsent : trace.map (fun e ↦ e.input.received) = names.map fun name ↦ some name.bytes) :
    ∃ served : List Served, trace.map Transition.output = served.map some ∧
      openedNames fileName names = .ok (served.map Served.name) := by
  induction h generalizing names with
  | nil =>
    obtain rfl := List.map_eq_nil_iff.mp hsent.symm
    exact ⟨[], rfl, rfl⟩
  | cons hstep _ ih =>
    obtain ⟨name, names, rfl, hfirst, hrest⟩ := List.map_eq_cons_iff.mp hsent.symm
    obtain ⟨served, houtputs, hnames⟩ := ih hrest.symm
    obtain ⟨first, rfl, hrequest, -⟩ := (serve_eq_ok hfirst.symm name.nonempty).mp hstep
    refine ⟨first :: served, ?_, ?_⟩
    · rw [List.map_cons, houtputs]
      rfl
    · rw [openedNames, hrequest, ok_bind]
      simp only
      rw [hnames]
      rfl

end Names

section Samples

def longName : FileName := ⟨[97, 98, 99], by decide, by decide, by decide⟩

def shortName : FileName := ⟨[100], by decide, by decide, by decide⟩

example : OpensSentNames (fun _ ↦ 0) [shortName, longName] :=
  rfl

/-- After a longer name, a shorter one is opened with its end. -/
theorem shorter_name_extended :
    openedNames (fun _ ↦ 0) [longName, shortName] = .ok [longName.bytes, [100, 98, 99]] ∧
      ¬OpensSentNames (fun _ ↦ 0) [longName, shortName] := by
  have hopened : openedNames (fun _ ↦ 0) [longName, shortName] =
      .ok [longName.bytes, [100, 98, 99]] := by decide +kernel
  refine ⟨hopened, ?_⟩
  intro hsent
  cases hopened.symm.trans hsent

end Samples

end InternetApplications.FileTransfer
