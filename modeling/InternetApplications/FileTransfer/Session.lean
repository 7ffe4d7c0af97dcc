import Mathlib.Logic.Function.Basic
import InternetApplications.FileTransfer.Copy
import InternetApplications.FileTransfer.FileNames
import InternetApplications.FileTransfer.ServerLoop

namespace InternetApplications.FileTransfer

open ByteMemory Executions

structure Cutting where
  pieces : List UInt8 → List Chunk
  whole : ∀ bytes, joined (pieces bytes) = bytes

/-- A directory. The server can only be reached from its own machine, so it shares the files with
its clients. -/
abbrev Files := List UInt8 → Option (List UInt8)

def backupName (name : List UInt8) : List UInt8 := name ++ [46, 98, 97, 107]

structure Session where
  fileName : Memory
  files : Files

/-- A client that asks for a file, and how the reads of the server and those of the client cut
it. -/
structure Visit where
  name : FileName
  reads : Cutting
  arrivals : Cutting

/-- One pass of the server's loop and the client that it serves, which is done before the next. -/
def Session.step (s : Session) (v : Visit) : Except Fault (Session × Option Served) := do
  let (_, opened) ← Server.request s.fileName v.name.bytes
  let reads := stream (v.reads.pieces ((s.files opened).getD []))
  let (fileName, out) ← serve s.fileName ⟨some v.name.bytes, (s.files opened).isSome, reads⟩
  let sent := (out.elim [] Served.calls).flatMap SendCall.bytes
  let (file, _) ← Client.receive (s.files (backupName v.name.bytes)) (stream (v.arrivals.pieces sent))
  return (⟨fileName, Function.update s.files (backupName v.name.bytes) (some file.content)⟩, out)

abbrev Visited := Transition Session Visit (Option Served)

def Visited.Copies (e : Visited) : Prop :=
  e.output.map Served.name = some e.input.name.bytes ∧
    ∃ content, e.before.files e.input.name.bytes = some content ∧
      e.after.files (backupName e.input.name.bytes) = some content

section Directory

def backUp (files : Files) (name : List UInt8) : Files :=
  Function.update files (backupName name) (files name)

def Fits (files : Files) (name : List UInt8) : Prop :=
  ∃ content, files name = some content ∧ content.length < 2 ^ 31 ∧
    ((files (backupName name)).getD []).length ≤ content.length

def AllFit : Files → List (List UInt8) → Prop
  | _, [] => True
  | files, name :: names => Fits files name ∧ AllFit (backUp files name) names

variable {files : Files} {name name' : List UInt8} {names : List (List UInt8)}

theorem backupName_inj : backupName name = backupName name' ↔ name = name' :=
  List.append_left_inj _

theorem backUp_self (files : Files) (name : List UInt8) :
    backUp files name (backupName name) = files name := Function.update_self ..

theorem backUp_of_ne (h : name' ≠ backupName name) : backUp files name name' = files name' :=
  Function.update_of_ne h _ _

theorem backUp_of_le (h : name'.length ≤ name.length) : backUp files name name' = files name' := by
  refine backUp_of_ne ?_
  rintro rfl
  simp only [backupName, List.length_append, List.length_cons, List.length_nil] at h
  omega

/-- A name that is no longer than those after it keeps its file and its backup. -/
theorem foldl_backUp_of_le (h : ∀ later ∈ names, name.length ≤ later.length) :
    names.foldl backUp files name = files name := by
  induction names generalizing files with
  | nil => rfl
  | cons later names ih =>
    rw [List.forall_mem_cons] at h
    rw [List.foldl_cons, ih h.2, backUp_of_le h.1]

theorem foldl_backUp_copied (h : ∀ later ∈ names, name.length ≤ later.length)
    (hcopied : files (backupName name) = files name) :
    names.foldl backUp files (backupName name) = files name := by
  induction names generalizing files with
  | nil => exact hcopied
  | cons later names ih =>
    rw [List.forall_mem_cons] at h
    have hkept : backUp files later name = files name := backUp_of_le h.1
    rw [List.foldl_cons, ih h.2, hkept]
    rw [hkept]
    by_cases hsame : later = name
    · rw [hsame, backUp_self]
    · rw [backUp_of_ne, hcopied]
      intro hname
      exact hsame (backupName_inj.mp hname).symm

/-- When no name is shorter than an earlier one, all backups are right at the end. -/
theorem foldl_backUp (h : names.Pairwise fun earlier later ↦ earlier.length ≤ later.length)
    (hname : name ∈ names) :
    names.foldl backUp files (backupName name) = names.foldl backUp files name := by
  induction names generalizing files with
  | nil => cases hname
  | cons first names ih =>
    rw [List.pairwise_cons] at h
    rw [List.foldl_cons]
    rcases List.mem_cons.mp hname with rfl | hname
    · have hkept : backUp files name name = files name := backUp_of_le (Nat.le_refl _)
      rw [foldl_backUp_of_le h.1, foldl_backUp_copied h.1]
      rw [backUp_self, hkept]
    · exact ih h.2 hname

end Directory

section Pass

variable {s s' : Session} {v : Visit} {out : Option Served} {content : List UInt8}

def Session.stored (s : Session) (v : Visit) (content : List UInt8) : Files :=
  Function.update s.files (backupName v.name.bytes)
    (some (content ++ ((s.files (backupName v.name.bytes)).getD []).drop content.length))

theorem transfer_pieces (cutting : Cutting) (content : List UInt8) :
    ∃ calls : List SendCall, calls.flatMap SendCall.bytes = content ∧
      Server.transfer (stream (cutting.pieces content)) =
        if content.length < 2 ^ 31 then .ok (calls, (content.length : ℤ)) else .error .overflow := by
  have htransfer : Server.transfer (stream (cutting.pieces content)) = _ :=
    transfer_data (cutting.pieces content) []
  rw [cutting.whole] at htransfer
  refine ⟨_, ?_, htransfer⟩
  rw [sent_bytes, cutting.whole]

theorem receive_pieces (previous : Option (List UInt8)) (cutting : Cutting)
    (hlt : content.length < 2 ^ 31) :
    Client.receive previous (stream (cutting.pieces content)) =
      .ok (⟨content ++ (previous.getD []).drop content.length, content.length⟩, content.length) := by
  have hreceive := receive_stream previous (cutting.pieces content)
  rw [cutting.whole, if_pos hlt] at hreceive
  exact hreceive

theorem Session.step_ok (h : s.step v = .ok (s', out)) :
    ∃ served content, out = some served ∧
      Server.request s.fileName v.name.bytes = .ok (s'.fileName, served.name) ∧
      s.files served.name = some content ∧ content.length < 2 ^ 31 ∧
      s'.files = s.stored v content := by
  obtain ⟨⟨array, opened⟩, hrequest, h⟩ := bind_eq_ok.mp h
  obtain ⟨⟨fileName, out'⟩, hserve, h⟩ := bind_eq_ok.mp h
  obtain ⟨⟨file, size⟩, hreceive, h⟩ := bind_eq_ok.mp h
  cases h
  obtain ⟨served, rfl, hrequest', htransfer⟩ := (serve_eq_ok rfl v.name.nonempty).mp hserve
  cases hrequest.symm.trans hrequest'
  cases hcontent : s.files served.name with
  | none =>
    rw [Connection.reads, hcontent] at htransfer
    exact absurd htransfer transfer_failing
  | some content =>
    rw [Connection.reads, hcontent] at htransfer
    obtain ⟨calls, hcalls, hpieces⟩ := transfer_pieces v.reads content
    have hdone : Server.transfer (stream (v.reads.pieces content)) =
      .ok (served.calls, served.transferSize) := htransfer
    rw [hpieces] at hdone
    split at hdone
    · rename_i hlt
      obtain ⟨rfl, -⟩ := Prod.mk.inj (Except.ok.inj hdone)
      have hsent : (Option.elim (some served) [] Served.calls).flatMap SendCall.bytes = content := hcalls
      rw [hsent, receive_pieces _ _ hlt] at hreceive
      cases hreceive
      exact ⟨served, content, rfl, hrequest, hcontent, hlt, rfl⟩
    · cases hdone

theorem Session.step_returns (hzero : s.fileName v.name.bytes.length = 0)
    (hcontent : s.files v.name.bytes = some content) (hlt : content.length < 2 ^ 31) :
    ∃ served : Served, served.name = v.name.bytes ∧ s.step v =
      .ok (⟨Server.receiveName s.fileName v.name.bytes, s.stored v content⟩, some served) := by
  have hrequest : Server.request s.fileName v.name.bytes =
      .ok (Server.receiveName s.fileName v.name.bytes, v.name.bytes) :=
    request_sent_iff.mpr ⟨rfl, hzero⟩
  obtain ⟨calls, hcalls, hpieces⟩ := transfer_pieces v.reads content
  rw [if_pos hlt] at hpieces
  have hserve : serve s.fileName ⟨some v.name.bytes, true, stream (v.reads.pieces content)⟩ =
      .ok (Server.receiveName s.fileName v.name.bytes,
        some ⟨v.name.bytes, calls, content.length⟩) :=
    (serve_eq_ok rfl v.name.nonempty).mpr ⟨_, rfl, hrequest, hpieces⟩
  refine ⟨⟨v.name.bytes, calls, content.length⟩, rfl, ?_⟩
  rw [Session.step, hrequest, ok_bind]
  simp only [hcontent, Option.getD_some, Option.isSome_some]
  rw [hserve, ok_bind]
  simp only [Option.elim_some, hcalls]
  rw [receive_pieces _ _ hlt]
  rfl

theorem Visited.Copies.pass (hstep : s.step v = .ok (s', out)) (h : Visited.Copies ⟨s, v, out, s'⟩) :
    s.fileName v.name.bytes.length = 0 ∧ Fits s.files v.name.bytes ∧
      s' = ⟨Server.receiveName s.fileName v.name.bytes, backUp s.files v.name.bytes⟩ := by
  obtain ⟨hname, content, hcontent, hcopied⟩ := h
  obtain ⟨served, content', rfl, hrequest, hcontent', hlt, hfiles⟩ := s.step_ok hstep
  have hopened : served.name = v.name.bytes := Option.some.inj hname
  rw [hopened] at hrequest hcontent'
  obtain ⟨harray, hzero⟩ := request_sent_iff.mp hrequest
  have hsame : content' = content := Option.some.inj (hcontent'.symm.trans hcontent)
  rw [hsame] at hlt hfiles
  have hstored : content ++ ((s.files (backupName v.name.bytes)).getD []).drop content.length =
      content := by
    have hat : s.stored v content (backupName v.name.bytes) = some _ := Function.update_self ..
    rw [← hfiles] at hat
    exact Option.some.inj (hat.symm.trans hcopied)
  have hle : ((s.files (backupName v.name.bytes)).getD []).length ≤ content.length := by
    exact List.drop_eq_nil_iff.mp (List.append_right_eq_self.mp hstored)
  refine ⟨hzero, ⟨content, hcontent, hlt, hle⟩, ?_⟩
  have hbackup : s.stored v content = backUp s.files v.name.bytes := by
    rw [Session.stored, hstored, backUp, hcontent]
  rw [← harray, ← hbackup, ← hfiles]

theorem Session.step_copies (hzero : s.fileName v.name.bytes.length = 0)
    (hfits : Fits s.files v.name.bytes) :
    ∃ out, s.step v = .ok (⟨Server.receiveName s.fileName v.name.bytes,
        backUp s.files v.name.bytes⟩, out) ∧
      Visited.Copies ⟨s, v, out, ⟨Server.receiveName s.fileName v.name.bytes,
        backUp s.files v.name.bytes⟩⟩ := by
  obtain ⟨content, hcontent, hlt, hle⟩ := hfits
  obtain ⟨served, hname, hstep⟩ := s.step_returns hzero hcontent hlt
  have hbackup : s.stored v content = backUp s.files v.name.bytes := by
    rw [Session.stored, List.drop_eq_nil_of_le hle, List.append_nil, backUp, hcontent]
  rw [hbackup] at hstep
  exact ⟨some served, hstep, congrArg some hname, content, hcontent,
    (backUp_self s.files v.name.bytes).trans hcontent⟩

end Pass

section Runs

variable {s s' : Session} {visits : List Visit} {trace : List Visited}

def namesOf (visits : List Visit) : List (List UInt8) := visits.map fun v ↦ v.name.bytes

theorem session_iff (s : Session) (visits : List Visit) :
    (∃ (trace : List Visited) (s' : Session), Execution Session.step s trace s' ∧
      trace.map Transition.input = visits ∧ ∀ e ∈ trace, e.Copies) ↔
    (namesOf visits).Pairwise (fun earlier later ↦ earlier.length ≤ later.length) ∧
      (∀ v ∈ visits, s.fileName v.name.bytes.length = 0) ∧ AllFit s.files (namesOf visits) := by
  induction visits generalizing s with
  | nil =>
    refine iff_of_true ⟨[], s, .nil s, rfl, by simp⟩ ⟨.nil, by simp, trivial⟩
  | cons v visits ih =>
    have hrest := ih ⟨Server.receiveName s.fileName v.name.bytes, backUp s.files v.name.bytes⟩
    simp only [receiveName_eq_zero] at hrest
    rw [namesOf, List.map_cons, List.pairwise_cons, List.forall_mem_cons, List.forall_mem_map]
    constructor
    · rintro ⟨trace, s', hrun, hinputs, hcopies⟩
      cases hrun with
      | nil => cases hinputs
      | cons hstep hrun =>
        obtain ⟨rfl, hlater⟩ := List.cons.inj hinputs
        rw [List.forall_mem_cons] at hcopies
        obtain ⟨hzero, hfits, rfl⟩ := hcopies.1.pass hstep
        obtain ⟨hsorted, hzeros, hfit⟩ := hrest.mp ⟨_, s', hrun, hlater, hcopies.2⟩
        exact ⟨⟨fun later hl ↦ (hzeros later hl).1, hsorted⟩, ⟨hzero, fun later hl ↦ (hzeros later hl).2⟩,
          hfits, hfit⟩
    · rintro ⟨⟨hle, hsorted⟩, ⟨hzero, hzeros⟩, hfits, hfit⟩
      obtain ⟨out, hstep, hcopies⟩ := s.step_copies hzero hfits
      obtain ⟨trace, s', hrun, hinputs, hall⟩ :=
        hrest.mpr ⟨hsorted, fun later hl ↦ ⟨hle later hl, hzeros later hl⟩, hfit⟩
      refine ⟨_, s', .cons hstep hrun, ?_, ?_⟩
      · rw [List.map_cons, hinputs]
      · exact List.forall_mem_cons.mpr ⟨hcopies, hall⟩

theorem session_files (hrun : Execution Session.step s trace s') (hcopies : ∀ e ∈ trace, e.Copies) :
    s'.files = (namesOf (trace.map Transition.input)).foldl backUp s.files := by
  induction hrun with
  | nil => rfl
  | cons hstep _ ih =>
    rw [List.forall_mem_cons] at hcopies
    obtain ⟨-, -, rfl⟩ := hcopies.1.pass hstep
    rw [ih hcopies.2]
    rfl

/-- All clients get their files exactly when no name is shorter than an earlier one, the array has
a zero byte where each of them ends, and every file fits when its turn comes; and then every
backup is what its file is when all have been served. -/
theorem session_copies_iff (s : Session) (visits : List Visit) :
    ((∃ (trace : List Visited) (s' : Session), Execution Session.step s trace s' ∧
      trace.map Transition.input = visits ∧ ∀ e ∈ trace, e.Copies) ↔
    (namesOf visits).Pairwise (fun earlier later ↦ earlier.length ≤ later.length) ∧
      (∀ v ∈ visits, s.fileName v.name.bytes.length = 0) ∧ AllFit s.files (namesOf visits)) ∧
    ∀ (trace : List Visited) (s' : Session), Execution Session.step s trace s' →
      trace.map Transition.input = visits → (∀ e ∈ trace, e.Copies) →
        ∀ name ∈ namesOf visits, s'.files (backupName name) = s'.files name := by
  refine ⟨session_iff s visits, ?_⟩
  rintro trace s' hrun rfl hcopies name hname
  obtain ⟨hsorted, -⟩ := (session_iff s _).mp ⟨trace, s', hrun, rfl, hcopies⟩
  rw [session_files hrun hcopies]
  exact foldl_backUp hsorted hname

end Runs

section Samples

def singly : Cutting where
  pieces := List.map fun byte ↦ ⟨[byte], by simp, by simp [chunkSize]⟩
  whole := fun bytes ↦ by
    rw [joined, List.flatMap_map]
    exact List.flatMap_singleton' bytes

theorem session_copies_chain : ∃ (trace : List Visited) (s' : Session),
    Execution Session.step ⟨fun _ ↦ 0, Function.update (fun _ ↦ none) [100] (some [1, 2])⟩ trace s' ∧
      trace.length = 2 ∧ s'.files (backupName (backupName [100])) = s'.files (backupName [100]) := by
  let copyName : FileName := ⟨backupName [100], by decide, by decide, by decide⟩
  obtain ⟨hiff, hfiles⟩ := session_copies_iff
    ⟨fun _ ↦ 0, Function.update (fun _ ↦ none) [100] (some [1, 2])⟩
    [⟨shortName, singly, singly⟩, ⟨copyName, singly, singly⟩]
  obtain ⟨trace, s', hrun, hinputs, hcopies⟩ := hiff.mpr (by
    refine ⟨by decide, by simp, ⟨[1, 2], rfl, by decide, by decide⟩, ⟨[1, 2], rfl, by decide, by decide⟩,
      trivial⟩)
  have hlength := congrArg List.length hinputs
  rw [List.length_map] at hlength
  exact ⟨trace, s', hrun, hlength, hfiles trace s' hrun hinputs hcopies (backupName [100])
    (by simp [namesOf, copyName])⟩

end Samples

end InternetApplications.FileTransfer
