import InternetApplications.FileTransfer.FileNames

namespace InternetApplications.FileTransfer

open ByteMemory Executions Server

/-- The pass returns to `accept`, and every `send` is given the length of a successful read. The
last result is returned again and again. -/
def Returns (fileName : Memory) (received : List UInt8) (opened : Bool) (before : List Received)
    (ending : Received) : Prop :=
  ∃ n fileName' served,
    serve fileName ⟨some received, opened, before ++ List.replicate n ending⟩ =
      .ok (fileName', some served) ∧
    ∀ call ∈ served.calls, ∃ chunk : Chunk,
      .data chunk ∈ before ∧ call.length = chunk.bytes.length ∧ call.bytes = chunk.bytes

variable {before before' rest : List Received} {ending : Received} {n : ℕ} {a : Received}

theorem prefix_unique (hbefore : ∀ r ∈ before, r ≠ a) (hbefore' : ∀ r ∈ before', r ≠ a)
    (h : before ++ List.replicate n a = before' ++ a :: rest) : before' = before := by
  rcases List.append_eq_append_iff.mp h with ⟨more, rfl, hmore⟩ | ⟨more, rfl, hmore⟩
  · cases more with
    | nil => exact List.append_nil _
    | cons r more =>
      have hr : r ∈ List.replicate n a := by
        rw [hmore]
        exact List.mem_cons_self
      exact absurd (List.eq_of_mem_replicate hr) (hbefore' r (by simp))
  · cases more with
    | nil => exact (List.append_nil _).symm
    | cons r more =>
      obtain rfl : a = r := (List.cons.inj hmore).1
      exact absurd rfl (hbefore a (by simp))

theorem transfer_reads {calls : List SendCall} {size : ℤ} (hbefore : ∀ r ∈ before, r ≠ .endOfFile)
    (h : transfer (before ++ List.replicate n ending) = .ok (calls, size)) :
    ending = .endOfFile ∧ calls = before.map sendCall := by
  obtain ⟨before', rest, hcut, hbefore', rfl⟩ := copyLoop_ok h
  have hending : ending = .endOfFile := by
    have hmem : Received.endOfFile ∈ before ++ List.replicate n ending := by
      rw [hcut]
      simp
    rcases List.mem_append.mp hmem with hmem | hmem
    · exact absurd rfl (hbefore _ hmem)
    · exact (List.eq_of_mem_replicate hmem).symm
  subst hending
  rw [prefix_unique hbefore hbefore' hcut, foldl_send]
  exact ⟨rfl, rfl⟩

theorem transfer_failing {results : List Received} {r : List SendCall × ℤ} :
    transfer (results.map fun _ ↦ .error) ≠ .ok r := by
  intro h
  obtain ⟨before, rest, hcut, -⟩ := copyLoop_ok h
  have hmem : Received.endOfFile ∈ results.map fun _ ↦ Received.error := by
    rw [hcut]
    simp
  obtain ⟨_, -, herror⟩ := List.mem_map.mp hmem
  cases herror

theorem sizes_pos {calls : List SendCall} (hcalls : calls = before.map sendCall)
    (h : ∀ call ∈ calls, ∃ chunk : Chunk,
      .data chunk ∈ before ∧ call.length = chunk.bytes.length ∧ call.bytes = chunk.bytes) :
    ∀ r ∈ before, 0 < r.value := by
  intro r hr
  obtain ⟨chunk, -, hlength, -⟩ := h (sendCall r) (hcalls ▸ List.mem_map_of_mem hr)
  have hpos := List.length_pos_iff.mpr chunk.nonempty
  have hvalue : r.value = chunk.bytes.length := hlength
  omega

/-- A request is served and its loop ends exactly when the file can be opened, no read fails, and the
length read is an `int`. -/
theorem serve_returns_iff {fileName fileName' : Memory} {received name : List UInt8} (opened : Bool)
    (hne : received ≠ []) (hname : request fileName received = .ok (fileName', name))
    (hbefore : ∀ r ∈ before, r ≠ .endOfFile) :
    Returns fileName received opened before ending ↔
      opened = true ∧ ending = .endOfFile ∧
        ∃ chunks : List Chunk, before = chunks.map .data ∧ (joined chunks).length < 2 ^ 31 := by
  constructor
  · rintro ⟨n, fileName'', served, hserve, hcalls⟩
    obtain ⟨_, hserved, -, htransfer⟩ := (serve_eq_ok rfl hne).mp hserve
    cases hserved
    cases opened with
    | false => exact absurd htransfer transfer_failing
    | true =>
      have hreads : transfer (before ++ List.replicate n ending) =
        .ok (served.calls, served.transferSize) := htransfer
      obtain ⟨rfl, hsent⟩ := transfer_reads hbefore hreads
      obtain ⟨chunks, rfl⟩ := all_data (sizes_pos hsent hcalls)
      refine ⟨rfl, rfl, chunks, rfl, ?_⟩
      by_contra hlong
      cases n with
      | zero =>
        obtain ⟨before', rest, hcut, -⟩ := copyLoop_ok hreads
        have hmem : Received.endOfFile ∈ chunks.map Received.data := by
          rw [List.replicate_zero, List.append_nil] at hcut
          rw [hcut]
          simp
        exact hbefore _ hmem rfl
      | succ n =>
        rw [List.replicate_succ, transfer_data, if_neg hlong] at hreads
        cases hreads
  · rintro ⟨rfl, rfl, chunks, rfl, hlt⟩
    have htransfer : transfer (chunks.map .data ++ List.replicate 1 .endOfFile) = _ :=
      transfer_data chunks []
    rw [if_pos hlt] at htransfer
    refine ⟨1, fileName', ⟨name, _, _⟩, (serve_eq_ok rfl hne).mpr ⟨_, rfl, hname, htransfer⟩, ?_⟩
    intro call hcall
    obtain ⟨r, hr, rfl⟩ := List.mem_map.mp hcall
    obtain ⟨chunk, -, rfl⟩ := List.mem_map.mp hr
    exact ⟨chunk, hr, rfl, rfl⟩

theorem serve_returns_short :
    Returns (fun _ ↦ 0) shortName.bytes true [.data ⟨[1, 2], by decide, by decide⟩] .endOfFile := by
  have hname : request (fun _ ↦ 0) shortName.bytes =
    .ok (receiveName (fun _ ↦ 0) shortName.bytes, shortName.bytes) := request_sent_iff.mpr ⟨rfl, rfl⟩
  apply (serve_returns_iff true shortName.nonempty hname (by simp)).mpr
  exact ⟨rfl, rfl, [⟨[1, 2], by decide, by decide⟩], rfl, by simp [joined]⟩

/-- When the file cannot be opened, every read returns -1 and the pass never returns. -/
theorem unopened_never_returns :
    (∀ n fileName' out, serve (fun _ ↦ 0) ⟨some [97], false, List.replicate n .error⟩ ≠
      .ok (fileName', out)) ∧
    ¬Returns (fun _ ↦ 0) [97] false [] .error := by
  have hnever : ∀ n fileName' out, serve (fun _ ↦ 0)
      ⟨some [97], false, List.replicate n .error⟩ ≠ .ok (fileName', out) := by
    intro n fileName' out hserve
    obtain ⟨served, -, -, htransfer⟩ := (serve_eq_ok rfl (by simp)).mp hserve
    exact transfer_failing htransfer
  refine ⟨hnever, ?_⟩
  rintro ⟨n, fileName', served, hserve, -⟩
  exact hnever n fileName' (some served) hserve

end InternetApplications.FileTransfer
