import InternetApplications.FileTransfer.Programs

namespace InternetApplications.FileTransfer

open ByteMemory Executions

def joined (chunks : List Chunk) : List UInt8 := chunks.flatMap Chunk.bytes

@[simp] theorem joined_nil : joined [] = [] := rfl

@[simp] theorem joined_cons (chunk : Chunk) (chunks : List Chunk) :
    joined (chunk :: chunks) = chunk.bytes ++ joined chunks := rfl

theorem Received.value_eq_zero {r : Received} : r.value = 0 ↔ r = .endOfFile := by
  cases r with
  | data chunk =>
    have hpos := List.length_pos_iff.mpr chunk.nonempty
    simp only [Received.value, reduceCtorEq, iff_false]
    omega
  | endOfFile => exact iff_of_true rfl rfl
  | error => simp [Received.value]

theorem Received.data_of_pos {r : Received} (h : 0 < r.value) : ∃ chunk, r = .data chunk := by
  cases r with
  | data chunk => exact ⟨chunk, rfl⟩
  | endOfFile => exact absurd h (by decide)
  | error => exact absurd h (by decide)

theorem all_data {results : List Received} (h : ∀ r ∈ results, 0 < r.value) :
    ∃ chunks : List Chunk, results = chunks.map .data := by
  induction results with
  | nil => exact ⟨[], rfl⟩
  | cons r results ih =>
    obtain ⟨chunk, rfl⟩ := Received.data_of_pos (h r List.mem_cons_self)
    obtain ⟨chunks, rfl⟩ := ih fun r hr ↦ h r (List.mem_cons_of_mem _ hr)
    exact ⟨chunk :: chunks, rfl⟩

section Loop

variable {α : Type} {pass : α → Received → α} {a b : α} {size total : ℤ} {results : List Received}

/-- A loop that has ended has met the end of the file, and has passed on all that came before. -/
theorem copyLoop_ok (h : copyLoop pass a size results = .ok (b, total)) :
    ∃ before rest, results = before ++ .endOfFile :: rest ∧ (∀ r ∈ before, r ≠ .endOfFile) ∧
      b = before.foldl pass a := by
  induction results generalizing a size with
  | nil => cases h
  | cons r results ih =>
    rw [copyLoop] at h
    split at h
    · rename_i hzero
      cases h
      rw [Received.value_eq_zero.mp hzero]
      exact ⟨[], results, rfl, by simp, rfl⟩
    · rename_i hzero
      obtain ⟨size', -, h⟩ := bind_eq_ok.mp h
      obtain ⟨before, rest, rfl, hbefore, rfl⟩ := ih h
      refine ⟨r :: before, rest, rfl, ?_, rfl⟩
      rw [List.forall_mem_cons]
      exact ⟨fun hend ↦ hzero (Received.value_eq_zero.mpr hend), hbefore⟩

/-- Data up to the end of the file are all passed on, as long as their length is an `int`. -/
theorem copyLoop_data (pass : α → Received → α) (a : α) (chunks : List Chunk) (rest : List Received)
    (hpos : 0 ≤ size) (hlt : size < 2 ^ 31) :
    copyLoop pass a size (chunks.map .data ++ .endOfFile :: rest) =
      if size + (joined chunks).length < 2 ^ 31 then
        .ok ((chunks.map .data).foldl pass a, size + (joined chunks).length)
      else .error .overflow := by
  induction chunks generalizing a size with
  | nil =>
    rw [joined_nil, List.length_nil, Int.natCast_zero, Int.add_zero, if_pos hlt]
    rfl
  | cons chunk chunks ih =>
    have hlen := List.length_pos_iff.mpr chunk.nonempty
    have hstep : copyLoop pass a size ((chunk :: chunks).map .data ++ .endOfFile :: rest) =
        addInt size chunk.bytes.length >>= fun size ↦
          copyLoop pass (pass a (.data chunk)) size (chunks.map .data ++ .endOfFile :: rest) := by
      rw [List.map_cons, List.cons_append, copyLoop, if_neg (by simp [Received.value_eq_zero])]
      rfl
    rw [hstep, joined_cons, List.length_append, Int.natCast_add, ← Int.add_assoc, addInt]
    by_cases hfits : size + chunk.bytes.length < 2 ^ 31
    · rw [if_pos ⟨by omega, hfits⟩, ok_bind, ih _ (by omega) hfits]
      rfl
    · rw [if_neg (fun h ↦ hfits h.2), error_bind, if_neg (by omega)]

end Loop

section Transfer

open Server

def sendCall (r : Received) : SendCall := ⟨r.value, r.bytes⟩

theorem foldl_send (results : List Received) : results.foldl send [] = results.map sendCall := by
  induction results using List.reverseRecOn with
  | nil => rfl
  | append_singleton results r ih =>
    rw [List.foldl_append, ih, List.map_append]
    rfl

theorem transfer_data (chunks : List Chunk) (rest : List Received) :
    transfer (chunks.map .data ++ .endOfFile :: rest) =
      if (joined chunks).length < 2 ^ 31 then
        .ok ((chunks.map .data).map sendCall, ((joined chunks).length : ℤ))
      else .error .overflow := by
  have hiff : ((joined chunks).length : ℤ) < 2 ^ 31 ↔ (joined chunks).length < 2 ^ 31 := by omega
  rw [transfer, copyLoop_data send [] chunks rest (Int.le_refl 0) (by decide), foldl_send,
    Int.zero_add]
  simp only [hiff]

theorem serve_eq_ok {fileName fileName' : Memory} {c : Connection} {received : List UInt8}
    {out : Option Served} (hreceived : c.received = some received) (hne : received ≠ []) :
    serve fileName c = .ok (fileName', out) ↔ ∃ served, out = some served ∧
      request fileName received = .ok (fileName', served.name) ∧
      transfer c.reads = .ok (served.calls, served.transferSize) := by
  rw [serve, hreceived, if_neg (fun hempty ↦ hne (Option.some.inj hempty)), Option.getD_some]
  constructor
  · intro h
    obtain ⟨⟨fileName₁, name⟩, hrequest, h⟩ := bind_eq_ok.mp h
    obtain ⟨⟨calls, transferSize⟩, htransfer, h⟩ := bind_eq_ok.mp h
    cases h
    exact ⟨_, rfl, hrequest, htransfer⟩
  · rintro ⟨served, rfl, hrequest, htransfer⟩
    rw [hrequest, ok_bind]
    simp only
    rw [htransfer]
    rfl

end Transfer

end InternetApplications.FileTransfer
