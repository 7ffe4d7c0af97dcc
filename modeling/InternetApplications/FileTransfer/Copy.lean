import InternetApplications.FileTransfer.Loops

namespace InternetApplications.FileTransfer

open ByteMemory Executions

/-- What a regular file, or a connection that is closed at the end, returns call after call. -/
def stream (chunks : List Chunk) : List Received := chunks.map .data ++ [.endOfFile]

/-- The connection delivers the bytes that the server sends, cut in its own way. -/
def Delivers (reads chunks : List Chunk) : Prop :=
  ∀ calls size, Server.transfer (stream reads) = .ok (calls, size) →
    joined chunks = calls.flatMap SendCall.bytes

def CopiesExactly (content : List UInt8) (previous : Option (List UInt8)) (reads chunks : List Chunk) :
    Prop :=
  ∃ calls sentSize file receivedSize,
    Server.transfer (stream reads) = .ok (calls, sentSize) ∧
    Client.receive previous (stream chunks) = .ok (file, receivedSize) ∧
    file.content = content ∧ sentSize = content.length ∧ receivedSize = content.length

variable {previous : Option (List UInt8)} {content : List UInt8} {chunks reads : List Chunk}

theorem foldl_write (previous : Option (List UInt8)) (chunks : List Chunk) :
    (chunks.map .data).foldl Client.write (Client.openBackup previous) =
      ⟨joined chunks ++ (previous.getD []).drop (joined chunks).length, (joined chunks).length⟩ := by
  induction chunks using List.reverseRecOn with
  | nil => rfl
  | append_singleton chunks chunk ih =>
    have hjoined : joined (chunks ++ [chunk]) = joined chunks ++ chunk.bytes := by
      simp [joined]
    rw [List.map_append, List.foldl_append, ih, hjoined]
    simp only [List.map_cons, List.map_nil, List.foldl_cons, List.foldl_nil, Client.write,
      Received.bytes, List.take_left, List.length_append, List.drop_append, List.drop_drop,
      List.append_assoc]
    simp

theorem receive_stream (previous : Option (List UInt8)) (chunks : List Chunk) :
    Client.receive previous (stream chunks) =
      if (joined chunks).length < 2 ^ 31 then
        .ok (⟨joined chunks ++ (previous.getD []).drop (joined chunks).length,
          (joined chunks).length⟩, ((joined chunks).length : ℤ))
      else .error .overflow := by
  have hiff : ((joined chunks).length : ℤ) < 2 ^ 31 ↔ (joined chunks).length < 2 ^ 31 := by omega
  rw [Client.receive, stream, copyLoop_data Client.write _ chunks [] (Int.le_refl 0) (by decide),
    foldl_write, Int.zero_add]
  simp only [hiff]

theorem sent_bytes (reads : List Chunk) :
    ((reads.map .data).map sendCall).flatMap SendCall.bytes = joined reads := by
  induction reads with
  | nil => rfl
  | cons chunk reads ih =>
    rw [List.map_cons, List.map_cons, List.flatMap_cons, ih]
    rfl

theorem delivers_of_joined (h : joined chunks = joined reads) : Delivers reads chunks := by
  intro calls size hsent
  have hdata : Server.transfer (stream reads) = _ := transfer_data reads []
  rw [hsent] at hdata
  split at hdata
  · cases hdata
    rw [sent_bytes, h]
  · cases hdata

/-- The copy is exact exactly when the client's file was not longer before, and the length is an
`int`. -/
theorem copies_exactly_iff (hreads : joined reads = content) (hdeliver : Delivers reads chunks) :
    CopiesExactly content previous reads chunks ↔
      (previous.getD []).length ≤ content.length ∧ content.length < 2 ^ 31 := by
  have hsent : Server.transfer (stream reads) = _ := transfer_data reads []
  rw [hreads] at hsent
  by_cases hlt : content.length < 2 ^ 31
  · rw [if_pos hlt] at hsent
    have hchunks : joined chunks = content := by
      rw [hdeliver _ _ hsent, sent_bytes, hreads]
    have hreceived := receive_stream previous chunks
    rw [hchunks, if_pos hlt] at hreceived
    constructor
    · rintro ⟨calls, sentSize, file, receivedSize, -, hreceive, hcontent, -⟩
      cases hreceived.symm.trans hreceive
      have hrest : (previous.getD []).drop content.length = [] := by simpa using hcontent
      exact ⟨List.drop_eq_nil_iff.mp hrest, hlt⟩
    · rintro ⟨hle, -⟩
      refine ⟨_, _, _, _, hsent, hreceived, ?_, rfl, rfl⟩
      simp only [List.drop_eq_nil_of_le hle, List.append_nil]
  · rw [if_neg hlt] at hsent
    refine iff_of_false ?_ fun h ↦ hlt h.2
    rintro ⟨calls, sentSize, file, receivedSize, htransfer, -⟩
    cases hsent.symm.trans htransfer

theorem copies_exactly_cut : CopiesExactly [1, 2, 3] (some [9]) [⟨[1, 2, 3], by decide, by decide⟩]
    [⟨[1], by decide, by decide⟩, ⟨[2, 3], by decide, by decide⟩] := by
  have hcut : joined [⟨[1], by decide, by decide⟩, ⟨[2, 3], by decide, by decide⟩] =
    joined [⟨[1, 2, 3], by decide, by decide⟩] := rfl
  exact (copies_exactly_iff rfl (delivers_of_joined hcut)).mpr ⟨by decide, by simp⟩

/-- The end of a longer file that was there before is still there. -/
theorem copy_keeps_old_end : ∃ chunk : Chunk, joined [chunk] = [1] ∧ Delivers [chunk] [chunk] ∧
    (∃ size, Client.receive (some [7, 8]) (stream [chunk]) = .ok (⟨[1, 8], 1⟩, size)) ∧
    ¬CopiesExactly [1] (some [7, 8]) [chunk] [chunk] := by
  let chunk : Chunk := ⟨[1], by decide, by decide⟩
  have hreceive : Client.receive (some [7, 8]) (stream [chunk]) = .ok (⟨[1, 8], 1⟩, 1) :=
    (receive_stream (some [7, 8]) [chunk]).trans (if_pos (by simp [chunk]))
  refine ⟨chunk, rfl, delivers_of_joined rfl, ⟨1, hreceive⟩, ?_⟩
  rintro ⟨calls, sentSize, file, receivedSize, -, hreceive', hcontent, -⟩
  cases hreceive.symm.trans hreceive'
  exact absurd hcontent (by decide)

end InternetApplications.FileTransfer
