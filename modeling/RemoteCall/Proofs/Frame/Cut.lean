import RemoteCall.Proofs.Frame.Pieces

/-!
# Streams that are cut off

Frames that were sent are read back, in whatever pieces they went out and come in. If the stream
ends after `k` of their bytes, those frames are read that lie wholly within the first `k`. The end
is a clean one only between two frames; inside a frame it is an error, and then comes the end:

    source.Reads limit ((Frame.within k fs).map .frame ++ …)            (cut_stream_tells_frames)
-/

namespace RemoteCall

namespace Frame

/-- Those frames at the front of the list whose bytes all lie within the first `k`. -/
def within : Nat → List Frame → List Frame
  | _, [] => []
  | k, f :: fs => if f.bytes.length ≤ k then f :: within (k - f.bytes.length) fs else []

theorem within_length (fs : List Frame) : within (fs.flatMap bytes).length fs = fs := by
  induction fs with
  | nil => rfl
  | cons f fs ih =>
    rw [List.flatMap_cons, List.length_append, within, if_pos (Nat.le_add_right ..),
      Nat.add_sub_cancel_left, ih]

/-- A frame of which some bytes are missing is not complete. -/
theorem read_take_bytes {limit : UInt32} {f : Frame} {k : Nat} (h : f.WellFormed limit)
    (cut : k < f.bytes.length) : Frame.read limit (f.bytes.take k) = .unfinished := by
  have whole : Frame.read limit (f.bytes.take k ++ f.bytes.drop k) = .item f [] := by
    rw [List.take_append_drop]
    simpa using read_bytes [] h
  have missing : f.bytes.drop k ≠ [] := by simpa using cut
  cases found : Frame.read limit (f.bytes.take k) with
  | unfinished => rfl
  | item g rest =>
    rw [read_append _ (by simp [found]), found] at whole
    simp [Found.extend, missing] at whole
  | invalid rest =>
    rw [read_append _ (by simp [found]), found] at whole
    cases whole

/-- The first `k` bytes of some frames hold those frames that lie within them. -/
theorem entries_take {limit : UInt32} {fs : List Frame} {k : Nat}
    (wellFormed : ∀ f ∈ fs, f.WellFormed limit) (inside : k ≤ (fs.flatMap bytes).length) :
    Frame.entries limit ((fs.flatMap bytes).take k) = (within k fs).map .frame ++
      if ((within k fs).flatMap bytes).length = k then [.ended]
      else [.failed (.io .unexpectedEof), .ended] := by
  induction fs generalizing k with
  | nil =>
    obtain rfl := Nat.eq_zero_of_le_zero inside
    simp [within, Frame.entries]
  | cons f fs ih =>
    have first := wellFormed f List.mem_cons_self
    rw [List.flatMap_cons, within]
    split
    next fits =>
      rw [List.flatMap_cons, List.length_append] at inside
      have later := ih (k := k - f.bytes.length)
        (fun g hg => wellFormed g (List.mem_cons_of_mem f hg)) (by omega)
      rw [List.take_append, List.take_of_length_le fits,
        (Takes.frame (read_bytes _ first) (.none _)).entries_eq, later]
      simp only [List.map_cons, List.map_nil, List.cons_append, List.nil_append, List.flatMap_cons,
        List.length_append]
      have same : ((within (k - f.bytes.length) fs).flatMap bytes).length = k - f.bytes.length ↔
          f.bytes.length + ((within (k - f.bytes.length) fs).flatMap bytes).length = k := by
        omega
      simp only [same]
    next cut =>
      rw [List.take_append_of_le_length (by omega)]
      by_cases clean : k = 0
      · subst clean
        simp [Frame.entries]
      · have some : f.bytes.take k ≠ [] := by
          rw [ne_eq, List.take_eq_nil_iff, not_or, ← List.length_eq_zero_iff]
          omega
        rw [Source.entries_of_ne_nil limit some, read_take_bytes first (by omega)]
        simp [Source.entryOf, Frame.entries, Ne.symm clean]

end Frame

namespace Source

/-- Well-formed frames are sent through a sink that is never full, and the first `k` bytes of what
stands there then come out of a source that does not fail. All sends succeed, and the source tells
the frames that lie wholly within those bytes; then it ends, cleanly exactly if no byte is left
over. If all bytes come out then so do all frames. -/
theorem cut_stream_tells_frames {limit : UInt32} {fs : List Frame} {sink : Sink} {source : Source}
    {k : Nat} (wellFormed : ∀ f ∈ fs, f.WellFormed limit) (willing : sink.Willing)
    (inside : k ≤ (sink.written fs).length) (arrived : source.rest = (sink.written fs).take k)
    (steady : source.failAt = none) :
    (sink.sendAll fs).map Prod.fst = fs.map (fun _ => .ok ()) ∧
      source.Reads limit ((Frame.within k fs).map .frame ++
        if ((Frame.within k fs).flatMap Frame.bytes).length = k then [.ended]
        else [.failed (.io .unexpectedEof), .ended]) ∧
      (k = (sink.written fs).length → source.Reads limit (fs.map .frame ++ [.ended])) := by
  have short : ∀ f ∈ fs, f.head.methodBytes.length ≤ 255 := fun f hf => (wellFormed f hf).2.2
  have bytes := willing.written_eq short
  rw [bytes] at inside arrived
  have told : source.Reads limit ((Frame.within k fs).map .frame ++
      if ((Frame.within k fs).flatMap Frame.bytes).length = k then [.ended]
      else [.failed (.io .unexpectedEof), .ended]) := by
    rw [reads_iff steady, arrived]
    exact Frame.entries_take wellFormed inside
  refine ⟨?_, told, fun all => ?_⟩
  · rw [willing.sendAll_eq short, List.map_map]
    rfl
  · rw [all, bytes, Frame.within_length, if_pos rfl] at told
    exact told

/-- A call and a reply, written three bytes and one byte at a time, are read two bytes at a time;
the source holds the call and a part of the reply. -/
theorem cut_reply_ends_unexpectedly :
    (∀ f ∈ [Frame.call 1 "" [7, 8], Frame.reply 1 .ok [9]], f.WellFormed 100) ∧
    ({ pace := [3, 1] } : Sink).Willing ∧
    12 ≤ (({ pace := [3, 1] } : Sink).written
      [Frame.call 1 "" [7, 8], Frame.reply 1 .ok [9]]).length ∧
    ({ rest := (({ pace := [3, 1] } : Sink).written
        [Frame.call 1 "" [7, 8], Frame.reply 1 .ok [9]]).take 12, chunks := [2] } :
      Source).Reads 100
        [.frame (Frame.call 1 "" [7, 8]), .failed (.io .unexpectedEof), .ended] := by
  have wellFormed : ∀ f ∈ [Frame.call 1 "" [7, 8], Frame.reply 1 .ok [9]], f.WellFormed 100 := by
    intro f hf
    simp only [List.mem_cons, List.not_mem_nil, or_false] at hf
    rcases hf with rfl | rfl
    · exact Frame.wellFormed_call 1 (by decide) (by decide)
    · exact Frame.wellFormed_reply 1 .ok (by decide)
  have willing : ({ pace := [3, 1] } : Sink).Willing := ⟨by decide, by decide, rfl, rfl⟩
  have inside : 12 ≤ (({ pace := [3, 1] } : Sink).written
      [Frame.call 1 "" [7, 8], Frame.reply 1 .ok [9]]).length := by
    rw [willing.written_eq fun f hf => (wellFormed f hf).2.2]
    decide
  have arrived : ({ rest := (({ pace := [3, 1] } : Sink).written
      [Frame.call 1 "" [7, 8], Frame.reply 1 .ok [9]]).take 12, chunks := [2] } : Source).rest =
      (({ pace := [3, 1] } : Sink).written
        [Frame.call 1 "" [7, 8], Frame.reply 1 .ok [9]]).take 12 := rfl
  exact ⟨wellFormed, willing, inside,
    (cut_stream_tells_frames wellFormed willing inside arrived rfl).2.1⟩

end Source

end RemoteCall
