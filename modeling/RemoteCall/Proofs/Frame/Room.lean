import RemoteCall.Proofs.Frame.Pieces

/-!
# A sink that gets full

A sink of limited room takes the bytes of the frames as long as there is room for them, and not one
byte more, however many it takes at a time. What is written is a prefix of what was to be written,
of one part, of one frame and of all frames alike:

    s.Limited room → ∃ s', s.writeAll bs =
      (if bs.length ≤ room then .ok () else .error s.full, bs.take room, s') ∧ …  (writeAll_takes)
    s.Limited room → s.written frames = (encodable.flatMap Frame.bytes).take room
                                                                    (full_sink_holds_prefix)
-/

namespace RemoteCall.Sink

/-- There is room for so many bytes; each write takes some of them as long as there is any. -/
structure Limited (s : Sink) (room : Nat) : Prop where
  chunk : s.chunk ≠ some 0
  pace : 0 ∉ s.pace
  room : s.room = some room
  flushes : s.flushFails = false

/-- The answer to writing `bs`: all of it was taken if there was room, and else as much as fits. -/
def Takes {ε : Type} (s : Sink) (room : Nat) (bs : Bytes) (failure : ε)
    (answer : Except ε Unit × Bytes × Sink) : Prop :=
  ∃ s', answer = (if bs.length ≤ room then .ok () else .error failure, bs.take room, s') ∧
    s'.Limited (room - bs.length) ∧ s'.full = s.full

section
variable {s : Sink} {room n : Nat}

/-- A write is cut short by the sizes of writes, but never to nothing, and by the room. -/
theorem Limited.accepts_eq (h : s.Limited room) (pos : 0 < n) :
    ∃ k, 0 < k ∧ k ≤ n ∧ s.accepts n = min k room := by
  have turn : s.pace[s.turn % s.pace.length]? ≠ some 0 := fun zero =>
    h.pace (List.mem_of_getElem? zero)
  obtain ⟨pos₁, le₁⟩ := capped_pos_le h.chunk pos
  obtain ⟨pos₂, le₂⟩ := capped_pos_le turn pos₁
  refine ⟨_, pos₂, Nat.le_trans le₂ le₁, ?_⟩
  simp [accepts, h.room, capped]

theorem Limited.used (h : s.Limited room) (k : Nat) : (s.used k).Limited (room - k) :=
  ⟨h.chunk, h.pace, by simp [Sink.used, h.room], h.flushes⟩

/-- Each write takes what it can, until all is written or there is no room. -/
theorem writeAllAux_takes {bs : Bytes} (acc : Bytes) (size : bs.length = n) :
    ∀ {room : Nat}, s.Limited room →
      ∃ s', writeAllAux n bs acc s = (if n ≤ room then .ok () else .error s.full,
          (bs.take room).reverse ++ acc, s') ∧ s'.Limited (room - n) ∧ s'.full = s.full := by
  fun_induction writeAllAux n bs acc s with
  | case1 bs acc s =>
    intro room h
    obtain rfl := List.eq_nil_of_length_eq_zero size
    exact ⟨s, by simp, h, rfl⟩
  | case2 n bs acc s some k none =>
    intro room h
    obtain ⟨k', pos, le, accepts⟩ := h.accepts_eq (Nat.pos_of_ne_zero some)
    have full : room = 0 := by omega
    subst full
    have some : ¬ n ≤ 0 := by omega
    rw [if_neg some]
    exact ⟨s, by simp, by simpa using h, rfl⟩
  | case3 n bs acc s some k taken ih =>
    intro room h
    obtain ⟨k', pos, le, accepts⟩ := h.accepts_eq (Nat.pos_of_ne_zero some)
    have leRoom : k ≤ room := by omega
    obtain ⟨s', written, limited, same⟩ := ih (by rw [List.length_drop, size]) (h.used k)
    refine ⟨s', ?_, ?_, same⟩
    · have fits : n - k ≤ room - k ↔ n ≤ room := by omega
      have whole : bs.take room = bs.take k ++ (bs.drop k).take (room - k) := by
        rw [← List.take_add, Nat.add_sub_cancel' leRoom]
      rw [written, whole, List.reverse_append, List.append_assoc]
      simp only [fits]
      rfl
    · have left : room - k - (n - k) = room - n := by omega
      exact left ▸ limited

theorem Limited.writeAll_takes (h : s.Limited room) (bs : Bytes) :
    s.Takes room bs s.full (s.writeAll bs) := by
  obtain ⟨s', written, limited, same⟩ := writeAllAux_takes [] (rfl : bs.length = bs.length) h
  exact ⟨s', by simp [writeAll, written], limited, same⟩

/-- Parts that follow one another fit exactly if all their bytes together do. -/
theorem Limited.writeParts_takes (h : s.Limited room) (ps : List Bytes) :
    s.Takes room ps.flatten s.full (s.writeParts ps) := by
  induction ps generalizing s room with
  | nil => exact ⟨s, by simp [writeParts], by simpa using h, rfl⟩
  | cons p ps ih =>
    obtain ⟨s₁, first, limited₁, same₁⟩ := h.writeAll_takes p
    rw [writeParts, first]
    by_cases fits : p.length ≤ room
    · obtain ⟨s₂, others, limited₂, same₂⟩ := ih limited₁
      have both : ps.flatten.length ≤ room - p.length ↔
          (p :: ps).flatten.length ≤ room := by
        rw [List.flatten_cons, List.length_append]
        omega
      have left : room - p.length - ps.flatten.length = room - (p :: ps).flatten.length := by
        rw [List.flatten_cons, List.length_append]
        omega
      refine ⟨s₂, ?_, left ▸ limited₂, same₂.trans same₁⟩
      simp only [if_pos fits, others, both, same₁]
      rw [List.flatten_cons, List.take_append, List.take_of_length_le fits]
    · have tight : ¬ (p :: ps).flatten.length ≤ room := by
        rw [List.flatten_cons, List.length_append]
        omega
      have none : room - (p :: ps).flatten.length = room - p.length := by omega
      refine ⟨s₁, ?_, none ▸ limited₁, same₁⟩
      simp only [if_neg fits, if_neg tight]
      rw [List.flatten_cons, List.take_append_of_le_length (by omega)]

/-- A frame is written like one part, unless its method is too long. -/
theorem Limited.send_takes (h : s.Limited room) {f : Frame}
    (short : f.head.methodBytes.length ≤ 255) :
    s.Takes room f.bytes (CallError.io s.full) (s.send f) := by
  obtain ⟨parts, cut, bytes⟩ := Frame.exists_parts short
  obtain ⟨s', written, limited, same⟩ := h.writeParts_takes parts
  rw [bytes]
  refine ⟨s', ?_, limited, same⟩
  rw [send, cut]
  simp only [written]
  by_cases fits : parts.flatten.length ≤ room
  · simp only [if_pos fits, limited.flushes]
    rfl
  · simp only [if_neg fits]

/-! ## Several frames -/

/-- Frames that fit are written, each one whole. -/
theorem Limited.sendAll_fits {fs : List Frame} (h : s.Limited room)
    (short : ∀ f ∈ fs, f.head.methodBytes.length ≤ 255)
    (fits : (fs.flatMap Frame.bytes).length ≤ room) (more : List Frame) :
    ∃ s' : Sink, s.sendAll (fs ++ more) = fs.map (fun f => (.ok (), f.bytes)) ++ s'.sendAll more ∧
      s'.Limited (room - (fs.flatMap Frame.bytes).length) ∧ s'.full = s.full := by
  induction fs generalizing s room with
  | nil => exact ⟨s, rfl, by simpa using h, rfl⟩
  | cons f fs ih =>
    rw [List.flatMap_cons, List.length_append] at fits
    obtain ⟨s₁, sent, limited₁, same₁⟩ := h.send_takes (short f List.mem_cons_self)
    rw [if_pos (by omega), List.take_of_length_le (by omega)] at sent
    obtain ⟨s₂, others, limited₂, same₂⟩ :=
      ih limited₁ (fun g hg => short g (List.mem_cons_of_mem f hg)) (by omega)
    refine ⟨s₂, ?_, ?_, same₂.trans same₁⟩
    · rw [List.cons_append, sendAll, sent]
      simp only [others, List.map_cons, List.cons_append]
    · have left : room - f.bytes.length - (fs.flatMap Frame.bytes).length =
          room - ((f :: fs).flatMap Frame.bytes).length := by
        rw [List.flatMap_cons, List.length_append]
        omega
      exact left ▸ limited₂

/-- The first frame that does not fit leaves as many of its bytes as there was room for. -/
theorem Limited.sendAll_overflows {f : Frame} (h : s.Limited room)
    (short : f.head.methodBytes.length ≤ 255) (tight : room < f.bytes.length)
    (more : List Frame) :
    s.sendAll (f :: more) = [(.error (.io s.full), f.bytes.take room)] := by
  obtain ⟨s', sent, -, -⟩ := h.send_takes short
  rw [if_neg (by omega)] at sent
  rw [sendAll, sent]

/-- A frame whose method is too long is refused by any sink, and none of it is written. -/
theorem sendAll_long (s : Sink) {f : Frame} (long : 255 < f.head.methodBytes.length)
    (more : List Frame) : s.sendAll (f :: more) = [(.error .invalidFrame, [])] := by
  have none : f.parts? = none := by
    simpa [Frame.encode?] using (Frame.encode?_eq_none_iff f).2 long
  rw [sendAll, send, none]

end

/-- If the frames do not all fit then there is a first one that does not. -/
theorem exists_first_over {fs : List Frame} {room : Nat}
    (tight : room < (fs.flatMap Frame.bytes).length) :
    ∃ before f after, fs = before ++ f :: after ∧ (before.flatMap Frame.bytes).length ≤ room ∧
      room < (before.flatMap Frame.bytes).length + f.bytes.length := by
  induction fs generalizing room with
  | nil => simp at tight
  | cons g fs ih =>
    by_cases fits : g.bytes.length ≤ room
    · rw [List.flatMap_cons, List.length_append] at tight
      have less : room - g.bytes.length < (fs.flatMap Frame.bytes).length := by omega
      obtain ⟨before, f, after, rfl, inside, beyond⟩ := ih less
      refine ⟨g :: before, f, after, rfl, ?_, ?_⟩
      · rw [List.flatMap_cons, List.length_append]
        omega
      · rw [List.flatMap_cons, List.length_append]
        omega
    · exact ⟨[], g, fs, rfl, Nat.zero_le _, by simpa using fits⟩

/-- The frames in front of the first one whose method is too long. -/
def encodable (frames : List Frame) : List Frame :=
  frames.takeWhile fun f => f.head.methodBytes.length ≤ 255

theorem short_of_mem_encodable {frames : List Frame} {f : Frame} (h : f ∈ encodable frames) :
    f.head.methodBytes.length ≤ 255 := by
  have all := List.all_takeWhile (l := frames) (p := fun f => f.head.methodBytes.length ≤ 255)
  simpa using List.all_eq_true.1 all f h

theorem encodable_cases (frames : List Frame) : encodable frames = frames ∨
    ∃ f more, frames = encodable frames ++ f :: more ∧ 255 < f.head.methodBytes.length := by
  induction frames with
  | nil => exact .inl rfl
  | cons f fs ih =>
    by_cases short : f.head.methodBytes.length ≤ 255
    · have first : encodable (f :: fs) = f :: encodable fs := by simp [encodable, short]
      rw [first]
      rcases ih with all | ⟨g, more, split, long⟩
      · exact .inl (by rw [all])
      · exact .inr ⟨g, more, by rw [List.cons_append, ← split], long⟩
    · have none : encodable (f :: fs) = [] := by simp [encodable, short]
      exact .inr ⟨f, fs, by rw [none]; rfl, Nat.lt_of_not_le short⟩

section
variable {s : Sink} {room : Nat} {frames : List Frame}

/-- All frames that can be written are written, and then comes the refusal of the next one. -/
theorem Limited.sendAll_encodable (h : s.Limited room)
    (fits : ((encodable frames).flatMap Frame.bytes).length ≤ room) :
    s.sendAll frames = (encodable frames).map (fun f => (.ok (), f.bytes)) ++
      if encodable frames = frames then [] else [(.error .invalidFrame, [])] := by
  have sent := h.sendAll_fits (fun f hf => short_of_mem_encodable hf) fits
  rcases encodable_cases frames with all | ⟨f, more, split, long⟩
  · obtain ⟨s', sent, -, -⟩ := sent []
    rw [List.append_nil, all] at sent
    rw [all, if_pos rfl, sent]
    rfl
  · obtain ⟨s', sent, -, -⟩ := sent (f :: more)
    have less : encodable frames ≠ frames := by
      intro all
      rw [all, List.self_eq_append_right] at split
      cases split
    rw [← split, sendAll_long s' long] at sent
    rw [if_neg less, sent]

/-- The frames in front of the first one that does not fit are written, and what fits of that. -/
theorem Limited.sendAll_over {before after : List Frame} {f : Frame} (h : s.Limited room)
    (split : encodable frames = before ++ f :: after)
    (inside : (before.flatMap Frame.bytes).length ≤ room)
    (beyond : room < (before.flatMap Frame.bytes).length + f.bytes.length) :
    s.sendAll frames = before.map (fun f => (.ok (), f.bytes)) ++
      [(.error (.io s.full), f.bytes.take (room - (before.flatMap Frame.bytes).length))] := by
  have short : ∀ g ∈ before ++ f :: after, g.head.methodBytes.length ≤ 255 := fun g hg =>
    short_of_mem_encodable (split ▸ hg)
  obtain ⟨more, rfl⟩ : ∃ more, frames = before ++ f :: more := by
    rcases encodable_cases frames with all | ⟨g, more, whole, -⟩
    · exact ⟨after, all ▸ split⟩
    · exact ⟨after ++ g :: more, by rw [whole, split, List.append_assoc, List.cons_append]⟩
  obtain ⟨s', first, limited, same⟩ := h.sendAll_fits
    (fun g hg => short g (List.mem_append_left _ hg)) inside (f :: more)
  rw [first, limited.sendAll_overflows (short f (by simp)) (by omega), same]

end

/-- Frames are sent, until one fails, to a sink that takes some bytes with each write as long as
there is room. Behind the first method that is too long nothing is sent. Of the frames in front of
it exactly those bytes are written for which there is room, however they are cut. If all of them fit
then the frame of the long method is refused and nothing of it is written. If not then the first one
that does not fit fails, with the failure of the sink. -/
theorem full_sink_holds_prefix {s : Sink} {room : Nat} (limited : s.Limited room)
    (frames : List Frame) :
    s.written frames = ((encodable frames).flatMap Frame.bytes).take room ∧
      (((encodable frames).flatMap Frame.bytes).length ≤ room →
        s.sendAll frames = (encodable frames).map (fun f => (.ok (), f.bytes)) ++
          if encodable frames = frames then [] else [(.error .invalidFrame, [])]) ∧
      (room < ((encodable frames).flatMap Frame.bytes).length →
        ∃ before f after, encodable frames = before ++ f :: after ∧
          (before.flatMap Frame.bytes).length ≤ room ∧
          room < (before.flatMap Frame.bytes).length + f.bytes.length ∧
          s.sendAll frames = before.map (fun f => (.ok (), f.bytes)) ++
            [(.error (.io s.full),
              f.bytes.take (room - (before.flatMap Frame.bytes).length))]) := by
  by_cases fits : ((encodable frames).flatMap Frame.bytes).length ≤ room
  · have sent := limited.sendAll_encodable fits
    refine ⟨?_, fun _ => sent, fun tight => absurd fits (Nat.not_le_of_lt tight)⟩
    rw [List.take_of_length_le fits, written, sent, List.flatMap_append, List.flatMap_map]
    split <;> simp
  · obtain ⟨before, f, after, split, inside, beyond⟩ := exists_first_over (Nat.lt_of_not_le fits)
    have sent := limited.sendAll_over split inside beyond
    refine ⟨?_, fun fits' => absurd fits' fits, fun _ =>
      ⟨before, f, after, split, inside, beyond, sent⟩⟩
    rw [written, sent, split]
    simp only [List.flatMap_append, List.flatMap_map, List.flatMap_cons, List.flatMap_nil,
      List.append_nil]
    rw [List.take_append, List.take_of_length_le inside, List.take_append_of_le_length (by omega)]

/-- Room for a call, for a reply without a payload and for two bytes of the next reply, three bytes
at a time. -/
theorem third_frame_is_cut_short :
    ({ chunk := some 3, room := some 20, whenFull := .takesNothing } : Sink).Limited 20 ∧
    20 < ((encodable [Frame.call 1 "" [7, 8], Frame.reply 1 .ok [], Frame.reply 2 .ok [9]]).flatMap
      Frame.bytes).length ∧
    ({ chunk := some 3, room := some 20, whenFull := .takesNothing } : Sink).written
      [Frame.call 1 "" [7, 8], Frame.reply 1 .ok [], Frame.reply 2 .ok [9]] =
        [0, 0, 0, 2, 0, 1, 0, 1, 7, 8, 0, 0, 0, 0, 0, 1, 0, 2, 0, 0] := by
  have limited : ({ chunk := some 3, room := some 20, whenFull := .takesNothing } : Sink).Limited
      20 := ⟨by decide, by decide, rfl, rfl⟩
  have sent := full_sink_holds_prefix limited
    [Frame.call 1 "" [7, 8], Frame.reply 1 .ok [], Frame.reply 2 .ok [9]]
  exact ⟨limited, by decide, sent.1.trans (by decide)⟩

end RemoteCall.Sink
