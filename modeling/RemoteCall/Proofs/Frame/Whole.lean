import RemoteCall.Proofs.Frame.Grammar

/-!
# Whole items

Bytes that arrive end anywhere, also inside an item. `Frame.whole limit bs` are those of them that
are whole items, and `Frame.left limit bs` the others, which wait for more. More bytes complete more
items, and no byte changes its place:

    Frame.whole limit bs ++ Frame.left limit bs = bs                          (whole_append_left)
    Parted limit front held →
      Parted limit (front ++ whole limit (held ++ bs)) (left limit (held ++ bs))   (Parted.append)
-/

namespace RemoteCall

/-- What is left of the bytes behind the frames that stand whole at their front; nothing, if what
follows the frames is none. -/
def Frame.left (limit : UInt32) (bs : Bytes) : Bytes :=
  match _h : Frame.read limit bs with
  | .item _ rest => Frame.left limit rest
  | .invalid _ => []
  | .unfinished => bs
termination_by bs.length
decreasing_by
  have := Frame.length_rest_frame ‹_›
  omega

/-- The bytes in front of what is left. -/
def Frame.whole (limit : UInt32) (bs : Bytes) : Bytes :=
  bs.take (bs.length - (Frame.left limit bs).length)

/-- The bytes are frames, and `left` waits for more; or they go on with what is no frame. -/
inductive Frame.Parted (limit : UInt32) (whole left : Bytes) : Prop
  | waits {fs : List Frame} : Frame.Takes limit whole fs [] → Frame.read limit left = .unfinished →
    Parted limit whole left
  | breaks {fs : List Frame} {rest behind : Bytes} : Frame.Takes limit whole fs rest →
    Frame.read limit rest = .invalid behind → Parted limit whole left

namespace Frame

section
variable {limit : UInt32} {bs : Bytes}

theorem Takes.trans {mid rest : Bytes} {fs gs : List Frame} (first : Takes limit bs fs mid)
    (second : Takes limit mid gs rest) : Takes limit bs (fs ++ gs) rest := by
  induction first with
  | none => exact second
  | frame read _ ih => exact .frame read (ih second)

/-- A frame is read from its bytes alone. -/
theorem exists_front_of_read {rest : Bytes} {f : Frame}
    (read : Frame.read limit bs = .item f rest) :
    ∃ front, bs = front ++ rest ∧ ∀ more, Frame.read limit (front ++ more) = .item f more := by
  obtain ⟨item, valid, rfl⟩ := Item.exists_of_read read
  obtain ⟨g, -, -, read'⟩ := valid.exists_frame
  obtain ⟨rfl, -⟩ := Found.item.inj ((read' rest).symm.trans read)
  exact ⟨item.bytes, rfl, read'⟩

/-- Any bytes are parted in this way. -/
theorem exists_parted (limit : UInt32) (bs : Bytes) :
    ∃ front, bs = front ++ left limit bs ∧ Parted limit front (left limit bs) := by
  induction size : bs.length using Nat.strongRecOn generalizing bs with
  | ind n ih =>
    rw [left]
    split
    next f rest found =>
      have less := length_rest_frame found
      obtain ⟨front, bytes, parted⟩ := ih rest.length (by omega) rest rfl
      obtain ⟨first, rfl, read⟩ := exists_front_of_read found
      refine ⟨first ++ front, by rw [List.append_assoc, ← bytes], ?_⟩
      cases parted with
      | waits takes unfinished => exact .waits (.frame (read front) takes) unfinished
      | breaks takes invalid => exact .breaks (.frame (read front) takes) invalid
    next behind found =>
      exact ⟨bs, (List.append_nil bs).symm, .breaks (.none bs) found⟩
    next found =>
      exact ⟨[], rfl, .waits (.none []) found⟩

theorem whole_append_left (limit : UInt32) (bs : Bytes) :
    whole limit bs ++ left limit bs = bs ∧ Parted limit (whole limit bs) (left limit bs) := by
  obtain ⟨front, bytes, parted⟩ := exists_parted limit bs
  have same : whole limit bs = front := by
    have size := congrArg List.length bytes
    rw [List.length_append] at size
    have place : bs.length - (left limit bs).length = front.length := by omega
    rw [whole, place]
    conv => lhs; rw [bytes]
    exact List.take_left
  rw [same]
  exact ⟨bytes.symm, parted⟩

/-- More bytes come, and those of them join that complete an item. -/
theorem Parted.append {front held : Bytes} (h : Parted limit front held) (bs : Bytes) :
    Parted limit (front ++ whole limit (held ++ bs)) (left limit (held ++ bs)) := by
  obtain ⟨-, more⟩ := whole_append_left limit (held ++ bs)
  cases h with
  | waits takes =>
    have before := takes.append (whole limit (held ++ bs))
    cases more with
    | waits takes' unfinished => exact .waits (before.trans takes') unfinished
    | breaks takes' invalid => exact .breaks (before.trans takes') invalid
  | @breaks fs rest behind takes invalid =>
    have broken : Frame.read limit (rest ++ whole limit (held ++ bs)) =
        .invalid (behind ++ whole limit (held ++ bs)) := by
      rw [read_append _ (by simp [invalid]), invalid]
      rfl
    exact .breaks (takes.append (whole limit (held ++ bs))) broken

/-- The frame that is read stands in front. -/
theorem Parted.read {front held rest : Bytes} {f : Frame} (h : Parted limit front held)
    (item : Frame.read limit (front ++ held) = .item f rest) :
    ∃ mid, rest = mid ++ held ∧ Frame.read limit front = .item f mid ∧ Parted limit mid held := by
  cases h with
  | waits takes unfinished =>
    cases takes with
    | none =>
      rw [List.nil_append, unfinished] at item
      cases item
    | frame first later =>
      rw [read_append_item held first] at item
      obtain ⟨rfl, rfl⟩ := Found.item.inj item
      exact ⟨_, rfl, first, .waits later unfinished⟩
  | breaks takes invalid =>
    cases takes with
    | none =>
      rw [read_append held (by simp [invalid]), invalid] at item
      cases item
    | frame first later =>
      rw [read_append_item held first] at item
      obtain ⟨rfl, rfl⟩ := Found.item.inj item
      exact ⟨_, rfl, first, .breaks later invalid⟩

/-- Whoever finds no item at the front has none to come. -/
theorem Parted.eq_nil {front held : Bytes} (h : Parted limit front held)
    (unfinished : Frame.read limit (front ++ held) = .unfinished) : front = [] := by
  cases h with
  | waits takes =>
    cases takes with
    | none => rfl
    | frame first =>
      rw [read_append_item held first] at unfinished
      cases unfinished
  | breaks takes invalid =>
    cases takes with
    | none =>
      rw [read_append held (by simp [invalid]), invalid] at unfinished
      cases unfinished
    | frame first =>
      rw [read_append_item held first] at unfinished
      cases unfinished

end

end Frame

end RemoteCall
