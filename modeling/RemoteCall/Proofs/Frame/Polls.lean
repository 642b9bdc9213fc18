import RemoteCall.Proofs.Frame.Stream

/-!
# Reading in polls

A reader that may not wait is polled: it takes all the bytes that are there and, if they do not
complete an item, keeps how far it has come (`Stage`): a part of the word, a part of the method, or
a part of the payload. The next poll goes on from there. The bytes that a stage stands for are named
by `Stage.Holds`; a poll finds what stands at the front of these and of the new bytes together:

    stage.Holds limit held →
      Poll.Tells limit (held ++ bs) (Frame.read limit (held ++ bs)) (stage.poll limit bs)
                                                                                (Holds.poll)
-/

namespace RemoteCall

/-! ## Algorithm -/

/-- How far the reading of an item has come. -/
inductive Stage
  | word (got : Bytes)
  | method (w got : Bytes)
  | payload (h : Head) (got : Bytes)

/-- What a poll comes to. -/
inductive Poll
  | frame (f : Frame) (rest : Bytes)
  | invalid (rest : Bytes)
  /-- All bytes were taken, and the item is not complete. -/
  | pending (stage : Stage)

namespace Stage

/-- No item has begun. -/
def fresh : Stage := .word []

def isFresh : Stage → Bool
  | .word [] => true
  | _ => false

def pollPayload (h : Head) (got bs : Bytes) : Poll :=
  match Bytes.split? h.payloadLen.toNat (got ++ bs) with
  | none => .pending (.payload h (got ++ bs))
  | some (bytes, rest) => .frame ⟨h, bytes⟩ rest

/-- The head is complete. -/
def afterHead (limit : UInt32) (h : Head) (bs : Bytes) : Poll :=
  if limit < h.payloadLen then .invalid bs else pollPayload h [] bs

/-- The word is complete; if it is that of a call then a part of the method may be there. -/
def pollMethod (limit : UInt32) (w got bs : Bytes) : Poll :=
  match Announced.ofWord w with
  | .unknown => .invalid bs
  | .reply i s n => afterHead limit (.reply i s n) bs
  | .call i m n =>
    match Bytes.split? m (got ++ bs) with
    | none => .pending (.method w (got ++ bs))
    | some (name, rest) =>
      match Utf8.decode name with
      | .error _ => .invalid rest
      | .ok name => afterHead limit (.call i name n) rest

def pollWord (limit : UInt32) (got bs : Bytes) : Poll :=
  match Bytes.split? 8 (got ++ bs) with
  | none => .pending (.word (got ++ bs))
  | some (w, rest) => pollMethod limit w [] rest

/-- Goes on with the bytes that have come. -/
def poll (limit : UInt32) : Stage → Bytes → Poll
  | .word got, bs => pollWord limit got bs
  | .method w got, bs => pollMethod limit w got bs
  | .payload h got, bs => pollPayload h got bs

/-! ## Lemmas -/

/-- The bytes that were taken since the item began. -/
inductive Holds (limit : UInt32) : Stage → Bytes → Prop
  | word {got : Bytes} : got.length < 8 → Holds limit (.word got) got
  | method {w got : Bytes} {i : SendId} {m : Nat} {n : UInt32} : w.length = 8 →
    Announced.ofWord w = .call i m n → got.length < m → Holds limit (.method w got) (w ++ got)
  | payload {h : Head} {front got : Bytes} :
    (∀ more, Head.read (front ++ more) = .item h more) → ¬limit < h.payloadLen →
    got.length < h.payloadLen.toNat → Holds limit (.payload h got) (front ++ got)

end Stage

/-- The poll comes to what was found in the bytes. -/
inductive Poll.Tells (limit : UInt32) (bs : Bytes) : Found Frame → Poll → Prop
  | frame (f : Frame) (rest : Bytes) : Tells limit bs (.item f rest) (.frame f rest)
  | invalid (rest : Bytes) : Tells limit bs (.invalid rest) (.invalid rest)
  | pending {stage : Stage} : stage.Holds limit bs → Tells limit bs .unfinished (.pending stage)

namespace Stage

section
variable {limit : UInt32} {stage : Stage} {held : Bytes}

theorem Holds.fresh (limit : UInt32) : Stage.fresh.Holds limit [] := .word (by simp)

theorem Holds.isFresh_iff (h : stage.Holds limit held) : stage.isFresh = true ↔ held = [] := by
  cases h with
  | word => cases held <;> simp [isFresh]
  | @method w got i m n size =>
    have some : w ≠ [] := List.ne_nil_of_length_pos (by omega)
    simp [isFresh, some]
  | @payload h front got head =>
    have some : front ≠ [] := by
      rintro rfl
      simpa [Head.read, Bytes.split?] using head []
    simp [isFresh, some]

/-- A head was read from the bytes in front. -/
theorem pollPayload_tells {h : Head} {front got : Bytes} (bs : Bytes)
    (head : ∀ more, Head.read (front ++ more) = .item h more) (within : ¬limit < h.payloadLen) :
    Poll.Tells limit (front ++ (got ++ bs)) (Frame.read limit (front ++ (got ++ bs)))
      (pollPayload h got bs) := by
  unfold Frame.read pollPayload
  rw [head]
  simp only [if_neg within]
  cases there : Bytes.split? h.payloadLen.toNat (got ++ bs) with
  | none => exact .pending (.payload head within (Bytes.split?_eq_none_iff.1 there))
  | some p => exact .frame _ _

theorem afterHead_tells {h : Head} {front : Bytes} (bs : Bytes)
    (head : ∀ more, Head.read (front ++ more) = .item h more) :
    Poll.Tells limit (front ++ bs) (Frame.read limit (front ++ bs)) (afterHead limit h bs) := by
  unfold afterHead
  by_cases long : limit < h.payloadLen
  · have found : Frame.read limit (front ++ bs) = .invalid bs := by
      simp [Frame.read, head, long]
    rw [if_pos long, found]
    exact .invalid bs
  · rw [if_neg long]
    show Poll.Tells limit (front ++ ([] ++ bs)) (Frame.read limit (front ++ ([] ++ bs))) _
    exact pollPayload_tells bs head long

/-- The word is there, and a part of the method if it is that of a call. -/
theorem pollMethod_tells {w got : Bytes} (bs : Bytes) (size : w.length = 8)
    (method : got = [] ∨ ∃ i m n, Announced.ofWord w = .call i m n) :
    Poll.Tells limit (w ++ (got ++ bs)) (Frame.read limit (w ++ (got ++ bs)))
      (pollMethod limit w got bs) := by
  have word : ∀ more, Bytes.split? 8 (w ++ more) = some (w, more) := fun more =>
    Bytes.split?_left more size
  unfold pollMethod
  cases announced : Announced.ofWord w with
  | unknown =>
    obtain rfl := method.resolve_right (by simp [announced])
    have found : Frame.read limit (w ++ ([] ++ bs)) = .invalid bs := by
      simp [Frame.read, Head.read, word, announced]
    rw [found]
    exact .invalid bs
  | reply i s n =>
    obtain rfl := method.resolve_right (by simp [announced])
    apply afterHead_tells
    intro more
    simp [Head.read, word, announced]
  | call i m n =>
    dsimp only
    cases there : Bytes.split? m (got ++ bs) with
    | none =>
      have found : Frame.read limit (w ++ (got ++ bs)) = .unfinished := by
        simp [Frame.read, Head.read, word, announced, there]
      rw [found]
      exact .pending (.method size announced (Bytes.split?_eq_none_iff.1 there))
    | some p =>
      obtain ⟨name, rest⟩ := p
      obtain ⟨bytes, length⟩ := Bytes.split?_eq_some_iff.1 there
      dsimp only
      cases text : Utf8.decode name with
      | error =>
        have found : Frame.read limit (w ++ (got ++ bs)) = .invalid rest := by
          simp [Frame.read, Head.read, word, announced, there, text]
        rw [found]
        exact .invalid rest
      | ok method =>
        rw [bytes, ← List.append_assoc]
        apply afterHead_tells
        intro more
        have name' : Bytes.split? m (name ++ more) = some (name, more) :=
          Bytes.split?_left more length
        simp [Head.read, word, announced, name', text]

/-- A poll goes on where the last one stopped: it comes to what stands at the front of all bytes
since then. -/
theorem Holds.poll (h : stage.Holds limit held) (bs : Bytes) :
    Poll.Tells limit (held ++ bs) (Frame.read limit (held ++ bs)) (stage.poll limit bs) := by
  cases h with
  | @word got few =>
    show Poll.Tells limit (held ++ bs) (Frame.read limit (held ++ bs)) (pollWord limit held bs)
    unfold pollWord
    cases there : Bytes.split? 8 (held ++ bs) with
    | none =>
      have found : Frame.read limit (held ++ bs) = .unfinished := by
        simp [Frame.read, Head.read, there]
      rw [found]
      exact .pending (.word (Bytes.split?_eq_none_iff.1 there))
    | some p =>
      obtain ⟨w, rest⟩ := p
      obtain ⟨bytes, size⟩ := Bytes.split?_eq_some_iff.1 there
      rw [bytes]
      show Poll.Tells limit (w ++ ([] ++ rest)) (Frame.read limit (w ++ ([] ++ rest))) _
      exact pollMethod_tells rest size (.inl rfl)
  | method size announced =>
    rw [List.append_assoc]
    exact pollMethod_tells bs size (.inr ⟨_, _, _, announced⟩)
  | payload head within =>
    rw [List.append_assoc]
    exact pollPayload_tells bs head within

end

end Stage

end RemoteCall
