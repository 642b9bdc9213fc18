import RemoteCall.Proofs.Frame.Stream

/-!
# Frames between the frames of a stream

Foreign frames may come in between the frames that a stream has of its own: `Woven` bytes are
marked as foreign or own, and no frame of one kind is torn by bytes of the other. However such bytes
arrive, a reader of all of them that is to take a foreign frame has just that before it, and
otherwise it finds what a reader of the own bytes alone finds (`Woven.front`).
-/

namespace RemoteCall

/-! ## Marked bytes -/

/-- Bytes, each marked whether it is the stream's own. -/
abbrev Marked := List (UInt8 × Bool)

namespace Marked

def all (m : Marked) : Bytes := m.map (·.1)

def own (m : Marked) : Bytes := (m.filter (·.2)).map (·.1)

/-- All bytes have this mark. -/
def mark (isOwn : Bool) (bs : Bytes) : Marked := bs.map (·, isOwn)

section
variable (m n : Marked) (bs cs : Bytes) (isOwn : Bool)

@[simp] theorem all_append : all (m ++ n) = m.all ++ n.all := List.map_append

@[simp] theorem own_append : own (m ++ n) = m.own ++ n.own := by simp [own]

@[simp] theorem all_mark : (mark isOwn bs).all = bs := by simp [all, mark, Function.comp_def]

@[simp] theorem own_mark_true : (mark true bs).own = bs := by
  simp [own, mark, List.filter_map, Function.comp_def]

@[simp] theorem own_mark_false : (mark false bs).own = [] := by
  simp [own, mark, List.filter_map, Function.comp_def]

theorem mark_append : mark isOwn (bs ++ cs) = mark isOwn bs ++ mark isOwn cs := List.map_append

end

/-- A piece of bytes with one mark has that mark. -/
theorem eq_mark_of_append {m n : Marked} {bs : Bytes} {isOwn : Bool}
    (same : mark isOwn bs = m ++ n) :
    m = mark isOwn m.all ∧ n = mark isOwn n.all ∧ bs = m.all ++ n.all := by
  obtain ⟨front, back, rfl, rfl, rfl⟩ := List.map_eq_append_iff.1 same
  refine ⟨by rw [← mark, all_mark], by rw [← mark, all_mark], ?_⟩
  rw [← mark, ← mark, all_mark, all_mark]

end Marked

open Marked

/-! ## Woven streams -/

/-- The bytes hold these frames one behind the other, each of them marked; behind them own bytes may
come that are anything. -/
inductive Woven (limit : UInt32) : List (Frame × Bool) → Marked → Prop
  | rest (bs : Bytes) : Woven limit [] (mark true bs)
  | frame {bs : Bytes} {f : Frame} {isOwn : Bool} {items : List (Frame × Bool)} {m : Marked} :
    Frame.read limit bs = .item f [] → Woven limit items m →
    Woven limit ((f, isOwn) :: items) (mark isOwn bs ++ m)

/-- Frames that were written, and behind them own bytes. -/
theorem Woven.of_wellFormed {limit : UInt32} {items : List (Frame × Bool)}
    (fit : ∀ item ∈ items, item.1.WellFormed limit) (bs : Bytes) :
    Woven limit items ((items.flatMap fun (f, isOwn) => mark isOwn f.bytes) ++ mark true bs) := by
  induction items with
  | nil => exact .rest bs
  | cons item items ih =>
    obtain ⟨f, isOwn⟩ := item
    obtain ⟨here, others⟩ := List.forall_mem_cons.1 fit
    have read : Frame.read limit f.bytes = .item f [] := by
      simpa using Frame.read_bytes [] here
    rw [List.flatMap_cons, List.append_assoc]
    exact .frame read (ih others)

/-- What stands at the front of the bytes `m` that have arrived, while `more` are to come. -/
inductive Front (limit : UInt32) : List (Frame × Bool) → Marked → Marked → Prop
  /-- A foreign frame. -/
  | foreign {f : Frame} {items : List (Frame × Bool)} {m m' more : Marked} :
    Frame.read limit m.all = .item f m'.all → m'.own = m.own → m'.length < m.length →
    Woven limit items (m' ++ more) → Front limit ((f, false) :: items) m more
  /-- A frame of the stream's own. -/
  | own {f : Frame} {items : List (Frame × Bool)} {m m' more : Marked} :
    Frame.read limit m.all = .item f m'.all → Frame.read limit m.own = .item f m'.own →
    Woven limit items (m' ++ more) → Front limit ((f, true) :: items) m more
  /-- A part of a frame. -/
  | part {items : List (Frame × Bool)} {m more : Marked} :
    Frame.read limit m.all = .unfinished → Frame.read limit m.own = .unfinished → more ≠ [] →
    Front limit items m more
  /-- Nothing but own bytes is left. -/
  | rest {bs cs : Bytes} : Front limit [] (mark true bs) (mark true cs)

namespace Woven

variable {limit : UInt32} {items : List (Frame × Bool)} {m more : Marked}

theorem unfinished_of_part {front back : Bytes} {f : Frame}
    (read : Frame.read limit (front ++ back) = .item f []) (missing : back ≠ []) :
    Frame.read limit front = .unfinished := by
  cases found : Frame.read limit front with
  | unfinished => rfl
  | item g rest =>
    rw [Frame.read_append _ (by simp [found]), found] at read
    simp [Found.extend, missing] at read
  | invalid rest =>
    rw [Frame.read_append _ (by simp [found]), found] at read
    cases read

/-- A frame has arrived. -/
theorem front_of_frame {bs : Bytes} {f : Frame} {isOwn : Bool} {m' : Marked}
    (read : Frame.read limit bs = .item f []) (woven : Woven limit items (m' ++ more)) :
    Front limit ((f, isOwn) :: items) (mark isOwn bs ++ m') more := by
  have all : Frame.read limit (mark isOwn bs ++ m').all = .item f m'.all := by
    simpa using Frame.read_append_item m'.all read
  cases isOwn with
  | true => exact .own all (by simpa using Frame.read_append_item m'.own read) woven
  | false =>
    have some : bs ≠ [] := by
      rintro rfl
      simp [Frame.read_nil] at read
    refine .foreign all (by simp) ?_ woven
    simpa [mark] using List.length_pos_iff.2 some

/-- A part of a frame has arrived. -/
theorem front_of_part {front back : Bytes} {f : Frame} {isOwn : Bool}
    (read : Frame.read limit (front ++ back) = .item f []) (missing : back ≠ []) :
    Front limit ((f, isOwn) :: items) (mark isOwn front) (mark isOwn back ++ m) := by
  have unfinished := unfinished_of_part read missing
  refine .part (by simpa using unfinished) ?_
    (by simpa [mark] using fun none => absurd none missing)
  cases isOwn with
  | true => simpa using unfinished
  | false => simp [Frame.read_nil]

theorem front (h : Woven limit items (m ++ more)) : Front limit items m more := by
  generalize whole : m ++ more = all at h
  cases h with
  | rest bs =>
    obtain ⟨here, later, -⟩ := eq_mark_of_append whole.symm
    rw [here, later]
    exact .rest
  | @frame bs f isOwn items tail read woven =>
    rcases List.append_eq_append_iff.1 whole with ⟨back, frame, rfl⟩ | ⟨m', rfl, rfl⟩
    · obtain ⟨here, there, rfl⟩ := eq_mark_of_append frame
      rw [here, there]
      by_cases missing : Marked.all back = []
      · rw [missing, List.append_nil] at read
        rw [missing, ← List.append_nil (mark isOwn (Marked.all m))]
        exact front_of_frame read woven
      · exact front_of_part read missing
    · exact front_of_frame read woven

end Woven

/-! ## Streams that arrive -/

/-- The events of two runs are the same, but that in the second one foreign bytes arrive together
with the bytes of the first one; where only foreign bytes arrive, in the first one no byte does. The
stream ends with all its bytes there. -/
inductive Padded {ε : Type} (arrive : Bytes → ε) (ends : ε) : Marked → List ε → List ε → Prop
  | none {more : Marked} : Padded arrive ends more [] []
  | bytes {m more : Marked} {es fs : List ε} : Padded arrive ends more es fs →
    Padded arrive ends (m ++ more) (arrive m.own :: es) (arrive m.all :: fs)
  | ends {es fs : List ε} : Padded arrive ends [] es fs →
    Padded arrive ends [] (ends :: es) (ends :: fs)
  | other {more : Marked} {e : ε} {es fs : List ε} : (∀ bs, e ≠ arrive bs) → e ≠ ends →
    Padded arrive ends more es fs → Padded arrive ends more (e :: es) (e :: fs)

section
variable {ε : Type} {arrive : Bytes → ε} {ends : ε} {more : Marked} {es fs : List ε}

/-- Events that are about other things come first. -/
theorem Padded.append (h : Padded arrive ends more es fs) (early : List ε)
    (others : ∀ e ∈ early, (∀ bs, e ≠ arrive bs) ∧ e ≠ ends) :
    Padded arrive ends more (early ++ es) (early ++ fs) := by
  induction early with
  | nil => exact h
  | cons e early ih =>
    obtain ⟨here, others⟩ := List.forall_mem_cons.1 others
    exact .other here.1 here.2 (ih others)

/-- All bytes arrive at once. -/
theorem Padded.together (m : Marked) (early late : List ε)
    (others : ∀ e ∈ early ++ late, (∀ bs, e ≠ arrive bs) ∧ e ≠ ends) :
    Padded arrive ends m (early ++ arrive m.own :: late) (early ++ arrive m.all :: late) := by
  obtain ⟨before, behind⟩ := List.forall_mem_append.1 others
  have rest : Padded arrive ends [] late late := by simpa using Padded.none.append late behind
  rw [← List.append_nil m]
  simpa using (Padded.bytes rest).append early before

end

end RemoteCall
