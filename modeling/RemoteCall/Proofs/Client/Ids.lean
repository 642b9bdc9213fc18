import RemoteCall.Proofs.Client.Effects

/-!
# Ids for all calls

There are 65536 send ids, and the search for a free one looks at them in cyclic order
(`SendId.firstFree_eq_find?`). As long as fewer are taken it finds one (`SendId.allocate?_ne_none`),
and never are more taken than calls were started (`Client.Roomy`).
-/

namespace RemoteCall

/-! ## The search -/

/-- The first `n` ids from `next` on, in cyclic order. -/
def SendId.after (next : SendId) (n : Nat) : List SendId :=
  (List.range n).map fun k => next + UInt16.ofNat k

theorem SendId.after_succ (next : SendId) (n : Nat) :
    after next (n + 1) = next :: after (next + 1) n := by
  have later (k : Nat) : next + UInt16.ofNat (k + 1) = next + 1 + UInt16.ofNat k := by
    rw [UInt16.ofNat_add, UInt16.add_assoc, UInt16.add_comm 1]
    rfl
  rw [after, List.range_succ_eq_map, List.map_cons, List.map_map]
  exact List.cons_eq_cons.2 ⟨UInt16.add_zero next, List.map_congr_left fun k _ => later k⟩

/-- The search looks at the ids in cyclic order, as many as it has tries. -/
theorem SendId.firstFree_eq_find? (taken : Outstanding) (fuel : Nat) (next : SendId) :
    firstFree taken fuel next = (after next fuel).find? fun i => !taken.contains i := by
  induction fuel generalizing next with
  | zero => rfl
  | succ fuel ih =>
    rw [firstFree, after_succ, List.find?_cons]
    cases taken.contains next <;> simp [ih]

theorem SendId.nodup_after (next : SendId) {n : Nat} (few : n ≤ 65536) : (after next n).Nodup := by
  unfold after
  rw [List.nodup_iff_pairwise_ne, List.pairwise_map]
  refine List.nodup_range.imp_of_mem ?_
  intro a b ha hb ne same
  have ha := List.mem_range.1 ha
  have hb := List.mem_range.1 hb
  have equal := congrArg UInt16.toNat ((UInt16.add_right_inj next).1 same)
  simp only [UInt16.toNat_ofNat'] at equal
  omega

@[simp] theorem SendId.length_after (next : SendId) (n : Nat) : (after next n).length = n := by
  simp [after]

/-- If `n` ids in a row are taken then no fewer are taken in all. -/
theorem Outstanding.le_size {taken : Outstanding} {n : Nat} (few : n ≤ 65536) (next : SendId)
    (held : ∀ i ∈ SendId.after next n, i ∈ taken) : n ≤ taken.size := by
  have keys : SendId.after next n ⊆ taken.keys := fun i tried =>
    Std.TreeMap.mem_keys.2 (held i tried)
  have many := (SendId.nodup_after next few).length_le_of_subset keys
  rwa [SendId.length_after, Std.TreeMap.length_keys] at many

section
variable {taken : Outstanding}

/-- While an id is free the search finds one: a search that failed would have found one id more
taken than there are. -/
theorem SendId.exists_firstFree (room : taken.size ≤ 65535) (next : SendId) :
    ∃ i, firstFree taken (taken.size + 1) next = some i := by
  refine Option.ne_none_iff_exists'.1 fun failed => ?_
  rw [firstFree_eq_find?, List.find?_eq_none] at failed
  have more := Outstanding.le_size (Nat.succ_le_succ room) next fun i tried => by
    simpa using failed i tried
  omega

theorem SendId.allocate?_of_firstFree {next i : SendId} (room : taken.size ≤ 65535)
    (found : firstFree taken (taken.size + 1) next = some i) :
    allocate? taken next = some (i, i + 1) := by
  rw [allocate?, if_neg (Nat.not_lt.2 room), found]
  rfl

/-- While an id is free the next call gets one. -/
theorem SendId.allocate?_ne_none {next : SendId} (room : taken.size ≤ 65535) :
    allocate? taken next ≠ none := by
  obtain ⟨i, found⟩ := exists_firstFree room next
  simp [allocate?_of_firstFree room found]

end

/-! ## All ids -/

/-- All ids, in the order of the counter. -/
theorem SendId.mem_after_zero (i : SendId) : i ∈ after 0 65536 :=
  List.mem_map.2 ⟨i.toNat, List.mem_range.2 i.toNat_lt, by simp⟩

theorem Outstanding.size_le (taken : Outstanding) : taken.size ≤ 65536 := by
  have nodup : taken.keys.Nodup := Std.TreeMap.nodup_keys
  have few := nodup.length_le_of_subset fun i _ => SendId.mem_after_zero i
  rwa [Std.TreeMap.length_keys, SendId.length_after] at few

/-- With 65536 ids taken none is left: one id more would make 65537 of them. -/
theorem Outstanding.full_iff {taken : Outstanding} : 65535 < taken.size ↔ ∀ i, i ∈ taken := by
  constructor
  · intro many i
    refine Decidable.byContradiction fun free => ?_
    have grown : (taken.insert i 0).size = taken.size + 1 := by
      rw [Std.TreeMap.size_insert, if_neg]
      simpa using free
    have few := size_le (taken.insert i 0)
    omega
  · intro all
    exact le_size (Nat.le_refl 65536) 0 fun i _ => all i

/-- The next call gets no id exactly if all are taken. -/
theorem SendId.allocate?_eq_none_iff {taken : Outstanding} (next : SendId) :
    allocate? taken next = none ↔ ∀ i, i ∈ taken := by
  rw [← Outstanding.full_iff]
  constructor
  · intro full
    exact Nat.lt_of_not_le fun room => allocate?_ne_none room full
  · intro many
    rw [allocate?, if_pos many]

namespace Client

/-! ## How many ids are taken -/

/-- Each call that is outstanding or in the queue was started. -/
def Roomy (s : Client) : Prop := s.outstanding.size + s.queued.length ≤ s.started

section
variable {s s' : Client} {caller : Nat} {method : String} {payload : Bytes} {rest : List Command}

theorem queued_of_call (queue : s.commands = .call caller method payload :: rest) :
    s.queued = caller :: queued { s with commands := rest } := by
  simp [queued, queue]

theorem queued_of_close (queue : s.commands = .close :: rest) :
    s.queued = queued { s with commands := rest } := by
  simp [queued, queue]

theorem queued_dropQueue_sublist (s : Client) : s.dropQueue.1.queued.Sublist s.queued := by
  unfold dropQueue
  split
  · exact List.nil_sublist _
  · exact List.Sublist.refl _

/-- An ended driver holds no id. -/
theorem Roomy.finish (r : Except CallError Unit) (h : s.queued.length ≤ s.started) :
    (s.finish r).1.Roomy := by
  have fewer := (queued_dropQueue_sublist ({ s with result := some r, outstanding := {} }.resolveAll
    s.outstanding.values (.error .channelClosed)).1).length_le
  unfold Roomy
  rw [finish_outstanding, finish_started, Std.TreeMap.size_emptyc, Nat.zero_add]
  exact Nat.le_trans fewer h

theorem Roomy.effect {e : Event} {notes : List Note} (h : s.Roomy)
    (effect : s.Effect e s' notes) : s'.Roomy := by
  have queue_le : s.queued.length ≤ s.started := Nat.le_trans (Nat.le_add_left ..) h
  unfold Roomy at h
  cases effect with
  | refuses => exact Nat.le_succ_of_le h
  | accepts =>
    unfold Roomy
    simp only [queued, List.filterMap_append, List.length_append] at h ⊢
    simp
    omega
  | awaits | closesLate | clones | givesUp | arrives | peerEnds | peerDeafens | ticks | skipsCall
  | skipsReply => exact h
  | closes =>
    unfold Roomy
    simpa [queued] using h
  | releases =>
    have fewer := (queued_dropQueue_sublist { s with handles := s.handles - 1 }).length_le
    have same : queued { s with handles := s.handles - 1 } = s.queued := rfl
    unfold Roomy
    rw [same] at fewer
    simp only [dropQueue_outstanding, dropQueue_started]
    omega
  | picksClose _ queue =>
    apply Roomy.finish
    rw [← queued_of_close queue]
    exact queue_le
  | failsToWrite _ queue =>
    rw [queued_of_call queue] at queue_le
    exact Roomy.finish _ (Nat.le_of_succ_le queue_le)
  | breaks | ends | retires => exact Roomy.finish _ queue_le
  | exhausts _ queue =>
    rw [queued_of_call queue, List.length_cons] at h
    exact Nat.le_of_succ_le h
  | @writes caller method payload rest i next _ queue free _ =>
    have grown : (s.outstanding.insert i caller).size ≤ s.outstanding.size + 1 :=
      Std.TreeMap.size_insert_le
    rw [queued_of_call queue, List.length_cons] at h
    show (s.outstanding.insert i caller).size + (queued { s with commands := rest }).length ≤
      s.started
    omega
  | @answers f rest i =>
    have shrunk : (s.outstanding.erase i).size ≤ s.outstanding.size := Std.TreeMap.size_erase_le
    show (s.outstanding.erase i).size + s.queued.length ≤ s.started
    omega

/-- If no id is free for a call then more calls were started than there are ids. -/
theorem Roomy.exhausted (h : s.Roomy) (queue : s.commands = .call caller method payload :: rest)
    (full : SendId.allocate? s.outstanding s.next = none) : 65536 < s.started := by
  have many : ¬s.outstanding.size ≤ 65535 := fun room => SendId.allocate?_ne_none room full
  unfold Roomy at h
  rw [queued_of_call queue, List.length_cons] at h
  omega

theorem Roomy.fresh (limit : UInt32) (handles : Nat) : Roomy { limit, handles } := Nat.le_refl 0

end

end Client

end RemoteCall
