import RemoteCall.Proofs.Client.Ids

/-!
# The first free id

`SendId.Search` is the search for an id as a loop without a bound: each round reads the counter and
moves it on, until a round has read a free id. While an id is free the search ends, after at most
one round more than there are ids taken, with the first free id of `SendId.cycle`
(`SendId.exists_search`), and it ends in no other way (`SendId.Search.unique`). With all ids taken
it would go on for ever (`SendId.Search.not_contains`), so it is not begun.
-/

namespace RemoteCall

namespace SendId

/-! ## The order of the ids -/

/-- All ids from `next` on, in cyclic order: `next`, ..., 65535, 0, ..., `next - 1`. -/
def cycle (next : SendId) : List SendId :=
  (List.range' next.toNat (65536 - next.toNat) ++ List.range next.toNat).map UInt16.ofNat

theorem after_eq_map_range' (next : SendId) (n : Nat) :
    after next n = (List.range' next.toNat n).map UInt16.ofNat := by
  simp [after, List.range'_eq_map_range, UInt16.ofNat_add]

/-- Behind 65535 comes 0. -/
theorem cycle_eq_after (next : SendId) : cycle next = after next 65536 := by
  have low := Nat.le_of_lt next.toNat_lt
  have wraps (k : Nat) : UInt16.ofNat (65536 + k) = UInt16.ofNat k := by
    rw [UInt16.ofNat_add, show UInt16.ofNat 65536 = 0 from rfl, UInt16.zero_add]
  have second : (List.range next.toNat).map UInt16.ofNat =
      (List.range' 65536 next.toNat).map UInt16.ofNat := by
    rw [List.range'_eq_map_range, List.map_map]
    exact List.map_congr_left fun k _ => (wraps k).symm
  have joined : List.range' next.toNat (65536 - next.toNat) ++ List.range' 65536 next.toNat =
      List.range' next.toNat 65536 := by
    have whole := @List.range'_append_1 next.toNat (65536 - next.toNat) next.toNat
    rwa [Nat.add_sub_cancel' low, Nat.sub_add_cancel low] at whole
  rw [cycle, List.map_append, second, ← List.map_append, joined, after_eq_map_range']

theorem after_prefix_cycle (next : SendId) {n : Nat} (few : n ≤ 65536) :
    after next n <+: cycle next := by
  rw [cycle_eq_after, after, after]
  apply List.IsPrefix.map
  rw [← Nat.min_eq_left few, ← List.take_range]
  exact List.take_prefix n _

/-! ## The loop -/

/-- The search from `next` on ends after so many rounds: it has found `i` and left the counter at
`next'`. A round reads the counter and moves it on, and `taken` stays as it is. -/
inductive Search (taken : Outstanding) :
    (next : SendId) → (rounds : Nat) → (i next' : SendId) → Prop
  | free {next : SendId} : taken.contains next = false → Search taken next 1 next (next + 1)
  | held {next i next' : SendId} {rounds : Nat} : taken.contains next = true →
    Search taken (next + 1) rounds i next' → Search taken next (rounds + 1) i next'

section
variable {taken : Outstanding} {next i j next' next'' : SendId} {fuel rounds n : Nat}

/-- What a search finds is free; so none ends with all ids taken. -/
theorem Search.not_contains (h : Search taken next rounds i next') : taken.contains i = false := by
  induction h with
  | free unheld => exact unheld
  | held _ _ ih => exact ih

/-- Each round leaves one way to go on. -/
theorem Search.unique (h : Search taken next rounds i next')
    (h' : Search taken next n j next'') : n = rounds ∧ j = i ∧ next'' = next' := by
  induction h generalizing n with
  | free unheld =>
    cases h' with
    | free => exact ⟨rfl, rfl, rfl⟩
    | held held => simp [unheld] at held
  | held held _ ih =>
    cases h' with
    | free unheld => simp [unheld] at held
    | held _ later =>
      obtain ⟨rfl, rfl, rfl⟩ := ih later
      exact ⟨rfl, rfl, rfl⟩

/-- The bound of a search that finds an id does not matter. -/
theorem search_of_firstFree (h : firstFree taken fuel next = some i) :
    ∃ rounds, rounds ≤ fuel ∧ Search taken next rounds i (i + 1) := by
  induction fuel generalizing next with
  | zero => cases h
  | succ fuel ih =>
    unfold firstFree at h
    split at h
    next held =>
      obtain ⟨rounds, few, later⟩ := ih h
      exact ⟨rounds + 1, Nat.succ_le_succ few, .held held later⟩
    next unheld =>
      obtain rfl := Option.some.inj h
      exact ⟨1, Nat.le_add_left 1 fuel, .free (Bool.eq_false_iff.2 unheld)⟩

/-- While an id is free the search ends, with the first free one. -/
theorem exists_search (room : taken.size ≤ 65535) (next : SendId) : ∃ i rounds,
    allocate? taken next = some (i, i + 1) ∧
      (cycle next).find? (fun j => !taken.contains j) = some i ∧
      rounds ≤ taken.size + 1 ∧ Search taken next rounds i (i + 1) := by
  obtain ⟨i, found⟩ := exists_firstFree room next
  have given := allocate?_of_firstFree room found
  obtain ⟨rounds, few, search⟩ := search_of_firstFree found
  rw [firstFree_eq_find?] at found
  exact ⟨i, rounds, given, (after_prefix_cycle next (Nat.succ_le_succ room)).find?_eq_some found,
    few, search⟩

example : allocate? (({} : Outstanding).insert 65535 7 |>.insert 0 8) 65535 = some (1, 2) := by
  decide

end

end SendId

namespace Client

/-! ## The next call -/

/-- A call that gets no id leaves the counter where it is. -/
theorem send_next (s : Client) (caller : Nat) (method : String) (payload : Bytes) :
    (s.send caller method payload).1.next =
      ((SendId.allocate? s.outstanding s.next).map Prod.snd).getD s.next := by
  unfold send
  split
  next none => simp [none]
  next i next given =>
    dsimp only
    split <;> simp [given]

/-- Whatever the counter is and whichever ids are taken: the next call gets no id exactly if all are
taken. Then the counter stays where it is, and a search would never end. Else the search ends, in
one way only, after at most one round more than there are ids taken; the call gets the first free id
in cyclic order from the counter on, and the counter is set behind it, modulo 65536. -/
theorem next_call_gets_first_free_id (s : Client) (caller : Nat) (method : String)
    (payload : Bytes) :
    (SendId.allocate? s.outstanding s.next = none ↔ ∀ i, i ∈ s.outstanding) ∧
      (SendId.allocate? s.outstanding s.next = none ∧
          (s.send caller method payload).1.next = s.next ∧
          (∀ n j next', ¬SendId.Search s.outstanding s.next n j next') ∨
        ∃ i rounds, SendId.allocate? s.outstanding s.next = some (i, i + 1) ∧
          (s.send caller method payload).1.next.toNat = (i.toNat + 1) % 65536 ∧
          (SendId.cycle s.next).find? (fun j => !s.outstanding.contains j) = some i ∧
          rounds ≤ s.outstanding.size + 1 ∧
          ∀ n j next', SendId.Search s.outstanding s.next n j next' ↔
            n = rounds ∧ j = i ∧ next' = i + 1) := by
  refine ⟨SendId.allocate?_eq_none_iff s.next, ?_⟩
  rw [send_next]
  rcases Nat.lt_or_ge 65535 s.outstanding.size with many | room
  · have all := Outstanding.full_iff.1 many
    have none := (SendId.allocate?_eq_none_iff s.next).2 all
    refine .inl ⟨none, by simp [none], fun n j next' search => ?_⟩
    have held := Std.TreeMap.contains_iff_mem.2 (all j)
    rw [search.not_contains] at held
    cases held
  · obtain ⟨i, rounds, given, first, few, search⟩ := SendId.exists_search room s.next
    refine .inr ⟨i, rounds, given, ?_, first, few, fun n j next' => ⟨search.unique, ?_⟩⟩
    · rw [given]
      exact UInt16.toNat_add i 1
    · rintro ⟨rfl, rfl, rfl⟩
      exact search

end Client

end RemoteCall
