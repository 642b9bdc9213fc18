import RemoteCall.Proofs.Run
import RemoteCall.Proofs.Server.Changes

/-!
# The history of a connection

Seen from one connection a run is a history of changes and grants, with the bytes that arrived on it
and what was shown of it (`recorded_of_steps`). What every change keeps, and every grant, holds of
each connection at any time: its running calls have numbers of their own (`History.numbered`).
-/

namespace RemoteCall.Server

/-! ## One connection -/

/-- The connection that a note is about. -/
def Note.connection? : Note → Option ConnectionId
  | .began c .. | .abandoned c .. | .wrote c _ | .ended c _ => some c
  | .released _ => none

/-- What was shown of a connection. -/
def notesOn (c : ConnectionId) (notes : List Note) : List Note :=
  notes.filter (·.connection? = some c)

/-- The bytes that arrived on a connection. -/
def arrivedOn (c : ConnectionId) (es : List Event) : Bytes := es.flatMap (·.bytesOn c)

@[simp] theorem notesOn_append (c : ConnectionId) (notes more : List Note) :
    notesOn c (notes ++ more) = notesOn c notes ++ notesOn c more :=
  List.filter_append ..

@[simp] theorem arrivedOn_append (c : ConnectionId) (es more : List Event) :
    arrivedOn c (es ++ more) = arrivedOn c es ++ arrivedOn c more :=
  List.flatMap_append

@[simp] theorem arrivedOn_singleton (c : ConnectionId) (e : Event) :
    arrivedOn c [e] = e.bytesOn c := by
  simp [arrivedOn]

/-- What became of connection `c` since it was opened: the bytes that arrived on it and what was
shown of it. -/
inductive History (table : MethodTable) (limit : UInt32) (c : ConnectionId) :
    Bytes → List Note → Connection → Prop
  | opens : History table limit c [] [] {}
  | change {conn conn' : Connection} {d : Demand} {arrived bs : Bytes} {notes more : List Note} :
    History table limit c arrived notes conn → Change table limit c conn d bs more conn' →
      History table limit c (arrived ++ bs) (notes ++ more) conn'
  | granted {conn : Connection} {arrived : Bytes} {notes : List Note} :
    History table limit c arrived notes conn → History table limit c arrived notes conn.granted

section
variable {table : MethodTable} {limit : UInt32} {c : ConnectionId}

theorem Change.notesOn_self {conn conn' : Connection} {d : Demand} {bs : Bytes} {notes : List Note}
    (h : Change table limit c conn d bs notes conn') : notesOn c notes = notes := by
  cases h <;> simp [notesOn, Note.connection?]

theorem Change.notesOn_of_ne {conn conn' : Connection} {d : Demand} {bs : Bytes}
    {notes : List Note} {b : ConnectionId} (h : Change table limit c conn d bs notes conn')
    (ne : b ≠ c) : notesOn b notes = [] := by
  cases h <;> simp [notesOn, Note.connection?, Ne.symm ne]

/-- Where each connection stands after a run: with its own history, or not opened yet. -/
def Recorded (table : MethodTable) (limit : UInt32) (s : Server) (es : List Event)
    (notes : List Note) : Prop :=
  ∀ c, (∀ conn, s.get? c = some conn →
    History table limit c (arrivedOn c es) (notesOn c notes) conn) ∧
    (s.get? c = none → arrivedOn c es = [] ∧ notesOn c notes = [])

theorem Recorded.changes {s s' : Server} {es : List Event} {e : Event} {notes more : List Note}
    {conn conn' : Connection} {d : Demand} (h : Recorded s.table s.limit s es notes)
    (found : s.get? c = some conn)
    (change : Change s.table s.limit c conn d (e.bytesOn c) (notesOn c more) conn')
    (meets : Meets s c conn' d s')
    (others : ∀ b, b ≠ c → e.bytesOn b = [] ∧ notesOn b more = []) :
    Recorded s.table s.limit s' (es ++ [e]) (notes ++ more) := by
  intro b
  by_cases same : b = c
  · subst same
    have past := ((h b).1 conn found).change change
    rw [arrivedOn_append, arrivedOn_singleton, notesOn_append]
    rcases meets.get?_self found with here | here
    · refine ⟨?_, fun gone => by simp [here] at gone⟩
      intro now eq
      obtain rfl := Option.some.inj (here.symm.trans eq)
      exact past
    · refine ⟨?_, fun gone => by simp [here] at gone⟩
      intro now eq
      obtain rfl := Option.some.inj (here.symm.trans eq)
      exact past.granted
  · obtain ⟨noBytes, unseen⟩ := others b same
    rw [arrivedOn_append, arrivedOn_singleton, notesOn_append, noBytes, unseen, List.append_nil,
      List.append_nil]
    rcases meets.get?_of_ne same with there | there
    · rw [there]
      exact h b
    · rw [there]
      refine ⟨?_, fun gone => (h b).2 (by simpa using gone)⟩
      intro now eq
      obtain ⟨old, before, rfl⟩ := Option.map_eq_some_iff.1 eq
      exact ((h b).1 old before).granted

theorem Recorded.effect {s s' : Server} {es : List Event} {e : Event} {notes more : List Note}
    (h : Recorded s.table s.limit s es notes) (effect : Effect s e s' more) :
    Recorded s'.table s'.limit s' (es ++ [e]) (notes ++ more) := by
  cases effect with
  | @opens c unknown =>
    intro b
    obtain ⟨known, fresh⟩ := h b
    rw [arrivedOn_append, arrivedOn_singleton, notesOn_append]
    simp only [Event.bytesOn, notesOn, List.filter_nil, List.append_nil]
    by_cases same : b = c
    · subst same
      rw [get?_openNew_self unknown]
      obtain ⟨noBytes, unseen⟩ := fresh unknown
      refine ⟨?_, fun gone => by simp at gone⟩
      intro conn eq
      obtain rfl := Option.some.inj eq
      rw [noBytes]
      rw [notesOn] at unseen
      rw [unseen]
      exact .opens
    · rw [get?_openNew_of_ne same]
      exact ⟨known, fresh⟩
  | releasesNobody holds =>
    intro b
    have unseen : notesOn b [.released false] = [] := rfl
    rw [arrivedOn_append, arrivedOn_singleton, notesOn_append, unseen]
    simp only [Event.bytesOn, List.append_nil]
    exact h b
  | releases found change meets =>
    rw [meets.table_eq, meets.limit_eq]
    exact h.changes found change meets fun _ _ => ⟨rfl, rfl⟩
  | moves found change meets concerns =>
    rw [meets.table_eq, meets.limit_eq]
    refine h.changes found ?_ meets fun b ne => ⟨concerns.bytes b ne, change.notesOn_of_ne ne⟩
    rw [change.notesOn_self]
    exact change

/-- Each connection of a run has its history. -/
theorem recorded_of_steps {workers : Nat} {es : List Event} {s : Server} {notes : List Note}
    (steps : Steps step? (ofWorkers table limit workers) es s notes) :
    s.table = table ∧ s.limit = limit ∧ Recorded table limit s es notes := by
  have whole : (s.table = table ∧ s.limit = limit) ∧ Recorded s.table s.limit s es notes := by
    induction steps with
    | none => exact ⟨⟨rfl, rfl⟩, fun c => ⟨fun conn h => by simp [get?, ofWorkers] at h,
        fun _ => ⟨rfl, rfl⟩⟩⟩
    | snoc _ step ih =>
      have effect := effect_of_step? step
      refine ⟨?_, ih.2.effect effect⟩
      cases effect with
      | opens | releasesNobody => exact ih.1
      | releases _ _ meets | moves _ _ meets =>
        rw [meets.table_eq, meets.limit_eq]
        exact ih.1
  obtain ⟨⟨rfl, rfl⟩, recorded⟩ := whole
  exact ⟨rfl, rfl, recorded⟩

end

/-! ## Numbers of running calls -/

/-- The running calls are told apart by their numbers, which were given out in order. -/
structure Connection.Numbered (conn : Connection) : Prop where
  distinct : (conn.running.map (·.serial)).Nodup
  below : ∀ r ∈ conn.running, r.serial < conn.begun

@[simp] theorem map_serial_makeReady (serial : Nat) (calls : List Running) :
    (makeReady serial calls).map (·.serial) = calls.map (·.serial) := by
  rw [makeReady, List.map_map]
  apply List.map_congr_left
  intro r _
  simp only [Function.comp_apply]
  split <;> rfl

/-- Only the numbers that ran before run on, and no number is given out. -/
theorem Connection.Numbered.fewer {conn conn' : Connection} (h : conn.Numbered)
    (less : (conn'.running.map (·.serial)).Sublist (conn.running.map (·.serial)))
    (begun : conn'.begun = conn.begun) : conn'.Numbered where
  distinct := h.distinct.sublist less
  below r hr := by
    obtain ⟨old, ran, same⟩ := List.mem_map.1 (less.subset (List.mem_map.2 ⟨r, hr, rfl⟩))
    rw [begun, ← same]
    exact h.below old ran

/-- Its number takes one call out of several and no other one. -/
theorem perm_filter_serial {calls : List Running} {call : Running}
    (distinct : (calls.map (·.serial)).Nodup) (runs : call ∈ calls) :
    calls.Perm (call :: calls.filter (·.serial ≠ call.serial)) := by
  induction calls with
  | nil => simp at runs
  | cons r calls ih =>
    obtain ⟨new, distinct⟩ := List.nodup_cons.1 distinct
    rcases List.mem_cons.1 runs with rfl | runs
    · have others : ∀ r ∈ calls, r.serial ≠ call.serial := by
        intro r hr same
        exact new (List.mem_map.2 ⟨r, hr, same⟩)
      rw [List.filter_cons_of_neg (by simp), List.filter_eq_self.2 (by simpa using others)]
    · have other : r.serial ≠ call.serial := by
        intro same
        exact new (List.mem_map.2 ⟨call, runs, same.symm⟩)
      rw [List.filter_cons_of_pos (by simpa using other)]
      exact ((ih distinct runs).cons r).trans (.swap call r _)

theorem Connection.Numbered.perm_without {conn : Connection} (h : conn.Numbered) {call : Running}
    (runs : call ∈ conn.running) :
    conn.running.Perm (call :: (conn.without call.serial).running) :=
  perm_filter_serial h.distinct runs

theorem Connection.sublist_without (conn : Connection) (serial : Nat) :
    ((conn.without serial).running.map (·.serial)).Sublist (conn.running.map (·.serial)) :=
  List.filter_sublist.map _

theorem Change.numbered {table : MethodTable} {limit : UInt32} {c : ConnectionId}
    {conn conn' : Connection} {d : Demand} {bs : Bytes} {notes : List Note}
    (h : Change table limit c conn d bs notes conn') (numbered : conn.Numbered) :
    conn'.Numbered := by
  cases h with
  | arrives | hangsUp | deafens | skips | hires | queues | breaks | runsOut | stops | stopsWaiting
  | stopsGranted | writes | failsToWrite | isOver =>
    exact numbered.fewer (List.Sublist.refl _) rfl
  | readies serial => exact numbered.fewer (by simp) rfl
  | @finishes serial | @abandons serial =>
    exact numbered.fewer (conn.sublist_without serial) rfl
  | begins =>
    constructor
    · rw [List.map_append, List.nodup_append]
      refine ⟨numbered.distinct, by simp, ?_⟩
      intro a ha b hb
      obtain ⟨r, hr, rfl⟩ := List.mem_map.1 ha
      obtain rfl : b = conn.begun := by simpa [Running.begun] using hb
      exact Nat.ne_of_lt (numbered.below r hr)
    · intro r hr
      rcases List.mem_append.1 hr with old | new
      · exact Nat.lt_succ_of_lt (numbered.below r old)
      · obtain rfl := List.mem_singleton.1 new
        exact Nat.lt_succ_self conn.begun

theorem History.numbered {table : MethodTable} {limit : UInt32} {c : ConnectionId}
    {conn : Connection} {arrived : Bytes} {notes : List Note}
    (h : History table limit c arrived notes conn) : conn.Numbered := by
  induction h with
  | opens => exact ⟨List.nodup_nil, fun r hr => by simp at hr⟩
  | change _ change ih => exact change.numbered ih
  | granted _ ih => exact ih.fewer (List.Sublist.refl _) rfl

end RemoteCall.Server
