import RemoteCall.Proofs.MessagePack.Integers

/-!
# What a MessagePack reader takes

A value tells its own end: the bytes that a reader takes decide what it gives, and all that follows
is left (`TellsEnd`). That holds of every part of the reader and so of the values of every shape. A
value that takes all of some bytes is therefore not in any part of them
(`exists_error_of_front`).
-/

namespace RemoteCall.MessagePack

/-- The bytes that are taken give the same whatever follows them. -/
def TellsEnd (x : Scan α) : Prop := ∀ ⦃bs a rest⦄, x bs = .ok (a, rest) →
  ∃ front, bs = front ++ rest ∧ ∀ other, x (front ++ other) = .ok (a, other)

namespace TellsEnd

variable {α β : Type} {x y : Scan α} {f : α → Scan β}

theorem pure (a : α) : TellsEnd (Pure.pure a : Scan α) := by
  rintro bs b rest h
  cases h
  exact ⟨[], rfl, fun _ => rfl⟩

theorem fail (e : Fault) : TellsEnd (fail e : Scan α) := fun _ _ _ h => by cases h

theorem bind (first : TellsEnd x) (second : ∀ a, TellsEnd (f a)) : TellsEnd (x >>= f) := by
  intro bs b rest h
  obtain ⟨a, mid, found, next⟩ := Scan.of_bind_eq_ok h
  obtain ⟨front, rfl, same⟩ := first found
  obtain ⟨front', rfl, same'⟩ := second a next
  refine ⟨front ++ front', (List.append_assoc ..).symm, fun other => ?_⟩
  rw [List.append_assoc, Scan.bind_ok (same _), same']

theorem ite {c : Prop} [Decidable c] (hx : TellsEnd x) (hy : TellsEnd y) :
    TellsEnd (if c then x else y) := by
  split
  · exact hx
  · exact hy

end TellsEnd

/-! ## Tokens -/

theorem tellsEnd_marker : TellsEnd marker := by
  intro bs m rest h
  cases bs with
  | nil => cases h
  | cons b bs =>
    cases h
    exact ⟨[b], rfl, fun _ => rfl⟩

theorem tellsEnd_take (n : Nat) (missing : Fault) : TellsEnd (take n missing) := by
  intro bs got rest h
  simp only [take] at h
  split at h
  next size =>
    cases h
    have split := (List.take_append_drop n bs).symm
    exact ⟨bs.take n, split, fun other => take_append missing other size⟩
  next => cases h

theorem tellsEnd_uint (w : Nat) : TellsEnd (uint w) :=
  (tellsEnd_take w .noData).bind fun _ => .pure _

theorem tellsEnd_sint (w : Nat) : TellsEnd (sint w) := (tellsEnd_uint w).bind fun _ => .pure _

theorem tellsEnd_float (w : Nat) : TellsEnd (float w) := (tellsEnd_uint w).bind fun _ => .pure _

theorem tellsEnd_token (m : Marker) : TellsEnd (token m) := by
  cases m with
  | uint w | str w | bin w | array w | map w | ext w =>
    exact (tellsEnd_uint w).bind fun _ => .pure _
  | sint w => exact (tellsEnd_sint w).bind fun _ => .pure _
  | float w => exact (tellsEnd_float w).bind fun _ => .pure _
  | reserved => exact .fail _
  | _ => exact .pure _

theorem tellsEnd_content (n : Nat) : TellsEnd (content n) := tellsEnd_take n .noContent

theorem tellsEnd_text (n : Nat) : TellsEnd (text n) := by
  refine (tellsEnd_content n).bind fun bs => ?_
  split
  · exact .pure _
  · exact .fail _

theorem tellsEnd_times {scan : Scan Unit} (h : TellsEnd scan) (n : Nat) :
    TellsEnd (times scan n) := by
  induction n with
  | zero => exact .pure ()
  | succ n ih => exact h.bind fun _ => ih

/-- A value begins with a marker and what that announces. -/
theorem TellsEnd.value {f : Token → Scan α} (h : ∀ t, TellsEnd (f t)) :
    TellsEnd (do f (← token (← marker))) :=
  tellsEnd_marker.bind fun m => (tellsEnd_token m).bind h

theorem tellsEnd_skip (levels : Nat) : TellsEnd (skip levels) := by
  induction levels using Nat.strongRecOn with
  | ind levels ih =>
    rw [skip]
    refine .value fun t => ?_
    split
    next => exact (tellsEnd_content _).bind fun _ => .pure _
    next => exact (tellsEnd_content _).bind fun _ => .pure _
    next =>
      split
      next => exact .fail _
      next l => exact tellsEnd_times (ih l l.lt_succ_self) _
    next =>
      split
      next => exact .fail _
      next l =>
        have inside := ih l l.lt_succ_self
        exact tellsEnd_times (inside.bind fun _ => inside) _
    next =>
      split
      next => exact .fail _
      next => exact (tellsEnd_uint 1).bind fun _ => (tellsEnd_content _).bind fun _ => .pure _
    next => exact .pure _

/-! ## Values -/

theorem tellsEnd_enter {inside : Nat → Scan α} (h : ∀ l, TellsEnd (inside l)) (levels : Nat) :
    TellsEnd (enter levels inside) := by
  cases levels with
  | zero => exact .fail _
  | succ l => exact h l

theorem tellsEnd_ofMismatch (r : Except Mismatch α) : TellsEnd (ofMismatch r) := by
  cases r with
  | ok a => exact .pure a
  | error m => exact .fail _

theorem tellsEnd_broken (r : Except String α) : TellsEnd (broken r) := by
  cases r with
  | ok a => exact .pure a
  | error rule => exact .fail _

theorem tellsEnd_wrongType (levels : Nat) (expected : String) (t : Token) :
    TellsEnd (wrongType levels expected t : Scan α) := by
  cases t with
  | text n => exact (tellsEnd_text n).bind fun _ => .fail _
  | bytes n => exact (tellsEnd_content n).bind fun _ => .fail _
  | list n | table n | ext n => exact tellsEnd_enter (fun _ => .fail _) levels
  | _ => exact .fail _

theorem tellsEnd_readInt (levels : Nat) (t : IntType α) : TellsEnd (readInt levels t) := by
  refine tellsEnd_marker.bind fun m => .ite ((tellsEnd_token m).bind fun k => ?_) (.fail _)
  split
  · exact tellsEnd_ofMismatch _
  · exact tellsEnd_wrongType ..

theorem tellsEnd_readText (levels : Nat) : TellsEnd (readText levels) := by
  refine .value fun t => ?_
  split
  · exact tellsEnd_text _
  · refine (tellsEnd_content _).bind fun bs => ?_
    split
    · exact .pure _
    · exact .fail _
  · exact tellsEnd_wrongType ..

theorem tellsEnd_readUnit (levels : Nat) : TellsEnd (readUnit levels) := by
  refine .value fun t => ?_
  split
  · exact .pure ()
  · exact tellsEnd_wrongType ..

theorem tellsEnd_readKey (levels : Nat) (style : RecordStyle) :
    TellsEnd (readKey levels style) := by
  refine .value fun t => ?_
  split
  · exact .ite (.pure _) (tellsEnd_wrongType ..)
  · refine (tellsEnd_content _).bind fun bs => ?_
    split
    · exact .pure _
    · exact .ite (.fail _) (.pure _)
  · exact (tellsEnd_content _).bind fun _ => .pure _
  · exact tellsEnd_wrongType ..

theorem tellsEnd_items {item : Scan α} (h : TellsEnd item) (n : Nat) (acc : List α) :
    TellsEnd (items item n acc) := by
  induction n generalizing acc with
  | zero => exact .pure _
  | succ n ih => exact h.bind fun a => ih (a :: acc)

theorem tellsEnd_entries {entry : σ → Scan σ} (h : ∀ s, TellsEnd (entry s)) (n : Nat) (s : σ) :
    TellsEnd (entries entry n s) := by
  induction n generalizing s with
  | zero => exact .pure _
  | succ n ih => exact (h s).bind ih

theorem tellsEnd_whole (n : Nat) {scan : Scan (α × Nat)} (h : TellsEnd scan) :
    TellsEnd (whole n scan) := h.bind fun _ => .ite (.pure _) (.fail _)

/-! ### Shapes -/

/-- Where nothing stands there is no value. -/
theorem read_nil (levels : Nat) : ∀ {α : Type} (s : Shape α), read levels s [] = .error .noMarker
  | _, .option s => by
    rw [read]
    simp only [bind, StateT.bind, read_nil levels s]
    rfl
  | _, .int _ | _, .text | _, .unit | _, .list _ | _, .pair .. | _, .table .. | _, .record .. => by
    rw [read]
    rfl

/-- A value that may be absent; if it is not, its first byte tells so. -/
theorem TellsEnd.option {x : Scan α} (h : TellsEnd x) (needs : ∀ r, x [] ≠ .ok r) :
    TellsEnd fun bs => match bs with
      | 0xC0 :: bs => .ok (none, bs)
      | bs => (do return some (← x) : Scan (Option α)) bs := by
  have present : TellsEnd (do return some (← x) : Scan (Option α)) := h.bind fun _ => .pure _
  intro bs a rest found
  dsimp only at found
  split at found
  next =>
    cases found
    exact ⟨[0xC0], rfl, fun _ => rfl⟩
  next other =>
    obtain ⟨front, rfl, same⟩ := present found
    cases front with
    | nil =>
      -- a value of no bytes would be there where nothing stands
      obtain ⟨r, mid, taken, -⟩ := Scan.of_bind_eq_ok (same [])
      exact absurd taken (needs _)
    | cons b front =>
      refine ⟨b :: front, rfl, fun rest' => ?_⟩
      have here : b ≠ 0xC0 := fun e => other (front ++ rest) (by rw [e]; rfl)
      rw [← same rest']
      dsimp only [List.cons_append]
      split
      next e =>
        cases e
        exact absurd rfl here
      next => rfl

mutual

theorem tellsEnd_read (levels : Nat) : ∀ {α : Type} (s : Shape α), TellsEnd (read levels s)
  | _, .int t => by
    rw [read]
    exact tellsEnd_readInt levels t
  | _, .text => by
    rw [read]
    exact tellsEnd_readText levels
  | _, .unit => by
    rw [read]
    exact tellsEnd_readUnit levels
  | _, .option s => by
    rw [read]
    exact (tellsEnd_read levels s).option (by simp [read_nil])
  | _, .list s => by
    rw [read]
    refine .value fun t => ?_
    split
    · exact tellsEnd_enter (fun l => tellsEnd_items (tellsEnd_read l s) _ _) levels
    · exact (tellsEnd_content _).bind fun _ => tellsEnd_ofMismatch _
    · exact tellsEnd_wrongType ..
  | _, .pair (α := γ) a b => by
    rw [read]
    refine .value fun t => ?_
    split
    · refine tellsEnd_enter (fun l => tellsEnd_whole _ ?_) levels
      next n =>
      have second (x : γ) : TellsEnd (do
          let y ← read l b
          return ((x, y), n - 2)) := (tellsEnd_read l b).bind fun _ => .pure _
      have both : TellsEnd (do
          let x ← read l a
          if n = 1 then mismatch (α := Unit) (.wrongLength 1 (Shape.pair a b).expected)
          let y ← read l b
          return ((x, y), n - 2)) :=
        (tellsEnd_read l a).bind fun x => .ite (.bind (.fail _) fun _ => second x) (second x)
      exact .ite (.bind (.fail _) fun _ => both) both
    · refine (tellsEnd_content _).bind fun bs => ?_
      split
      · exact (tellsEnd_ofMismatch _).bind fun _ => (tellsEnd_ofMismatch _).bind fun _ => .pure _
      · exact (tellsEnd_ofMismatch _).bind fun _ => .fail _
      · exact .fail _
    · exact tellsEnd_wrongType ..
  | _, .table key value collect rows => by
    rw [read]
    refine .value fun t => ?_
    split
    · refine tellsEnd_enter (fun l => .bind (tellsEnd_entries (fun acc => ?_) _ _) fun _ =>
        .pure _) levels
      exact (tellsEnd_read l key).bind fun _ => (tellsEnd_read l value).bind fun _ => .pure _
    · exact tellsEnd_wrongType ..
  | _, .record style fields make parts => by
    rw [read]
    refine .value fun t => ?_
    split
    · exact tellsEnd_enter (fun l => tellsEnd_whole _ <|
        (tellsEnd_readFields l style fields 0 _).bind fun _ => (tellsEnd_broken _).bind fun _ =>
          .pure _) levels
    · exact (tellsEnd_content _).bind fun _ => (tellsEnd_ofMismatch _).bind fun _ =>
        tellsEnd_broken _
    · refine tellsEnd_enter (fun l => .bind (tellsEnd_entries (fun slots => ?_) _ _) fun _ =>
        (tellsEnd_ofMismatch _).bind fun _ => tellsEnd_broken _) levels
      refine (tellsEnd_readKey l style).bind fun key => ?_
      dsimp only
      split
      next scan found =>
        obtain ⟨name, -, named⟩ := Option.bind_eq_some_iff.1 found
        exact tellsEnd_readNamed l fields name slots named
      next => exact .ite (.fail _) <| (tellsEnd_skip l).bind fun _ => .pure _
    · exact tellsEnd_wrongType ..

theorem tellsEnd_readFields (levels : Nat) (style : RecordStyle) : ∀ {α : Type}
    (fields : Fields α) (n left : Nat), TellsEnd (readFields levels style fields n left)
  | _, .none, _, _ => by
    rw [readFields]
    exact .pure _
  | _, .field name s default rest, n, left + 1 => by
    unfold readFields
    exact (tellsEnd_read levels s).bind fun _ =>
      (tellsEnd_readFields levels style rest (n + 1) left).bind fun _ => .pure _
  | _, .field name s default rest, n, 0 => by
    unfold readFields
    cases default with
    | none => exact .fail _
    | some a => exact (tellsEnd_readFields levels style rest (n + 1) 0).bind fun _ => .pure _

theorem tellsEnd_readNamed (levels : Nat) : ∀ {α : Type} (fields : Fields α) (key : String)
    (slots : fields.Slots) {x : Scan fields.Slots},
    readNamed levels fields key slots = some x → TellsEnd x
  | _, .none, _, _, _, h => by
    unfold readNamed at h
    cases h
  | _, .field name s default rest, key, slots, x, h => by
    unfold readNamed at h
    split at h
    split at h
    · obtain rfl := Option.some.inj h
      exact .ite (.fail _) <| (tellsEnd_read levels s).bind fun _ => .pure _
    · obtain ⟨y, found, rfl⟩ := Option.map_eq_some_iff.1 h
      exact (tellsEnd_readNamed levels rest key _ found).bind fun _ => .pure _

end

/-! ## Cut values -/

/-- What takes all of some bytes is refused when any of them are missing at the end. -/
theorem exists_error_of_front {s : Shape α} {a : α} {bs front : Bytes}
    (all : read levels s bs = .ok (a, [])) (cut : front <+: bs) (short : front ≠ bs) :
    ∃ e, decode s front = .error e := by
  obtain ⟨more, rfl⟩ := cut
  cases found : read levels s front with
  | error e => exact ⟨e, by rw [decode, found]⟩
  | ok taken =>
    obtain ⟨b, rest⟩ := taken
    -- the same bytes give the same value in front of all that is missing, and leave it
    obtain ⟨own, rfl, same⟩ := tellsEnd_read levels s found
    rw [List.append_assoc, same] at all
    simp only [Except.ok.injEq, Prod.mk.injEq, List.append_eq_nil_iff] at all
    exact absurd (by simp [all.2.2]) short

end RemoteCall.MessagePack
