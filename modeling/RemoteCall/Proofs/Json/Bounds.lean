import RemoteCall.Proofs.Json.Fronts

/-!
# Integers out of bounds in JSON

The digits of a number are an integer only as long as they fit in 64 bits; from there on they are a
floating point number, which no integer type takes. So an integer that is read is the one that is
written (`int_of_number`), and one that the type does not have is refused (`has_of_readInt`).
-/

namespace RemoteCall.Json

/-- Where there is no room for all digits, some of them stay behind. -/
theorem takeDigits_of_le {ds : Bytes} {s : Nat} (k : Nat) (rest : Bytes)
    (all : ∀ b ∈ ds, isDigit b = true) (room : s < 0x10000000000000000)
    (much : 0x10000000000000000 ≤ valueFrom s ds) :
    ∃ s' k' b left, takeDigits s k (ds ++ rest) = (s', k', b :: left ++ rest) ∧
      ∀ c ∈ b :: left, isDigit c = true := by
  induction ds generalizing s k with
  | nil => exact absurd room (Nat.not_lt.2 much)
  | cons b ds ih =>
    have later : ∀ c ∈ ds, isDigit c = true := fun c hc => all c (List.mem_cons_of_mem b hc)
    rw [List.cons_append, takeDigits]
    split
    next fits =>
      simp only [Bool.and_eq_true, decide_eq_true_eq] at fits
      exact ih (k + 1) later fits.2 much
    next => exact ⟨s, k, b, ds, rfl, all⟩

theorem dropDigits_append {ds rest : Bytes} (k : Nat) (all : ∀ b ∈ ds, isDigit b = true)
    (breaks : Breaks rest) : dropDigits k (ds ++ rest) = (k + ds.length, rest) := by
  induction ds generalizing k with
  | nil => exact dropDigits_of_breaks k breaks
  | cons b ds ih =>
    rw [List.cons_append, dropDigits, if_pos (all b List.mem_cons_self),
      ih (k + 1) fun c hc => all c (List.mem_cons_of_mem b hc), List.length_cons]
    simp only [Prod.mk.injEq, and_true]
    omega

theorem afterDigits_of_dropped (negative : Bool) (s dropped : Nat) {rest : Bytes}
    (breaks : Breaks rest) :
    afterDigits negative s (dropped + 1) rest = floatOf negative s (dropped + 1 : Nat) rest := by
  unfold afterDigits
  split
  next bs => exact absurd rfl (breaks 46 rfl).2.1
  next bs => exact absurd rfl (breaks 69 rfl).2.2.1
  next bs => exact absurd rfl (breaks 101 rfl).2.2.2
  next => rw [if_neg (Nat.succ_ne_zero dropped)]

/-- A number of more than 64 bits is a floating point number, if it is any. -/
theorem number_of_le (negative : Bool) {m : Nat} {rest : Bytes}
    (much : 0x10000000000000000 ≤ m) (breaks : Breaks rest) :
    ∃ s e, number negative (digits m ++ rest) = floatOf negative s e rest := by
  obtain ⟨b, ds, spelled, ne⟩ := digits_eq_cons m
  have all : ∀ c ∈ b :: ds, isDigit c = true := spelled ▸ isDigit_of_mem_digits
  have value := valueFrom_of_digits spelled
  have room : digit b < 0x10000000000000000 := by
    have := b.toNat_lt
    unfold digit
    omega
  obtain ⟨s, k, c, left, taken, digits_⟩ := takeDigits_of_le 1 rest
    (fun c hc => all c (List.mem_cons_of_mem b hc)) room (value.symm ▸ much)
  -- at least one digit is dropped, which makes it a floating point number
  have dropped := dropDigits_append 0 digits_ breaks
  rw [List.length_cons, Nat.zero_add] at dropped
  refine ⟨s, (left.length + 1 : Nat), ?_⟩
  rw [spelled, List.cons_append, number, if_neg (ne (by omega)), if_pos (all b (by simp)), taken]
  simp only [dropped]
  exact afterDigits_of_dropped negative s _ breaks

theorem floatOf_ne_int (negative : Bool) (s : Nat) (e n : Int) (bs rest : Bytes) :
    floatOf negative s e bs ≠ .ok (.int n, rest) := by
  intro h
  unfold floatOf at h
  generalize scale 4 (UInt64.ofNat s).toFloat e = scaled at h
  cases scaled <;> cases h

/-- An integer is the one that its digits spell, never a wrapped or rounded one. -/
theorem int_of_number {negative : Bool} {m : Nat} {n : Int} {rest left : Bytes}
    (breaks : Breaks rest) (h : number negative (digits m ++ rest) = .ok (.int n, left)) :
    n = if negative then -(m : Int) else m := by
  rcases Nat.lt_or_ge m 0x10000000000000000 with fits | much
  · rw [number_digits negative fits breaks, afterDigits_of_breaks negative m breaks] at h
    cases negative with
    | false =>
      cases h
      rfl
    | true =>
      rw [if_neg (by decide)] at h
      split at h <;> cases h
      rfl
  · obtain ⟨s, e, long⟩ := number_of_le negative much breaks
    exact absurd (long ▸ h) (floatOf_ne_int negative s e n rest left)

theorem has_of_placing {t : IntType α} {n : Int} {bs rest : Bytes} {a : α}
    (h : placing (t.read n) bs = .ok (a, rest)) : t.has n = true := by
  unfold IntType.read at h
  split at h
  next has => exact has
  next => cases h

/-- An integer that is read is one that the type has. -/
theorem has_of_readInt {t : IntType α} {n : Int} {rest left : Bytes} {a : α}
    (breaks : Breaks rest) (h : readInt t (writeInt n ++ rest) = .ok (a, left)) :
    t.has n = true := by
  rcases Int.lt_or_le n 0 with negative | natural
  · obtain ⟨m, rfl⟩ : ∃ m : Nat, n = -m := ⟨n.natAbs, by omega⟩
    have signed : advance (45 :: (digits m ++ rest)) = .ok ((), digits m ++ rest) := rfl
    rw [writeInt_neg (by omega), List.cons_append, readInt,
      Scan.bind_ok (valueStart_cons _ (by decide)), if_pos rfl, Scan.bind_ok signed] at h
    obtain ⟨k, mid, found, last⟩ := Scan.of_bind_eq_ok h
    cases k with
    | int k =>
      obtain rfl : k = -(m : Int) := int_of_number breaks found
      exact has_of_placing last
    | float x => cases last
  · obtain ⟨m, rfl⟩ := Int.eq_ofNat_of_zero_le natural
    obtain ⟨b, ds, spelled, -⟩ := digits_eq_cons m
    have first : isDigit b = true := isDigit_of_mem_digits b (spelled ▸ List.mem_cons_self)
    obtain ⟨dark, unsigned⟩ := isBlank_of_isDigit first
    rw [writeInt_ofNat, readInt, spelled, List.cons_append, Scan.bind_ok (valueStart_cons _ dark),
      if_neg unsigned, if_pos first, ← List.cons_append, ← spelled] at h
    obtain ⟨k, mid, found, last⟩ := Scan.of_bind_eq_ok h
    cases k with
    | int k =>
      obtain rfl : k = (m : Int) := int_of_number breaks found
      exact has_of_placing last
    | float x => cases last

/-! ## Records -/

theorem brace_not_mem_writeInt (n : Int) : 125 ∉ writeInt n := by
  have brace : isDigit 125 = false := by decide
  have natural (m : Nat) : 125 ∉ digits m := fun member => by
    simp [isDigit_of_mem_digits 125 member] at brace
  rcases Int.lt_or_le n 0 with negative | nonneg
  · obtain ⟨m, rfl⟩ : ∃ m : Nat, n = -m := ⟨n.natAbs, by omega⟩
    rw [writeInt_neg (by omega), List.mem_cons, not_or]
    exact ⟨by decide, natural m⟩
  · obtain ⟨m, rfl⟩ := Int.eq_ofNat_of_zero_le nonneg
    exact writeInt_ofNat m ▸ natural m

/-- The text of a record of one integer. -/
def valueText (n : Int) : Bytes := Utf8.encode ("\x7b\"value\":" ++ toString n ++ "\x7d")

theorem valueText_eq (n : Int) :
    valueText n = 123 :: 34 :: valueKey (58 :: (writeInt n ++ [125])) := by
  have before : Utf8.encode "\x7b\"value\":" = 123 :: 34 :: valueKey [58] := by decide
  have behind : Utf8.encode "\x7d" = [125] := by decide
  rw [valueText, Utf8.encode_append, Utf8.encode_append, before, behind, writeInt, ofString]
  rfl

section
variable {α : Type} (style : RecordStyle) {make : Int64 × Unit → Except String α}
  (parts : α → Int64 × Unit)

/-- An object that is read has read its first entry. -/
theorem of_entries_value {σ : Type} {entry : σ → String → Scan σ} {s s' : σ} {body rest : Bytes}
    {fuel : Nat} (h : entries entry (fuel + 1) true s (34 :: valueKey body) = .ok (s', rest)) :
    ∃ met mid, entry s "value" body = .ok (met, mid) := by
  have key : anotherKey true (34 :: valueKey body) = .ok (true, valueKey body) := rfl
  rw [entries, Scan.bind_ok key, if_pos rfl, Scan.bind_ok (string_valueKey body)] at h
  obtain ⟨met, mid, found, -⟩ := Scan.of_bind_eq_ok h
  exact ⟨met, mid, found⟩

theorem has_of_read_value {n : Int} {a : α} {rest : Bytes}
    (h : read (.record style .value make parts) (valueText n) = .ok (a, rest)) :
    IntType.int64.has n = true := by
  have brace : ∀ rest, advance (123 :: rest) = .ok ((), rest) := fun _ => rfl
  rw [valueText_eq, read, Scan.bind_ok (valueStart_cons _ (by decide)), if_neg (by decide),
    if_pos rfl, Scan.bind_ok (brace _)] at h
  obtain ⟨mid, inside, -⟩ := Scan.of_closing_eq_ok h
  obtain ⟨slots, mid, all, -⟩ := Scan.of_bind_eq_ok inside
  obtain ⟨met, mid, field⟩ := of_entries_value all
  simp only [readNamed, if_true] at field
  have number : ∃ v mid, readInt IntType.int64 (writeInt n ++ [125]) = .ok (v, mid) := by
    obtain ⟨_, _, opened, value⟩ := Scan.of_bind_eq_ok field
    cases opened
    obtain ⟨v, mid, found, -⟩ := Scan.of_bind_eq_ok value
    rw [read] at found
    exact ⟨v, mid, found⟩
  obtain ⟨v, mid, found⟩ := number
  exact has_of_readInt breaks_brace found

theorem read_valueText {n : Int} {a : α} (has : IntType.int64.has n = true)
    (made : make (Int64.ofInt n, ()) = .ok a) :
    read (.record style .value make parts) (valueText n) = .ok (a, []) := by
  have whole := read_value style parts (Int64.ofInt n) made
  rwa [IntType.toInt_ofInt has, ← valueText_eq] at whole

/-- Of all integers exactly those of 64 bits are read, each as itself. -/
theorem decode_valueText_iff {f : Int64 → α} (made : ∀ v, make (v, ()) = .ok (f v)) {n : Int}
    {a : α} : decode (.record style .value make parts) (valueText n) = .ok a ↔
      IntType.int64.has n = true ∧ a = f (Int64.ofInt n) := by
  constructor
  · intro h
    obtain ⟨rest, taken⟩ := read_of_decode_eq_ok h
    have has := has_of_read_value style parts taken
    rw [read_valueText style parts has (made _)] at taken
    cases taken
    exact ⟨has, rfl⟩
  · rintro ⟨has, rfl⟩
    have noMore : finish [] = .ok ((), []) := rfl
    rw [decode, Scan.bind_ok (read_valueText style parts has (made _)), Scan.bind_ok noMore]
    rfl

end

end RemoteCall.Json
