import RemoteCall.Json.Printer
import RemoteCall.Json.Reader

/-!
# Integers in JSON

An integer is written in its decimal digits, behind a minus sign if it is negative. It is read back
exactly, whatever follows it, as long as that does not go on with the number (`Breaks`):

    readInt t (writeInt n ++ rest) = .ok (t.ofInt n, rest)                        (readInt_writeInt)
-/

namespace RemoteCall

theorem Utf8.encode_append (s t : String) : encode (s ++ t) = encode s ++ encode t := by
  simp [encode, String.toByteArray_append]

/-- A text is the bytes of its characters. -/
theorem Utf8.encode_ofList (cs : List Char) :
    encode (String.ofList cs) = cs.flatMap String.utf8EncodeChar := by
  simp [encode, List.utf8Encode]

namespace Json

/-! ## Digits -/

/-- The number in decimal digits. -/
def digits (m : Nat) : Bytes := (Nat.toDigits 10 m).flatMap String.utf8EncodeChar

/-- The number that digits spell, behind those that spell `s`. -/
def valueFrom (s : Nat) (ds : Bytes) : Nat := ds.foldl (fun s b => s * 10 + digit b) s

theorem encode_digitChar : ∀ d < 10,
    String.utf8EncodeChar (Nat.digitChar d) = [UInt8.ofNat (48 + d)] := by
  decide

theorem digits_of_lt {m : Nat} (h : m < 10) : digits m = [UInt8.ofNat (48 + m)] := by
  simp [digits, Nat.toDigits_of_lt_base h, encode_digitChar m h]

/-- The last digit comes off the end. -/
theorem digits_of_le {m : Nat} (h : 10 ≤ m) :
    digits m = digits (m / 10) ++ [UInt8.ofNat (48 + m % 10)] := by
  rw [digits, Nat.toDigits_of_base_le (by decide) h]
  simp [digits, encode_digitChar (m % 10) (Nat.mod_lt m (by decide))]

theorem isDigit_ofNat : ∀ d < 10, isDigit (UInt8.ofNat (48 + d)) = true := by
  decide

theorem digit_ofNat : ∀ d < 10, digit (UInt8.ofNat (48 + d)) = d := by
  decide

theorem isDigit_of_mem_digits {m : Nat} : ∀ b ∈ digits m, isDigit b = true := by
  induction m using Nat.strongRecOn with
  | ind m ih =>
    intro b hb
    rcases Nat.lt_or_ge m 10 with small | large
    · rw [digits_of_lt small, List.mem_singleton] at hb
      exact hb ▸ isDigit_ofNat m small
    · rw [digits_of_le large, List.mem_append, List.mem_singleton] at hb
      rcases hb with front | rfl
      · exact ih (m / 10) (by omega) b front
      · exact isDigit_ofNat (m % 10) (by omega)

theorem valueFrom_digits (m : Nat) : valueFrom 0 (digits m) = m := by
  induction m using Nat.strongRecOn with
  | ind m ih =>
    rcases Nat.lt_or_ge m 10 with small | large
    · rw [digits_of_lt small, valueFrom, List.foldl_cons, List.foldl_nil, digit_ofNat m small]
      omega
    · have front := ih (m / 10) (by omega)
      rw [valueFrom] at front
      rw [digits_of_le large, valueFrom, List.foldl_append, front]
      simp only [List.foldl_cons, List.foldl_nil, digit_ofNat (m % 10) (by omega)]
      omega

/-- Only zero begins with the digit zero. -/
theorem digits_eq_cons (m : Nat) : ∃ b ds, digits m = b :: ds ∧ (m ≠ 0 → b ≠ 48) := by
  induction m using Nat.strongRecOn with
  | ind m ih =>
    rcases Nat.lt_or_ge m 10 with small | large
    · have nonzero : ∀ d < 10, d ≠ 0 → UInt8.ofNat (48 + d) ≠ 48 := by decide
      exact ⟨_, [], digits_of_lt small, nonzero m small⟩
    · obtain ⟨b, ds, front, ne⟩ := ih (m / 10) (by omega)
      exact ⟨b, ds ++ [UInt8.ofNat (48 + m % 10)], by rw [digits_of_le large, front]; rfl,
        fun _ => ne (by omega)⟩

theorem valueFrom_of_digits {m : Nat} {b : UInt8} {ds : Bytes} (spelled : digits m = b :: ds) :
    valueFrom (digit b) ds = m := by
  have whole := valueFrom_digits m
  rw [spelled] at whole
  simpa [valueFrom] using whole

theorem length_digits_le {m k : Nat} (hk : 0 < k) (h : m < Nat.pow 10 k) :
    (digits m).length ≤ k := by
  induction k generalizing m with
  | zero => omega
  | succ k ih =>
    rcases Nat.lt_or_ge m 10 with small | large
    · simp [digits_of_lt small]
    · have power : Nat.pow 10 (k + 1) = 10 * Nat.pow 10 k := Nat.mul_comm ..
      have positive : 0 < k := by
        rcases Nat.eq_zero_or_pos k with rfl | positive
        · have one : Nat.pow 10 0 = 1 := rfl
          omega
        · exact positive
      have front : (digits (m / 10)).length ≤ k := ih positive (by omega)
      rw [digits_of_le large, List.length_append]
      exact Nat.succ_le_succ front

/-! ## What is written -/

theorem writeInt_ofNat (m : Nat) : writeInt m = digits m := by
  have text : toString (m : Int) = String.ofList (Nat.toDigits 10 m) :=
      Nat.toString_eq_ofList_toDigits
  rw [writeInt, ofString, text, Utf8.encode_ofList, digits]

theorem writeInt_neg {m : Nat} (h : m ≠ 0) : writeInt (-m) = 45 :: digits m := by
  obtain ⟨k, rfl⟩ := Nat.exists_eq_succ_of_ne_zero h
  have text : toString (-((k + 1 : Nat) : Int)) =
      "-" ++ String.ofList (Nat.toDigits 10 (k + 1)) :=
    congrArg ("-" ++ ·) Nat.toString_eq_ofList_toDigits
  have sign : Utf8.encode "-" = [45] := by decide
  rw [writeInt, ofString, text, Utf8.encode_append, sign, Utf8.encode_ofList]
  rfl

/-- An integer of 64 bits takes a sign and nineteen digits at most. -/
theorem length_writeInt_le {n : Int} (low : -0x8000000000000000 ≤ n)
    (high : n ≤ 0x7FFFFFFFFFFFFFFF) :
    (writeInt n).length ≤ 20 := by
  rcases Int.lt_or_le n 0 with negative | natural
  · obtain ⟨m, rfl⟩ : ∃ m : Nat, n = -m := ⟨n.natAbs, by omega⟩
    have short : (digits m).length ≤ 19 := length_digits_le (by decide) (Nat.lt_of_le_of_lt
      (show m ≤ 0x8000000000000000 by omega) (by decide))
    rw [writeInt_neg (by omega)]
    exact Nat.succ_le_succ short
  · obtain ⟨m, rfl⟩ := Int.eq_ofNat_of_zero_le natural
    have short : (digits m).length ≤ 19 := length_digits_le (by decide) (Nat.lt_of_le_of_lt
      (show m ≤ 0x7FFFFFFFFFFFFFFF by omega) (by decide))
    rw [writeInt_ofNat]
    exact Nat.le_succ_of_le short

/-! ## What is read -/

theorem le_valueFrom (s : Nat) (ds : Bytes) : s ≤ valueFrom s ds := by
  induction ds generalizing s with
  | nil => exact Nat.le_refl s
  | cons b ds ih =>
    have step : s ≤ s * 10 + digit b := by omega
    exact Nat.le_trans step (ih _)

/-- Neither a digit nor a sign of a fraction or an exponent comes next. -/
def Breaks (rest : Bytes) : Prop :=
  ∀ b, rest.head? = some b → isDigit b = false ∧ b ≠ 46 ∧ b ≠ 69 ∧ b ≠ 101

theorem takeDigits_append {ds rest : Bytes} {s k : Nat} (all : ∀ b ∈ ds, isDigit b = true)
    (fits : valueFrom s ds < 0x10000000000000000) (breaks : Breaks rest) :
    takeDigits s k (ds ++ rest) = (valueFrom s ds, k + ds.length, rest) := by
  induction ds generalizing s k with
  | nil =>
    cases rest with
    | nil => rfl
    | cons b rest => simp [takeDigits, (breaks b rfl).1, valueFrom]
  | cons b ds ih =>
    have first := all b (by simp)
    have small : s * 10 + digit b < 0x10000000000000000 :=
      Nat.lt_of_le_of_lt (le_valueFrom _ ds) fits
    rw [List.cons_append, takeDigits, if_pos (by simp [first, small]),
      ih (fun c hc => all c (List.mem_cons_of_mem b hc)) fits]
    simp [valueFrom]
    omega

theorem dropDigits_of_breaks (k : Nat) {rest : Bytes} (breaks : Breaks rest) :
    dropDigits k rest = (k, rest) := by
  cases rest with
  | nil => rfl
  | cons b rest => simp [dropDigits, (breaks b rfl).1]

/-- The digits are all that there is of the number. -/
theorem afterDigits_of_breaks (negative : Bool) (m : Nat) {rest : Bytes} (breaks : Breaks rest) :
    afterDigits negative m 0 rest =
      if !negative then .ok (.int m, rest)
      else if 0 < m ∧ m ≤ 0x8000000000000000 then .ok (.int (-m), rest)
      else .ok (.float (-(UInt64.ofNat m).toFloat), rest) := by
  unfold afterDigits
  split
  next bs => exact absurd rfl (breaks 46 rfl).2.1
  next bs => exact absurd rfl (breaks 69 rfl).2.2.1
  next bs => exact absurd rfl (breaks 101 rfl).2.2.2
  next => rfl

theorem number_digits (negative : Bool) {m : Nat} {rest : Bytes}
    (fits : m < 0x10000000000000000) (breaks : Breaks rest) :
    number negative (digits m ++ rest) = afterDigits negative m 0 rest := by
  rcases Nat.eq_zero_or_pos m with rfl | positive
  · have zero : digits 0 = [48] := digits_of_lt (by decide)
    have end_ : startsWithDigit rest = false := by
      cases rest with
      | nil => rfl
      | cons b rest => exact (breaks b rfl).1
    simp [zero, number, end_]
  · obtain ⟨b, ds, spelled, ne⟩ := digits_eq_cons m
    have ne := ne (Nat.ne_of_gt positive)
    have all : ∀ c ∈ b :: ds, isDigit c = true := spelled ▸ isDigit_of_mem_digits
    have value := valueFrom_of_digits spelled
    rw [spelled, List.cons_append, number, if_neg ne, if_pos (all b (by simp)),
      takeDigits_append (fun c hc => all c (List.mem_cons_of_mem b hc)) (value ▸ fits) breaks,
      value]
    simp only [dropDigits_of_breaks 0 breaks]

/-! ## Reading off the front -/

theorem valueStart_cons {b : UInt8} (bs : Bytes) (h : isBlank b = false) :
    valueStart (b :: bs) = .ok (b, b :: bs) := by
  have kept : skipBlank (b :: bs) = b :: bs := by simp [skipBlank, h]
  have start : blank (b :: bs) = .ok ((), b :: bs) := by rw [blank, kept]
  rw [valueStart, Scan.bind_ok start]
  rfl

theorem isBlank_of_isDigit {b : UInt8} (h : isDigit b = true) : isBlank b = false ∧ b ≠ 45 := by
  have low : 48 ≤ b.toNat := by
    simp only [isDigit, Bool.and_eq_true, decide_eq_true_eq] at h
    exact UInt8.le_iff_toNat_le.1 h.1
  have other : ∀ k : UInt8, k.toNat < 48 → b ≠ k := by
    rintro k small rfl
    omega
  refine ⟨?_, other 45 (by decide)⟩
  simp [isBlank, other 32 (by decide), other 10 (by decide), other 9 (by decide),
    other 13 (by decide)]

/-- An integer that was written is read back if the type has it. -/
theorem readInt_writeInt {t : IntType α} {n : Int} {rest : Bytes} (has : t.has n = true)
    (low : -0x8000000000000000 ≤ n) (high : n ≤ 0x7FFFFFFFFFFFFFFF) (breaks : Breaks rest) :
    readInt t (writeInt n ++ rest) = .ok (t.ofInt n, rest) := by
  rcases Int.lt_or_le n 0 with negative | natural
  · obtain ⟨m, rfl⟩ : ∃ m : Nat, n = -m := ⟨n.natAbs, by omega⟩
    have found : number true (digits m ++ rest) = .ok (.int (-m), rest) := by
      rw [number_digits true (by omega) breaks, afterDigits_of_breaks true m breaks,
        if_neg (by decide), if_pos (by omega)]
    rw [writeInt_neg (by omega), List.cons_append, readInt,
      Scan.bind_ok (valueStart_cons _ (by decide)), if_pos rfl]
    have signed : advance (45 :: (digits m ++ rest)) = .ok ((), digits m ++ rest) := rfl
    rw [Scan.bind_ok signed, Scan.bind_ok found]
    simp only [IntType.read, has, placing, if_true]
    rfl
  · obtain ⟨m, rfl⟩ := Int.eq_ofNat_of_zero_le natural
    have found : number false (digits m ++ rest) = .ok (.int m, rest) := by
      rw [number_digits false (by omega) breaks, afterDigits_of_breaks false m breaks,
        if_pos (by decide)]
    obtain ⟨b, ds, spelled, -⟩ := digits_eq_cons m
    have first : isDigit b = true := isDigit_of_mem_digits b (spelled ▸ List.mem_cons_self)
    obtain ⟨dark, unsigned⟩ := isBlank_of_isDigit first
    rw [spelled, List.cons_append] at found
    rw [writeInt_ofNat, readInt, spelled, List.cons_append, Scan.bind_ok (valueStart_cons _ dark),
      if_neg unsigned, if_pos first, Scan.bind_ok found]
    simp only [IntType.read, has, placing, if_true]
    rfl

end Json

end RemoteCall
