import Mathlib.Tactic.Linarith
import Mathlib.Tactic.Ring
import RemoteCall.Power
import RemoteCall.Proofs.Json.Records

/-!
# Exact powers

Repeated squaring checks each product, and gives up on one that has not 64 bits. Where the power
itself has 64 bits all products on the way to it have, whatever the exponent (`pow?_eq`):

    pow? base exp = narrow? (base.toInt ^ exp)

So a power is answered exactly or refused, and the fourth power is the square of the square, no
matter which of the two does not fit (`powers_are_exact_or_refused`).
-/

namespace RemoteCall

/-! ## Integers of 64 bits -/

theorem fits_iff {n : Int} : fits n = true ↔ -2 ^ 63 ≤ n ∧ n ≤ 2 ^ 63 - 1 := IntType.has_iff

theorem fits_toInt (v : Int64) : fits v.toInt = true := IntType.has_toInt v

theorem narrow?_eq_some_iff {n : Int} {v : Int64} : narrow? n = some v ↔ v.toInt = n := by
  unfold narrow?
  constructor
  · intro found
    obtain ⟨inside, same⟩ := Option.ite_none_right_eq_some.1 found
    obtain rfl := Option.some.inj same
    exact IntType.toInt_ofInt inside
  · rintro rfl
    rw [if_pos (fits_toInt v), Int64.ofInt_toInt]

theorem narrow?_eq_none_iff {n : Int} : narrow? n = none ↔ fits n = false := by
  simp [narrow?]

/-- A factor whose other factor is positive is no larger than the product. -/
theorem fits_of_fits_mul {a n : Int} (positive : 1 ≤ n) (inside : fits (a * n) = true) :
    fits a = true := by
  rw [fits_iff] at inside ⊢
  constructor
  · nlinarith
  · nlinarith

/-- A square that does not fit lies beyond both bounds, since `2 ^ 63` is no square. -/
theorem fits_mul_self {b c : Int} (nonzero : c ≠ 0) (inside : fits (c * (b * b)) = true) :
    fits (b * b) = true := by
  have square : b * b ≠ 2 ^ 63 := by
    intro same
    rcases Int.lt_or_le b.natAbs 3037000500 with small | large
    · have : b * b ≤ 3037000499 * 3037000499 := by
        rw [← Int.natAbs_mul_self' b]
        nlinarith
      omega
    · have : 3037000500 * 3037000500 ≤ b * b := by
        rw [← Int.natAbs_mul_self' b]
        nlinarith
      omega
  rw [fits_iff] at inside ⊢
  have natural : 0 ≤ b * b := mul_self_nonneg b
  rcases Int.lt_or_gt_of_ne nonzero with negative | positive
  · have : b * b ≤ 2 ^ 63 := by nlinarith
    omega
  · have : b * b ≤ 2 ^ 63 - 1 := by nlinarith
    omega

/-- No integer is larger than its powers. -/
theorem fits_of_fits_pow {a : Int} {n : Nat} (more : n ≠ 0) (inside : fits (a ^ n) = true) :
    fits a = true := by
  have larger : a.natAbs ≤ (a ^ n).natAbs := by
    rw [Int.natAbs_pow]
    exact Nat.le_self_pow more _
  rw [fits_iff] at inside ⊢
  rcases Int.lt_or_le a 0 with negative | natural
  · omega
  · have : 0 ≤ a ^ n := pow_nonneg natural n
    omega

namespace Power

/-! ## Repeated squaring -/

theorem mul?_eq_some_iff {a b c : Int64} : mul? a b = some c ↔ c.toInt = a.toInt * b.toInt :=
  narrow?_eq_some_iff

theorem mul?_eq_none_iff {a b : Int64} : mul? a b = none ↔ fits (a.toInt * b.toInt) = false :=
  narrow?_eq_none_iff

section
variable {acc base : Int64} {exp : Nat}

/-- A round takes the base into `acc` if the exponent is odd; the others go on with the square. -/
theorem raise?_of_ne_zero (more : exp ≠ 0) :
    raise? acc base exp = (if exp % 2 = 1 then mul? acc base else some acc).bind fun acc =>
      if exp = 1 then some acc else (mul? base base).bind fun square =>
        raise? acc square (exp / 2) := by
  rw [raise?, if_neg more]
  by_cases odd : exp % 2 = 1
  · simp only [odd, if_true]
    rfl
  · simp only [odd, if_false]
    rfl

/-- What the round takes into `acc`. -/
def factor (base : Int64) (exp : Nat) : Int := if exp % 2 = 1 then base.toInt else 1

theorem factor_eq_zero (gone : factor base exp = 0) : base.toInt = 0 := by
  unfold factor at gone
  split at gone
  next => exact gone
  next => cases gone

theorem round_eq : (if exp % 2 = 1 then mul? acc base else some acc) =
    narrow? (acc.toInt * factor base exp) := by
  unfold factor
  split
  · rfl
  · rw [mul_one, narrow?_eq_some_iff.2 rfl]

theorem pow_eq_factor : base.toInt ^ exp =
    factor base exp * (base.toInt * base.toInt) ^ (exp / 2) := by
  have parts : exp = exp % 2 + 2 * (exp / 2) := (Nat.mod_add_div exp 2).symm
  conv_lhs => rw [parts, pow_add, pow_mul, pow_two]
  unfold factor
  rcases Nat.mod_two_eq_zero_or_one exp with even | odd
  · simp [even]
  · simp [odd]

/-- The product of a round fits if the power does. -/
theorem fits_round (inside : fits (acc.toInt * base.toInt ^ exp) = true) :
    fits (acc.toInt * factor base exp) = true := by
  by_cases gone : base.toInt = 0
  · unfold factor
    split
    · rw [gone, mul_zero]
      rfl
    · rw [mul_one]
      exact fits_toInt acc
  · rw [pow_eq_factor, ← mul_assoc] at inside
    have square : 0 < base.toInt * base.toInt := mul_self_pos.2 gone
    exact fits_of_fits_mul (pow_pos square (exp / 2)) inside

/-- The square fits if the power does, and something is left of `acc`. -/
theorem fits_square (alive : acc.toInt = 0 → base.toInt = 0) (more : 2 ≤ exp)
    (inside : fits (acc.toInt * base.toInt ^ exp) = true) :
    fits (base.toInt * base.toInt) = true := by
  by_cases gone : base.toInt = 0
  · rw [gone]
    rfl
  · have whole : acc.toInt * base.toInt ^ (exp - 2) ≠ 0 :=
      mul_ne_zero (fun none => gone (alive none)) (pow_ne_zero _ gone)
    refine fits_mul_self whole ?_
    rw [← pow_two, mul_assoc, ← pow_add, Nat.sub_add_cancel more]
    exact inside

/-- No product on the way is out of range where the last one is not. The base must be zero if `acc`
is, or else its squares could be too large although nothing is left. -/
theorem raise?_eq (alive : acc.toInt = 0 → base.toInt = 0) :
    raise? acc base exp = narrow? (acc.toInt * base.toInt ^ exp) := by
  induction exp using Nat.strongRecOn generalizing acc base with
  | ind exp ih =>
    by_cases done : exp = 0
    · rw [raise?, if_pos done, done, pow_zero, mul_one, narrow?_eq_some_iff.2 rfl]
    rw [raise?_of_ne_zero done, round_eq]
    cases product : narrow? (acc.toInt * factor base exp) with
    | none =>
      refine (narrow?_eq_none_iff.2 (eq_false_of_ne_true fun inside => ?_)).symm
      rw [narrow?_eq_none_iff, fits_round inside] at product
      cases product
    | some a =>
      have value : a.toInt = acc.toInt * factor base exp := narrow?_eq_some_iff.1 product
      by_cases last : exp = 1
      · subst last
        rw [Option.bind_some, if_pos rfl, ← product, factor, if_pos rfl, pow_one]
      rw [Option.bind_some, if_neg last]
      cases square : mul? base base with
      | none =>
        refine (narrow?_eq_none_iff.2 (eq_false_of_ne_true fun inside => ?_)).symm
        rw [mul?_eq_none_iff, fits_square alive (by omega) inside] at square
        cases square
      | some b =>
        have squared : b.toInt = base.toInt * base.toInt := mul?_eq_some_iff.1 square
        rw [Option.bind_some, ih (exp / 2) (by omega), value, squared, pow_eq_factor, mul_assoc]
        intro gone
        rw [value, mul_eq_zero] at gone
        rw [squared, gone.elim alive factor_eq_zero, mul_zero]

end

/-- The power, if it has 64 bits. -/
theorem pow?_eq (base : Int64) (exp : Nat) : pow? base exp = narrow? (base.toInt ^ exp) := by
  have one : (1 : Int64).toInt = 1 := rfl
  rw [pow?, raise?_eq (by simp [one]), one, one_mul]

/-! ## Answers -/

section
variable {v : Int64} {exp : Nat}

theorem power_eq_ok_iff {r : Response} : power v exp = .ok r ↔ r.value.toInt = v.toInt ^ exp := by
  rw [← narrow?_eq_some_iff, ← pow?_eq, power]
  cases pow? v exp with
  | none => simp
  | some n =>
    obtain ⟨m⟩ := r
    simp

theorem power_eq_error_iff {e : CallError} :
    power v exp = .error e ↔ fits (v.toInt ^ exp) = false ∧ e = overflow v exp := by
  rw [← narrow?_eq_none_iff, ← pow?_eq, power]
  cases pow? v exp with
  | none => simp [eq_comm]
  | some n => simp

/-- A power of a power is found if and only if the power of both is. -/
theorem power_mul_eq_ok_iff {m n : Nat} (more : n ≠ 0) {r : Response} :
    power v (m * n) = .ok r ↔ ∃ s, power v m = .ok s ∧ power s.value n = .ok r := by
  simp only [power_eq_ok_iff]
  constructor
  · intro value
    have inside : fits (v.toInt ^ m) = true := by
      refine fits_of_fits_pow more ?_
      rw [← pow_mul, ← value]
      exact fits_toInt r.value
    cases inner : narrow? (v.toInt ^ m) with
    | none => simp [narrow?_eq_none_iff.1 inner] at inside
    | some w =>
      have step := narrow?_eq_some_iff.1 inner
      exact ⟨⟨w⟩, step, by rw [value, step, pow_mul]⟩
  · rintro ⟨s, inner, outer⟩
    rw [outer, inner, pow_mul]

end

/-- The answer is `n` if that has 64 bits, and otherwise the service's own error with this text. -/
structure ExactOrRefused (answer : Except CallError Response) (n : Int) (text : String) : Prop where
  answers : (∃ r, answer = .ok r ∧ r.value.toInt = n) ↔ n ≤ 2 ^ 63 - 1
  /-- No other value is ever answered. -/
  exact : ∀ r, answer = .ok r → r.value.toInt = n
  refuses : ∀ e, answer = .error e ↔ 2 ^ 63 - 1 < n ∧ e = .invocation text
  /-- The transport is never at fault. -/
  service : ∀ e, answer = .error e → e.isTransport = false

theorem exactOrRefused_power {v : Int64} {exp : Nat} (natural : 0 ≤ v.toInt ^ exp) :
    ExactOrRefused (power v exp) (v.toInt ^ exp)
      (toString v.toInt ++ "^" ++ toString exp ++ " overflows i64") where
  answers := by
    constructor
    · rintro ⟨r, -, value⟩
      exact value ▸ (fits_iff.1 (fits_toInt r.value)).2
    · intro inside
      have found : fits (v.toInt ^ exp) = true := fits_iff.2 ⟨by omega, inside⟩
      cases answer : power v exp with
      | ok r => exact ⟨r, rfl, power_eq_ok_iff.1 answer⟩
      | error e => simp [(power_eq_error_iff.1 answer).1] at found
  exact r := power_eq_ok_iff.1
  refuses e := by
    have outside : fits (v.toInt ^ exp) = false ↔ 2 ^ 63 - 1 < v.toInt ^ exp := by
      rw [← Bool.not_eq_true, fits_iff]
      omega
    rw [power_eq_error_iff, outside, overflow]
  service e refused := by
    rw [(power_eq_error_iff.1 refused).2]
    rfl

/-- The square and the fourth power of any integer of 64 bits are answered exactly if they have 64
bits themselves, and otherwise refused by the service with a text that tells which power it was. The
fourth power is the square of the square: it is answered if both squares are, and as the second. -/
theorem powers_are_exact_or_refused (v : Int64) :
    ExactOrRefused (powerOfTwo ⟨v⟩) (v.toInt * v.toInt) (toString v.toInt ++ "^2 overflows i64") ∧
      ExactOrRefused (powerOfFour ⟨v⟩) (v.toInt * v.toInt * v.toInt * v.toInt)
        (toString v.toInt ++ "^4 overflows i64") ∧
      ∀ r, powerOfFour ⟨v⟩ = .ok r ↔
        ∃ s, powerOfTwo ⟨v⟩ = .ok s ∧ powerOfTwo ⟨s.value⟩ = .ok r := by
  have square : v.toInt ^ 2 = v.toInt * v.toInt := pow_two _
  have fourth : v.toInt ^ 4 = v.toInt * v.toInt * v.toInt * v.toInt := by ring
  have natural : 0 ≤ v.toInt * v.toInt := mul_self_nonneg _
  refine ⟨?_, ?_, fun r => ?_⟩
  · have two := exactOrRefused_power (square ▸ natural)
    rw [square, String.append_assoc, String.append_assoc] at two
    exact two
  · have four := @exactOrRefused_power v 4 (by positivity)
    rw [fourth, String.append_assoc, String.append_assoc] at four
    exact four
  · exact @power_mul_eq_ok_iff v 2 2 (by decide) r

example : powerOfTwo ⟨3037000499⟩ = .ok ⟨9223372030926249001⟩ ∧
    powerOfTwo ⟨3037000500⟩ = .error (.invocation "3037000500^2 overflows i64") ∧
    powerOfFour ⟨-55108⟩ = .ok ⟨9222710978872688896⟩ ∧
    powerOfFour ⟨55109⟩ = .error (.invocation "55109^4 overflows i64") := by
  decide +kernel

end Power

end RemoteCall
