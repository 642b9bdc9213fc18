import Mathlib.Algebra.Ring.Int.Defs
import RemoteCall.Power
import RemoteCall.Proofs.Format
import RemoteCall.Proofs.Json.Bounds
import RemoteCall.Proofs.MessagePack.Fronts

/-!
# Exact payloads

The payload of a record of one integer gives the record back, and no part of it that lacks its end
is a payload (`Format.exact_value`). Of all integers that a JSON text can spell, exactly those of 64
bits are taken, each as itself (`payloads_are_exact`).
-/

namespace RemoteCall

/-- The value has a payload, which gives it back, and which nothing at its end can be missing
from. -/
def Format.Exact [Payload α] (format : Format) (a : α) : Prop :=
  ∃ bs, format.encode a = .ok bs ∧ format.decode bs = .ok a ∧
    ∀ front, front <+: bs → front ≠ bs → ∃ e, (format.decode front : Except IoError α) = .error e

theorem Json.brace_not_mem_value (n : Int) : 125 ∉ 34 :: valueKey (58 :: writeInt n) := by
  simp [valueKey, brace_not_mem_writeInt]

section
variable {α : Type} {style : RecordStyle} {make : Int64 × Unit → Except String α}
  {parts : α → Int64 × Unit}

theorem Format.exact_value [Payload α]
    (shape : Payload.shape = .record style .value make parts) (format : Format) (a : α)
    (made : make (parts a) = .ok a) : format.Exact a := by
  cases format with
  | json =>
    obtain ⟨bs, text, -, back⟩ := Json.decode_encode_value style parts a made
    refine ⟨bs, by rw [encode, shape, text], by simp only [decode, shape, back], ?_⟩
    intro front cut short
    rw [Json.encode, Json.write_value] at text
    obtain rfl := Except.ok.inj text
    obtain ⟨e, refused⟩ : ∃ e, Json.decode (.record style .value make parts) front = .error e :=
      Json.exists_error_of_front (Json.brace_not_mem_value _) cut short
    exact ⟨e.toIo, by simp only [decode, shape, refused]⟩
  | messagePack =>
    obtain ⟨-, back⟩ := MessagePack.decode_encode_value style parts a made
    refine ⟨_, by rw [encode, shape], by simp only [decode, shape, back], ?_⟩
    intro front cut short
    obtain ⟨e, refused⟩ := MessagePack.exists_error_of_front
      (MessagePack.read_encode_value style parts a made) cut short
    exact ⟨e.toIo, by simp only [decode, shape, refused]⟩

end

theorem Format.decode_json_eq_ok_iff [Payload α] {bs : Bytes} {a : α} :
    Format.json.decode bs = .ok a ↔ Json.decode Payload.shape bs = .ok a := by
  rw [decode]
  split
  next found => rw [found, Except.ok.injEq, Except.ok.injEq]
  next found => simp [found]

theorem decode_request_iff {n : Int} {r : Request} :
    Format.json.decode (Json.valueText n) = .ok r ↔
      IntType.int64.has n = true ∧ r = ⟨Int64.ofInt n⟩ :=
  Format.decode_json_eq_ok_iff.trans <|
    Json.decode_valueText_iff (.plain "Request" 1) (fun r : Request => (r.value, ())) fun _ => rfl

/-- Requests and responses have exact payloads in all formats, and a JSON text of an integer is a
request exactly if the integer has 64 bits. Then it is the value of the request, never a wrapped,
rounded or clamped one. -/
theorem payloads_are_exact (format : Format) :
    (∀ v, format.Exact (Request.mk v)) ∧ (∀ v, format.Exact (Response.mk v)) ∧
      ∀ n : Int, ((∃ r : Request, Format.json.decode (Json.valueText n) = .ok r) ↔
          -2 ^ 63 ≤ n ∧ n < 2 ^ 63) ∧
        ∀ r : Request, Format.json.decode (Json.valueText n) = .ok r → r.value.toInt = n := by
  refine ⟨fun v => Format.exact_value rfl format _ rfl,
    fun v => Format.exact_value rfl format _ rfl, fun n => ⟨?_, fun r taken => ?_⟩⟩
  · have inside : IntType.int64.has n = true ↔ -2 ^ 63 ≤ n ∧ n < 2 ^ 63 := by
      rw [IntType.has_iff]
      omega
    rw [← inside]
    constructor
    · rintro ⟨r, taken⟩
      exact (decode_request_iff.1 taken).1
    · intro has
      exact ⟨_, decode_request_iff.2 ⟨has, rfl⟩⟩
  · obtain ⟨has, rfl⟩ := decode_request_iff.1 taken
    exact IntType.toInt_ofInt has

example : Format.json.decode (Json.valueText (2 ^ 63 - 1)) =
      .ok (Request.mk 9223372036854775807) ∧
    Format.json.decode (Json.valueText (2 ^ 63)) = (.error ⟨.invalidData,
      "invalid value: integer " ++ ticked "9223372036854775808" ++
        ", expected i64 at line 1 column 28"⟩ : Except IoError Request) := by
  decide +kernel

end RemoteCall
