import RemoteCall.Proofs.Json.Records

/-!
# What a JSON reader takes

A reader takes bytes off the front: what it leaves is the end of what there was (`TakesFront`). That
holds of every part of the reader and so of the values of every shape. An object is closed by a
brace, which is therefore among the bytes: a text that is cut before its only closing brace is
refused (`exists_error_of_front`).
-/

namespace RemoteCall.Json

/-- What is left is the end of what there was. -/
def TakesFront (x : Scan α) : Prop := ∀ ⦃bs a rest⦄, x bs = .ok (a, rest) → rest <:+ bs

namespace TakesFront

variable {α β : Type} {x y : Scan α} {f : α → Scan β}

theorem pure (a : α) : TakesFront (Pure.pure a : Scan α) := by
  rintro bs b rest h
  cases h
  exact List.suffix_refl bs

theorem here (c : Cause) : TakesFront (here c : Scan α) := fun _ _ _ h => by cases h

theorem peeked (c : Cause) : TakesFront (peeked c : Scan α) := fun _ _ _ h => by cases h

theorem loose (m : Mismatch) : TakesFront (loose m : Scan α) := fun _ _ _ h => by cases h

theorem bind (first : TakesFront x) (second : ∀ a, TakesFront (f a)) :
    TakesFront (x >>= f) := by
  intro bs b rest h
  obtain ⟨a, mid, found, next⟩ := Scan.of_bind_eq_ok h
  exact (second a next).trans (first found)

theorem ite {c : Prop} [Decidable c] (hx : TakesFront x) (hy : TakesFront y) :
    TakesFront (if c then x else y) := by
  split
  · exact hx
  · exact hy

theorem blank : TakesFront blank := by
  rintro bs a rest h
  cases h
  exact List.dropWhile_suffix _

theorem next? : TakesFront next? := by
  rintro bs a rest h
  cases h
  exact List.suffix_refl bs

theorem advance : TakesFront advance := by
  rintro bs a rest h
  cases h
  exact List.tail_suffix bs

/-- What comes next decides how it goes on. -/
theorem peek {g : Option UInt8 → Scan α} (atEnd : TakesFront (g none))
    (before : ∀ b, TakesFront (g (some b))) : TakesFront (Json.next? >>= g) := by
  refine next?.bind fun b => ?_
  cases b with
  | none => exact atEnd
  | some b => exact before b

theorem word (cs : Bytes) : TakesFront (word cs) := by
  induction cs with
  | nil => exact pure ()
  | cons c cs ih =>
    intro bs a rest h
    cases bs with
    | nil => cases h
    | cons b bs =>
      simp only [Json.word] at h
      split at h
      · exact (ih h).trans (List.suffix_cons b bs)
      · cases h

end TakesFront

/-! ## Numbers -/

theorem takeDigits_suffix (s k : Nat) (bs : Bytes) : (takeDigits s k bs).2.2 <:+ bs := by
  induction bs generalizing s k with
  | nil => exact List.suffix_refl []
  | cons b bs ih =>
    rw [takeDigits]
    split
    · exact (ih _ _).trans (List.suffix_cons b bs)
    · exact List.suffix_refl _

theorem dropDigits_suffix (k : Nat) (bs : Bytes) : (dropDigits k bs).2 <:+ bs := by
  induction bs generalizing k with
  | nil => exact List.suffix_refl []
  | cons b bs ih =>
    rw [dropDigits]
    split
    · exact (ih _).trans (List.suffix_cons b bs)
    · exact List.suffix_refl _

theorem exponentDigits_suffix (e : Nat) (bs : Bytes) : (exponentDigits e bs).2 <:+ bs := by
  induction bs generalizing e with
  | nil => exact List.suffix_refl []
  | cons b bs ih =>
    rw [exponentDigits]
    split
    · split
      · exact (ih _).trans (List.suffix_cons b bs)
      · exact List.suffix_cons b bs
    · exact List.suffix_refl _

theorem takesFront_floatOf (negative : Bool) (s : Nat) (e : Int) :
    TakesFront (floatOf negative s e) := by
  unfold floatOf
  split
  · exact .here _
  · exact .pure _

theorem takesFront_unsignedExponent (negative : Bool) (s : Nat) (start : Int) (down : Bool) :
    TakesFront (unsignedExponent negative s start down) := by
  intro bs n rest h
  unfold unsignedExponent at h
  split at h
  next => cases h
  next b bs =>
    have digits := (exponentDigits_suffix (digit b) bs).trans (List.suffix_cons b bs)
    split at h
    · cases h
    · split at h
      next e left taken =>
        rw [taken] at digits
        exact (takesFront_floatOf _ _ _ h).trans digits
      next left taken =>
        rw [taken] at digits
        split at h
        · cases h
        · cases h
          exact (dropDigits_suffix 0 left).trans digits

theorem takesFront_exponent (negative : Bool) (s : Nat) (start : Int) :
    TakesFront (exponent negative s start) := by
  intro bs n rest h
  unfold exponent at h
  split at h
  · exact (takesFront_unsignedExponent _ _ _ _ h).trans (List.suffix_cons _ _)
  · exact (takesFront_unsignedExponent _ _ _ _ h).trans (List.suffix_cons _ _)
  · exact takesFront_unsignedExponent _ _ _ _ h

theorem takesFront_afterFraction (negative : Bool) (s : Nat) (e : Int) :
    TakesFront (afterFraction negative s e) := by
  intro bs n rest h
  unfold afterFraction at h
  split at h
  · exact (takesFront_exponent _ _ _ h).trans (List.suffix_cons _ _)
  · exact (takesFront_exponent _ _ _ h).trans (List.suffix_cons _ _)
  · exact takesFront_floatOf _ _ _ h

theorem takesFront_fraction (negative : Bool) (s : Nat) (e : Int) :
    TakesFront (fraction negative s e) := by
  intro bs n rest h
  have digits := takeDigits_suffix s 0 bs
  simp only [fraction] at h
  split at h
  · exact (takesFront_afterFraction _ _ _ h).trans ((dropDigits_suffix 0 _).trans digits)
  · split at h
    · split at h <;> cases h
    · exact (takesFront_afterFraction _ _ _ h).trans digits

theorem takesFront_afterDigits (negative : Bool) (s dropped : Nat) :
    TakesFront (afterDigits negative s dropped) := by
  intro bs n rest h
  unfold afterDigits at h
  split at h
  · exact (takesFront_fraction _ _ _ h).trans (List.suffix_cons _ _)
  · exact (takesFront_exponent _ _ _ h).trans (List.suffix_cons _ _)
  · exact (takesFront_exponent _ _ _ h).trans (List.suffix_cons _ _)
  · split at h
    · repeat' split at h
      all_goals
        cases h
        exact List.suffix_refl _
    · exact takesFront_floatOf _ _ _ h

theorem takesFront_number (negative : Bool) : TakesFront (number negative) := by
  intro bs n rest h
  unfold number at h
  split at h
  next => cases h
  next b bs =>
    split at h
    · split at h
      · cases h
      · exact (takesFront_afterDigits _ _ _ h).trans (List.suffix_cons b bs)
    · split at h
      · exact (takesFront_afterDigits _ _ _ h).trans <| (dropDigits_suffix _ _).trans <|
          (takeDigits_suffix _ _ _).trans (List.suffix_cons b bs)
      · cases h

/-! ## Strings -/

theorem takesFront_hex4 : TakesFront hex4 := by
  intro bs n rest h
  unfold hex4 at h
  split at h
  · split at h
    · cases h
      exact ⟨[_, _, _, _], rfl⟩
    · cases h
  · cases h

theorem takesFront_within (b : UInt8) : TakesFront (within b) := by
  intro bs n rest h
  unfold within at h
  split at h
  · cases h
  · split at h
    · cases h
      exact List.suffix_cons _ _
    · cases h

theorem takesFront_unicodeEscape : TakesFront unicodeEscape :=
  takesFront_hex4.bind fun _ => .ite (.here _) <| .ite (.pure _) <|
    (takesFront_within 92).bind fun _ => (takesFront_within 117).bind fun _ =>
      takesFront_hex4.bind fun _ => .ite (.pure _) (.here _)

theorem takesFront_escape : TakesFront escape := by
  intro bs out rest h
  unfold escape at h
  split at h
  · cases h
  · split at h
    · cases h
      exact List.suffix_cons _ _
    · split at h
      · exact (takesFront_unicodeEscape h).trans (List.suffix_cons _ _)
      · cases h

theorem takesFront_stringBytes (fuel : Nat) (acc : Bytes) : TakesFront (stringBytes fuel acc) := by
  induction fuel generalizing acc with
  | zero => exact .here _
  | succ fuel ih =>
    intro bs content rest h
    unfold stringBytes at h
    split at h
    next => cases h
    next b bs =>
      refine List.IsSuffix.trans ?_ (List.suffix_cons b bs)
      split at h
      · cases h
        exact List.suffix_refl _
      · split at h
        · split at h
          next => cases h
          next out left taken => exact (ih _ h).trans (takesFront_escape taken)
        · split at h
          · cases h
          · exact ih _ h

theorem takesFront_string : TakesFront string := by
  intro bs s rest h
  unfold string at h
  split at h
  next => cases h
  next content left found =>
    split at h
    · cases h
      exact takesFront_stringBytes _ _ found
    · cases h

/-! ## Values that nobody asks for -/

theorem takesFront_skipExponent : TakesFront skipExponent := by
  intro bs a rest h
  simp only [skipExponent] at h
  split at h
  next => cases h
  next b left signed =>
    have behind : b :: left <:+ bs := by
      split at signed
      · exact signed ▸ List.suffix_cons _ _
      · exact signed ▸ List.suffix_cons _ _
      · exact signed ▸ List.suffix_refl _
    split at h
    · cases h
      exact ((List.dropWhile_suffix _).trans (List.suffix_cons b left)).trans behind
    · cases h

theorem takesFront_skipAfterDigits : TakesFront skipAfterDigits := by
  intro bs a rest h
  unfold skipAfterDigits at h
  split at h
  · exact (takesFront_skipExponent h).trans (List.suffix_cons _ _)
  · exact (takesFront_skipExponent h).trans (List.suffix_cons _ _)
  · cases h
    exact List.suffix_refl _

theorem takesFront_skipFraction : TakesFront skipFraction := by
  intro bs a rest h
  unfold skipFraction at h
  split at h
  · split at h
    · exact (takesFront_skipAfterDigits h).trans <|
        (List.dropWhile_suffix _).trans (List.suffix_cons _ _)
    · cases h
  · exact takesFront_skipAfterDigits h

theorem takesFront_skipNumber : TakesFront skipNumber := by
  intro bs a rest h
  unfold skipNumber at h
  split at h
  · cases h
  · split at h
    · split at h
      · cases h
      · exact (takesFront_skipFraction h).trans (List.suffix_cons _ _)
    · split at h
      · exact (takesFront_skipFraction h).trans <|
          (List.dropWhile_suffix _).trans (List.suffix_cons _ _)
      · cases h

theorem takesFront_skipStringAux (fuel : Nat) : TakesFront (skipStringAux fuel) := by
  induction fuel with
  | zero => exact .here _
  | succ fuel ih =>
    intro bs a rest h
    unfold skipStringAux at h
    split at h
    next => cases h
    next b bs =>
      refine List.IsSuffix.trans ?_ (List.suffix_cons b bs)
      split at h
      · cases h
        exact List.suffix_refl _
      · split at h
        · split at h
          next => cases h
          next e bs =>
            refine List.IsSuffix.trans ?_ (List.suffix_cons e bs)
            split at h
            · exact ih h
            · split at h
              · split at h
                next => cases h
                next left taken => exact (ih h).trans (takesFront_hex4 taken)
              · cases h
        · split at h
          · cases h
          · exact ih h

theorem takesFront_skipString : TakesFront skipString := fun _ _ _ h =>
  takesFront_skipStringAux _ h

theorem takesFront_colon : TakesFront colon := by
  refine .bind .blank fun _ => .bind .next? fun b => ?_
  split
  · exact .advance
  · exact .peeked _
  · exact .peeked _

theorem takesFront_skipKey : TakesFront skipKey := by
  have behind : TakesFront (do skipString; colon) := takesFront_skipString.bind fun _ =>
    takesFront_colon
  refine .bind .blank fun _ => .bind .next? fun b => ?_
  dsimp only
  split
  · exact .bind .advance fun _ => behind
  · exact .bind (.peeked _) fun _ => behind
  · exact .bind (.peeked _) fun _ => behind

theorem takesFront_lead (b : Bracket) : TakesFront b.lead := by
  cases b with
  | list => exact .pure ()
  | object => exact takesFront_skipKey

theorem takesFront_skipStart : TakesFront skipStart := by
  refine .bind .blank fun _ => .peek (.peeked _) fun b => ?_
  refine .ite ?null <| .ite ?true <| .ite ?false <| .ite ?negative <| .ite ?natural <|
    .ite ?text <| .ite ?list <| .ite ?object (.peeked _)
  case negative => exact .bind .advance fun _ => takesFront_skipNumber.bind fun _ => .pure _
  case natural => exact takesFront_skipNumber.bind fun _ => .pure _
  case text => exact .bind .advance fun _ => takesFront_skipString.bind fun _ => .pure _
  case list => exact .bind .advance fun _ => .pure _
  case object => exact .bind .advance fun _ => .pure _
  all_goals exact .bind .advance fun _ => .bind (.word _) fun _ => .pure _

theorem takesFront_skipOpen (fuel : Nat) (at_ : Skipping) (inside : List Bracket) :
    TakesFront (skipOpen fuel at_ inside) := by
  -- every round ends in another one with less fuel, with other brackets open
  induction fuel generalizing at_ inside with
  | zero => exact .pure ()
  | succ fuel ih =>
    cases at_ with
    | value =>
      refine takesFront_skipStart.bind fun opened => ?_
      cases opened with
      | none => exact ih _ _
      | some b => exact ih _ _
    | opened =>
      cases inside with
      | nil => exact .pure ()
      | cons b inside =>
        refine .bind .blank fun _ => .peek (.peeked _) fun c => .ite ?_ ?_
        · exact .bind .advance fun _ => ih _ _
        · exact (takesFront_lead b).bind fun _ => ih _ _
    | done =>
      cases inside with
      | nil => exact .pure ()
      | cons b inside =>
        refine .bind .blank fun _ => .peek (.peeked _) fun c => .ite ?_ (.ite ?_ (.peeked _))
        · exact .bind .advance fun _ => (takesFront_lead b).bind fun _ => ih _ _
        · exact .bind .advance fun _ => ih _ _

theorem takesFront_skipValue : TakesFront skipValue := fun _ _ _ h => takesFront_skipOpen _ _ _ h

/-! ## Values -/

theorem takesFront_valueStart : TakesFront valueStart :=
  .bind .blank fun _ => .peek (.peeked _) fun _ => .pure _

theorem takesFront_wrongType (expected : String) :
    TakesFront (wrongType expected : Scan α) := by
  refine .peek (.peeked _) fun b => ?_
  refine .ite ?null <| .ite ?true <| .ite ?false <| .ite ?negative <| .ite ?natural <|
    .ite ?text <| .ite (.here _) <| .ite (.here _) (.peeked _)
  case negative =>
    refine .bind .advance fun _ => (takesFront_number true).bind fun n => ?_
    cases n <;> exact .here _
  case natural =>
    refine (takesFront_number false).bind fun n => ?_
    cases n <;> exact .here _
  case text => exact .bind .advance fun _ => takesFront_string.bind fun _ => .here _
  all_goals exact .bind .advance fun _ => .bind (.word _) fun _ => .here _

theorem TakesFront.placing (r : Except Mismatch α) : TakesFront (placing r) := by
  cases r with
  | ok a => exact .pure a
  | error m => exact .here _

theorem TakesFront.looseOr (r : Except Mismatch α) : TakesFront (looseOr r) := by
  cases r with
  | ok a => exact .pure a
  | error m => exact .loose m

theorem takesFront_readInt (t : IntType α) : TakesFront (readInt t) := by
  refine takesFront_valueStart.bind fun b => .ite ?_ (.ite ?_ (takesFront_wrongType _))
  · refine .bind .advance fun _ => (takesFront_number true).bind fun n => ?_
    cases n with
    | int n => exact .placing _
    | float x => exact .here _
  · refine (takesFront_number false).bind fun n => ?_
    cases n with
    | int n => exact .placing _
    | float x => exact .here _

theorem takesFront_readText : TakesFront readText :=
  takesFront_valueStart.bind fun _ =>
    .ite (.bind .advance fun _ => takesFront_string) (takesFront_wrongType _)

theorem takesFront_readUnit : TakesFront readUnit :=
  takesFront_valueStart.bind fun _ =>
    .ite (.bind .advance fun _ => .word _) (takesFront_wrongType _)

/-! ### Brackets -/

theorem skipBlank_suffix (bs : Bytes) : skipBlank bs <:+ bs := List.dropWhile_suffix _

theorem closeList_suffix {bs rest : Bytes} (closed : closeList bs = (none, rest)) :
    rest <:+ bs := by
  refine List.IsSuffix.trans ?_ (skipBlank_suffix bs)
  unfold closeList at closed
  split at closed
  next => cases closed
  next b left taken =>
    rw [taken]
    split at closed
    · cases closed
      exact List.suffix_cons _ _
    · split at closed <;> cases closed

/-- An object is closed by a brace. -/
theorem closeObject_suffix {bs rest : Bytes} (closed : closeObject bs = (none, rest)) :
    125 :: rest <:+ bs := by
  refine List.IsSuffix.trans ?_ (skipBlank_suffix bs)
  unfold closeObject at closed
  split at closed
  next => cases closed
  next b left taken =>
    rw [taken]
    split at closed
    next brace =>
      cases closed
      exact brace ▸ List.suffix_refl _
    next => cases closed

theorem Scan.of_closing_eq_ok {close : Bytes → Option Cause × Bytes} {inside : Scan α} {a : α}
    {bs rest : Bytes} (h : closing close inside bs = .ok (a, rest)) :
    ∃ mid, inside bs = .ok (a, mid) ∧ close mid = (none, rest) := by
  unfold closing at h
  split at h
  next b mid found =>
    split at h
    next left closed =>
      cases h
      exact ⟨mid, found, closed⟩
    next => cases h
  next => cases h
  next => cases h

theorem TakesFront.closing {close : Bytes → Option Cause × Bytes} {inside : Scan α}
    (closes : ∀ ⦃mid rest⦄, close mid = (none, rest) → rest <:+ mid) (h : TakesFront inside) :
    TakesFront (closing close inside) := by
  intro bs a rest found
  obtain ⟨mid, taken, closed⟩ := Scan.of_closing_eq_ok found
  exact (closes closed).trans (h taken)

theorem TakesFront.list {inside : Scan α} (h : TakesFront inside) :
    TakesFront (Json.closing closeList inside) := h.closing fun _ _ => closeList_suffix

theorem TakesFront.object {inside : Scan α} (h : TakesFront inside) :
    TakesFront (Json.closing closeObject inside) :=
  h.closing fun _ _ closed => (List.suffix_cons _ _).trans (closeObject_suffix closed)

theorem takesFront_anotherItem (first : Bool) : TakesFront (anotherItem first) :=
  .bind .blank fun _ => .peek (.peeked _) fun _ => .ite (.pure _) <| .ite (.pure _) <|
    .ite (.bind .advance fun _ => .bind .blank fun _ => .peek (.peeked _) fun _ =>
      .ite (.peeked _) (.pure _)) (.peeked _)

theorem takesFront_anotherKey (first : Bool) : TakesFront (anotherKey first) := by
  have quote : TakesFront (do advance; pure true) := .bind .advance fun _ => .pure true
  exact .bind .blank fun _ => .peek (.peeked _) fun _ => .ite (.pure _) <|
    .ite (.ite quote (.peeked _)) <| .ite (.bind .advance fun _ => .bind .blank fun _ =>
      .peek (.peeked _) fun _ => .ite quote (.ite (.peeked _) (.peeked _))) (.peeked _)

theorem takesFront_items {item : Scan α} (h : TakesFront item) (fuel : Nat) (first : Bool)
    (acc : List α) : TakesFront (items item fuel first acc) := by
  induction fuel generalizing first acc with
  | zero => exact .pure _
  | succ fuel ih =>
    exact (takesFront_anotherItem first).bind fun _ =>
      .ite (h.bind fun _ => ih false _) (.pure _)

theorem takesFront_entries {entry : σ → String → Scan σ} (h : ∀ s name, TakesFront (entry s name))
    (fuel : Nat) (first : Bool) (s : σ) : TakesFront (entries entry fuel first s) := by
  induction fuel generalizing first s with
  | zero => exact .pure _
  | succ fuel ih =>
    exact (takesFront_anotherKey first).bind fun _ =>
      .ite (takesFront_string.bind fun _ => (h _ _).bind fun _ => ih false _) (.pure _)

/-- A reader that is told how many bytes there are. -/
theorem TakesFront.measured {x : Nat → Scan α} (h : ∀ n, TakesFront (x n)) :
    TakesFront fun bs => x (bs.length + 1) bs := fun bs _ _ found => h (bs.length + 1) found

/-! ### Shapes -/

/-- The inside of the object of a record. -/
def recordInside (style : RecordStyle) (fields : Fields β) (make : β → Except String α) :
    Scan α := do
  let entry (slots : fields.Slots) (name : String) : Scan fields.Slots :=
    match readNamed fields name slots with
    | some scan => scan
    | none =>
      if style.strict then loose (.unknownField name style.key)
      else do colon; skipValue; pure slots
  let slots ← fun bs => entries entry (bs.length + 1) true fields.empty bs
  let parts ← looseOr (fields.gather slots)
  looseOr (broken (make parts))

theorem takesFront_recordInside {fields : Fields β} (style : RecordStyle)
    (make : β → Except String α)
    (h : ∀ key slots {x}, readNamed fields key slots = some x → TakesFront x) :
    TakesFront (recordInside style fields make) := by
  refine .bind (.measured fun n => takesFront_entries ?_ n true fields.empty) fun _ =>
    .bind (.looseOr _) fun _ => .looseOr _
  intro slots name
  split
  next scan found => exact h name slots found
  next => exact .ite (.loose _) <| takesFront_colon.bind fun _ =>
    takesFront_skipValue.bind fun _ => .pure _

mutual

theorem takesFront_read : ∀ {α : Type} (s : Shape α), TakesFront (read s)
  | _, .int t => by
    rw [read]
    exact takesFront_readInt t
  | _, .text => by
    rw [read]
    exact takesFront_readText
  | _, .unit => by
    rw [read]
    exact takesFront_readUnit
  | _, .option s => by
    rw [read]
    refine .bind .blank fun _ => .bind .next? fun b => ?_
    split
    · exact .bind .advance fun _ => .bind (.word _) fun _ => .pure _
    · exact (takesFront_read s).bind fun _ => .pure _
  | _, .list s => by
    rw [read]
    refine takesFront_valueStart.bind fun _ => .ite ?_ (takesFront_wrongType _)
    exact .bind .advance fun _ =>
      .list (.measured fun n => takesFront_items (takesFront_read s) n true [])
  | _, .pair a b => by
    rw [read]
    refine takesFront_valueStart.bind fun _ => .ite ?_ (takesFront_wrongType _)
    refine .bind .advance fun _ => .list ?_
    have both : TakesFront (do
        let x ← read a
        if !(← anotherItem false) then
          loose (α := Unit) (.wrongLength 1 (Shape.pair a b).expected)
        let y ← read b
        pure (x, y)) :=
      (takesFront_read a).bind fun _ => (takesFront_anotherItem false).bind fun _ =>
        .ite (.bind (.loose _) fun _ => (takesFront_read b).bind fun _ => .pure _)
          ((takesFront_read b).bind fun _ => .pure _)
    exact (takesFront_anotherItem true).bind fun _ =>
      .ite (.bind (.loose _) fun _ => both) both
  | _, .table key value collect rows => by
    rw [read]
    refine takesFront_valueStart.bind fun _ => .ite ?_ (takesFront_wrongType _)
    refine .bind .advance fun _ => .bind (.object ?_) fun _ => .pure _
    refine .measured fun n => takesFront_entries ?_ n true []
    exact fun _ _ => .bind (.looseOr _) fun _ => takesFront_colon.bind fun _ =>
      (takesFront_read value).bind fun _ => .pure _
  | _, .record style fields make parts => by
    rw [read]
    refine takesFront_valueStart.bind fun _ => .ite ?_ (.ite ?_ (takesFront_wrongType _))
    · exact .bind .advance fun _ => .list <|
        (takesFront_readFields style fields true 0).bind fun _ => .looseOr _
    · exact .bind .advance fun _ => .object <|
        takesFront_recordInside style make (takesFront_readNamed fields)

theorem takesFront_readFields (style : RecordStyle) : ∀ {α : Type} (fields : Fields α)
    (first : Bool) (n : Nat), TakesFront (readFields style fields first n)
  | _, .none, _, _ => by
    rw [readFields]
    exact .pure _
  | _, .field name s default rest, first, n => by
    unfold readFields
    refine (takesFront_anotherItem first).bind fun _ => .ite ?_ ?_
    · exact (takesFront_read s).bind fun _ =>
        (takesFront_readFields style rest false (n + 1)).bind fun _ => .pure _
    · cases default with
      | none => exact .loose _
      | some a => exact (takesFront_readFields style rest first (n + 1)).bind fun _ => .pure _

theorem takesFront_readNamed : ∀ {α : Type} (fields : Fields α) (key : String)
    (slots : fields.Slots) {x : Scan fields.Slots}, readNamed fields key slots = some x →
      TakesFront x
  | _, .none, _, _, _, h => by
    unfold readNamed at h
    cases h
  | _, .field name s default rest, key, slots, x, h => by
    unfold readNamed at h
    split at h
    split at h
    · obtain rfl := Option.some.inj h
      exact .ite (.loose _) <| takesFront_colon.bind fun _ =>
        (takesFront_read s).bind fun _ => .pure _
    · obtain ⟨y, found, rfl⟩ := Option.map_eq_some_iff.1 h
      exact (takesFront_readNamed rest key _ found).bind fun _ => .pure _

end

/-! ## Cut objects -/

section
variable {β : Type} {style : RecordStyle} {fields : Fields β} {make : β → Except String α}
  {parts : α → β}

/-- The object of a record has a closing brace. -/
theorem mem_of_read_record {bs rest : Bytes} {a : α}
    (h : read (.record style fields make parts) (123 :: bs) = .ok (a, rest)) : 125 ∈ bs := by
  have brace : advance (123 :: bs) = .ok ((), bs) := rfl
  rw [read, Scan.bind_ok (valueStart_cons _ (by decide)), if_neg (by decide), if_pos rfl,
    Scan.bind_ok brace] at h
  obtain ⟨mid, found, closed⟩ := Scan.of_closing_eq_ok h
  have inside := takesFront_recordInside style make (takesFront_readNamed fields) found
  exact ((closeObject_suffix closed).trans inside).subset (List.mem_cons_self ..)

theorem read_of_decode_eq_ok {s : Shape α} {bs : Bytes} {a : α} (h : decode s bs = .ok a) :
    ∃ rest, read s bs = .ok (a, rest) := by
  rw [decode] at h
  split at h
  next b rest found =>
    obtain rfl := Except.ok.inj h
    obtain ⟨b, mid, taken, tail⟩ := Scan.of_bind_eq_ok found
    obtain ⟨-, mid', -, same⟩ := Scan.of_bind_eq_ok tail
    cases same
    exact ⟨mid, taken⟩
  next => cases h

/-- The text of an object is refused if it is cut before its only closing brace. -/
theorem exists_error_of_front {body front : Bytes} (only : 125 ∉ body)
    (cut : front <+: 123 :: (body ++ [125])) (short : front ≠ 123 :: (body ++ [125])) :
    ∃ e, decode (.record style fields make parts) front = .error e := by
  cases found : decode (.record style fields make parts) front with
  | error e => exact ⟨e, rfl⟩
  | ok a =>
    obtain ⟨rest, taken⟩ := read_of_decode_eq_ok found
    rcases List.prefix_cons_iff.1 cut with rfl | ⟨inside, rfl, cutInside⟩
    · rw [read] at taken
      cases taken
    · have unclosed : inside <+: body := by
        refine (List.prefix_concat_iff.1 cutInside).resolve_left fun whole => short ?_
        rw [whole]
      exact absurd (unclosed.subset (mem_of_read_record taken)) only

end

end RemoteCall.Json
