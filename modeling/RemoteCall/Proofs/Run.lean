import RemoteCall.Link

/-!
# Runs, one step after the other

A run takes the first event first; an invariant grows at the other end, by the step that comes last.
`Steps` is a run that is built up that way. The client, the server and a link of both run alike:

    s.run? es = some (s', notes) ↔ Steps step? s es s' notes
-/

namespace RemoteCall

section
variable {σ ε ν : Type}

/-- The state after some events, and what they showed. -/
inductive Steps (step? : σ → ε → Option (σ × List ν)) (start : σ) :
    List ε → σ → List ν → Prop
  | none : Steps step? start [] start []
  | snoc {es : List ε} {s s' : σ} {e : ε} {notes more : List ν} :
    Steps step? start es s notes → step? s e = some (s', more) →
      Steps step? start (es ++ [e]) s' (notes ++ more)

variable {step? : σ → ε → Option (σ × List ν)}

theorem Steps.trans {s t u : σ} {es fs : List ε} {notes more : List ν}
    (first : Steps step? s es t notes) (second : Steps step? t fs u more) :
    Steps step? s (es ++ fs) u (notes ++ more) := by
  induction second with
  | none => simpa using first
  | snoc _ step ih => simpa using ih.snoc step

theorem Steps.single {s t : σ} {e : ε} {notes : List ν} (step : step? s e = some (t, notes)) :
    Steps step? s [e] t notes := by
  simpa using Steps.none.snoc step

/-- A run with a first event goes on from where that leads. -/
theorem exists_of_run_cons {run? : σ → List ε → Option (σ × List ν)}
    (cons : ∀ s e es, run? s (e :: es) = (step? s e).bind fun (s, notes) =>
      (run? s es).bind fun (s, more) => some (s, notes ++ more))
    {s t : σ} {e : ε} {es : List ε} {notes : List ν} (run : run? s (e :: es) = some (t, notes)) :
    ∃ u shown more, step? s e = some (u, shown) ∧ run? u es = some (t, more) ∧
      notes = shown ++ more := by
  rw [cons] at run
  obtain ⟨⟨u, shown⟩, step, run⟩ := Option.bind_eq_some_iff.1 run
  obtain ⟨⟨v, more⟩, rest, same⟩ := Option.bind_eq_some_iff.1 run
  obtain ⟨rfl, rfl⟩ := by simpa using same
  exact ⟨u, shown, more, step, rest, rfl⟩

/-- A run that takes the first event first is the same thing. -/
theorem steps_iff {run? : σ → List ε → Option (σ × List ν)}
    (nil : ∀ s, run? s [] = some (s, []))
    (cons : ∀ s e es, run? s (e :: es) = (step? s e).bind fun (s, notes) =>
      (run? s es).bind fun (s, more) => some (s, notes ++ more))
    {s t : σ} {es : List ε} {notes : List ν} :
    run? s es = some (t, notes) ↔ Steps step? s es t notes := by
  have build : ∀ {notes} es s, run? s es = some (t, notes) → Steps step? s es t notes := by
    intro notes es
    induction es generalizing notes with
    | nil =>
      intro s h
      rw [nil] at h
      obtain ⟨rfl, rfl⟩ := by simpa using h
      exact .none
    | cons e es ih =>
      intro s h
      obtain ⟨u, first, more, step, rest, rfl⟩ := exists_of_run_cons cons h
      exact (Steps.single step).trans (ih u rest)
  have extend : ∀ {es e s u v first more}, run? s es = some (u, first) →
      step? u e = some (v, more) → run? s (es ++ [e]) = some (v, first ++ more) := by
    intro es
    induction es with
    | nil =>
      intro e s u v first more h step
      rw [nil] at h
      obtain ⟨rfl, rfl⟩ := by simpa using h
      simp [cons, nil, step]
    | cons d es ih =>
      intro e s u v first more h step
      obtain ⟨w, start, late, early, rest, rfl⟩ := exists_of_run_cons cons h
      simp [cons, early, ih rest step]
  refine ⟨build es s, ?_⟩
  intro steps
  clear build
  induction steps with
  | none => exact nil s
  | snoc _ step ih => exact extend ih step

end

theorem Client.run?_eq_some_iff {s t : Client} {es : List Client.Event} {notes : List Client.Note} :
    s.run? es = some (t, notes) ↔ Steps Client.step? s es t notes :=
  steps_iff (fun _ => rfl) (fun _ _ _ => rfl)

theorem Client.exists_of_run?_cons {s t : Client} {e : Client.Event} {es : List Client.Event}
    {notes : List Client.Note} (run : s.run? (e :: es) = some (t, notes)) :
    ∃ u shown more, s.step? e = some (u, shown) ∧ u.run? es = some (t, more) ∧
      notes = shown ++ more :=
  exists_of_run_cons (fun _ _ _ => rfl) run

theorem Client.exists_of_run?_append {s t : Client} {es fs : List Client.Event}
    {notes : List Client.Note} (run : s.run? (es ++ fs) = some (t, notes)) :
    ∃ u past later, s.run? es = some (u, past) ∧ u.run? fs = some (t, later) ∧
      notes = past ++ later := by
  induction es generalizing s notes with
  | nil => exact ⟨s, [], notes, rfl, run, rfl⟩
  | cons e es ih =>
    obtain ⟨u, shown, more, step, rest, rfl⟩ := exists_of_run?_cons run
    obtain ⟨v, past, later, early, late, rfl⟩ := ih rest
    exact ⟨v, shown ++ past, later, by simp [run?, step, early], late,
      (List.append_assoc ..).symm⟩

theorem Server.run?_eq_some_iff {s t : Server} {es : List Server.Event} {notes : List Server.Note} :
    s.run? es = some (t, notes) ↔ Steps Server.step? s es t notes :=
  steps_iff (fun _ => rfl) (fun _ _ _ => rfl)

theorem Server.run?_cons {s t : Server} {e : Server.Event} {shown : List Server.Note}
    (es : List Server.Event) (step : s.step? e = some (t, shown)) :
    s.run? (e :: es) = (t.run? es).map fun r => (r.1, shown ++ r.2) := by
  simp only [run?, step, Option.bind_eq_bind, Option.bind_some]
  cases t.run? es <;> rfl

theorem Server.exists_of_run?_cons {s t : Server} {e : Server.Event} {es : List Server.Event}
    {notes : List Server.Note} (run : s.run? (e :: es) = some (t, notes)) :
    ∃ u shown more, s.step? e = some (u, shown) ∧ u.run? es = some (t, more) ∧
      notes = shown ++ more :=
  exists_of_run_cons (fun _ _ _ => rfl) run

theorem Link.run?_eq_some_iff {l m : Link} {es : List Link.Event} {notes : List Link.Note} :
    l.run? es = some (m, notes) ↔ Steps Link.step? l es m notes :=
  steps_iff (fun _ => rfl) (fun _ _ _ => rfl)

/-! ## Two systems side by side -/

section
variable {α β : Type} {R : β → β → Prop}

/-- Both go the same way at a fork. -/
theorem rel_ite {p : Prop} [Decidable p] {a b c d : β} (yes : R a b) (no : R c d) :
    R (if p then a else c) (if p then b else d) := by
  split
  · exact yes
  · exact no

/-- Both need the same thing first. -/
theorem rel_bind {x : Option α} {f g : α → Option β}
    (both : ∀ a, x = some a → Option.Rel R (f a) (g a)) :
    Option.Rel R (x.bind f) (x.bind g) := by
  cases x with
  | none => exact .none
  | some a => exact both a rfl

theorem exists_of_rel {a : β} {y : Option β} (both : Option.Rel R (some a) y) :
    ∃ b, y = some b ∧ R a b := by
  cases both with
  | some related => exact ⟨_, rfl, related⟩

theorem exists_of_rel_right {x : Option β} {b : β} (both : Option.Rel R x (some b)) :
    ∃ a, x = some a ∧ R a b := by
  cases both with
  | some related => exact ⟨_, rfl, related⟩

theorem none_iff_of_rel {x y : Option β} (both : Option.Rel R x y) : y = none ↔ x = none := by
  cases both <;> simp

end

/-! ## Events that may be left out -/

section
variable {ε : Type} {spare : ε → Bool} {es fs : List ε} {e : ε}

/-- The first events are the second ones without some that are spare. -/
structure Fewer (spare : ε → Bool) (es fs : List ε) : Prop where
  sublist : es.Sublist fs
  others : es.filter (!spare ·) = fs.filter (!spare ·)

theorem Fewer.refl (spare : ε → Bool) (es : List ε) : Fewer spare es es :=
  ⟨List.Sublist.refl es, rfl⟩

theorem Fewer.cons (h : Fewer spare es fs) (e : ε) : Fewer spare (e :: es) (e :: fs) where
  sublist := h.sublist.cons_cons e
  others := by rw [List.filter_cons, List.filter_cons, h.others]

theorem Fewer.skip (h : Fewer spare es fs) (is : spare e = true) : Fewer spare es (e :: fs) where
  sublist := h.sublist.cons e
  others := by rw [List.filter_cons_of_neg (by simp [is]), h.others]

end

end RemoteCall
