import RemoteCall.Proofs.Trait.Readers

/-!
# Reading tokens back

What a type becomes in `Readback` is what the reader of types makes of its tokens
(`Ty.ofText_eq_reread`). This is proved for the types of names, with arguments in angle brackets,
references and pointers, slices, tuples and parentheses (`Ty.Readable`), and for the bounds that are
names or lifetimes (`Bound.listOfText_eq_reread`).

Each reader comes with what it makes of the tokens of a thing and of which tokens can stand behind
them (`Reads`). The reader of types is met by induction on its fuel: the types in a type have fewer
tokens, so what reads them is given.
-/

namespace RemoteCall.Trait

/-! ## What is read -/

/-- The marks of a reference or a pointer. -/
inductive PointerMarks : Tokens → Prop
  | mk {sigil : String} {lifetime access : Option String} (sign : sigil ∈ ["&", "*"])
    (life : ∀ t ∈ lifetime, isLifetime t = true) (given : ∀ t ∈ access, t ∈ ["mut", "const"]) :
    PointerMarks (sigil :: (lifetime.toList ++ access.toList))

mutual

/-- Types of names, references, slices, tuples and parentheses. Where a list is empty, or a tuple
has one item, there is no telling how it was written unless the comma is there. -/
inductive Ty.Readable : Ty → Prop
  | path {leading : Bool} {segments : List Segment} (present : segments ≠ [])
    (each : ∀ s ∈ segments, s.Readable) : Ty.Readable (.path (.mk leading segments))
  | pointer {marks : Tokens} {target : Ty} (marked : PointerMarks marks)
    (inner : target.Readable) : Ty.Readable (.pointer marks target)
  | slice {item : Ty} (inner : item.Readable) : Ty.Readable (.slice item)
  | tuple {items : List Ty} {comma : Bool} (each : ∀ t ∈ items, t.Readable)
    (told : items.length ≤ 1 → comma = true) : Ty.Readable (.tuple items comma)
  | group {inner : Ty} (inside : inner.Readable) : Ty.Readable (.group inner)

inductive Segment.Readable : Segment → Prop
  | plain {name : String} (named : isPathName name = true) : Segment.Readable (.plain name)
  | angled {name : String} {turbofish : Bool} {args : List Arg} {comma : Bool}
    (named : isPathName name = true) (each : ∀ a ∈ args, a.Readable)
    (told : args = [] → comma = true) : Segment.Readable (.angled name turbofish args comma)

inductive Arg.Readable : Arg → Prop
  | type {t : Ty} (inner : t.Readable) : Arg.Readable (.type t)
  | lifetime {name : String} (life : isLifetime name = true) : Arg.Readable (.lifetime name)
  | assoc {target : Segment} {t : Ty} (named : target.Readable) (inner : t.Readable) :
    Arg.Readable (.assoc target t)

end

/-- Bounds that are lifetimes or names. -/
inductive Bound.Readable : Bound → Prop
  | lifetime {name : String} (life : isLifetime name = true) : Bound.Readable (.lifetime name)
  | path {p : Path} (named : (Ty.path p).Readable) : Bound.Readable (.path false [] p)

/-! ## First tokens -/

theorem Segment.Readable.tokens_eq {s : Segment} (h : s.Readable) :
    ∃ ts, s.tokens = s.name :: ts ∧ isPathName s.name = true := by
  cases h with
  | plain named => exact ⟨[], by rw [Segment.tokens]; rfl, named⟩
  | angled named _ _ => exact ⟨_, by rw [Segment.tokens, List.cons_append]; rfl, named⟩

theorem Path.tokens_eq_cons {leading : Bool} {segments : List Segment} (present : segments ≠ [])
    (each : ∀ s ∈ segments, s.Readable) : ∃ token ts, (Path.mk leading segments).tokens =
      token :: ts ∧ (isPathName token = true ∨ token = "::") := by
  cases leading with
  | true => exact ⟨"::", _, by rw [Path.tokens]; rfl, .inr rfl⟩
  | false =>
    obtain ⟨s, ss, rfl⟩ := List.exists_cons_of_ne_nil present
    obtain ⟨ts, spelled, named⟩ := (each s List.mem_cons_self).tokens_eq
    refine ⟨s.name, ts ++ (segmentsTokens ss).flatMap ("::" :: ·), ?_, .inl named⟩
    rw [Path.tokens, segmentsTokens, separated_false, spelled]
    rfl

theorem Ty.Readable.opens {t : Ty} (h : t.Readable) :
    ∃ token ts, t.tokens = token :: ts ∧ Opens token := by
  cases h with
  | path present each =>
    obtain ⟨token, ts, spelled, first⟩ := Path.tokens_eq_cons present each
    refine ⟨token, ts, by rw [Ty.tokens, spelled], first.imp_right fun colons => ?_⟩
    simp [colons, openings]
  | pointer marked inner =>
    obtain ⟨sign, _, _⟩ := marked
    refine ⟨_, _, by rw [Ty.tokens, List.cons_append], .inr ?_⟩
    have both : ∀ t ∈ ["&", "*"], t ∈ openings := by decide
    exact both _ sign
  | slice inner => exact ⟨"[", _, by rw [Ty.tokens]; rfl, .inr (by simp [openings])⟩
  | tuple each told => exact ⟨"(", _, by rw [Ty.tokens]; rfl, .inr (by simp [openings])⟩
  | group inside => exact ⟨"(", _, by rw [Ty.tokens]; rfl, .inr (by simp [openings])⟩

theorem Arg.Readable.opens {a : Arg} (h : a.Readable) :
    ∃ token ts, a.tokens.2 = token :: ts ∧ token ≠ ">" := by
  cases h with
  | type inner =>
    obtain ⟨token, ts, spelled, opens⟩ := inner.opens
    refine ⟨token, ts, by rw [Arg.tokens]; exact spelled, ?_⟩
    exact opens.ne (by simp [signs]) (by simp [openings])
  | @lifetime name life =>
    refine ⟨name, [], by rw [Arg.tokens], ?_⟩
    rintro rfl
    cases life
  | assoc named inner =>
    obtain ⟨ts, spelled, name⟩ := named.tokens_eq
    refine ⟨_, _, by rw [Arg.tokens, spelled, List.cons_append], ?_⟩
    exact ne_of_isPathName name (by simp [signs])

namespace Parser

/-! ## Where a type ends -/

/-- The tokens that end what goes on with a plus. -/
def endings : List String := [",", ">", "=", ";", ")", "]", "\x7d"]

/-- A type ends here; where a plus can follow, it would go on with one. -/
def Stops (plus : Bool) (rest : Tokens) : Prop :=
  endsBounds rest.head? = true ∨ plus = false ∧ rest.head? = some "+"

/-- A name without arguments ends here. -/
def Follows (rest : Tokens) : Prop :=
  rest.head? ≠ some "<" ∧ rest.head? ≠ some "(" ∧ rest.take 2 ≠ ["::", "<"]

section
variable {plus : Bool} {ts rest : Tokens} {token close : String}

theorem endsBounds_iff : endsBounds (some token) = true ↔ token ∈ endings := by
  simp [endsBounds, isClosing, endings, or_assoc]

theorem Stops.other (h : Stops plus rest) (goes : token ∉ endings) (more : token ≠ "+") :
    rest.head? ≠ some token := by
  intro same
  rw [Stops, same, endsBounds_iff] at h
  rcases h with ended | ⟨-, sign⟩
  · exact goes ended
  · exact more (Option.some.inj sign)

theorem Stops.no_plus (h : Stops plus rest) : (plus && rest.head? = some "+") = false := by
  rcases h with ended | ⟨rfl, -⟩
  · have other : rest.head? ≠ some "+" := by
      intro same
      rw [same, endsBounds_iff] at ended
      simp [endings] at ended
    simp [other]
  · rfl

theorem Stops.patient (h : Stops plus rest) : Stops false rest := by
  rcases h with ended | ⟨-, more⟩
  · exact .inl ended
  · exact .inr ⟨rfl, more⟩

theorem Stops.follows (h : Stops plus rest) : Follows rest := by
  refine ⟨h.other (by simp [endings]) (by simp), h.other (by simp [endings]) (by simp), ?_⟩
  intro colons
  have path : rest.head? ≠ some "::" := h.other (by simp [endings]) (by simp)
  cases rest with
  | nil => cases colons
  | cons t ts => simp_all

theorem stops_cons (ends : token ∈ endings) : Stops plus (token :: ts) :=
  .inl (endsBounds_iff.2 ends)

theorem Delimited.other (h : Delimited close rest) (comma : token ≠ ",") (ends : token ≠ close) :
    rest.head? ≠ some token := by
  intro same
  rw [Delimited, same] at h
  rcases h with here | here
  · exact comma (Option.some.inj here)
  · exact ends (Option.some.inj here)

theorem Delimited.stops (h : Delimited close rest) (ends : close ∈ endings) : Stops plus rest := by
  rcases h with comma | closed
  · exact .inl (by rw [comma, endsBounds_iff]; simp [endings])
  · exact .inl (by rw [closed, endsBounds_iff]; exact ends)

theorem follows_of_opens (opens : Opens token) : Follows ("::" :: token :: ts) := by
  refine ⟨by simp, by simp, ?_⟩
  have other : token ≠ "<" := opens.ne (by simp [signs]) (by simp [openings])
  simp [other]

end

/-! ## Readers of what a type consists of -/

section
variable {type : Bool → Parser Ty} {n : Nat}

/-- The reader of types reads those of fewer than `n` tokens. -/
def ReadsTypes (type : Bool → Parser Ty) (n : Nat) : Prop :=
  ∀ (t : Ty) (plus : Bool), t.Readable → t.tokens.length < n →
    Reads (type plus) (Stops plus) t.tokens t.reread

theorem reads_type {t : Ty} (types : ReadsTypes type n) (h : t.Readable)
    (fewer : t.tokens.length < n) :
    Reads (arg type) (Delimited ">") t.tokens (.type t.reread) := by
  intro rest behind
  have ends : Stops true rest := behind.stops (by simp [endings])
  obtain ⟨token, ts, spelled, opens⟩ := h.opens
  have whole := types t true h fewer rest ends
  rw [spelled, List.cons_append] at whole ⊢
  have nothing : ∀ target, assoc? type target rest = some (none, rest) := by
    intro target
    unfold assoc?
    rw [bind_some (skip_other (behind.other (by simp) (by simp)))]
    simp only [Bool.false_eq_true, if_false]
    rw [bind_some (skip_other (behind.other (by simp) (by simp)))]
    rfl
  unfold arg
  rw [bind_some (get_eq _)]
  simp only [opens.isLifetime_eq, Bool.false_and, Bool.false_eq_true, if_false]
  rw [bind_some (value?_none opens)]
  dsimp only
  rw [bind_some whole]
  -- only one name without arguments in parentheses could say more
  generalize t.reread = read
  split
  next => rfl
  next target _ =>
    rw [bind_some (nothing target)]
    rfl
  next => rfl

theorem reads_assoc {target : Segment} {t : Ty} (types : ReadsTypes type n)
    (named : target.Readable) (h : t.Readable)
    (fewer : (target.tokens ++ "=" :: t.tokens).length < n) :
    Reads (arg type) (Delimited ">") (target.tokens ++ "=" :: t.tokens)
      (.assoc target.reread t.reread) := by
  intro rest behind
  simp only [List.length_append, List.length_cons] at fewer
  have front : Reads (type true) (Stops true) target.tokens
      (.path (.mk false [target.reread])) := by
    have alone : (Ty.path (.mk false [target])).tokens = target.tokens := by
      simp [Ty.tokens, Path.tokens, segmentsTokens, separated]
    have read := types (.path (.mk false [target])) true
      (.path (by simp) (by simpa using named)) (by rw [alone]; omega)
    rwa [alone, Ty.reread, Path.reread, segmentsReread_eq] at read
  obtain ⟨ts, spelled, name⟩ := named.tokens_eq
  obtain ⟨token, ts', spelled', opens⟩ := h.opens
  have whole := front ("=" :: (t.tokens ++ rest)) (stops_cons (by simp [endings]))
  have said := types t true h (by omega) rest (behind.stops (by simp [endings]))
  rw [List.append_assoc, List.cons_append]
  rw [spelled, List.cons_append] at whole ⊢
  unfold arg
  rw [bind_some (get_eq _)]
  simp only [isLifetime_of_isPathName name, Bool.false_and, Bool.false_eq_true, if_false]
  rw [bind_some (value?_none (.inl name))]
  dsimp only
  rw [bind_some whole]
  have known : assoc? type target.reread ("=" :: (t.tokens ++ rest)) =
      some (some (.assoc target.reread t.reread), rest) := by
    unfold assoc?
    rw [bind_some (skip_self ..)]
    simp only [if_true]
    rw [spelled', List.cons_append] at said ⊢
    rw [bind_some (value?_none opens)]
    dsimp only
    rw [bind_some said]
    rfl
  cases named
  all_goals
    rw [Segment.reread] at known ⊢
    dsimp only
    rw [bind_some known]
    rfl

theorem reads_lifetime {name : String} (life : isLifetime name = true) :
    Reads (arg type) (Delimited ">") [name] (.lifetime name) := by
  intro rest behind
  have alone : rest.head? ≠ some "+" := behind.other (by simp) (by simp)
  unfold arg
  rw [List.singleton_append, bind_some (get_eq _)]
  simp [life, alone, bind_some (set_eq ..), pure_eq]

theorem reads_arg {a : Arg} (types : ReadsTypes type n) (h : a.Readable)
    (fewer : a.tokens.2.length < n) :
    Reads (arg type) (Delimited ">") a.tokens.2 a.reread := by
  cases h with
  | type inner =>
    rw [Arg.tokens] at fewer ⊢
    rw [Arg.reread]
    exact reads_type types inner fewer
  | lifetime life =>
    rw [Arg.tokens, Arg.reread]
    exact reads_lifetime life
  | assoc named inner =>
    rw [Arg.tokens] at fewer ⊢
    rw [Arg.reread]
    exact reads_assoc types named inner fewer

theorem reads_args {args : List Arg} {comma : Bool} (types : ReadsTypes type n)
    (each : ∀ a ∈ args, a.Readable) (told : args = [] → comma = true)
    (fewer : ∀ a ∈ args, a.tokens.2.length < n) (rest : Tokens) :
    upTo ">" (arg type) (separated "," ((lifetimesFirst args).map (·.tokens.2))
        (commaBehind args comma) ++ ">" :: rest) =
      some ((lifetimesFirst (argsReread args), commaBehind args comma), rest) := by
  have member : ∀ a ∈ lifetimesFirst args, a ∈ args := by
    intro a here
    rcases List.mem_append.1 here with here | here
    · exact List.mem_of_mem_filter here
    · exact List.mem_of_mem_filter here
  have sorted : lifetimesFirst (argsReread args) = (lifetimesFirst args).map Arg.reread := by
    simp [lifetimesFirst, argsReread_eq, List.filter_map, Function.comp_def]
  have ends : (commaBehind args comma || (lifetimesFirst args).isEmpty) =
      commaBehind args comma := by
    rcases args with _ | ⟨a, args⟩
    · simp [told rfl, commaBehind]
    · cases life : a.isLifetime <;> simp [lifetimesFirst, life]
  rw [sorted]
  refine (upTo_separated (by decide) (fun a here => (each a (member a here)).opens)
    (fun a here => reads_arg types (each a (member a here)) (fewer a (member a here)))
    (commaBehind args comma) rest).trans ?_
  rw [ends]

theorem reads_segment {s : Segment} (types : ReadsTypes type n) (h : s.Readable)
    (fewer : s.tokens.length ≤ n) : Reads (segment type) Follows s.tokens s.reread := by
  intro rest behind
  cases h with
  | @plain name named =>
    rw [Segment.tokens, Segment.reread, List.singleton_append]
    unfold segment
    rw [bind_some (next_cons ..)]
    simp only [named, if_true]
    rw [bind_some (get_eq _)]
    obtain ⟨no_angle, no_paren, no_turbofish⟩ := behind
    split
    next => exact absurd rfl no_angle
    next => exact absurd rfl no_turbofish
    next => exact absurd rfl no_paren
    next => rfl
  | @angled name turbofish args comma named each told =>
    have spelled : ∀ a ∈ args, a.tokens.2.length < n := by
      intro a here
      have inside : a.tokens.2 ∈ (lifetimesFirst args).map (·.tokens.2) := by
        refine List.mem_map_of_mem ?_
        cases life : a.isLifetime <;> simp [lifetimesFirst, here, life]
      have shorter := length_le_of_mem "," (commaBehind args comma) inside
      rw [Segment.tokens, angledTokens_argsTokens] at fewer
      simp only [List.length_append, List.length_cons] at fewer
      omega
    have read := reads_args types each told spelled rest
    rw [Segment.tokens, Segment.reread, angledTokens_argsTokens]
    unfold segment
    cases turbofish
    all_goals
      simp only [Bool.false_eq_true, if_false, if_true, List.cons_append, List.nil_append,
        List.append_assoc]
      rw [bind_some (next_cons ..)]
      simp only [named, if_true]
      rw [bind_some (get_eq _)]
      refine (bind_some (set_eq ..)).trans ?_
      rw [bind_some read]
      rfl

theorem reads_segments {ss : List Segment} {plus : Bool} (types : ReadsTypes type n)
    (present : ss ≠ []) (each : ∀ s ∈ ss, s.Readable)
    (fewer : (separated "::" (segmentsTokens ss) false).length ≤ n) :
    Reads (segments type) (Stops plus) (separated "::" (segmentsTokens ss) false)
      (segmentsReread ss) := by
  intro rest behind
  have reads : ∀ s ∈ ss, Reads (segment type) Follows s.tokens s.reread := by
    intro s here
    have inside : s.tokens ∈ segmentsTokens ss := by
      rw [segmentsTokens_eq]
      exact List.mem_map_of_mem here
    exact reads_segment types (each s here) (Nat.le_trans (length_le_of_mem _ _ inside) fewer)
  obtain ⟨s, ss, rfl⟩ := List.exists_cons_of_ne_nil present
  obtain ⟨first, reads⟩ := List.forall_mem_cons.1 reads
  have between : ∀ s ∈ ss, ∀ more, Follows ("::" :: (s.tokens ++ more)) := by
    intro s here more
    obtain ⟨ts, spelled, named⟩ := (each s (List.mem_cons_of_mem _ here)).tokens_eq
    rw [spelled]
    exact follows_of_opens (.inl named)
  have follows := follows_flatMap between behind.follows
  have enough : ss.length < ((ss.map Segment.tokens).flatMap ("::" :: ·) ++ rest).length + 1 := by
    simpa using @length_lt_flatMap "::" (ss.map Segment.tokens) rest
  rw [segmentsTokens_eq, List.map_cons, separated_false, List.append_assoc, segmentsReread_eq]
  unfold segments
  rw [bind_some (first _ follows), bind_some (get_eq _),
    bind_some (itemsAfter_flatMap reads between behind.follows
      (behind.other (by simp [endings]) (by simp)) enough)]
  rfl

/-! ## The reader of types -/

theorem typeStep_of_isPathName {name : String} {ts : Tokens} {plus : Bool}
    (named : isPathName name = true) :
    typeStep type plus (name :: ts) = Parser.named type plus (name :: ts) := by
  have other : ∀ t ∈ signs, name ≠ t := fun t sign => ne_of_isPathName named sign
  simp only [signs, List.forall_mem_cons] at other
  unfold typeStep
  rw [bind_some (peek_eq _), List.head?_cons]
  simp [other, isLifetime_of_isPathName named]

theorem reads_path {leading : Bool} {ss : List Segment} {plus : Bool} (types : ReadsTypes type n)
    (present : ss ≠ []) (each : ∀ s ∈ ss, s.Readable)
    (fewer : (Path.mk leading ss).tokens.length ≤ n) :
    Reads (typeStep type plus) (Stops plus) (Path.mk leading ss).tokens
      (.path (Path.mk leading ss).reread) := by
  intro rest behind
  rw [Path.tokens, List.length_append] at fewer
  have read := reads_segments types present each (by omega) rest behind
  have no_rule : skip "!" rest = some (false, rest) :=
    skip_other (behind.other (by simp [endings]) (by simp))
  have path : ∀ ts,
      skip "::" ts = some (leading, separated "::" (segmentsTokens ss) false ++ rest) →
      Parser.named type plus ts = some (.path (.mk leading (segmentsReread ss)), rest) := by
    intro ts lead
    unfold Parser.named
    rw [bind_some lead, bind_some read, bind_some no_rule]
    simp only [Bool.false_eq_true, if_false]
    rw [bind_some (peek_eq _)]
    simp [behind.no_plus, pure_eq]
  rw [Path.tokens, Path.reread]
  cases leading with
  | true =>
    rw [if_pos rfl, List.append_assoc, List.singleton_append]
    unfold typeStep
    rw [bind_some (peek_eq _)]
    exact path _ (skip_self ..)
  | false =>
    obtain ⟨s, ss, rfl⟩ := List.exists_cons_of_ne_nil present
    obtain ⟨ts, spelled, named⟩ := (each s List.mem_cons_self).tokens_eq
    rw [segmentsTokens, separated_false, spelled] at path ⊢
    rw [if_neg Bool.false_ne_true, List.nil_append, List.cons_append, List.cons_append,
      typeStep_of_isPathName named]
    refine path _ (skip_other ?_)
    simpa using ne_of_isPathName named (by simp [signs])

theorem reads_pointer {marks : Tokens} {target : Ty} {plus : Bool} (types : ReadsTypes type n)
    (marked : PointerMarks marks) (inner : target.Readable) (fewer : target.tokens.length < n) :
    Reads (typeStep type plus) (Stops plus) (marks ++ target.tokens)
      (.pointer marks target.reread) := by
  intro rest behind
  obtain ⟨sign, life, given⟩ := marked
  rename_i sigil lifetime access
  obtain ⟨token, ts, spelled, opens⟩ := inner.opens
  have read := types target false inner fewer rest behind.patient
  have whole : pointer type
      (sigil :: (lifetime.toList ++ (access.toList ++ (target.tokens ++ rest)))) =
      some (.pointer (sigil :: (lifetime.toList ++ access.toList)) target.reread, rest) := by
    have first : ∀ ts, mark ["&", "*"] (sigil :: ts) = some ([sigil], ts) := fun ts =>
      @mark_toList ts _ (some sigil) (by simpa using sign) (by simp)
    have second : lifetimeMark (lifetime.toList ++ (access.toList ++ (target.tokens ++ rest))) =
        some (lifetime.toList, access.toList ++ (target.tokens ++ rest)) := by
      refine lifetimeMark_toList life ?_
      cases access with
      | none => simpa [spelled] using opens.isLifetime_eq
      | some a =>
        have known : ∀ a ∈ ["mut", "const"], isLifetime a = false := by decide +kernel
        simpa using known a (given a rfl)
    have third : mark ["mut", "const"] (access.toList ++ (target.tokens ++ rest)) =
        some (access.toList, target.tokens ++ rest) := by
      have shared : token ≠ "mut" := opens.ne (by simp [signs]) (by simp [openings])
      have constant : token ≠ "const" := opens.ne (by simp [signs]) (by simp [openings])
      exact mark_toList given fun _ => by simp [spelled, shared, constant]
    unfold pointer
    rw [bind_some (first _), bind_some second, bind_some third, bind_some read]
    rfl
  rw [List.cons_append, List.cons_append, List.append_assoc, List.append_assoc]
  unfold typeStep
  rw [bind_some (peek_eq _)]
  simp only [List.mem_cons, List.not_mem_nil, or_false] at sign
  rcases sign with rfl | rfl
  · exact whole
  · exact whole

theorem reads_slice {item : Ty} {plus : Bool} (types : ReadsTypes type n) (inner : item.Readable)
    (fewer : item.tokens.length < n) :
    Reads (typeStep type plus) (Stops plus) ("[" :: item.tokens ++ ["]"]) (.slice item.reread) := by
  intro rest behind
  have read := types item true inner fewer ("]" :: rest) (stops_cons (by simp [endings]))
  have whole : sliced type ("[" :: (item.tokens ++ "]" :: rest)) =
      some (.slice item.reread, rest) := by
    unfold sliced
    rw [bind_some (expect_self ..), bind_some read, bind_some (skip_other (by simp))]
    simp only [Bool.false_eq_true, if_false]
    rw [bind_some (expect_self ..)]
    rfl
  rw [List.cons_append, List.cons_append, List.append_assoc, List.singleton_append]
  unfold typeStep
  rw [bind_some (peek_eq _)]
  exact whole

/-- The types in parentheses. -/
theorem reads_items {items : List Ty} {comma : Bool} (types : ReadsTypes type n)
    (each : ∀ t ∈ items, t.Readable) (fewer : ∀ t ∈ items, t.tokens.length < n) (rest : Tokens) :
    upTo ")" (type true) (separated "," (items.map Ty.tokens) comma ++ ")" :: rest) =
      some ((items.map Ty.reread, comma || items.isEmpty), rest) := by
  refine upTo_separated (by decide) (fun t here => ?_) (fun t here => ?_) comma rest
  · obtain ⟨token, ts, spelled, opens⟩ := (each t here).opens
    exact ⟨token, ts, spelled, opens.ne (by simp [signs]) (by simp [openings])⟩
  · intro rest behind
    exact types t true (each t here) (fewer t here) rest (behind.stops (by simp [endings]))

theorem reads_group {inner : Ty} {plus : Bool} (types : ReadsTypes type n)
    (inside : inner.Readable) (fewer : inner.tokens.length < n) :
    Reads (typeStep type plus) (Stops plus) ("(" :: inner.tokens ++ [")"])
      (.group inner.reread) := by
  intro rest behind
  have read := @reads_items _ _ [inner] false types (by simpa using inside) (by simpa using fewer)
    rest
  have whole : grouped type plus ("(" :: (inner.tokens ++ ")" :: rest)) =
      some (.group inner.reread, rest) := by
    have alone : separated "," ([inner].map Ty.tokens) false = inner.tokens := by simp [separated]
    rw [alone] at read
    unfold grouped
    rw [bind_some (expect_self ..), bind_some read]
    simp only [List.map_singleton]
    generalize inner.reread = t
    cases t with
    | path p =>
      refine (bind_some (peek_eq _)).trans ?_
      simp [behind.no_plus, pure_eq]
    | _ => rfl
  rw [List.cons_append, List.cons_append, List.append_assoc, List.singleton_append]
  unfold typeStep
  rw [bind_some (peek_eq _)]
  exact whole

theorem reads_tuple {items : List Ty} {comma plus : Bool} (types : ReadsTypes type n)
    (each : ∀ t ∈ items, t.Readable) (told : items.length ≤ 1 → comma = true)
    (fewer : ∀ t ∈ items, t.tokens.length < n) :
    Reads (typeStep type plus) (Stops plus) ("(" :: separated "," (tysTokens items) comma ++ [")"])
      (.tuple (tysReread items) comma) := by
  intro rest behind
  have read := @reads_items _ _ items comma types each fewer rest
  have whole : grouped type plus
      ("(" :: (separated "," (items.map Ty.tokens) comma ++ ")" :: rest)) =
      some (.tuple (items.map Ty.reread) comma, rest) := by
    unfold grouped
    rw [bind_some (expect_self ..), bind_some read]
    rcases items with _ | ⟨t, _ | ⟨t', items⟩⟩
    · simp [told, pure_eq]
    · simp [told, pure_eq]
    · simp [pure_eq]
  rw [tysTokens_eq, tysReread_eq, List.cons_append, List.cons_append, List.append_assoc,
    List.singleton_append]
  unfold typeStep
  rw [bind_some (peek_eq _)]
  exact whole

theorem readsTypes_step (types : ReadsTypes type n) : ReadsTypes (typeStep type) (n + 1) := by
  intro t plus h fewer
  cases h with
  | path present each =>
    rw [Ty.tokens] at fewer ⊢
    rw [Ty.reread]
    exact reads_path types present each (by omega)
  | pointer marked inner =>
    rw [Ty.tokens, List.length_append] at fewer
    rw [Ty.tokens, Ty.reread]
    refine reads_pointer types marked inner ?_
    cases marked
    simp only [List.length_cons] at fewer
    omega
  | slice inner =>
    rw [Ty.tokens] at fewer ⊢
    rw [Ty.reread]
    refine reads_slice types inner ?_
    simp only [List.length_cons, List.length_append] at fewer
    omega
  | @tuple items comma each told =>
    rw [Ty.tokens] at fewer ⊢
    rw [Ty.reread]
    refine reads_tuple types each told fun t here => ?_
    have inside : t.tokens ∈ tysTokens items := by
      rw [tysTokens_eq]
      exact List.mem_map_of_mem here
    have shorter := length_le_of_mem "," comma inside
    simp only [List.length_cons, List.length_append] at fewer
    omega
  | group inside =>
    rw [Ty.tokens] at fewer ⊢
    rw [Ty.reread]
    refine reads_group types inside ?_
    simp only [List.length_cons, List.length_append] at fewer
    omega

theorem readsTypes (fuel : Nat) : ReadsTypes (Parser.type fuel) fuel := by
  induction fuel with
  | zero =>
    intro t plus h fewer
    exact absurd fewer (Nat.not_lt_zero _)
  | succ fuel ih => exact readsTypes_step ih

/-! ## The reader of bounds -/

theorem reads_bound {b : Bound} (types : ReadsTypes type n) (h : b.Readable)
    (fewer : b.tokens.length < n) : Reads (bound type) (Stops false) b.tokens b.reread := by
  intro rest behind
  cases h with
  | lifetime life =>
    rw [Bound.tokens, Bound.reread, List.singleton_append]
    unfold bound
    rw [bind_some (peek_eq _)]
    simp only [List.head?_cons, Option.any_some, life, if_true]
    rw [bind_some (next_cons ..)]
    rfl
  | @path p named =>
    have alone : (Bound.path false [] p).tokens = (Ty.path p).tokens := by
      rw [Bound.tokens, Ty.tokens]
      simp
    rw [alone] at fewer
    have read := types _ false named fewer rest behind
    obtain ⟨token, ts, spelled, first⟩ : ∃ token ts, p.tokens = token :: ts ∧
        (isPathName token = true ∨ token = "::") := by
      cases named with
      | path present each => exact Path.tokens_eq_cons present each
    have opens : Opens token := first.imp_right fun colons => by simp [colons, openings]
    have no_paren : token ≠ "(" := by
      rcases first with name | rfl
      · exact ne_of_isPathName name (by simp [signs])
      · decide
    have question : token ≠ "?" := opens.ne (by simp [signs]) (by simp [openings])
    have no_for : token ≠ "for" := opens.ne (by simp [signs]) (by simp [openings])
    rw [Ty.reread, Ty.tokens] at read
    rw [alone, Ty.tokens, Bound.reread]
    rw [spelled, List.cons_append] at read ⊢
    have no_mark : mark ["?"] (token :: (ts ++ rest)) = some ([], token :: (ts ++ rest)) :=
      @mark_toList _ _ none (by simp) fun _ => by simp [question]
    have no_lifetimes : forLifetimes (token :: (ts ++ rest)) =
        some ([], token :: (ts ++ rest)) := by
      unfold forLifetimes
      rw [bind_some (peek_eq _), if_neg (by simpa using no_for)]
      rfl
    have one : path type (token :: (ts ++ rest)) = some (p.reread, rest) := by
      unfold path
      rw [bind_some read]
      rfl
    unfold bound
    rw [bind_some (peek_eq _)]
    simp only [List.head?_cons, Option.any_some, opens.isLifetime_eq, Bool.false_eq_true, if_false]
    rw [bind_some (skip_other (by simpa using no_paren)), bind_some no_mark,
      bind_some no_lifetimes, bind_some one]
    rfl

/-- A bound does not start with what ends bounds. -/
theorem goes_on {b : Bound} (h : b.Readable) :
    ∃ token ts, b.tokens = token :: ts ∧ endsBounds (some token) = false := by
  cases h with
  | @lifetime name life =>
    refine ⟨name, [], by rw [Bound.tokens], ?_⟩
    have none : ∀ t ∈ endings, isLifetime t = false := by decide +kernel
    rw [Bool.eq_false_iff, ne_eq, endsBounds_iff]
    intro ended
    simp [none name ended] at life
  | @path p named =>
    obtain ⟨token, ts, spelled, opens⟩ := named.opens
    refine ⟨token, ts, by rw [Bound.tokens, ← spelled, Ty.tokens]; simp, ?_⟩
    have none : ∀ t ∈ endings, t ∈ signs ∧ t ∉ openings := by decide
    rw [Bool.eq_false_iff, ne_eq, endsBounds_iff]
    intro ended
    obtain ⟨sign, later⟩ := none token ended
    exact opens.ne sign later rfl

theorem boundsAfter_flatMap {bs : List Bound} {rest : Tokens} (types : ReadsTypes type n)
    (each : ∀ b ∈ bs, b.Readable) (fewer : ∀ b ∈ bs, b.tokens.length < n) (behind : Stops true rest)
    {fuel : Nat} (enough : bs.length < fuel) :
    boundsAfter type fuel ((bs.map Bound.tokens).flatMap ("+" :: ·) ++ rest) =
      some ((bs.map Bound.reread, false), rest) := by
  induction bs generalizing fuel with
  | nil =>
    obtain ⟨fuel, rfl⟩ := Nat.exists_eq_add_one.2 (Nat.zero_lt_of_lt enough)
    have no_plus : rest.head? ≠ some "+" := by simpa using behind.no_plus
    rw [boundsAfter, List.map_nil, List.flatMap_nil, List.nil_append,
      bind_some (skip_other no_plus)]
    rfl
  | cons b bs ih =>
    obtain ⟨fuel, rfl⟩ := Nat.exists_eq_add_one.2 (Nat.zero_lt_of_lt enough)
    obtain ⟨first, each⟩ := List.forall_mem_cons.1 each
    obtain ⟨shorter, fewer⟩ := List.forall_mem_cons.1 fewer
    obtain ⟨token, ts, spelled, goes⟩ := goes_on first
    have follows : Stops false ((bs.map Bound.tokens).flatMap ("+" :: ·) ++ rest) :=
      follows_flatMap (fun _ _ _ => .inr ⟨rfl, rfl⟩) behind.patient
    have read := reads_bound types first shorter _ follows
    rw [boundsAfter, List.map_cons, List.flatMap_cons, List.cons_append, List.cons_append,
      List.append_assoc, bind_some (skip_self ..)]
    simp only [if_true]
    rw [spelled, List.cons_append] at read ⊢
    rw [bind_some (peek_eq _), List.head?_cons, goes]
    simp only [Bool.false_eq_true, if_false]
    rw [bind_some read, bind_some (ih each fewer (by simpa using enough))]
    rfl

theorem reads_bounds {bs : List Bound} (types : ReadsTypes type n) (present : bs ≠ [])
    (each : ∀ b ∈ bs, b.Readable) (fewer : (separated "+" (boundsTokens bs) false).length < n) :
    Reads (bounds type true) (Stops true) (separated "+" (boundsTokens bs) false)
      (boundsReread bs, false) := by
  intro rest behind
  have shorter : ∀ b ∈ bs, b.tokens.length < n := by
    intro b here
    have inside : b.tokens ∈ boundsTokens bs := by
      rw [boundsTokens_eq]
      exact List.mem_map_of_mem here
    exact Nat.lt_of_le_of_lt (length_le_of_mem _ _ inside) fewer
  obtain ⟨b, bs, rfl⟩ := List.exists_cons_of_ne_nil present
  obtain ⟨first, each⟩ := List.forall_mem_cons.1 each
  obtain ⟨short, shorter⟩ := List.forall_mem_cons.1 shorter
  have follows : Stops false ((bs.map Bound.tokens).flatMap ("+" :: ·) ++ rest) :=
    follows_flatMap (fun _ _ _ => .inr ⟨rfl, rfl⟩) behind.patient
  have enough : bs.length < ((bs.map Bound.tokens).flatMap ("+" :: ·) ++ rest).length + 1 := by
    simpa using @length_lt_flatMap "+" (bs.map Bound.tokens) rest
  rw [boundsTokens_eq, List.map_cons, separated_false, List.append_assoc, boundsReread_eq]
  unfold bounds boundsFrom
  rw [bind_some (reads_bound types first short _ follows)]
  simp only [if_true]
  rw [bind_some (get_eq _), bind_some (boundsAfter_flatMap types each shorter behind enough)]
  rfl

end
end Parser

/-! ## Texts -/

/-- A text with the tokens of a type is read as the type, with all arguments in their order. -/
theorem Ty.ofText_eq_reread {t : Ty} {text : String} (h : t.Readable)
    (spelled : Tokens.ofText text = t.tokens) : Ty.ofText text = t.reread := by
  have read := Parser.readsTypes (t.tokens.length + 1) t true h (Nat.lt_succ_self _) [] (.inl rfl)
  rw [List.append_nil] at read
  have whole : (Parser.type (t.tokens.length + 1) true).run t.tokens = some (t.reread, []) := read
  simp only [Ty.ofText, spelled, whole]

/-- Where a lifetime was written last, it is read first, and a comma stands behind the others. -/
example : Ty.ofText "RpcResult<'static, Response,>" = (Ty.path (.mk false [.ofArgs "RpcResult"
    [.type (.named "Response"), .lifetime "'static"]])).reread := by
  have named : (Ty.named "Response").Readable :=
    .path (by simp) (by simpa using .plain (by decide +kernel))
  refine Ty.ofText_eq_reread (.path (by simp) ?_) (by decide +kernel)
  simpa [Segment.ofArgs] using Segment.Readable.angled (by decide +kernel)
    (by simpa using ⟨.type named, .lifetime (by decide +kernel)⟩) (by simp)

theorem Bound.listOfText_eq_reread {bs : List Bound} {text : String} (present : bs ≠ [])
    (each : ∀ b ∈ bs, b.Readable)
    (spelled : Tokens.ofText text = separated "+" (boundsTokens bs) false) :
    Bound.listOfText text = boundsReread bs := by
  have read := Parser.reads_bounds (Parser.readsTypes _) present each (Nat.lt_succ_self _) []
    (.inl rfl)
  rw [List.append_nil] at read
  simp only [Bound.listOfText, spelled, StateT.run, read]

end RemoteCall.Trait
