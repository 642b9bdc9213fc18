import RemoteCall.Proofs.Trait.Acceptance

/-!
# Names that an expansion makes

Underscores apart, the constant of a method is its name in upper case (`filter_upperSnake`). So it
is no name where the method's name is raw, or has nothing but underscores, or goes on with a digit
behind them (`Spoiled`). An expansion fails at the first such method, once the contract has met all
requirements, and at nothing else: all other names that it makes are names
(`expand_fails_at_spoiled_names`). All this is about names of ASCII and Latin-1 (`Legal`).
-/

namespace RemoteCall

/-! ## Characters of a constant -/

namespace Casing

open Trait.Tokens

/-- What a character in upper case has in common with it, where it stands in a name. -/
@[mk_iff]
structure Fitting (c : Char) : Prop where
  starts_upper : (upper c).head?.any starts = starts c
  goesOn_upper : (upper c).all goesOn = goesOn c
  underscore_upper : c ≠ '_' → '_' ∉ upper c
  upper_ne_nil : upper c ≠ []

instance (c : Char) : Decidable (Fitting c) := decidable_of_iff' _ (fitting_iff c)

theorem fitting_of_lt : ∀ n < 256, Fitting (Char.ofNat n) := by decide +kernel

theorem fitting {c : Char} (latin : c.toNat < 256) : Fitting c := by
  simpa using fitting_of_lt c.toNat latin

section
variable {name : String}

/-- No two words are joined but by underscores. -/
theorem filter_intercalate (ws : List (List Char)) :
    (List.intercalate ['_'] ws).filter (· ≠ '_') = ws.flatten.filter (· ≠ '_') := by
  induction ws with
  | nil => rfl
  | cons w ws ih =>
    cases ws with
    | nil => simp
    | cons v ws =>
      rw [List.intercalate_cons_cons, List.filter_append, List.filter_append, ih,
        List.flatten_cons, List.filter_append]
      simp

/-- Underscores apart, a constant is its name in upper case. -/
theorem filter_upperSnake (latin : IsLatin name.toList) :
    (upperSnake name).toList.filter (· ≠ '_') =
      (name.toList.filter (· ≠ '_')).flatMap upper := by
  have joined : (words name).flatMap (fun w => w.flatMap upper) =
      (name.toList.filter (· ≠ '_')).flatMap upper := by
    rw [← flatten_words, ← List.flatMap_id, List.flatMap_assoc]
    rfl
  rw [upperSnake, String.toList_ofList, filter_intercalate, ← List.flatMap_def, joined,
    List.filter_eq_self]
  intro d member
  obtain ⟨c, inside, up⟩ := List.mem_flatMap.1 member
  obtain ⟨inside, other⟩ := List.mem_filter.1 inside
  have none := (fitting (latin c inside)).underscore_upper (by simpa using other)
  simpa using ne_of_mem_of_not_mem up none

/-- The first character but for underscores is the first of the constant, in upper case. -/
theorem head?_upperSnake (latin : IsLatin name.toList) : (upperSnake name).toList.head? =
    (name.toList.find? (· ≠ '_')).bind fun c => (upper c).head? := by
  rw [← List.head?_filter, ← flatten_words, upperSnake, String.toList_ofList]
  cases found : words name with
  | nil => rfl
  | cons w ws =>
    have full : w ≠ [] := ne_nil_of_mem_words (found ▸ List.mem_cons_self)
    obtain ⟨c, cs, rfl⟩ := List.exists_cons_of_ne_nil full
    have here := latin.of_mem_words (found ▸ List.mem_cons_self) c List.mem_cons_self
    obtain ⟨d, ds, up⟩ := List.exists_cons_of_ne_nil (fitting here).upper_ne_nil
    cases ws <;> simp [List.intercalate_cons_cons, up]

end

end Casing

/-! ## Names without a constant -/

namespace Trait

open Tokens Casing

theorem goesOn_of_starts {c : Char} (begins : starts c = true) : goesOn c = true := by
  simp only [starts, Bool.and_eq_true] at begins
  exact begins.1.1

theorem IsIdentifier.goesOn {text : String} (h : IsIdentifier text) :
    ∀ c ∈ text.toList, goesOn c = true := by
  obtain ⟨c, cs, spelled, begins, rest⟩ := h
  exact spelled ▸ List.forall_mem_cons.2 ⟨goesOn_of_starts begins, rest⟩

theorem IsIdentifier.append {text more : String} (h : IsIdentifier text)
    (goes : more.toList.all Tokens.goesOn = true) : IsIdentifier (text ++ more) := by
  obtain ⟨c, cs, spelled, begins, rest⟩ := h
  refine ⟨c, cs ++ more.toList, by simp [spelled], begins, ?_⟩
  exact List.forall_mem_append.2 ⟨rest, List.all_eq_true.1 goes⟩

theorem isIdentifier_iff {text : String} : IsIdentifier text ↔
    text.toList.head?.any starts = true ∧ ∀ d ∈ text.toList.filter (· ≠ '_'), goesOn d = true := by
  have apart : (∀ d ∈ text.toList.filter (· ≠ '_'), goesOn d = true) ↔
      ∀ d ∈ text.toList, goesOn d = true := by
    have underscore : goesOn '_' = true := by decide
    constructor
    · intro all d member
      by_cases same : d = '_'
      · exact same ▸ underscore
      · exact all d (by simp [member, same])
    · intro all d member
      exact all d (List.mem_filter.1 member).1
  rw [apart]
  constructor
  · intro h
    obtain ⟨c, cs, spelled, begins, -⟩ := id h
    exact ⟨by simp [spelled, begins], h.goesOn⟩
  · rintro ⟨begins, all⟩
    obtain ⟨c, first, begins⟩ := (Option.any_eq_true _ _).1 begins
    obtain ⟨cs, spelled⟩ := List.head?_eq_some_iff.1 first
    exact ⟨c, cs, spelled, begins, (List.forall_mem_cons.1 (spelled ▸ all)).2⟩

/-- A constant is a name exactly if the first character behind the underscores can begin one, and
all others can go on with it. -/
theorem isIdentifier_upperSnake_iff {name : String} (latin : IsLatin name.toList) :
    IsIdentifier (upperSnake name) ↔ (name.toList.find? (· ≠ '_')).any starts = true ∧
      ∀ c ∈ name.toList, c ≠ '_' → goesOn c = true := by
  rw [isIdentifier_iff, head?_upperSnake latin, filter_upperSnake latin]
  refine and_congr ?_ ?_
  · cases first : name.toList.find? (· ≠ '_') with
    | none => simp
    | some c => simp [(fitting (latin c (List.mem_of_find?_eq_some first))).starts_upper]
  · rw [List.forall_mem_flatMap, List.forall_mem_filter]
    refine forall₂_congr fun c member => imp_congr (by simp) ?_
    rw [← (fitting (latin c member)).goesOn_upper, List.all_eq_true]

/-- A name that a declaration may choose, in the characters of ASCII and Latin-1. -/
def Legal (name : String) : Prop := isName name = true ∧ IsLatin name.toList

instance (name : String) : Decidable (Legal name) :=
  inferInstanceAs (Decidable (isName name = true ∧ IsLatin name.toList))

/-- What keeps the name of a method from having a constant. -/
inductive Spoiled (name : String) : Prop
  /-- The mark of a raw name goes into the constant. -/
  | raw : ['r', '#'] <+: name.toList → Spoiled name
  | blank : (∀ c ∈ name.toList, c = '_') → Spoiled name
  /-- The constant would begin with what only goes on with a name. -/
  | headless {before after : List Char} {c : Char} : name.toList = before ++ c :: after →
    (∀ d ∈ before, d = '_') → c.isDigit = true ∨ c = '·' → Spoiled name

section
variable {name : String}

theorem isIdentifier_of_isName (legal : isName name = true) : IsIdentifier (plainName name) := by
  unfold isName at legal
  split at legal
  next => cases legal
  next => cases legal
  next c cs _ spelled =>
    simp only [Bool.and_eq_true, List.all_eq_true] at legal
    exact ⟨c, cs, spelled, legal.1.1, legal.1.2⟩

theorem plainName_eq (plain : ¬['r', '#'] <+: name.toList) : plainName name = name := by
  unfold plainName
  split
  next cs spelled => exact absurd ⟨cs, spelled.symm⟩ plain
  next => rfl

theorem Spoiled.not_isIdentifier (spoiled : Spoiled name) (latin : IsLatin name.toList) :
    ¬IsIdentifier (upperSnake name) := by
  rw [isIdentifier_upperSnake_iff latin]
  rintro ⟨begins, all⟩
  cases spoiled with
  | raw mark =>
    have stuck : goesOn '#' = true := all '#' (mark.subset (by decide)) (by decide)
    cases stuck
  | blank only =>
    have none : name.toList.find? (· ≠ '_') = none := by simpa using only
    rw [none] at begins
    cases begins
  | @headless before after c spelled only late =>
    have headless : starts c = false := by
      rcases late with digit | rfl
      · simp [starts, digit]
      · rfl
    have other : c ≠ '_' := by
      rintro rfl
      cases headless
    have first : name.toList.find? (· ≠ '_') = some c :=
      List.find?_eq_some_iff_append.2
        ⟨by simpa using other, before, after, spelled, by simpa using only⟩
    rw [first, Option.any_some, headless] at begins
    cases begins

/-- Nothing else keeps a name from having a constant. -/
theorem spoiled_iff (legal : Legal name) :
    Spoiled name ↔ ¬IsIdentifier (upperSnake name) := by
  obtain ⟨legal, latin⟩ := legal
  refine ⟨fun spoiled => spoiled.not_isIdentifier latin, fun nameless => ?_⟩
  by_cases mark : ['r', '#'] <+: name.toList
  · exact .raw mark
  have all := plainName_eq mark ▸ (isIdentifier_of_isName legal).goesOn
  rw [isIdentifier_upperSnake_iff latin] at nameless
  cases first : name.toList.find? (· ≠ '_') with
  | none => exact .blank (by simpa using first)
  | some c =>
    obtain ⟨-, before, after, spelled, only⟩ := List.find?_eq_some_iff_append.1 first
    refine .headless spelled (by simpa using only) ?_
    have going : goesOn c = true := all c (spelled ▸ by simp)
    by_contra! early
    refine nameless ⟨?_, fun c member _ => all c member⟩
    rw [first, Option.any_some]
    simp [starts, going, early]

end

/-! ## Where an expansion fails -/

section
variable {t : Trait} {name : String}

/-- The first method without a constant, told by its name. -/
theorem find?_hasConstant {methods : List Method}
    (found : t.items.mapM Method.ofItem = .ok methods) :
    (methods.find? (!·.hasConstant)).map (·.name) =
      t.functionNames.find? fun n => ¬IsIdentifier (upperSnake n) := by
  have same : (fun n => decide ¬IsIdentifier (upperSnake n)) ∘ Method.name =
      (!·.hasConstant) := by
    funext m
    have named : m.hasConstant = true ↔ IsIdentifier (upperSnake m.name) := Method.hasConstant_iff
    simp [← named]
  rw [functionNames, ← (names_of_mapM found).2, List.find?_map, same]

/-- A contract that meets all requirements declares methods only. -/
theorem exists_methods (all : ∀ q ∈ t.requirements, q.2) :
    ∃ methods, t.items.mapM Method.ofItem = .ok methods := by
  cases found : t.items.mapM Method.ofItem with
  | ok methods => exact ⟨methods, rfl⟩
  | error fault => exact absurd (List.forall_mem_cons.1 all).2 (fails_of_mapM found).not_all

theorem expand_eq_badName_iff : expand t = .error (.badName name) ↔ (∀ q ∈ t.requirements, q.2) ∧
    t.functionNames.find? (fun n => ¬IsIdentifier (upperSnake n)) = some name := by
  constructor
  · intro failed
    obtain ⟨plain, methods, all, -⟩ := declares_of_badName failed
    refine ⟨meets_of_declares plain all, ?_⟩
    have found := mapM_eq_ok_iff.2 all
    rw [← find?_hasConstant found]
    simp only [expand, plain, ne_eq, not_true_eq_false, if_false, found] at failed
    split at failed
    next m first =>
      simp only [Except.error.injEq, Refusal.badName.injEq] at failed
      rw [first, Option.map_some, failed]
    next => cases failed
  · rintro ⟨all, first⟩
    obtain ⟨methods, found⟩ := exists_methods all
    have plain : t.generics = [] := (List.forall_mem_cons.1 all).1
    rw [← find?_hasConstant found, Option.map_eq_some_iff] at first
    obtain ⟨m, first, rfl⟩ := first
    simp only [expand, plain, found, first]
    rfl

/-- An expansion answers unless a method stands in its way. -/
theorem answers_iff : ((∃ e, expand t = .ok e) ∨ ∃ fault, expand t = .error (.fault fault)) ↔
    ((∀ q ∈ t.requirements, q.2) → ∀ n ∈ t.functionNames, IsIdentifier (upperSnake n)) := by
  have clear : (∀ n ∈ t.functionNames, IsIdentifier (upperSnake n)) ↔
      t.functionNames.find? (fun n => ¬IsIdentifier (upperSnake n)) = none := by
    simp [List.find?_eq_none]
  have answers : ((∃ e, expand t = .ok e) ∨ ∃ fault, expand t = .error (.fault fault)) ↔
      ∀ name, expand t ≠ .error (.badName name) := by
    rcases expand t with (fault | name) | e <;> simp
  rw [answers, clear, Option.eq_none_iff_forall_ne_some]
  simp only [ne_eq, expand_eq_badName_iff, not_and]
  exact forall_comm

/-- With legal names the first method without a constant is the first with a spoiled name. -/
theorem expand_eq_badName_iff_spoiled (legal : ∀ n ∈ t.functionNames, Legal n) :
    expand t = .error (.badName name) ↔ (∀ q ∈ t.requirements, q.2) ∧
      ∃ before after, t.functionNames = before ++ name :: after ∧ Spoiled name ∧
        ∀ n ∈ before, ¬Spoiled n := by
  rw [expand_eq_badName_iff, List.find?_eq_some_iff_append]
  refine and_congr_right fun _ => ?_
  constructor
  · rintro ⟨nameless, before, after, split, clean⟩
    have here : Legal name := legal name (split ▸ by simp)
    refine ⟨before, after, split, (spoiled_iff here).2 (by simpa using nameless), ?_⟩
    intro n member spoiled
    have there : Legal n := legal n (split ▸ by simp [member])
    simpa [(spoiled_iff there).1 spoiled] using clean n member
  · rintro ⟨before, after, split, spoiled, clean⟩
    have here : Legal name := legal name (split ▸ by simp)
    refine ⟨by simpa using (spoiled_iff here).1 spoiled, before, after, split, fun n member => ?_⟩
    have there : Legal n := legal n (split ▸ by simp [member])
    simpa using not_not.1 fun nameless => clean n member ((spoiled_iff there).2 nameless)

/-- What is put before or behind a legal name makes a name of it, raw or not. -/
theorem isIdentifier_of_legal (named : Legal t.name) (legal : ∀ n ∈ t.functionNames, Legal n) :
    ∀ text ∈ [plainName t.name ++ "Schema", plainName t.name ++ "Client"] ++
      t.functionNames.map ("call_" ++ plainName ·), IsIdentifier text := by
  have contract := isIdentifier_of_isName named.1
  have call : IsIdentifier "call_" := by decide
  intro text member
  simp only [List.cons_append, List.nil_append, List.mem_cons, List.mem_map] at member
  rcases member with rfl | rfl | ⟨n, member, rfl⟩
  · exact contract.append (by decide)
  · exact contract.append (by decide)
  · exact call.append (List.all_eq_true.2 (isIdentifier_of_isName (legal n member).1).goesOn)

/-- Let a contract and its functions have names that they may choose, in the characters of ASCII and
Latin-1. The expansion fails at a method exactly if the contract meets all requirements and the
method is the first one with a spoiled name; otherwise it gives all parts or tells the fault. No
other name that is put together is at fault, and the parts that are given have names throughout. -/
theorem expand_fails_at_spoiled_names (named : Legal t.name)
    (legal : ∀ n ∈ t.functionNames, Legal n) :
    (∀ name, expand t = .error (.badName name) ↔ (∀ q ∈ t.requirements, q.2) ∧
      ∃ before after, t.functionNames = before ++ name :: after ∧ Spoiled name ∧
        ∀ n ∈ before, ¬Spoiled n) ∧
      (((∃ e, expand t = .ok e) ∨ ∃ fault, expand t = .error (.fault fault)) ↔
        ((∀ q ∈ t.requirements, q.2) → ∀ n ∈ t.functionNames, ¬Spoiled n)) ∧
      (∀ text ∈ [plainName t.name ++ "Schema", plainName t.name ++ "Client"] ++
        t.functionNames.map ("call_" ++ plainName ·), IsIdentifier text) ∧
      ∀ e, expand t = .ok e → ∀ text ∈ [e.schemaName, e.clientName] ++
        (e.constants.map (·.1) ++ e.forwarders.map (·.name)), IsIdentifier text := by
  have others := isIdentifier_of_legal named legal
  refine ⟨fun name => expand_eq_badName_iff_spoiled legal, ?_, others, ?_⟩
  · rw [answers_iff]
    refine imp_congr_right fun _ => forall₂_congr fun n member => ?_
    rw [spoiled_iff (legal n member), not_not]
  · intro e accepted text member
    obtain ⟨-, all, constants, declaration⟩ := expand_eq_ok_iff.1 accepted
    have contract : e.name = t.name := by rw [Expansion.name, declaration]
    have functions := (names_of_mapM (mapM_eq_ok_iff.2 all)).2
    rw [List.mem_append, List.mem_append] at member
    rcases member with whole | constant | forwarder
    · refine others text (List.mem_append_left _ ?_)
      rwa [Expansion.schemaName, Expansion.clientName, contract] at whole
    · obtain ⟨m, inside, rfl⟩ : ∃ m ∈ e.methods, m.constant = text := by
        simpa [Expansion.constants] using constant
      exact constants m inside
    · refine others text (List.mem_append_right _ ?_)
      rw [functionNames, ← functions]
      simpa [Expansion.forwarders, Function.comp_def] using forwarder

end

/-- Of three methods the second and the third have no constants. -/
theorem first_spoiled_name_is_told :
    Legal "Calc" ∧ (∀ n ∈ (asking ["_get_item", "_1", "__"]).functionNames, Legal n) ∧
    (∀ q ∈ (asking ["_get_item", "_1", "__"]).requirements, q.2) ∧
    ¬Spoiled "_get_item" ∧ Spoiled "_1" ∧ Spoiled "__" ∧
    expand (asking ["_get_item", "_1", "__"]) = .error (.badName "_1") := by
  have named : Legal "Calc" := by decide +kernel
  have legal : ∀ n ∈ (asking ["_get_item", "_1", "__"]).functionNames, Legal n := by
    decide +kernel
  have first : ¬Spoiled "_get_item" := by
    rw [spoiled_iff (by decide +kernel), not_not]
    decide +kernel
  have second : Spoiled "_1" := @Spoiled.headless "_1" ['_'] [] '1' rfl (by simp) (.inl rfl)
  have third : Spoiled "__" := .blank (by simp)
  obtain ⟨fails, -⟩ := expand_fails_at_spoiled_names named legal
  obtain ⟨all, -⟩ := (fails "_1").1 rfl
  refine ⟨named, legal, all, first, second, third, (fails "_1").2 ⟨all, ["_get_item"], ["__"], ?_⟩⟩
  exact ⟨rfl, second, by simpa using first⟩

/-- Legal names at which an expansion fails. -/
theorem legal_names_without_constants :
    (isName "r#match" = true ∧ expand (asking ["r#match"]) = .error (.badName "r#match")) ∧
      (isName "__" = true ∧ expand (asking ["__"]) = .error (.badName "__")) ∧
      (isName "_1" = true ∧ expand (asking ["_1"]) = .error (.badName "_1")) :=
  ⟨⟨by decide +kernel, rfl⟩, ⟨by decide +kernel, rfl⟩, by decide +kernel, rfl⟩

end Trait

end RemoteCall
