import RemoteCall.Trait.Parser
import RemoteCall.Proofs.Trait.Readback

/-!
# Readers of tokens

What the readers that all others are made of do with tokens that start as they expect: a token or a
mark is taken, and items are taken one by one, with commas between them (`upTo_separated`) or each
behind a separator (`itemsAfter_flatMap`). What an item is read as is said for the tokens that can
stand behind it (`Reads`).
-/

namespace RemoteCall.Trait

/-! ## First tokens -/

/-- Signs and words of the language that are looked for in a type. -/
def signs : List String :=
  ["<", ">", "(", ")", "[", "]", "\x7b", "\x7d", ",", ";", "=", "::", "&", "*", "!", "?", "-", "_",
    "true", "false", "mut", "const", "impl", "dyn", "fn", "unsafe", "extern", "for"]

/-- The signs that a type can start with. -/
def openings : List String := ["::", "&", "*", "[", "("]

/-- The tokens that a type can start with. -/
def Opens (token : String) : Prop := isPathName token = true ∨ token ∈ openings

section
variable {name token : String}

theorem ne_of_isPathName (named : isPathName name = true) (sign : token ∈ signs) :
    name ≠ token := by
  have none : ∀ t ∈ signs, isPathName t = false := by decide +kernel
  rintro rfl
  simp [none name sign] at named

/-- A name starts as names do, and no mark of a quotation stands in it. -/
theorem spelled_of_isPathName (named : isPathName name = true) : ∃ c cs, name.toList = c :: cs ∧
    Tokens.starts c = true ∧ ∀ d ∈ c :: cs, d ≠ '"' ∧ d ≠ '\'' := by
  have clean : ∀ d, Tokens.goesOn d = true → d ≠ '"' ∧ d ≠ '\'' := by
    intro d going
    constructor <;> (rintro rfl; cases going)
  simp only [isPathName, Bool.or_eq_true, decide_eq_true_eq] at named
  rcases named with chosen | keyword
  · unfold isName at chosen
    split at chosen
    next => cases chosen
    next => cases chosen
    next c cs _ spelled =>
      simp only [Bool.and_eq_true, List.all_eq_true] at chosen
      obtain ⟨⟨starts, rest⟩, -⟩ := chosen
      have all : ∀ d ∈ c :: cs, d ≠ '"' ∧ d ≠ '\'' := by
        refine List.forall_mem_cons.2 ⟨clean c ?_, fun d hd => clean d (rest d hd)⟩
        simp only [Tokens.starts, Bool.and_eq_true] at starts
        exact starts.1.1
      unfold plainName at spelled
      split at spelled
      next ds raw =>
        rw [String.toList_ofList] at spelled
        subst spelled
        refine ⟨'r', '#' :: c :: cs, raw, rfl, ?_⟩
        exact List.forall_mem_cons.2 ⟨by decide, List.forall_mem_cons.2 ⟨by decide, all⟩⟩
      next => exact ⟨c, cs, spelled, starts, all⟩
  · have one : name = "self" ∨ name = "Self" ∨ name = "super" ∨ name = "crate" ∨
        name = "try" := by
      simpa using keyword
    rcases one with rfl | rfl | rfl | rfl | rfl
    · exact ⟨'s', ['e', 'l', 'f'], rfl, rfl, by simp⟩
    · exact ⟨'S', ['e', 'l', 'f'], rfl, rfl, by simp⟩
    · exact ⟨'s', ['u', 'p', 'e', 'r'], rfl, rfl, by simp⟩
    · exact ⟨'c', ['r', 'a', 't', 'e'], rfl, rfl, by simp⟩
    · exact ⟨'t', ['r', 'y'], rfl, rfl, by simp⟩

theorem isLifetime_of_isPathName (named : isPathName name = true) : isLifetime name = false := by
  obtain ⟨c, cs, spelled, -, free⟩ := spelled_of_isPathName named
  have other : c ≠ '\'' := (free c List.mem_cons_self).2
  unfold isLifetime
  rw [spelled]
  split
  next same => exact absurd (List.cons.inj same).1 other
  next => rfl

theorem isLiteral_of_isPathName (named : isPathName name = true) : isLiteral name = false := by
  obtain ⟨c, cs, spelled, starts, free⟩ := spelled_of_isPathName named
  have letter : c.isDigit = false := by
    simp only [Tokens.starts, Bool.and_eq_true, Bool.not_eq_true'] at starts
    exact starts.1.2
  have plain : isQuantity name = false := by
    have marks : ∀ d ∈ cs, d ≠ '"' ∧ d ≠ '\'' := fun d hd => free d (List.mem_cons_of_mem c hd)
    simp only [isQuantity, spelled, letter, Bool.false_or, Bool.or_eq_false_iff,
      decide_eq_false_iff_not]
    refine ⟨⟨(free c List.mem_cons_self).1, ?_⟩, ?_⟩
    · simpa using fun inside => (marks _ inside).1 rfl
    · simpa using fun inside => (marks _ inside).2 rfl
  have first : name ≠ "true" := ne_of_isPathName named (by simp [signs])
  have second : name ≠ "false" := ne_of_isPathName named (by simp [signs])
  simp [isLiteral, plain, first, second]

theorem Opens.isLifetime_eq (h : Opens token) : isLifetime token = false := by
  have none : ∀ t ∈ openings, isLifetime t = false := by decide +kernel
  exact h.elim isLifetime_of_isPathName (none token)

theorem Opens.isLiteral_eq (h : Opens token) : isLiteral token = false := by
  have none : ∀ t ∈ openings, isLiteral t = false := by decide +kernel
  exact h.elim isLiteral_of_isPathName (none token)

theorem Opens.ne {other : String} (h : Opens token) (sign : other ∈ signs)
    (later : other ∉ openings) : token ≠ other := by
  rintro rfl
  exact h.elim (fun named => ne_of_isPathName named sign rfl) later

end

/-! ## Tokens with separators -/

theorem separated_false (separator : String) (ts : Tokens) (parts : List Tokens) :
    separated separator (ts :: parts) false = ts ++ parts.flatMap (separator :: ·) := by
  induction parts generalizing ts with
  | nil => simp [separated]
  | cons part parts ih => rw [separated_cons ts (by simp), ih, List.flatMap_cons, List.cons_append]

theorem length_le_separated {separator : String} {parts : List Tokens} {trailing : Bool}
    (present : ∀ ts ∈ parts, ts ≠ []) :
    parts.length ≤ (separated separator parts trailing).length := by
  induction parts with
  | nil => exact Nat.zero_le _
  | cons ts parts ih =>
    obtain ⟨first, present⟩ := List.forall_mem_cons.1 present
    have one : 1 ≤ ts.length := List.length_pos_of_ne_nil first
    rcases List.eq_nil_or_concat parts with rfl | ⟨_, _, more⟩
    · simp only [separated, List.intersperse_singleton, List.flatten_singleton,
        List.length_append, List.length_singleton]
      omega
    · rw [separated_cons ts (by simp [more])]
      simp only [List.length_cons, List.length_append]
      have rest := ih present
      omega

theorem length_le_of_mem (separator : String) {parts : List Tokens} (trailing : Bool)
    {ts : Tokens} (here : ts ∈ parts) :
    ts.length ≤ (separated separator parts trailing).length := by
  induction parts with
  | nil => cases here
  | cons part parts ih =>
    rcases List.eq_nil_or_concat parts with rfl | ⟨_, _, more⟩
    · rw [List.mem_singleton] at here
      simp [here, separated]
    · rw [separated_cons part (by simp [more])]
      simp only [List.length_cons, List.length_append]
      rcases List.mem_cons.1 here with rfl | here
      · omega
      · have rest := ih here
        omega

theorem length_lt_flatMap {separator : String} {parts : List Tokens} {rest : Tokens} :
    parts.length < (parts.flatMap (separator :: ·) ++ rest).length + 1 := by
  induction parts with
  | nil => exact Nat.zero_lt_succ _
  | cons part parts ih =>
    simp only [List.flatMap_cons, List.length_cons, List.length_append] at ih ⊢
    omega

/-! ## Steps -/

namespace Parser

section
variable {α β : Type} {ts rest : Tokens} {token : String} {tokens : List String}

theorem bind_some {p : Parser α} {f : α → Parser β} {a : α} (h : p ts = some (a, rest)) :
    (p >>= f) ts = f a rest := by
  simp only [bind, StateT.bind, h, Option.bind_some]

theorem pure_eq (a : α) (ts : Tokens) : (pure a : Parser α) ts = some (a, ts) := rfl

theorem get_eq (ts : Tokens) : (get : Parser Tokens) ts = some (ts, ts) := rfl

theorem set_eq (ts rest : Tokens) : (set rest : Parser PUnit) ts = some (⟨⟩, rest) := rfl

theorem peek_eq (ts : Tokens) : peek ts = some (ts.head?, ts) := rfl

theorem next_cons (token : String) (ts : Tokens) : next (token :: ts) = some (token, ts) := rfl

theorem skip_self (token : String) (ts : Tokens) : skip token (token :: ts) = some (true, ts) := by
  unfold skip
  rw [bind_some (peek_eq _), List.head?_cons, if_pos rfl, bind_some (next_cons ..)]
  rfl

theorem skip_other (other : ts.head? ≠ some token) : skip token ts = some (false, ts) := by
  unfold skip
  rw [bind_some (peek_eq _), if_neg other]
  rfl

theorem expect_self (token : String) (ts : Tokens) :
    expect token (token :: ts) = some ((), ts) := by
  unfold expect
  rw [bind_some (skip_self ..)]
  rfl

/-- A mark that is there is taken; where none is there, none follows either. -/
theorem mark_toList {found : Option String} (given : ∀ t ∈ found, t ∈ tokens)
    (other : found = none → ∀ t ∈ ts.head?, t ∉ tokens) :
    mark tokens (found.toList ++ ts) = some (found.toList, ts) := by
  unfold mark
  rw [bind_some (peek_eq _)]
  cases found with
  | some t =>
    have here : t ∈ tokens := given t rfl
    simp only [Option.toList_some, List.singleton_append, List.head?_cons, here, if_true]
    rw [bind_some (next_cons ..)]
    rfl
  | none =>
    rw [Option.toList_none, List.nil_append]
    cases ts with
    | nil => rfl
    | cons token ts =>
      have out : token ∉ tokens := other rfl token rfl
      simp only [List.head?_cons, out, if_false]
      rfl

theorem lifetimeMark_toList {found : Option String} (life : ∀ t ∈ found, isLifetime t = true)
    (other : ∀ t ∈ ts.head?, isLifetime t = false) :
    lifetimeMark (found.toList ++ ts) = some (found.toList, ts) := by
  unfold lifetimeMark
  rw [bind_some (peek_eq _)]
  cases found with
  | some t =>
    have here : isLifetime t = true := life t rfl
    simp only [Option.toList_some, List.singleton_append, List.head?_cons, Option.any_some, here,
      if_true]
    rw [bind_some (next_cons ..)]
    rfl
  | none =>
    rw [Option.toList_none, List.nil_append]
    cases ts with
    | nil => rfl
    | cons token ts =>
      have out : isLifetime token = false := other token rfl
      simp only [List.head?_cons, Option.any_some, out, Bool.false_eq_true, if_false]
      rfl

theorem value?_none (opens : Opens token) : value? (token :: ts) = some (none, token :: ts) := by
  have brace : token ≠ "\x7b" := opens.ne (by simp [signs]) (by simp [openings])
  have minus : token ≠ "-" := opens.ne (by simp [signs]) (by simp [openings])
  unfold value?
  rw [bind_some (get_eq _)]
  simp [brace, opens.isLiteral_eq, minus, pure_eq]

end

/-! ## Lists -/

section
variable {α γ : Type} {item : Parser α} {tokens : γ → Tokens} {value : γ → α} {close : String}
variable {items : List γ}

/-- The parser takes these tokens and gives `a`, if such tokens as `behind` says stand behind. -/
def Reads (p : Parser α) (behind : Tokens → Prop) (ts : Tokens) (a : α) : Prop :=
  ∀ rest, behind rest → p (ts ++ rest) = some (a, rest)

/-- A comma stands behind an item, or the end of its list. -/
def Delimited (close : String) (rest : Tokens) : Prop :=
  rest.head? = some "," ∨ rest.head? = some close

/-- Items with commas between them are read one by one. -/
theorem itemsUpTo_separated (other : close ≠ ",")
    (fresh : ∀ i ∈ items, ∃ t ts, tokens i = t :: ts ∧ t ≠ close)
    (reads : ∀ i ∈ items, Reads item (Delimited close) (tokens i) (value i)) (comma : Bool)
    {fuel : Nat} (enough : items.length < fuel) (rest : Tokens) :
    itemsUpTo close item fuel (separated "," (items.map tokens) comma ++ close :: rest) =
      some ((items.map value, comma || items.isEmpty), rest) := by
  induction items generalizing fuel with
  | nil =>
    obtain ⟨fuel, rfl⟩ := Nat.exists_eq_add_one.2 (Nat.zero_lt_of_lt enough)
    rw [itemsUpTo, List.map_nil, separated]
    simp only [List.intersperse_nil, List.flatten_nil, List.isEmpty_nil, Bool.not_true,
      Bool.and_false, Bool.false_eq_true, if_false, List.nil_append]
    rw [bind_some (skip_self ..)]
    simp [pure_eq]
  | cons i items ih =>
    obtain ⟨fuel, rfl⟩ := Nat.exists_eq_add_one.2 (Nat.zero_lt_of_lt enough)
    obtain ⟨⟨t, ts, spelled, opens⟩, fresh⟩ := List.forall_mem_cons.1 fresh
    obtain ⟨first, reads⟩ := List.forall_mem_cons.1 reads
    have enough' : items.length < fuel := by simpa using enough
    have notYet : ∀ more, skip close (tokens i ++ more) = some (false, tokens i ++ more) := by
      intro more
      exact skip_other (by simpa [spelled] using opens)
    rcases List.eq_nil_or_concat items with rfl | ⟨_, _, more⟩
    · rw [itemsUpTo]
      cases comma with
      | false =>
        have whole : separated "," ([i].map tokens) false ++ close :: rest =
            tokens i ++ close :: rest := by simp [separated]
        rw [whole, bind_some (notYet _)]
        simp only [Bool.false_eq_true, if_false]
        rw [bind_some (first _ (.inr rfl)), bind_some (skip_other (by simpa using other))]
        simp only [Bool.false_eq_true, if_false]
        rw [bind_some (expect_self ..)]
        rfl
      | true =>
        have whole : separated "," ([i].map tokens) true ++ close :: rest = tokens i ++
            "," :: (separated "," (([] : List γ).map tokens) true ++ close :: rest) := by
          simp [separated]
        rw [whole, bind_some (notYet _)]
        simp only [Bool.false_eq_true, if_false]
        rw [bind_some (first _ (.inl rfl)), bind_some (skip_self ..)]
        simp only [if_true]
        rw [bind_some (ih fresh reads enough')]
        simp [pure_eq]
    · have others : items.map tokens ≠ [] := by simp [more]
      have whole : separated "," ((i :: items).map tokens) comma ++ close :: rest =
          tokens i ++ "," :: (separated "," (items.map tokens) comma ++ close :: rest) := by
        rw [List.map_cons, separated_cons _ others, List.append_assoc, List.cons_append]
      rw [itemsUpTo, whole, bind_some (notYet _)]
      simp only [Bool.false_eq_true, if_false]
      rw [bind_some (first _ (.inl rfl)), bind_some (skip_self ..)]
      simp only [if_true]
      rw [bind_some (ih fresh reads enough')]
      simp [pure_eq, more]

theorem upTo_separated (other : close ≠ ",")
    (fresh : ∀ i ∈ items, ∃ t ts, tokens i = t :: ts ∧ t ≠ close)
    (reads : ∀ i ∈ items, Reads item (Delimited close) (tokens i) (value i)) (comma : Bool)
    (rest : Tokens) :
    upTo close item (separated "," (items.map tokens) comma ++ close :: rest) =
      some ((items.map value, comma || items.isEmpty), rest) := by
  have present : ∀ ts ∈ items.map tokens, ts ≠ [] := by
    intro ts member
    obtain ⟨i, here, rfl⟩ := List.mem_map.1 member
    obtain ⟨t, ts, spelled, -⟩ := fresh i here
    simp [spelled]
  have enough := @length_le_separated "," (items.map tokens) comma present
  rw [List.length_map] at enough
  unfold upTo
  rw [bind_some (get_eq _)]
  refine itemsUpTo_separated other fresh reads comma ?_ rest
  rw [List.length_append]
  omega

theorem follows_flatMap {separator : String} {behind : Tokens → Prop} {rest : Tokens}
    (between : ∀ i ∈ items, ∀ more, behind (separator :: (tokens i ++ more)))
    (last : behind rest) :
    behind ((items.map tokens).flatMap (separator :: ·) ++ rest) := by
  cases items with
  | nil => exact last
  | cons i items =>
    rw [List.map_cons, List.flatMap_cons, List.cons_append, List.cons_append, List.append_assoc]
    exact between i List.mem_cons_self _

/-- Items that each have the separator in front are read until none stands there. -/
theorem itemsAfter_flatMap {separator : String} {behind : Tokens → Prop} {rest : Tokens}
    (reads : ∀ i ∈ items, Reads item behind (tokens i) (value i))
    (between : ∀ i ∈ items, ∀ more, behind (separator :: (tokens i ++ more)))
    (last : behind rest) (ended : rest.head? ≠ some separator)
    {fuel : Nat} (enough : items.length < fuel) :
    itemsAfter separator item fuel ((items.map tokens).flatMap (separator :: ·) ++ rest) =
      some (items.map value, rest) := by
  induction items generalizing fuel with
  | nil =>
    obtain ⟨fuel, rfl⟩ := Nat.exists_eq_add_one.2 (Nat.zero_lt_of_lt enough)
    rw [itemsAfter, List.map_nil, List.flatMap_nil, List.nil_append, bind_some (skip_other ended)]
    rfl
  | cons i items ih =>
    obtain ⟨fuel, rfl⟩ := Nat.exists_eq_add_one.2 (Nat.zero_lt_of_lt enough)
    obtain ⟨first, reads⟩ := List.forall_mem_cons.1 reads
    obtain ⟨-, between⟩ := List.forall_mem_cons.1 between
    have follows := follows_flatMap between last
    rw [itemsAfter, List.map_cons, List.flatMap_cons, List.cons_append, List.cons_append,
      List.append_assoc, bind_some (skip_self ..)]
    simp only [if_true]
    rw [bind_some (first _ follows), bind_some (ih reads between (by simpa using enough))]
    rfl

end

end Parser
end RemoteCall.Trait
