import Mathlib.Data.List.SplitBy
import Mathlib.Tactic.MkIffOfInductiveProp
import RemoteCall.Text.Casing

/-!
# Words of a name in camel case

Camel case joins the words of a name, and most joints can still be seen: at a capital, and between a
letter and a digit (`seam`). Where all joints of a name show (`Clear`) its words can be read off its
camel case again, but for the case of their letters (`splitBy_camel`). So two such names that are
alike in camel case are alike in upper snake case (`upperSnake_eq_of_camel_eq`). All this is about
names of ASCII and Latin-1, whose letters are `Lawful`.

A joint that does not show is one between two digits: `a_1_2` and `a12` are both `a12`.
-/

namespace RemoteCall.Casing

/-! ## Letters -/

/-- The letter in lower case, which is one letter always. -/
def small (c : Char) : Char := (lower c).headD c

def isCased (c : Char) : Bool := isLower c || isUpper c

/-- The letter has a capital, and a single one. -/
def hasCapital (c : Char) : Bool :=
  match upper c with
  | [u] => isUpper u
  | _ => false

/-- What turning a letter into a small one or a capital keeps. -/
@[mk_iff]
structure Lawful (c : Char) : Prop where
  lower_eq : lower c = [small c]
  upper_small : upper (small c) = upper c
  upper_upper : (upper c).flatMap upper = upper c
  isUpper_small : isUpper (small c) = false
  isCased_small : isCased (small c) = isCased c
  isDigit_small : isDigit (small c) = isDigit c
  digit : isDigit c = true → upper c = [c] ∧ isCased c = false
  cased : hasCapital c = true → isCased c = true

instance (c : Char) : Decidable (Lawful c) := decidable_of_iff' _ (lawful_iff c)

theorem lawful_of_lt : ∀ n < 256, Lawful (Char.ofNat n) := by decide +kernel

theorem lawful {c : Char} (latin : c.toNat < 256) : Lawful c := by
  simpa using lawful_of_lt c.toNat latin

theorem IsLatin.flatMap_lower {cs : List Char} (latin : IsLatin cs) :
    cs.flatMap lower = cs.map small := by
  induction cs with
  | nil => rfl
  | cons c cs ih =>
    obtain ⟨here, rest⟩ := List.forall_mem_cons.1 latin
    simp [(lawful here).lower_eq, ih rest]

/-! ## Words -/

/-- Two characters that stand next to each other in camel case belong to two words. -/
def seam (a b : Char) : Bool := isUpper b || isCased a && isDigit b

/-- No digit follows a letter. -/
def Unbroken (w : List Char) : Prop := w.IsChain fun a b => (isCased a && isDigit b) = false

/-- A word starts visibly behind another one: with a capital, or with a digit behind a letter. -/
def shows (w v : List Char) : Bool :=
  v.head?.any fun b => hasCapital b || isDigit b && w.getLast?.any isCased

/-- All words of the name start visibly. -/
def Clear (name : String) : Prop := (words name).IsChain fun w v => shows w v = true

instance (name : String) : Decidable (Clear name) :=
  inferInstanceAs (Decidable ((words name).IsChain fun w v => shows w v = true))

theorem cuts_of_digit {a b : Char} (next : Option Char) (h : (isCased a && isDigit b) = true) :
    cuts a b next = true := by
  simp only [isCased] at h
  simp [cuts, h]

theorem unbroken_of_mem_pieces {word cs : List Char} (h : Unbroken word.reverse) :
    ∀ piece ∈ pieces word cs, Unbroken piece := by
  fun_induction pieces word cs with
  | case1 word => simpa using h
  | case2 word cs ih =>
    intro piece member
    rcases List.mem_cons.1 member with rfl | later
    · exact h
    · exact ih .nil piece later
  | case3 word c cs _ _ ih =>
    intro piece member
    rcases List.mem_cons.1 member with rfl | later
    · exact h
    · exact ih (.singleton c) piece later
  | case4 word c cs _ goesOn ih =>
    apply ih
    rw [List.reverse_cons]
    refine List.isChain_append.2 ⟨h, .singleton c, fun a last b first => ?_⟩
    obtain rfl : c = b := by simpa using first
    rw [List.getLast?_reverse, Option.mem_def] at last
    by_contra breaks
    refine goesOn ?_
    rw [last]
    exact cuts_of_digit cs.head? (eq_true_of_ne_false breaks)

theorem ne_nil_of_mem_words {name : String} {w : List Char} (h : w ∈ words name) : w ≠ [] := by
  simpa using (List.mem_filter.1 h).2

theorem flatten_pieces (word cs : List Char) :
    (pieces word cs).flatten = word.reverse ++ cs.filter (· ≠ '_') := by
  fun_induction pieces word cs with
  | case1 word => simp
  | case2 word cs ih => simp [ih]
  | case3 word c cs other cut ih => simp [ih, other]
  | case4 word c cs other whole ih => simp [ih, other]

/-- The words of a name have all its characters but the underscores. -/
theorem flatten_words (name : String) : (words name).flatten = name.toList.filter (· ≠ '_') := by
  rw [words, List.flatten_filter_not_isEmpty, flatten_pieces]
  rfl

theorem IsLatin.of_mem_words {name : String} (latin : IsLatin name.toList) {w : List Char}
    (h : w ∈ words name) : IsLatin w := by
  intro c member
  have inside : c ∈ name.toList.filter (· ≠ '_') :=
    flatten_words name ▸ List.mem_flatten.2 ⟨w, h, member⟩
  exact latin c (List.mem_filter.1 inside).1

theorem unbroken_of_mem_words {name : String} {w : List Char} (h : w ∈ words name) :
    Unbroken w := by
  have empty : Unbroken [].reverse := .nil
  exact unbroken_of_mem_pieces empty w (List.mem_filter.1 h).1

/-! ## Humps -/

/-- The words as they stand in camel case. -/
def humps (name : String) : List (List Char) :=
  match words name with
  | [] => []
  | w :: ws => w.map small :: ws.map capital

section
variable {name : String} {w : List Char}

theorem camel_eq (latin : IsLatin name.toList) :
    camel name = String.ofList (humps name).flatten := by
  have letters : ∀ w ∈ words name, IsLatin w := fun _ => latin.of_mem_words
  unfold camel humps
  generalize words name = words at letters
  cases words with
  | nil => rfl
  | cons w ws =>
    simp only [(letters w List.mem_cons_self).flatMap_lower, List.flatten_cons]
    rw [List.flatMap_def]

theorem IsLatin.upper_map_small (latin : IsLatin w) :
    (w.map small).flatMap upper = w.flatMap upper := by
  rw [List.flatMap_map]
  exact List.flatMap_congr fun c member => (lawful (latin c member)).upper_small

theorem IsLatin.upper_capital (latin : IsLatin w) :
    (capital w).flatMap upper = w.flatMap upper := by
  cases w with
  | nil => rfl
  | cons b cs =>
    obtain ⟨here, rest⟩ := List.forall_mem_cons.1 latin
    have tail : IsLatin cs := rest
    simp [capital, tail.flatMap_lower, (lawful here).upper_upper, tail.upper_map_small]

/-- The constant's words are the humps in upper case. -/
theorem upperSnake_eq (latin : IsLatin name.toList) : upperSnake name =
    String.ofList (List.intercalate ['_'] ((humps name).map fun h => h.flatMap upper)) := by
  have letters : ∀ w ∈ words name, IsLatin w := fun _ => latin.of_mem_words
  unfold upperSnake humps
  generalize words name = words at letters
  cases words with
  | nil => rfl
  | cons w ws =>
    obtain ⟨first, others⟩ := List.forall_mem_cons.1 letters
    rw [List.map_cons, List.map_cons, first.upper_map_small, List.map_map]
    congr 3
    exact List.map_congr_left fun v member => ((others v member).upper_capital).symm

end

/-! ### Seams -/

/-- A hump has no seam in it and ends as its word does. -/
structure Hump (w h : List Char) : Prop where
  nonempty : h ≠ []
  whole : h.IsChain fun a b => (!seam a b) = true
  last : h.getLast?.any isCased = w.getLast?.any isCased

theorem whole_map_small {w : List Char} (latin : IsLatin w) (unbroken : Unbroken w) :
    (w.map small).IsChain fun a b => (!seam a b) = true := by
  rw [List.isChain_map]
  refine List.IsChain.imp_of_mem_imp ?_ unbroken
  intro a b ha hb free
  have first := lawful (latin a ha)
  have second := lawful (latin b hb)
  simp [seam, second.isUpper_small, first.isCased_small, second.isDigit_small, free]

/-- A word and its small letters end alike. -/
theorem any_getLast?_map_small {w : List Char} (latin : IsLatin w) :
    (w.map small).getLast?.any isCased = w.getLast?.any isCased := by
  rw [List.getLast?_map, Option.any_map]
  cases last : w.getLast? with
  | none => rfl
  | some c => exact (lawful (latin c (List.mem_of_getLast? last))).isCased_small

theorem hump_map_small {w : List Char} (latin : IsLatin w) (full : w ≠ [])
    (unbroken : Unbroken w) : Hump w (w.map small) where
  nonempty := by simpa using full
  whole := whole_map_small latin unbroken
  last := any_getLast?_map_small latin

/-- A letter that starts a word visibly becomes one character, which shows it. -/
theorem exists_upper_eq {b : Char} {letter : Bool} (latin : b.toNat < 256)
    (starts : (hasCapital b || isDigit b && letter) = true) :
    ∃ d, upper b = [d] ∧ isCased d = isCased b ∧ (isUpper d || letter && isDigit d) = true := by
  cases capital : hasCapital b with
  | true =>
    have cased := (lawful latin).cased capital
    unfold hasCapital at capital
    split at capital
    next d up => exact ⟨d, up, by simp [isCased, capital, ← cased], by simp [capital]⟩
    next => cases capital
  | false =>
    obtain ⟨digit, behind⟩ : isDigit b = true ∧ letter = true := by simpa [capital] using starts
    exact ⟨b, ((lawful latin).digit digit).1, rfl, by simp [digit, behind]⟩

theorem capital_cons {b d : Char} {cs : List Char} (latin : IsLatin cs) (up : upper b = [d]) :
    capital (b :: cs) = d :: cs.map small := by
  rw [capital, up, latin.flatMap_lower]
  rfl

/-- A word that starts visibly behind another one makes a hump, with a seam before it. -/
theorem hump_capital {w h v : List Char} (before : Hump w h) (latin : IsLatin v)
    (unbroken : Unbroken v) (starts : shows w v = true) :
    Hump v (capital v) ∧ ∃ ha hb, (!seam (h.getLast ha) ((capital v).head hb)) = false := by
  cases v with
  | nil => simp [shows] at starts
  | cons b cs =>
    obtain ⟨after, rest⟩ := List.isChain_cons.1 unbroken
    obtain ⟨here, tail⟩ := List.forall_mem_cons.1 latin
    obtain ⟨d, up, cased, first⟩ := exists_upper_eq here starts
    rw [capital_cons tail up]
    refine ⟨⟨by simp, ?_, ?_⟩, before.nonempty, by simp, ?_⟩
    · refine List.isChain_cons.2 ⟨fun y next => ?_, whole_map_small tail rest⟩
      rw [List.head?_map, Option.mem_def, Option.map_eq_some_iff] at next
      obtain ⟨c, next, rfl⟩ := next
      have law := lawful (tail c (List.mem_of_head? next))
      simp [seam, law.isUpper_small, law.isDigit_small, cased, after c next]
    · rw [List.getLast?_cons, List.getLast?_cons, List.getLast?_map]
      cases last : cs.getLast? with
      | none => exact cased
      | some c => exact (lawful (tail c (List.mem_of_getLast? last))).isCased_small
    · have last := before.last
      rw [List.getLast?_eq_some_getLast before.nonempty, Option.any_some] at last
      rw [List.head_cons, seam, last, first]
      rfl

/-- A seam stands between two humps. -/
def Joined (humps : List (List Char)) : Prop :=
  humps.IsChain fun a b => ∃ ha hb, (!seam (a.getLast ha) (b.head hb)) = false

/-- Behind a hump come the humps of words that start visibly. -/
theorem humps_behind {w h : List Char} (before : Hump w h) {ws : List (List Char)}
    (latin : ∀ v ∈ ws, IsLatin v) (unbroken : ∀ v ∈ ws, Unbroken v)
    (clear : (w :: ws).IsChain fun w v => shows w v = true) :
    (∀ g ∈ h :: ws.map capital, ∃ v, Hump v g) ∧ Joined (h :: ws.map capital) := by
  induction ws generalizing w h with
  | nil => exact ⟨by simpa using ⟨w, before⟩, .singleton h⟩
  | cons v ws ih =>
    obtain ⟨starts, clear⟩ := List.isChain_cons_cons.1 clear
    obtain ⟨letters, latin⟩ := List.forall_mem_cons.1 latin
    obtain ⟨whole, unbroken⟩ := List.forall_mem_cons.1 unbroken
    obtain ⟨hump, joint⟩ := hump_capital before letters whole starts
    obtain ⟨all, joints⟩ := ih hump latin unbroken clear
    exact ⟨List.forall_mem_cons.2 ⟨⟨w, before⟩, all⟩, .cons_cons joint joints⟩

section
variable {name : String}

theorem Clear.joined (clear : Clear name) (latin : IsLatin name.toList) :
    (∀ h ∈ humps name, ∃ w, Hump w h) ∧ Joined (humps name) := by
  have letters : ∀ w ∈ words name, IsLatin w := fun w => latin.of_mem_words
  have full : ∀ w ∈ words name, w ≠ [] := fun w hw => ne_nil_of_mem_words hw
  have unbroken : ∀ w ∈ words name, Unbroken w := fun w hw => unbroken_of_mem_words hw
  unfold humps
  unfold Clear at clear
  generalize words name = words at letters full unbroken clear
  cases words with
  | nil => exact ⟨by simp, .nil⟩
  | cons w ws =>
    obtain ⟨here, letters⟩ := List.forall_mem_cons.1 letters
    obtain ⟨whole, unbroken⟩ := List.forall_mem_cons.1 unbroken
    exact humps_behind (hump_map_small here (full w List.mem_cons_self) whole) letters unbroken
      clear

/-- The humps of a clear name can be read off its camel case. -/
theorem splitBy_camel (latin : IsLatin name.toList) (clear : Clear name) :
    (camel name).toList.splitBy (fun a b => !seam a b) = humps name := by
  obtain ⟨all, joined⟩ := clear.joined latin
  rw [camel_eq latin, String.toList_ofList]
  refine List.splitBy_flatten (fun empty => ?_) (fun h member => ?_) joined
  · obtain ⟨w, hump⟩ := all [] empty
    exact hump.nonempty rfl
  · obtain ⟨w, hump⟩ := all h member
    exact hump.whole

/-- Clear names that are alike in camel case are alike in upper snake case. -/
theorem upperSnake_eq_of_camel_eq {other : String} (latin : IsLatin name.toList)
    (latin' : IsLatin other.toList) (clear : Clear name) (clear' : Clear other)
    (same : camel name = camel other) : upperSnake name = upperSnake other := by
  rw [upperSnake_eq latin, upperSnake_eq latin', ← splitBy_camel latin clear, same,
    splitBy_camel latin' clear']

end

example : Clear "get2d_item" ∧ ¬Clear "a_1_2" ∧ camel "a_1_2" = camel "a12" := by decide

end RemoteCall.Casing
