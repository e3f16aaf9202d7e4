import Mathlib.Data.List.DropRight
import Mathlib.Data.List.Infix

/-!
# Lower-casing and stripping

Full lower-casing of a text maps each character to a list of characters. Only the
capital sigma looks at its context: it becomes the final sigma at the end of a word,
where characters that are case-ignorable are skipped on both sides. The character data
is a table with two laws: white space takes no part in words, and no character is lost.
-/

namespace Text

/-- White space, as `str.strip` removes it. -/
def isSpace (c : Char) : Bool :=
  c.toNat ∈ [0x09, 0x0a, 0x0b, 0x0c, 0x0d, 0x1c, 0x1d, 0x1e, 0x1f, 0x20, 0x85, 0xa0, 0x1680,
    0x2028, 0x2029, 0x202f, 0x205f, 0x3000] || (0x2000 ≤ c.toNat && c.toNat ≤ 0x200a)

/-- The character data that lower-casing reads. -/
structure CaseTable where
  /-- The full lower-case mapping of every character but the capital sigma. -/
  lowerChar : Char → List Char
  cased : Char → Bool
  caseIgnorable : Char → Bool
  cased_of_isSpace : ∀ c, isSpace c = true → cased c = false
  caseIgnorable_of_isSpace : ∀ c, isSpace c = true → caseIgnorable c = false
  lowerChar_ne_nil : ∀ c, lowerChar c ≠ []

/-- The text without white space at its ends. -/
def strip (s : List Char) : List Char := (s.dropWhile isSpace).rdropWhile isSpace

theorem strip_decompose (s : List Char) :
    ∃ before after, s = before ++ strip s ++ after ∧
      (∀ c ∈ before, isSpace c = true) ∧ ∀ c ∈ after, isSpace c = true := by
  refine ⟨s.takeWhile isSpace, (s.dropWhile isSpace).rtakeWhile isSpace, ?_, ?_, ?_⟩
  · calc s = s.takeWhile isSpace ++ s.dropWhile isSpace := (List.takeWhile_append_dropWhile).symm
      _ = s.takeWhile isSpace ++ (strip s ++ (s.dropWhile isSpace).rtakeWhile isSpace) := by
          rw [strip, List.rdropWhile_append_rtakeWhile]
      _ = _ := (List.append_assoc _ _ _).symm
  · intro c hc
    exact List.mem_takeWhile_imp hc
  · intro c hc
    exact List.mem_rtakeWhile_imp hc

namespace CaseTable

variable (table : CaseTable)

/-- The first character that is not case-ignorable is cased. -/
def meetsCased (s : List Char) : Bool :=
  match s.find? fun c => !table.caseIgnorable c with
  | some c => table.cased c
  | none => false

/-- The lower case of `c` after the reversed text `before` and before `after`. -/
def lowerAt (before : List Char) (c : Char) (after : List Char) : List Char :=
  if c = 'Σ' then
    [if table.meetsCased before && !table.meetsCased after then 'ς' else 'σ']
  else table.lowerChar c

/-- The lower case of a text that follows the reversed text `before`. -/
def lowerFrom (before : List Char) : List Char → List Char
  | [] => []
  | c :: rest => table.lowerAt before c rest ++ lowerFrom (c :: before) rest

/-- `str.lower`. -/
def lower (s : List Char) : List Char := table.lowerFrom [] s

@[simp] theorem lower_nil : table.lower [] = [] := rfl

/-- White space after a text does not change which cased character it meets. -/
theorem meetsCased_append {spaces : List Char} (hspaces : ∀ c ∈ spaces, isSpace c = true)
    (s : List Char) : table.meetsCased (s ++ spaces) = table.meetsCased s := by
  have hend : table.meetsCased spaces = false := by
    cases spaces with
    | nil => rfl
    | cons c rest =>
        have hspace := hspaces c List.mem_cons_self
        simp [meetsCased, table.caseIgnorable_of_isSpace c hspace,
          table.cased_of_isSpace c hspace]
  induction s with
  | nil => exact hend
  | cons c s ih =>
      cases hc : table.caseIgnorable c with
      | true => simpa [meetsCased, hc] using ih
      | false => simp [meetsCased, hc]

/-- White space before a text does not change its lower case. -/
theorem lowerFrom_of_spaces {spaces : List Char} (hspaces : ∀ c ∈ spaces, isSpace c = true)
    (before s : List Char) : table.lowerFrom (before ++ spaces) s = table.lowerFrom before s := by
  induction s generalizing before with
  | nil => rfl
  | cons c s ih =>
      have hrest := ih (c :: before)
      simp only [lowerFrom, lowerAt, table.meetsCased_append hspaces]
      rw [← List.cons_append, hrest]

/-- Nor does white space after it. -/
theorem lowerFrom_append_spaces {spaces : List Char} (hspaces : ∀ c ∈ spaces, isSpace c = true)
    (before s : List Char) :
    table.lowerFrom before s <+: table.lowerFrom before (s ++ spaces) := by
  induction s generalizing before with
  | nil => exact List.nil_prefix
  | cons c s ih =>
      have hhere : table.lowerAt before c (s ++ spaces) = table.lowerAt before c s := by
        simp only [lowerAt, table.meetsCased_append hspaces]
      simp only [List.cons_append, lowerFrom, hhere]
      exact (List.prefix_append_right_inj _).2 (ih (c :: before))

theorem lowerFrom_suffix (before xs ys : List Char) :
    table.lowerFrom (xs.reverse ++ before) ys <:+ table.lowerFrom before (xs ++ ys) := by
  induction xs generalizing before with
  | nil => exact List.suffix_rfl
  | cons c xs ih =>
      have hrest := ih (c :: before)
      rw [List.reverse_cons, List.append_assoc, List.singleton_append]
      exact hrest.trans (List.suffix_append _ _)

/-- The lower case of a stripped text occurs in the lower case of the text. -/
theorem lower_strip_infix (s : List Char) : table.lower (strip s) <:+: table.lower s := by
  obtain ⟨before, after, hs, hbefore, hafter⟩ := strip_decompose s
  have hreverse : ∀ c ∈ before.reverse, isSpace c = true := by simpa using hbefore
  have hstart : table.lowerFrom before.reverse (strip s ++ after) =
      table.lower (strip s ++ after) := table.lowerFrom_of_spaces hreverse [] _
  have hsuffix : table.lower (strip s ++ after) <:+ table.lower s := by
    have h := table.lowerFrom_suffix [] before (strip s ++ after)
    rw [List.append_nil, hstart, ← List.append_assoc, ← hs] at h
    exact h
  have hbegin : table.lower (strip s) <+: table.lower (strip s ++ after) :=
    table.lowerFrom_append_spaces hafter [] (strip s)
  exact hbegin.isInfix.trans hsuffix.isInfix

/-- The two small sigmas are one. -/
def mergeSigma (c : Char) : Char := if c = 'ς' then 'σ' else c

/-- The lower case of a character, up to the form of a sigma. -/
def fold (c : Char) : List Char :=
  if c = 'Σ' then ['σ'] else (table.lowerChar c).map mergeSigma

theorem map_mergeSigma_lowerAt (before : List Char) (c : Char) (after : List Char) :
    (table.lowerAt before c after).map mergeSigma = table.fold c := by
  unfold lowerAt fold
  split_ifs <;> simp [mergeSigma]

/-- Up to the form of a sigma, each character is lower-cased by itself. -/
theorem map_mergeSigma_lowerFrom (before s : List Char) :
    (table.lowerFrom before s).map mergeSigma = s.flatMap table.fold := by
  induction s generalizing before with
  | nil => rfl
  | cons c s ih =>
      rw [lowerFrom, List.map_append, map_mergeSigma_lowerAt, ih (c :: before),
        List.flatMap_cons]

theorem map_mergeSigma_lower (s : List Char) :
    (table.lower s).map mergeSigma = s.flatMap table.fold := table.map_mergeSigma_lowerFrom [] s

theorem length_lower (s : List Char) : (table.lower s).length = (s.flatMap table.fold).length := by
  rw [← map_mergeSigma_lower, List.length_map]

/-- Lower-casing loses no character. -/
theorem length_le_lower (s : List Char) : s.length ≤ (table.lower s).length := by
  rw [length_lower]
  induction s with
  | nil => exact le_rfl
  | cons c s ih =>
      have hfold : 1 ≤ (table.fold c).length := by
        unfold fold
        split_ifs
        · exact le_rfl
        · rw [List.length_map]
          exact List.length_pos_iff.2 (table.lowerChar_ne_nil c)
      rw [List.flatMap_cons, List.length_append, List.length_cons]
      omega

/-- A text without sigmas occurs in another exactly if it does up to their form. -/
theorem infix_map_mergeSigma_iff {sub s : List Char} (hsub : ∀ c ∈ sub, c ≠ 'σ' ∧ c ≠ 'ς') :
    sub <:+: s.map mergeSigma ↔ sub <:+: s := by
  have hfixed : ∀ t : List Char, t.map mergeSigma = sub → t = sub := by
    intro t ht
    have hself : t.map mergeSigma = t := by
      apply (List.map_congr_left ?_).trans (List.map_id t)
      intro c hc
      have hmem : mergeSigma c ∈ sub := ht ▸ List.mem_map_of_mem hc
      have hne := (hsub _ hmem).1
      by_cases hfinal : c = 'ς'
      · simp [mergeSigma, hfinal] at hne
      · simp [mergeSigma, hfinal]
    rw [← ht, hself]
  constructor
  · rintro ⟨before, after, h⟩
    obtain ⟨start, rest, rfl, hstart, -⟩ := List.map_eq_append_iff.1 h.symm
    obtain ⟨front, middle, rfl, -, hmiddle⟩ := List.map_eq_append_iff.1 hstart
    exact ⟨front, rest, by rw [hfixed middle hmiddle]⟩
  · rintro ⟨before, after, rfl⟩
    refine ⟨before.map mergeSigma, after.map mergeSigma, ?_⟩
    have hself : sub.map mergeSigma = sub := by
      apply (List.map_congr_left ?_).trans (List.map_id sub)
      intro c hc
      simp [mergeSigma, (hsub c hc).2]
    rw [List.map_append, List.map_append, hself]

/-- The part of the lower-cased text that the characters from `start` to `stop` become. -/
def lowerSlice (s : List Char) (start stop : ℕ) : List Char :=
  ((table.lower s).take (table.lower (s.take stop)).length).drop (table.lower (s.take start)).length

/-- Lower-casing a slice gives the slice of the lower-cased text, up to sigmas. -/
theorem map_mergeSigma_lowerSlice (s : List Char) {start stop : ℕ}
    (hstart : s.take start = (s.take stop).take start) :
    (table.lowerSlice s start stop).map mergeSigma =
      ((s.take stop).drop start).flatMap table.fold := by
  have hwhole : s.flatMap table.fold =
      (s.take stop).flatMap table.fold ++ (s.drop stop).flatMap table.fold := by
    rw [← List.flatMap_append, List.take_append_drop]
  have hpart : (s.take stop).flatMap table.fold =
      (s.take start).flatMap table.fold ++ ((s.take stop).drop start).flatMap table.fold := by
    rw [hstart, ← List.flatMap_append, List.take_append_drop]
  rw [lowerSlice, List.map_drop, List.map_take, map_mergeSigma_lower, length_lower, length_lower,
    hwhole, List.take_left, hpart, List.drop_left]

/-- Basic Latin letters, and the dotted capital I, whose lower case is two characters. -/
def basicLatin : CaseTable where
  lowerChar c := if c = 'İ' then ['i', Char.ofNat 0x307] else [c.toLower]
  cased c := (0x41 ≤ c.toNat && c.toNat ≤ 0x5a) || (0x61 ≤ c.toNat && c.toNat ≤ 0x7a) ||
    c.toNat = 0x130
  caseIgnorable c := c.toNat ∈ [0x27, 0x2e, 0x3a, 0x5e, 0x60, 0x307]
  lowerChar_ne_nil c := by
    split <;> simp
  cased_of_isSpace c hspace := by
    simp [isSpace] at hspace ⊢
    omega
  caseIgnorable_of_isSpace c hspace := by
    simp [isSpace] at hspace ⊢
    omega

end CaseTable

end Text
