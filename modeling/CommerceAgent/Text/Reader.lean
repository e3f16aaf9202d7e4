import Mathlib.Data.List.TakeWhile
import Mathlib.Data.Nat.Notation

/-!
# Readers

A reader takes a value off the beginning of a text and returns what is left. `Recovers`
says that a reader takes off exactly what was written, whatever may follow. From it for
the parts it is proved for a run of them up to a closing character, and for a list of
them in brackets, with blanks in between.

A list of unknown length is read with a bound on the number of its items. The length of
the text is one, since an item is never empty.
-/

namespace Text

abbrev Reader (α : Type) := List Char → Option (α × List Char)

/-- `read` takes off what `write` has written of `a`, before any text in `follows`. -/
def Recovers {α : Type} (read : Reader α) (write : α → List Char) (follows : List Char → Prop)
    (a : α) : Prop :=
  ∀ rest, follows rest → read (write a ++ rest) = some (a, rest)

/-- The text does not begin with a character of the class. -/
def StopsAt (p : Char → Bool) (s : List Char) : Prop := ∀ c ∈ s.head?, p c = false

theorem stopsAt_nil {p : Char → Bool} : StopsAt p [] := by simp [StopsAt]

theorem stopsAt_cons {p : Char → Bool} {c : Char} {s : List Char} :
    StopsAt p (c :: s) ↔ p c = false := by simp [StopsAt]

theorem StopsAt.mono {p q : Char → Bool} {s : List Char} (h : StopsAt p s)
    (hpq : ∀ c, p c = false → q c = false) : StopsAt q s :=
  fun c hc => hpq c (h c hc)

section Runs

variable {p : Char → Bool} {run rest : List Char}

/-- A run of the class ends where the text stops to be of it. -/
theorem takeWhile_run (hrun : ∀ c ∈ run, p c = true) (hrest : StopsAt p rest) :
    (run ++ rest).takeWhile p = run := by
  rw [List.takeWhile_append_of_pos hrun]
  cases rest with
  | nil => simp
  | cons c rest => simp [stopsAt_cons.1 hrest]

theorem dropWhile_run (hrun : ∀ c ∈ run, p c = true) (hrest : StopsAt p rest) :
    (run ++ rest).dropWhile p = rest := by
  rw [List.dropWhile_append_of_pos hrun]
  cases rest with
  | nil => rfl
  | cons c rest => simp [stopsAt_cons.1 hrest]

end Runs

section Decimal

/-- A decimal number without leading zeros. -/
def readNatural : Reader ℕ
  | [] => none
  | c :: s =>
      if c = '0' then some (0, s)
      else if c.isDigit then
        some (Nat.ofDigitChars 10 ((c :: s).takeWhile Char.isDigit) 0,
          (c :: s).dropWhile Char.isDigit)
      else none

theorem toDigits_isDigit (n : ℕ) : ∀ c ∈ Nat.toDigits 10 n, c.isDigit = true :=
  fun _ hc => Nat.isDigit_of_mem_toDigits (by decide) (by decide) hc

/-- Only zero is written with a zero in front. -/
theorem toDigits_eq_cons {n : ℕ} (hn : n ≠ 0) :
    ∃ c ds, Nat.toDigits 10 n = c :: ds ∧ c ≠ '0' := by
  induction n using Nat.strongRecOn with
  | _ n ih =>
      by_cases hlt : n < 10
      · refine ⟨n.digitChar, [], Nat.toDigits_of_lt_base hlt, ?_⟩
        rw [Ne, Nat.digitChar_eq_zero]
        exact hn
      · obtain ⟨c, ds, hds, hc⟩ := ih (n / 10) (by omega) (by omega)
        refine ⟨c, ds ++ [(n % 10).digitChar], ?_, hc⟩
        rw [Nat.toDigits_of_base_le (by decide) (by omega), hds, List.cons_append]

theorem recovers_readNatural (n : ℕ) :
    Recovers readNatural (Nat.toDigits 10) (StopsAt Char.isDigit) n := by
  intro rest hrest
  by_cases hn : n = 0
  · subst hn
    rfl
  · obtain ⟨c, ds, hds, hc⟩ := toDigits_eq_cons hn
    have hdigits := toDigits_isDigit n
    rw [hds] at hdigits
    have hdigit : c.isDigit = true := hdigits c List.mem_cons_self
    have hvalue : Nat.ofDigitChars 10 (c :: ds) 0 = n := by
      rw [← hds, Nat.ofDigitChars_ten_toDigits]
    rw [hds, List.cons_append, readNatural, if_neg hc, if_pos hdigit, ← List.cons_append,
      takeWhile_run hdigits hrest, dropWhile_run hdigits hrest, hvalue]

end Decimal

section Lists

variable {α : Type} (item : Reader α)

/-- Items up to a closing character. -/
def readUntil (closing : Char) : ℕ → Reader (List α)
  | 0, _ => none
  | _ + 1, [] => none
  | n + 1, c :: s =>
      if c = closing then some ([], s)
      else do
        let (a, s) ← item (c :: s)
        let (as, s) ← readUntil closing n s
        pure (a :: as, s)

def readClosed (closing : Char) (s : List Char) : Option (List α × List Char) :=
  readUntil item closing (s.length + 1) s

/-- One item and those behind commas, up to a closing bracket. -/
def readItems (blank : Char → Bool) (closing : Char) : ℕ → Reader (List α)
  | 0, _ => none
  | n + 1, s => do
      let (a, s) ← item s
      match s.dropWhile blank with
      | [] => none
      | c :: s =>
          if c = closing then pure ([a], s)
          else if c = ',' then do
            let (as, s) ← readItems blank closing n (s.dropWhile blank)
            pure (a :: as, s)
          else none

/-- A list behind its opening bracket. -/
def readList (blank : Char → Bool) (closing : Char) (s : List Char) : Option (List α × List Char) :=
  match s.dropWhile blank with
  | [] => none
  | c :: s =>
      if c = closing then some ([], s) else readItems item blank closing (s.length + 1) (c :: s)

variable {item} {write : α → List Char} {follows : List Char → Prop} {blank : Char → Bool}
  {closing : Char} {as : List α}

theorem recovers_readUntil (hitem : ∀ a ∈ as, Recovers item write (fun _ => True) a)
    (hopen : ∀ a ∈ as, ∃ c s, write a = c :: s ∧ c ≠ closing) {n : ℕ} (hn : as.length < n)
    (rest : List Char) :
    readUntil item closing n (as.flatMap write ++ closing :: rest) = some (as, rest) := by
  induction as generalizing n with
  | nil =>
      cases n with
      | zero => cases hn
      | succ n => simp [readUntil]
  | cons a as ih =>
      cases n with
      | zero => cases hn
      | succ n =>
          obtain ⟨c, s, hwrite, hc⟩ := hopen a List.mem_cons_self
          have hrest := ih (fun b hb => hitem b (List.mem_cons_of_mem _ hb))
            (fun b hb => hopen b (List.mem_cons_of_mem _ hb)) (Nat.lt_of_succ_lt_succ hn)
          have hread := hitem a List.mem_cons_self (as.flatMap write ++ closing :: rest) trivial
          rw [hwrite, List.cons_append] at hread
          rw [List.flatMap_cons, List.append_assoc, hwrite, List.cons_append, readUntil, if_neg hc,
            hread]
          change (readUntil item closing n _).bind _ = _
          rw [hrest]
          rfl

theorem length_le_flatMap (hopen : ∀ a ∈ as, ∃ c s, write a = c :: s ∧ c ≠ closing) :
    as.length ≤ (as.flatMap write).length := by
  induction as with
  | nil => simp
  | cons a as ih =>
      obtain ⟨c, s, hwrite, -⟩ := hopen a List.mem_cons_self
      have hrest := ih fun b hb => hopen b (List.mem_cons_of_mem _ hb)
      rw [List.flatMap_cons, hwrite, List.length_append]
      simp only [List.length_cons]
      omega

/-- A text up to its closing character is read back. -/
theorem recovers_readClosed (hitem : ∀ a ∈ as, Recovers item write (fun _ => True) a)
    (hopen : ∀ a ∈ as, ∃ c s, write a = c :: s ∧ c ≠ closing) (rest : List Char) :
    readClosed item closing (as.flatMap write ++ closing :: rest) = some (as, rest) := by
  have hlength := length_le_flatMap hopen
  apply recovers_readUntil hitem hopen
  simp only [List.length_append, List.length_cons]
  omega

/-- What is written of a list: the items with commas and gaps between them. -/
def writeItems (write : α → List Char) (gap : List Char) : List α → List Char
  | [] => []
  | [a] => write a
  | a :: b :: as => write a ++ ',' :: gap ++ writeItems write gap (b :: as)

/-- The text of an item is not mistaken for a blank or for the end of the list. -/
def Opens (blank : Char → Bool) (closing : Char) (text : List Char) : Prop :=
  ∃ c s, text = c :: s ∧ blank c = false ∧ c ≠ closing

theorem Opens.dropWhile {text : List Char} (h : Opens blank closing text) (rest : List Char) :
    (text ++ rest).dropWhile blank = text ++ rest := by
  obtain ⟨c, s, rfl, hblank, -⟩ := h
  simp [hblank]

theorem opens_writeItems (gap : List Char) (has : as ≠ [])
    (hopen : ∀ a ∈ as, Opens blank closing (write a)) :
    Opens blank closing (writeItems write gap as) := by
  cases as with
  | nil => exact absurd rfl has
  | cons a as =>
      obtain ⟨c, s, hwrite, hc⟩ := hopen a List.mem_cons_self
      cases as with
      | nil => exact ⟨c, s, by rw [writeItems, hwrite], hc⟩
      | cons b as => exact ⟨c, s ++ ',' :: gap ++ writeItems write gap (b :: as), by
          simp [writeItems, hwrite], hc⟩

theorem length_le_of_mem (write : α → List Char) (gap : List Char) {a : α} (ha : a ∈ as) :
    (write a).length ≤ (writeItems write gap as).length := by
  induction as with
  | nil => cases ha
  | cons b as ih =>
      cases as with
      | nil => rw [List.mem_singleton.1 ha, writeItems]
      | cons c as =>
          rw [writeItems]
          simp only [List.length_append, List.length_cons]
          rcases List.mem_cons.1 ha with rfl | hmem
          · omega
          · have hrest := ih hmem
            omega

theorem mem_writeItems {gap : List Char} {c : Char} (hc : c ∈ writeItems write gap as) :
    c = ',' ∨ c ∈ gap ∨ ∃ a ∈ as, c ∈ write a := by
  induction as with
  | nil => cases hc
  | cons a as ih =>
      cases as with
      | nil => exact .inr (.inr ⟨a, List.mem_cons_self, hc⟩)
      | cons b as =>
          simp only [writeItems, List.append_assoc, List.cons_append, List.mem_append,
            List.mem_cons] at hc
          rcases hc with hc | rfl | hc | hc
          · exact .inr (.inr ⟨a, List.mem_cons_self, hc⟩)
          · exact .inl rfl
          · exact .inr (.inl hc)
          · rcases ih hc with hcomma | hgap | ⟨x, hx, hcx⟩
            · exact .inl hcomma
            · exact .inr (.inl hgap)
            · exact .inr (.inr ⟨x, List.mem_cons_of_mem _ hx, hcx⟩)

theorem writeItems_map {β : Type} (write : β → List Char) (f : α → β) (gap : List Char)
    (as : List α) : writeItems write gap (as.map f) = writeItems (fun a => write (f a)) gap as := by
  induction as with
  | nil => rfl
  | cons a as ih =>
      cases as with
      | nil => rfl
      | cons b as =>
          rw [List.map_cons, List.map_cons, writeItems, ← List.map_cons, ih, writeItems]

/-- A list has no more items than characters. -/
theorem length_le_writeItems (gap : List Char)
    (hopen : ∀ a ∈ as, Opens blank closing (write a)) :
    as.length ≤ (writeItems write gap as).length := by
  induction as with
  | nil => simp
  | cons a as ih =>
      obtain ⟨c, s, hwrite, -⟩ := hopen a List.mem_cons_self
      have hrest := ih fun b hb => hopen b (List.mem_cons_of_mem _ hb)
      cases as with
      | nil => simp [writeItems, hwrite]
      | cons b as =>
          simp only [writeItems, List.length_append, List.length_cons, hwrite] at hrest ⊢
          omega

section Items

variable (hitem : ∀ a ∈ as, Recovers item write follows a)
  (hopen : ∀ a ∈ as, Opens blank closing (write a))
  (hcomma : ∀ s, follows (',' :: s)) (hclosing : ∀ s, follows (closing :: s))
  (hblank : blank closing = false ∧ blank ',' = false ∧ closing ≠ ',')
  {gap : List Char} (hgap : ∀ c ∈ gap, blank c = true)

include hitem hopen hcomma hclosing hblank hgap

theorem recovers_readItems (has : as ≠ []) {n : ℕ} (hn : as.length ≤ n) (rest : List Char) :
    readItems item blank closing n (writeItems write gap as ++ closing :: rest) =
      some (as, rest) := by
  induction as generalizing n with
  | nil => exact absurd rfl has
  | cons a as ih =>
      cases n with
      | zero => cases hn
      | succ n =>
          cases as with
          | nil =>
              have hread := hitem a List.mem_cons_self _ (hclosing rest)
              rw [writeItems, readItems, hread]
              simp [hblank.1]
          | cons b as =>
              have hread := hitem a List.mem_cons_self _
                (hcomma (gap ++ (writeItems write gap (b :: as) ++ closing :: rest)))
              have hopens : Opens blank closing (writeItems write gap (b :: as)) :=
                opens_writeItems gap (by simp) fun x hx => hopen x (List.mem_cons_of_mem _ hx)
              have hrest := ih (fun x hx => hitem x (List.mem_cons_of_mem _ hx))
                (fun x hx => hopen x (List.mem_cons_of_mem _ hx)) (by simp)
                (Nat.le_of_succ_le_succ hn)
              have hskip : (gap ++ (writeItems write gap (b :: as) ++ closing :: rest)).dropWhile
                  blank = writeItems write gap (b :: as) ++ closing :: rest := by
                rw [List.dropWhile_append_of_pos hgap, hopens.dropWhile]
              simp only [writeItems, readItems, List.append_assoc, List.cons_append] at hread ⊢
              rw [hread]
              simp [hblank.2.1, hblank.2.2.symm, hskip, hrest]

/-- A list in brackets is read back. -/
theorem recovers_readList (rest : List Char) :
    readList item blank closing (writeItems write gap as ++ closing :: rest) = some (as, rest) := by
  by_cases has : as = []
  · subst has
    simp [writeItems, readList, hblank.1]
  · have hopens := opens_writeItems gap has hopen
    have hlength := length_le_writeItems gap hopen
    have hread : ∀ {n : ℕ}, as.length ≤ n → readItems item blank closing n _ = some (as, rest) :=
      fun hn => recovers_readItems hitem hopen hcomma hclosing hblank hgap has hn rest
    rw [readList, hopens.dropWhile]
    obtain ⟨c, s, hwrite, -, hc⟩ := hopens
    rw [hwrite] at hlength hread ⊢
    simp only [List.cons_append, if_neg hc] at hread ⊢
    apply hread
    simp only [List.length_cons, List.length_append] at hlength ⊢
    omega

end Items

section Items

variable {P : α → Prop}

/-- What holds of every item that is read holds of the items of a list. -/
theorem forall_of_readItems (hitem : ∀ s a rest, item s = some (a, rest) → P a) {n : ℕ}
    {s rest : List Char} (h : readItems item blank closing n s = some (as, rest)) :
    ∀ a ∈ as, P a := by
  induction n generalizing s as rest with
  | zero => cases h
  | succ n ih =>
      obtain ⟨⟨a, s'⟩, hread, h⟩ := Option.bind_eq_some_iff.1 h
      simp only at h
      split at h
      · cases h
      · split_ifs at h
        · cases h
          intro b hb
          rw [List.mem_singleton.1 hb]
          exact hitem s a s' hread
        · obtain ⟨⟨bs, s''⟩, hrest, h⟩ := Option.bind_eq_some_iff.1 h
          cases h
          intro b hb
          rcases List.mem_cons.1 hb with rfl | hb
          · exact hitem s b s' hread
          · exact ih hrest b hb

theorem forall_of_readList (hitem : ∀ s a rest, item s = some (a, rest) → P a)
    {s rest : List Char} (h : readList item blank closing s = some (as, rest)) :
    ∀ a ∈ as, P a := by
  unfold readList at h
  split at h
  · cases h
  · split_ifs at h
    · cases h
      intro a ha
      cases ha
    · exact forall_of_readItems hitem h

end Items

end Lists

end Text
