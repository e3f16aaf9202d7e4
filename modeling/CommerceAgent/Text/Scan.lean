import Mathlib.Data.List.Basic
import Mathlib.Data.List.Infix

/-!
# Scanning a text

`runs` are the maximal runs of characters of a class, as a regular expression for one or
more of them finds them, `bigrams` the pairs of neighbours, and `find` is the first
position at which a text occurs in another.
-/

namespace Text

/-- The runs of the class `p` in a text that follows the unfinished run `run`. -/
def runsFrom (p : Char → Bool) (run : List Char) : List Char → List (List Char)
  | [] => if run.isEmpty then [] else [run]
  | c :: s =>
      if p c then runsFrom p (run ++ [c]) s
      else if run.isEmpty then runsFrom p [] s
      else run :: runsFrom p [] s

/-- The maximal runs of characters of the class `p`, from left to right. -/
def runs (p : Char → Bool) (s : List Char) : List (List Char) := runsFrom p [] s

theorem all_of_mem_runsFrom {p : Char → Bool} {run s word : List Char}
    (hrun : ∀ c ∈ run, p c = true) (hword : word ∈ runsFrom p run s) : ∀ c ∈ word, p c = true := by
  induction s generalizing run with
  | nil =>
      unfold runsFrom at hword
      split at hword
      · cases hword
      · rwa [List.mem_singleton.1 hword]
  | cons c s ih =>
      unfold runsFrom at hword
      split at hword
      · next hc =>
          apply ih _ hword
          intro d hd
          rcases List.mem_append.1 hd with hd | hd
          · exact hrun d hd
          · rwa [List.mem_singleton.1 hd]
      · split at hword
        · exact ih (by simp) hword
        · rcases List.mem_cons.1 hword with rfl | hword
          · exact hrun
          · exact ih (by simp) hword

/-- A run consists of characters of the class. -/
theorem all_of_mem_runs {p : Char → Bool} {s word : List Char} (hword : word ∈ runs p s) :
    ∀ c ∈ word, p c = true :=
  all_of_mem_runsFrom (by simp) hword

/-- The pairs of neighbouring characters. -/
def bigrams (s : List Char) : List (List Char) :=
  (List.range (s.length - 1)).map fun i => (s.drop i).take 2

theorem subset_of_mem_bigrams {s pair : List Char} (h : pair ∈ bigrams s) : pair ⊆ s := by
  obtain ⟨i, -, rfl⟩ := List.mem_map.1 h
  exact ((List.take_sublist 2 _).trans (List.drop_sublist i s)).subset

/-- `s.find(sub)`, with `none` for -1. -/
def find (sub s : List Char) : Option ℕ :=
  (List.range (s.length + 1)).find? fun i => sub.isPrefixOf (s.drop i)

theorem find_some {sub s : List Char} {i : ℕ} (h : find sub s = some i) : sub <+: s.drop i := by
  have hfound := List.find?_some h
  exact List.isPrefixOf_iff_prefix.1 hfound

theorem find_least {sub s : List Char} {i j : ℕ} (h : find sub s = some i) (hj : j < i) :
    ¬ sub <+: s.drop j := by
  have hfirst := (List.find?_range_eq_some.1 h).2.2 j hj
  intro hbegin
  rw [List.isPrefixOf_iff_prefix.2 hbegin] at hfirst
  cases hfirst

/-- A text occurs where it is found, and is found when it occurs. -/
theorem find_isSome_iff {sub s : List Char} : (find sub s).isSome = true ↔ sub <:+: s := by
  constructor
  · intro h
    obtain ⟨i, hi⟩ := Option.isSome_iff_exists.1 h
    exact (find_some hi).isInfix.trans (List.drop_suffix i s).isInfix
  · rintro ⟨before, after, rfl⟩
    apply List.find?_isSome.2
    refine ⟨before.length, ?_, ?_⟩
    · simp only [List.mem_range, List.length_append]
      omega
    · rw [List.append_assoc, List.drop_left]
      exact List.isPrefixOf_iff_prefix.2 (List.prefix_append _ _)

end Text
