import Mathlib.Data.List.Basic

/-!
# The run at the end of a list

`Trailing same xs last n` says that the maximal run of elements at the end of `xs` that
are the same as `last` has the length `n`.
-/

namespace Sequence

variable {α : Type*} {same same' : α → α → Prop} {xs ys : List α} {x last : α} {n : ℕ}

/-- The elements of the run are the same as `last`, and the one before it is not. -/
def Trailing (same : α → α → Prop) (xs : List α) (last : α) (n : ℕ) : Prop :=
  ∃ earlier run, xs = earlier ++ run ∧ run.length = n ∧ (∀ y ∈ run, same y last) ∧
    ∀ y ∈ earlier.getLast?, ¬ same y last

/-- The run is maximal: no longer end of the list is the same as `last`. -/
theorem Trailing.length_le (h : Trailing same xs last n) {earlier window : List α}
    (hxs : xs = earlier ++ window) (hwindow : ∀ y ∈ window, same y last) :
    window.length ≤ n := by
  obtain ⟨before, run, hrun, rfl, -, hbefore⟩ := h
  rcases List.append_eq_append_iff.1 (hxs.symm.trans hrun) with ⟨middle, rfl, hsplit⟩ |
    ⟨middle, hearlier, hsplit⟩
  · -- The window reaches over the run, by the elements `middle`.
    rcases List.eq_nil_or_concat middle with rfl | ⟨rest, y, rfl⟩
    · simp [hsplit]
    · have hlast : y ∈ (earlier ++ rest.concat y).getLast? := by simp
      have hsame : same y last := hwindow y (by simp [hsplit])
      exact absurd hsame (hbefore y hlast)
  · simp [hsplit]

/-- One more element that is the same as the last one. -/
theorem Trailing.snoc_same (h : Trailing same xs last n) (hx : same x x)
    (htrans : ∀ y ∈ xs, same y last ↔ same y x) : Trailing same (xs ++ [x]) x (n + 1) := by
  obtain ⟨earlier, run, rfl, rfl, hrun, hearlier⟩ := h
  refine ⟨earlier, run ++ [x], (List.append_assoc _ _ _), by simp, ?_, ?_⟩
  · intro y hy
    rcases List.mem_append.1 hy with hy | hy
    · exact (htrans y (List.mem_append_right _ hy)).1 (hrun y hy)
    · rwa [List.mem_singleton.1 hy]
  · intro y hy hsame
    have hmem : y ∈ earlier ++ run := List.mem_append_left _ (List.mem_of_mem_getLast? hy)
    exact hearlier y hy ((htrans y hmem).2 hsame)

/-- One more element that is not the same as the one before it. -/
theorem Trailing.snoc_new (hx : same x x) (hlast : ∀ y ∈ xs.getLast?, ¬ same y x) :
    Trailing same (xs ++ [x]) x 1 :=
  ⟨xs, [x], rfl, rfl, by simpa using hx, hlast⟩

end Sequence
