import Mathlib.Data.List.Basic
import Mathlib.Order.Lattice

/-!
# The best elements of a list

`ranked key xs` sorts a list by a key, the greatest first, and leaves elements with one
key in their order. What is cut off at the end of it is nowhere better than what is kept.
-/

namespace Sequence

variable {α K : Type*} [LinearOrder K] (key : α → K) (xs : List α) (n : ℕ)

/-- `a` may stand before `b`. -/
def before (a b : α) : Bool := decide (key b ≤ key a)

theorem before_trans (a b c : α) (hab : before key a b = true) (hbc : before key b c = true) :
    before key a c = true := by
  simp only [before, decide_eq_true_eq] at hab hbc ⊢
  exact le_trans hbc hab

theorem before_total (a b : α) : (before key a b || before key b a) = true := by
  simpa [before] using le_total (key b) (key a)

/-- The stable sort by a key, the greatest first. -/
def ranked : List α := xs.mergeSort (before key)

theorem ranked_perm : (ranked key xs).Perm xs := List.mergeSort_perm _ _

theorem mem_ranked {x : α} : x ∈ ranked key xs ↔ x ∈ xs := (ranked_perm key xs).mem_iff

theorem ranked_ordered : (ranked key xs).Pairwise fun a b => key b ≤ key a := by
  have hsorted := List.pairwise_mergeSort (before_trans key) (before_total key) xs
  exact hsorted.imp of_decide_eq_true

/-- The elements with one key keep their order. -/
theorem ranked_filter (k : K) :
    (ranked key xs).filter (fun x => decide (key x = k)) =
      xs.filter fun x => decide (key x = k) := by
  have hties : (xs.filter fun x => decide (key x = k)).Pairwise (before key · ·) := by
    apply List.pairwise_of_forall_mem_list
    intro a ha b hb
    have ha' := (List.mem_filter.1 ha).2
    have hb' := (List.mem_filter.1 hb).2
    simp_all [before]
  have hsublist : (xs.filter fun x => decide (key x = k)).Sublist (ranked key xs) :=
    List.sublist_mergeSort (before_trans key) (before_total key) hties List.filter_sublist
  have hfiltered := hsublist.filter fun x => decide (key x = k)
  simp only [List.filter_filter, Bool.and_self] at hfiltered
  exact (hfiltered.eq_of_length ((ranked_perm key xs).filter _).length_eq.symm).symm

/-- Among the first elements too. -/
theorem take_ranked_filter_sublist (k : K) :
    (((ranked key xs).take n).filter fun x => decide (key x = k)).Sublist xs := by
  have htake := (List.take_sublist n (ranked key xs)).filter fun x => decide (key x = k)
  rw [ranked_filter] at htake
  exact htake.trans List.filter_sublist

/-- No element that is cut off has a greater key than one that is kept. -/
theorem key_le_of_dropped {x y : α} (hx : x ∈ xs) (hdropped : x ∉ (ranked key xs).take n)
    (hy : y ∈ (ranked key xs).take n) : key x ≤ key y := by
  have hmem : x ∈ (ranked key xs).take n ++ (ranked key xs).drop n := by
    rw [List.take_append_drop]
    exact (mem_ranked key xs).2 hx
  have hrest := (List.mem_append.1 hmem).resolve_left hdropped
  have hordered := ranked_ordered key xs
  rw [← List.take_append_drop n (ranked key xs)] at hordered
  exact (List.pairwise_append.1 hordered).2.2 y hy x hrest

end Sequence
