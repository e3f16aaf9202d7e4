import Mathlib.Data.List.Infix
import Mathlib.Data.List.Pairwise
import Mathlib.Order.Lattice

/-!
# Reading a log after a cursor

A log grows at its end, with increasing keys. A reader asks for the entries after a
cursor, and takes the key of each entry that he gets as his next cursor. What he has read
is then a beginning of what there is after the cursor that he started with.
-/

namespace Sequence

variable {α κ : Type*} [LinearOrder κ] {key : α → κ} {start : κ} {log read more : List α}

/-- The entries of the log after the cursor. -/
def after (key : α → κ) (cursor : κ) (log : List α) : List α :=
  log.filter fun x => decide (cursor < key x)

/-- The cursor of a reader who started at `start`. -/
def position (key : α → κ) (start : κ) (read : List α) : κ := (read.getLast?.map key).getD start

/-- The keys increase. -/
def Increasing (key : α → κ) (log : List α) : Prop := log.Pairwise fun x y => key x < key y

instance : Decidable (Increasing key log) :=
  inferInstanceAs (Decidable (log.Pairwise fun x y => key x < key y))

theorem mem_after {x : α} {cursor : κ} : x ∈ after key cursor log ↔ x ∈ log ∧ cursor < key x := by
  simp [after]

theorem after_append (cursor : κ) (log more : List α) :
    after key cursor (log ++ more) = after key cursor log ++ after key cursor more :=
  List.filter_append ..

/-- Growth of the log keeps what has been read a beginning. -/
theorem prefix_after_append (h : read <+: after key start log) (more : List α) :
    read <+: after key start (log ++ more) := by
  rw [after_append]
  exact h.trans (List.prefix_append _ _)

/-- Entries up to the cursor may be cut off. -/
theorem after_drop {cursor : κ} {n : ℕ} (h : ∀ x ∈ log.take n, key x ≤ cursor) :
    after key cursor (log.drop n) = after key cursor log := by
  have hnone : after key cursor (log.take n) = [] := by
    apply List.filter_eq_nil_iff.2
    intro x hx
    simpa using h x hx
  calc after key cursor (log.drop n)
      = after key cursor (log.take n) ++ after key cursor (log.drop n) := by rw [hnone]; rfl
    _ = after key cursor log := by rw [← after_append, List.take_append_drop]

theorem Increasing.after (h : Increasing key log) (cursor : κ) :
    Increasing key (after key cursor log) := h.filter _

omit [LinearOrder κ] in
theorem position_append_singleton (read : List α) (x : α) :
    position key start (read ++ [x]) = key x := by
  simp [position]

/-- The cursor is not before the start. -/
theorem le_position (h : read <+: after key start log) : start ≤ position key start read := by
  cases hlast : read.getLast? with
  | none => simp [position, hlast]
  | some x =>
      have hmem := (mem_after.1 (h.subset (List.mem_of_mem_getLast? hlast))).2
      simpa [position, hlast] using hmem.le

/-- What has been read is not after the cursor. -/
theorem key_le_position (h : Increasing key read) {x : α} (hx : x ∈ read) :
    key x ≤ position key start read := by
  rcases List.eq_nil_or_concat read with rfl | ⟨earlier, last, rfl⟩
  · cases hx
  · rw [List.concat_eq_append] at hx h ⊢
    rw [position_append_singleton]
    rcases List.mem_append.1 hx with hx | hx
    · exact ((List.pairwise_append.1 h).2.2 x hx last (List.mem_singleton_self last)).le
    · rw [List.mem_singleton.1 hx]

/-- Reading moves the cursor forward. -/
theorem position_le_append (hlog : Increasing key log) (h : read ++ more <+: after key start log) :
    position key start read ≤ position key start (read ++ more) := by
  have hincreasing : Increasing key (read ++ more) := (hlog.after start).sublist h.sublist
  cases hlast : read.getLast? with
  | none => simpa [position, hlast] using le_position h
  | some x =>
      have hmem : x ∈ read ++ more := List.mem_append_left more (List.mem_of_mem_getLast? hlast)
      have hle : key x ≤ position key start (read ++ more) := key_le_position hincreasing hmem
      simpa [position, hlast] using hle

/-- The cursor is the start or has been read. -/
theorem position_lt {rest : List α} (hincreasing : Increasing key (read ++ rest)) {x : α}
    (hx : x ∈ rest) (hstart : start < key x) : position key start read < key x := by
  cases hlast : read.getLast? with
  | none => simpa [position, hlast] using hstart
  | some y =>
      have hlt := (List.pairwise_append.1 hincreasing).2.2 y (List.mem_of_mem_getLast? hlast) x hx
      simpa [position, hlast] using hlt

/-- The entries after the cursor are those that have not been read. -/
theorem append_after_position (hlog : Increasing key log) (h : read <+: after key start log) :
    read ++ after key (position key start read) log = after key start log := by
  have hle := le_position h
  obtain ⟨rest, hrest⟩ := h
  have hincreasing : Increasing key (read ++ rest) := hrest ▸ hlog.after start
  -- Being after the cursor implies being after the start.
  have htwice : after key (position key start read) log =
      after key (position key start read) (after key start log) := by
    unfold after
    rw [List.filter_filter]
    apply List.filter_congr
    intro x _
    by_cases hx : position key start read < key x
    · simp [hx, hle.trans_lt hx]
    · simp [hx]
  have hread : after key (position key start read) read = [] := by
    apply List.filter_eq_nil_iff.2
    intro x hx
    simpa using key_le_position (List.pairwise_append.1 hincreasing).1 hx
  have hunread : after key (position key start read) rest = rest := by
    apply List.filter_eq_self.2
    intro x hx
    have hstart := (mem_after.1 (hrest ▸ List.mem_append_right read hx : x ∈ after key start log)).2
    exact decide_eq_true (position_lt hincreasing hx hstart)
  rw [htwice, ← hrest, after_append, hread, hunread, List.nil_append]

/-- Reading on from the cursor goes on with the beginning that has been read. -/
theorem append_prefix_of_position (hlog : Increasing key log) (h : read <+: after key start log)
    (hmore : more <+: after key (position key start read) log) :
    read ++ more <+: after key start log := by
  rw [← append_after_position hlog h]
  exact (List.prefix_append_right_inj read).2 hmore

end Sequence
