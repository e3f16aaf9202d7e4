import Mathlib.Algebra.Group.Nat.Defs
import Mathlib.Data.Fin.Basic
import Mathlib.Data.List.TakeWhile
import Mathlib.Data.Prod.Lex
import Mathlib.Order.Fin.Basic

/-!
# The ids of stream entries

An id is a time in milliseconds and a counter, of 64 bits each, and is written as two
decimal numbers with a dash between them. Ids are compared by the time first.
-/

namespace CommerceAgent

/-- The id of an entry of a Redis stream. -/
structure StreamId where
  ms : Fin (2 ^ 64)
  seq : Fin (2 ^ 64)
  deriving DecidableEq

namespace StreamId

def toPair (id : StreamId) : Fin (2 ^ 64) ×ₗ Fin (2 ^ 64) := toLex (id.ms, id.seq)

theorem toPair_injective : Function.Injective toPair := by
  intro id other h
  have hpair : (id.ms, id.seq) = (other.ms, other.seq) := toLex.injective h
  cases id
  cases other
  simpa using hpair

instance : LinearOrder StreamId := LinearOrder.lift' toPair toPair_injective

/-- `0-0`, before every entry. -/
def zero : StreamId := ⟨0, 0⟩

/-- The smallest id of an entry. -/
def first : StreamId := ⟨0, 1⟩

/-- The largest id. -/
def last : StreamId := ⟨Fin.last _, Fin.last _⟩

/-- The id as Redis writes it. -/
def text (id : StreamId) : String := Nat.repr id.ms ++ "-" ++ Nat.repr id.seq

/-- A decimal number of 64 bits. -/
def readNumber (digits : List Char) : Option (Fin (2 ^ 64)) :=
  if digits.isEmpty || digits.any (fun c => !c.isDigit) then none
  else if h : Nat.ofDigitChars 10 digits 0 < 2 ^ 64 then some ⟨_, h⟩
  else none

/-- The id that Redis reads; the counter may be left out. -/
def read (text : String) : Option StreamId :=
  match readNumber (text.toList.takeWhile (· != '-')), text.toList.dropWhile (· != '-') with
  | some ms, [] => some ⟨ms, 0⟩
  | some ms, _ :: digits => (readNumber digits).map fun seq => ⟨ms, seq⟩
  | none, _ => none

theorem readNumber_repr (n : Fin (2 ^ 64)) : readNumber (Nat.repr n).toList = some n := by
  have hdigits : (Nat.repr n).toList = Nat.toDigits 10 n := by simp [Nat.repr]
  have hne : Nat.toDigits 10 (n : ℕ) ≠ [] := Nat.toDigits_ne_nil
  have hall : ∀ c ∈ Nat.toDigits 10 (n : ℕ), c.isDigit = true := fun c hc =>
    Nat.isDigit_of_mem_toDigits (by decide) (by decide) hc
  have hany : (Nat.toDigits 10 (n : ℕ)).any (fun c => !c.isDigit) = false := by
    simpa using hall
  rw [hdigits, readNumber]
  simp [hne, hany, Nat.ofDigitChars_ten_toDigits]

/-- Redis reads the ids that it writes. -/
theorem read_text (id : StreamId) : read id.text = some id := by
  have hdigits : ∀ c ∈ (Nat.repr id.ms).toList, (c != '-') = true := by
    intro c hc
    have hdigit : c.isDigit = true := by
      apply Nat.isDigit_of_mem_toDigits (b := 10) (n := id.ms) (by decide) (by decide)
      simpa [Nat.repr] using hc
    rw [bne_iff_ne]
    rintro rfl
    exact absurd hdigit (by decide)
  have hlist : id.text.toList = (Nat.repr id.ms).toList ++ '-' :: (Nat.repr id.seq).toList := by
    simp [text]
  have htake : id.text.toList.takeWhile (· != '-') = (Nat.repr id.ms).toList := by
    rw [hlist, List.takeWhile_append_of_pos hdigits]
    simp
  have hdrop : id.text.toList.dropWhile (· != '-') = '-' :: (Nat.repr id.seq).toList := by
    rw [hlist, List.dropWhile_append_of_pos hdigits]
    simp
  rw [read, htake, hdrop, readNumber_repr]
  show (readNumber (Nat.repr id.seq).toList).map (fun seq => (⟨id.ms, seq⟩ : StreamId)) = some id
  rw [readNumber_repr]
  rfl

theorem text_ne_empty (id : StreamId) : id.text ≠ "" := by
  intro h
  have hread := id.read_text
  rw [h] at hread
  cases hread

end StreamId

end CommerceAgent
