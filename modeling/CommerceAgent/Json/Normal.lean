import CommerceAgent.Json.RoundTrip
import Mathlib.Data.List.Nodup

/-!
# Writing what was read

What `json.loads` makes of a text can be written, and is read back from what is written of
it. Of `float` and `repr` this uses that a number is read back from the text that is written
of it.
-/

namespace CommerceAgent

open Text

namespace Json

/-- What `json.dumps` writes of the number that a spelling stands for is read as that number. -/
def Normal (floatText : String → String) : Prop :=
  ∀ spelling : Spelling, Writable floatText (.float (floatText (String.ofList spelling.text)))

section Numbers

variable {marks signs : List Char}

theorem splitSign_spec (signs s : List Char) :
    (splitSign signs s).1 = [] ∨ ∃ c ∈ signs, (splitSign signs s).1 = [c] := by
  cases s with
  | nil => exact .inl rfl
  | cons c s =>
      rw [splitSign]
      split_ifs with hc
      · exact .inr ⟨c, hc, rfl⟩
      · exact .inl rfl

/-- What is split off is a part of a number, or nothing. -/
theorem splitPart_isPart (s : List Char) : IsPart marks signs (splitPart marks signs s).1 := by
  cases s with
  | nil => exact .inl rfl
  | cons c s =>
      rw [splitPart]
      split_ifs with hc
      · refine .inr ⟨c, hc.1, (splitSign signs s).1, (splitSign signs s).2.takeWhile Char.isDigit,
          rfl, splitSign_spec signs s, hc.2, ?_⟩
        exact fun d hd => List.mem_takeWhile_imp hd
      · exact .inl rfl

variable {floatText : String → String}

theorem writable_of_readNumber (hfloat : Normal floatText) {s rest : List Char} {v : Json}
    (h : readNumber floatText s = some (v, rest)) : Writable floatText v := by
  obtain ⟨⟨n, tail⟩, hnatural, h⟩ := Option.bind_eq_some_iff.1 h
  have hfraction : IsPart ['.'] [] (splitFraction tail).1 := splitPart_isPart tail
  have hexponent : IsPart ['e', 'E'] ['+', '-'] (splitExponent (splitFraction tail).2).1 :=
    splitPart_isPart _
  simp only at h
  by_cases hexact : (splitFraction tail).1 ++ (splitExponent (splitFraction tail).2).1 = []
  · rw [if_pos hexact] at h
    cases h
    exact .int _
  · rw [if_neg hexact] at h
    cases h
    have hsign : (splitSign ['-'] s).1 = if (splitSign ['-'] s).1 ≠ [] then ['-'] else [] := by
      rcases splitSign_spec ['-'] s with hnone | ⟨c, hc, hsome⟩
      · rw [hnone, if_neg (fun h => h rfl)]
      · rw [hsome, List.mem_singleton.1 hc, if_pos (List.cons_ne_nil _ _)]
    let spelling : Spelling :=
      ⟨decide ((splitSign ['-'] s).1 ≠ []), n, _, _, hfraction, hexponent, hexact⟩
    have htext : (splitSign ['-'] s).1 ++ Nat.toDigits 10 n ++
        ((splitFraction tail).1 ++ (splitExponent (splitFraction tail).2).1) = spelling.text := by
      rw [Spelling.text, Spelling.sign]
      simp only [spelling, decide_eq_true_eq]
      rw [← hsign]
    rw [htext]
    exact hfloat spelling

theorem writable_of_readConstant {s rest : List Char} {v : Json}
    (h : readConstant s = some (v, rest)) : Writable floatText v := by
  obtain ⟨word, hword, hfound⟩ := List.exists_of_findSome?_eq_some h
  split_ifs at hfound
  have hvalue : word.2 = v := congrArg Prod.fst (Option.some.inj hfound)
  subst hvalue
  simp only [constants, List.mem_cons, List.not_mem_nil, or_false] at hword
  rcases hword with rfl | rfl | rfl | rfl | rfl | rfl
  · exact .null
  · exact .bool true
  · exact .bool false
  · exact .special _ (by decide)
  · exact .special _ (by decide)
  · exact .special _ (by decide)

end Numbers

section Objects

variable {P : Json → Prop} {d : JsonObject} {field : String × Json}

/-- `d[key] = v` adds the key behind the others, or keeps the keys as they are. -/
theorem setField_keys (d : JsonObject) (field : String × Json) :
    (setField d field).map Prod.fst =
      if field.1 ∈ d.map Prod.fst then d.map Prod.fst else d.map Prod.fst ++ [field.1] := by
  by_cases hmem : field.1 ∈ d.map Prod.fst
  · have hany : d.any (fun member => member.1 == field.1) = true := by simpa using hmem
    rw [setField, if_pos hany, if_pos hmem, List.map_map]
    refine List.map_congr_left fun member _ => ?_
    by_cases heq : member.1 = field.1 <;> simp [heq]
  · rw [setField_new hmem, if_neg hmem, List.map_append]
    rfl

theorem setField_nodup (h : (d.map Prod.fst).Nodup) : ((setField d field).map Prod.fst).Nodup := by
  rw [setField_keys]
  split_ifs with hmem
  · exact h
  · exact List.nodup_append.2 ⟨h, List.nodup_singleton _, fun a ha b hb hab =>
      hmem (List.mem_singleton.1 hb ▸ hab ▸ ha)⟩

theorem forall_setField (h : ∀ member ∈ d, P member.2) (hfield : P field.2) :
    ∀ member ∈ setField d field, P member.2 := by
  intro member hmem
  rw [setField] at hmem
  split_ifs at hmem
  · obtain ⟨old, hold, rfl⟩ := List.mem_map.1 hmem
    split_ifs
    · exact hfield
    · exact h old hold
  · rcases List.mem_append.1 hmem with hmem | hmem
    · exact h member hmem
    · rw [List.mem_singleton.1 hmem]
      exact hfield

/-- A dictionary has no key twice, and its values are those of the fields. -/
theorem dictOf_spec {fields : List (String × Json)} (h : ∀ field ∈ fields, P field.2) :
    ((dictOf fields).map Prod.fst).Nodup ∧ ∀ member ∈ dictOf fields, P member.2 := by
  induction fields using List.reverseRecOn with
  | nil => exact ⟨List.nodup_nil, fun _ hmem => absurd hmem List.not_mem_nil⟩
  | append_singleton fields field ih =>
      obtain ⟨hkeys, hvalues⟩ := ih fun member hmem => h member (List.mem_append_left _ hmem)
      have hfield : P field.2 := h field (List.mem_append_right _ List.mem_cons_self)
      have hsnoc : dictOf (fields ++ [field]) = setField (dictOf fields) field := by
        rw [dictOf, List.foldl_append]
        rfl
      rw [hsnoc]
      exact ⟨setField_nodup hkeys, forall_setField hvalues hfield⟩

/-- A dictionary of values that can be written can be written. -/
theorem writable_dictOf {floatText : String → String} {fields : List (String × Json)}
    (h : ∀ field ∈ fields, Writable floatText field.2) :
    Writable floatText (.obj (dictOf fields)) := by
  obtain ⟨hkeys, hvalues⟩ := dictOf_spec h
  exact .obj hkeys hvalues

end Objects

section Values

variable {floatText : String → String}

theorem forall_of_readMember {P : Json → Prop} {value : Reader Json}
    (hvalue : ∀ s v rest, value s = some (v, rest) → P v) {s rest : List Char}
    {field : String × Json} (h : readMember value s = some (field, rest)) : P field.2 := by
  unfold readMember at h
  split at h
  · cases h
  · split_ifs at h
    obtain ⟨⟨key, s'⟩, -, h⟩ := Option.bind_eq_some_iff.1 h
    simp only at h
    split at h
    · cases h
    · split_ifs at h
      obtain ⟨⟨v, s''⟩, hv, h⟩ := Option.bind_eq_some_iff.1 h
      cases h
      exact hvalue _ v s'' hv

/-- A value that is read can be written. -/
theorem writable_of_readValue (hfloat : Normal floatText) {n : ℕ} {s rest : List Char} {v : Json}
    (h : readValue floatText n s = some (v, rest)) : Writable floatText v := by
  induction n generalizing s rest v with
  | zero => cases h
  | succ n ih =>
      have hvalue : ∀ s v rest, readValue floatText n s = some (v, rest) → Writable floatText v :=
        fun _ _ _ h => ih h
      cases s with
      | nil => cases h
      | cons c s =>
          rw [readValue] at h
          split_ifs at h
          · obtain ⟨⟨text, s'⟩, -, h⟩ := Option.map_eq_some_iff.1 h
            cases h
            exact .str text
          · obtain ⟨⟨items, s'⟩, hitems, h⟩ := Option.map_eq_some_iff.1 h
            cases h
            exact .arr (forall_of_readList hvalue hitems)
          · obtain ⟨⟨fields, s'⟩, hfields, h⟩ := Option.map_eq_some_iff.1 h
            cases h
            exact writable_dictOf (forall_of_readList
              (fun s field rest h => forall_of_readMember hvalue h) hfields)
          · rcases Option.or_eq_some_iff.1 h with hconstant | ⟨-, hnumber⟩
            · exact writable_of_readConstant hconstant
            · exact writable_of_readNumber hfloat hnumber

/-- What `json.loads` returns can be written. -/
theorem writable_of_loads (hfloat : Normal floatText) {text : String} {v : Json}
    (h : loads floatText text = some v) : Writable floatText v := by
  obtain ⟨⟨v', rest⟩, hread, h⟩ := Option.bind_eq_some_iff.1 h
  simp only at h
  split_ifs at h
  cases h
  exact writable_of_readValue hfloat hread

/-- The values in a dictionary that can be written can be. -/
theorem Writable.of_get? {d : JsonObject} (h : Writable floatText (.obj d)) {key : String}
    {v : Json} (hv : JsonObject.get? key d = some v) : Writable floatText v := by
  obtain ⟨field, hfield, rfl⟩ := Option.map_eq_some_iff.1 hv
  cases h with
  | obj hkeys h => exact h field (List.mem_of_find?_eq_some hfield)

theorem Writable.of_mem {items : List Json} (h : Writable floatText (.arr items)) {v : Json}
    (hv : v ∈ items) : Writable floatText v := by
  cases h with
  | arr h => exact h v hv

end Values

end Json

end CommerceAgent
