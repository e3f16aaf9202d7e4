import CommerceAgent.Json.Text
import Mathlib.Data.Bool.AllAny
import Mathlib.Data.List.Induction

/-!
# Reading what was written

`loads` recovers a value from what `dumps` has written of it, in either style. This needs
that no object has a key twice, as no dictionary has, and that the text of each
floating-point number is the one that is written of it.
-/

namespace CommerceAgent

open Text

namespace Json

/-- A mark, perhaps a sign, and digits, or nothing of it. -/
def IsPart (marks signs part : List Char) : Prop :=
  part = [] ∨ ∃ mark ∈ marks, ∃ sign digits : List Char, part = mark :: (sign ++ digits) ∧
    (sign = [] ∨ ∃ c ∈ signs, sign = [c]) ∧ digits ≠ [] ∧ ∀ c ∈ digits, c.isDigit = true

/-- The spelling of a number with a fraction, an exponent or both. -/
structure Spelling where
  negative : Bool
  whole : ℕ
  fraction : List Char
  exponent : List Char
  fraction_part : IsPart ['.'] [] fraction
  exponent_part : IsPart ['e', 'E'] ['+', '-'] exponent
  inexact : fraction ++ exponent ≠ []

def Spelling.sign (spelling : Spelling) : List Char := if spelling.negative then ['-'] else []

def Spelling.text (spelling : Spelling) : List Char :=
  spelling.sign ++ Nat.toDigits 10 spelling.whole ++ (spelling.fraction ++ spelling.exponent)

/-- The value is one that `json` gives back. -/
inductive Writable (floatText : String → String) : Json → Prop
  | null : Writable floatText .null
  | bool (b : Bool) : Writable floatText (.bool b)
  | int (n : ℤ) : Writable floatText (.int n)
  | float (spelling : Spelling)
      (h : floatText (String.ofList spelling.text) = String.ofList spelling.text) :
      Writable floatText (.float (String.ofList spelling.text))
  | special (text : String) (h : text ∈ ["NaN", "Infinity", "-Infinity"]) :
      Writable floatText (.float text)
  | str (s : String) : Writable floatText (.str s)
  | arr {items : List Json} (h : ∀ v ∈ items, Writable floatText v) :
      Writable floatText (.arr items)
  | obj {fields : JsonObject} (hkeys : (fields.map Prod.fst).Nodup)
      (h : ∀ field ∈ fields, Writable floatText field.2) : Writable floatText (.obj fields)

section Writing

variable (style : Style)

/-- What is written of a member of an object. -/
def writeField (field : String × Json) : List Char :=
  quote field.1 ++ ':' :: (style.keyGap ++ field.2.write style)

theorem writeAll_eq (items : List Json) : writeAll style items = items.map (write style) := by
  induction items with
  | nil => rfl
  | cons v items ih => rw [writeAll, ih, List.map_cons]

theorem writeFields_eq (fields : List (String × Json)) :
    writeFields style fields = fields.map (writeField style) := by
  induction fields with
  | nil => rfl
  | cons field fields ih => rw [writeFields, ih, List.map_cons, writeField]

theorem write_arr (items : List Json) : (arr items).write style =
    '[' :: (writeItems (write style) style.itemGap items ++ [']']) := by
  rw [write, writeAll_eq, writeItems_map]
  rfl

theorem write_obj (fields : List (String × Json)) : (obj fields).write style =
    '{' :: (writeItems (writeField style) style.itemGap fields ++ ['}']) := by
  rw [write, writeFields_eq, writeItems_map]
  rfl

end Writing

section Strings

theorem hexValue?_digitChar : ∀ n, n < 16 → hexValue? (Nat.digitChar n) = some n := by
  decide

/-- A control character is read back from its code. -/
theorem readCode_control {c : Char} (hc : c.toNat < 0x20) (rest : List Char) :
    readCode ('0' :: '0' :: Nat.digitChar (c.toNat / 16) :: Nat.digitChar (c.toNat % 16) :: rest) =
      some (c, rest) := by
  have hzero : hexValue? '0' = some 0 := by decide
  have hcode : ((0 * 16 + 0) * 16 + c.toNat / 16) * 16 + c.toNat % 16 = c.toNat := by omega
  have hhex : readHex
      ('0' :: '0' :: Nat.digitChar (c.toNat / 16) :: Nat.digitChar (c.toNat % 16) :: rest) =
      some (c.toNat, rest) := by
    simp only [readHex, hzero, hexValue?_digitChar _ (show c.toNat / 16 < 16 by omega),
      hexValue?_digitChar _ (show c.toNat % 16 < 16 by omega), bind, Option.bind, pure, hcode]
  simp only [readCode, hhex, bind, Option.bind]
  rw [if_neg (by omega), if_neg (by omega), Char.ofNat_toNat]
  rfl

theorem recovers_readChar (c : Char) : Recovers readChar escape (fun _ => True) c := by
  intro rest _
  unfold escape
  split_ifs with h₁ h₂ h₃ h₄ h₅ h₆ h₇ h₈
  case pos => subst h₁; rfl
  case pos => subst h₂; rfl
  case pos => subst h₃; rfl
  case pos => subst h₄; rfl
  case pos => subst h₅; rfl
  case pos => subst h₆; rfl
  case pos => subst h₇; rfl
  case pos => exact readCode_control h₈ rest
  case neg => simp [readChar, h₂, h₈]

theorem escape_opens (c : Char) : ∃ d s, escape c = d :: s ∧ d ≠ '"' := by
  unfold escape
  split_ifs with h₁
  case neg => exact ⟨c, [], rfl, h₁⟩
  all_goals exact ⟨'\\', _, rfl, by decide⟩

theorem recovers_readString (s : String) :
    Recovers readString (fun s => s.toList.flatMap escape ++ ['"']) (fun _ => True) s := by
  intro rest _
  have hread := recovers_readClosed (fun c (_ : c ∈ s.toList) => recovers_readChar c)
    (fun c _ => escape_opens c) rest
  rw [readString, List.append_assoc, List.singleton_append, hread]
  simp

end Strings

section Numbers

theorem splitPart_append {marks signs part rest : List Char} (hpart : IsPart marks signs part)
    (hsigns : ∀ c ∈ signs, c.isDigit = false) (hdigit : StopsAt Char.isDigit rest)
    (hmark : StopsAt (fun c => decide (c ∈ marks)) rest) :
    splitPart marks signs (part ++ rest) = (part, rest) := by
  rcases hpart with rfl | ⟨mark, hmem, sign, digits, rfl, hsign, hne, hdigits⟩
  · cases rest with
    | nil => rfl
    | cons c rest =>
        have hc : c ∉ marks := by simpa [stopsAt_cons] using hmark
        simp [splitPart, hc]
  · have hsplit : splitSign signs (sign ++ (digits ++ rest)) = (sign, digits ++ rest) := by
      rcases hsign with rfl | ⟨c, hc, rfl⟩
      · obtain ⟨d, ds, rfl⟩ := List.exists_cons_of_ne_nil hne
        have hd : d ∉ signs := by
          intro hd
          have hdigit := hdigits d List.mem_cons_self
          rw [hsigns d hd] at hdigit
          cases hdigit
        simp [splitSign, hd]
      · simp [splitSign, hc]
    simp only [List.cons_append, List.append_assoc, splitPart, hsplit,
      takeWhile_run hdigits hdigit, dropWhile_run hdigits hdigit]
    rw [if_pos ⟨hmem, hne⟩]

theorem stopsAt_part {marks signs part rest : List Char} {p : Char → Bool}
    (hpart : IsPart marks signs part) (hmarks : ∀ c ∈ marks, p c = false) (hrest : StopsAt p rest) :
    StopsAt p (part ++ rest) := by
  rcases hpart with rfl | ⟨mark, hmem, sign, digits, rfl, -⟩
  · exact hrest
  · exact stopsAt_cons.2 (hmarks mark hmem)

/-- The characters with which a number could go on. -/
def continuesNumber (c : Char) : Bool := c.isDigit || decide (c ∈ ['.', 'e', 'E'])

variable (floatText : String → String)

/-- A number is read back as an integer if it has neither a fraction nor an exponent. -/
theorem readNumber_append {fraction exponent : List Char} (hfraction : IsPart ['.'] [] fraction)
    (hexponent : IsPart ['e', 'E'] ['+', '-'] exponent) (negative : Bool) (whole : ℕ)
    {rest : List Char} (hrest : StopsAt continuesNumber rest) :
    readNumber floatText ((if negative then ['-'] else []) ++ Nat.toDigits 10 whole ++
        (fraction ++ exponent) ++ rest) =
      some (if fraction ++ exponent = [] then .int (if negative then -whole else whole)
        else .float (floatText (String.ofList ((if negative then ['-'] else []) ++
          Nat.toDigits 10 whole ++ (fraction ++ exponent)))), rest) := by
  have hdigit : StopsAt Char.isDigit rest := hrest.mono (by
    intro c hc
    simp only [continuesNumber, Bool.or_eq_false_iff] at hc
    exact hc.1)
  have hmarks : ∀ marks : List Char, marks ⊆ ['.', 'e', 'E'] →
      StopsAt (fun c => decide (c ∈ marks)) rest := fun marks hsub =>
    hrest.mono (by
      intro c hc
      simp only [continuesNumber, Bool.or_eq_false_iff, decide_eq_false_iff_not] at hc ⊢
      exact fun hmem => hc.2 (hsub hmem))
  have hpoint : ∀ c ∈ ['.'], c.isDigit = false := List.all_iff_forall_prop.1 (by decide)
  have hletter : ∀ c ∈ ['e', 'E'], c.isDigit = false := List.all_iff_forall_prop.1 (by decide)
  have hsigns : ∀ c ∈ ['+', '-'], c.isDigit = false := List.all_iff_forall_prop.1 (by decide)
  have hmark : ∀ c ∈ ['e', 'E'], decide (c ∈ ['.']) = false :=
    List.all_iff_forall_prop.1 (by decide)
  have htail : StopsAt Char.isDigit (fraction ++ (exponent ++ rest)) :=
    stopsAt_part hfraction hpoint (stopsAt_part hexponent hletter hdigit)
  have hsign : splitSign ['-'] ((if negative then ['-'] else []) ++
      (Nat.toDigits 10 whole ++ (fraction ++ (exponent ++ rest)))) =
      (if negative then ['-'] else [],
        Nat.toDigits 10 whole ++ (fraction ++ (exponent ++ rest))) := by
    cases negative with
    | true => rfl
    | false =>
        obtain ⟨c, ds, hds⟩ :=
          List.exists_cons_of_ne_nil (Nat.toDigits_ne_nil (n := whole) (b := 10))
        have hc : c ∉ ['-'] := by
          have hdigit := toDigits_isDigit whole c (hds ▸ List.mem_cons_self)
          rintro hmem
          rw [List.mem_singleton.1 hmem] at hdigit
          exact absurd hdigit (by decide)
        rw [hds]
        simp only [Bool.false_eq_true, if_false, List.nil_append, List.cons_append, splitSign,
          if_neg hc]
  have hnatural := recovers_readNatural whole _ htail
  have hfraction' : splitFraction (fraction ++ (exponent ++ rest)) = (fraction, exponent ++ rest) :=
    splitPart_append hfraction (by simp) (stopsAt_part hexponent hletter hdigit)
      (stopsAt_part hexponent hmark (hmarks _ (by decide)))
  have hexponent' : splitExponent (exponent ++ rest) = (exponent, rest) :=
    splitPart_append hexponent hsigns hdigit (hmarks _ (by decide))
  simp only [readNumber, List.append_assoc, hsign, hnatural, hfraction', hexponent', bind,
    Option.bind, pure]
  by_cases hempty : fraction ++ exponent = []
  · obtain ⟨rfl, rfl⟩ := List.append_eq_nil_iff.1 hempty
    cases negative <;> rfl
  · rw [if_neg hempty, if_neg hempty]

/-- A number begins with a digit, or with a sign and a digit. -/
theorem number_cases (negative : Bool) (whole : ℕ) (tail : List Char) :
    ∃ d s, d.isDigit = true ∧
      ((if negative then ['-'] else []) ++ Nat.toDigits 10 whole ++ tail = d :: s ∨
      (if negative then ['-'] else []) ++ Nat.toDigits 10 whole ++ tail = '-' :: d :: s) := by
  obtain ⟨d, ds, hds⟩ := List.exists_cons_of_ne_nil (Nat.toDigits_ne_nil (n := whole) (b := 10))
  have hdigit := toDigits_isDigit whole d (hds ▸ List.mem_cons_self)
  rw [hds]
  cases negative with
  | false => exact ⟨d, ds ++ tail, hdigit, .inl rfl⟩
  | true => exact ⟨d, ds ++ tail, hdigit, .inr rfl⟩

theorem readConstant_digit {d : Char} (hd : d.isDigit = true) (s : List Char) :
    readConstant (d :: s) = none := by
  have hne : ∀ c : Char, c.isDigit = false → c ≠ d := by
    rintro c hc rfl
    rw [hc] at hd
    cases hd
  simp [readConstant, constants, hne 'n' rfl, hne 't' rfl, hne 'f' rfl, hne 'N' rfl, hne 'I' rfl,
    hne '-' rfl]

theorem readConstant_sign {d : Char} (hd : d.isDigit = true) (s : List Char) :
    readConstant ('-' :: d :: s) = none := by
  have hne : 'I' ≠ d := by
    rintro rfl
    exact absurd hd (by decide)
  simp [readConstant, constants, hne]

/-- A text that begins like a number is read as one. -/
theorem readValue_number {d : Char} (hd : d.isDigit = true) {s : List Char} (n : ℕ)
    {text : List Char} (htext : text = d :: s ∨ text = '-' :: d :: s) :
    readValue floatText (n + 1) text = readNumber floatText text := by
  have hne : ∀ c : Char, c.isDigit = false → d ≠ c := by
    rintro c hc rfl
    rw [hc] at hd
    cases hd
  rcases htext with rfl | rfl
  · rw [readValue, if_neg (hne _ rfl), if_neg (hne _ rfl), if_neg (hne _ rfl),
      readConstant_digit hd, Option.none_or]
  · rw [readValue, if_neg (by decide), if_neg (by decide), if_neg (by decide),
      readConstant_sign hd, Option.none_or]

end Numbers

section Values

variable {floatText : String → String} (style : Style)

theorem number_opens {negative : Bool} {whole : ℕ} {tail : List Char} {closing : Char}
    (hclosing : closing.isDigit = false ∧ closing ≠ '-') : Opens isBlank closing
      ((if negative then ['-'] else []) ++ Nat.toDigits 10 whole ++ tail) := by
  obtain ⟨d, s, hd, htext | htext⟩ := number_cases negative whole tail
  · refine ⟨d, s, htext, ?_, ?_⟩
    · simp only [isBlank, Bool.or_eq_false_iff, beq_eq_false_iff_ne]
      refine ⟨⟨⟨?_, ?_⟩, ?_⟩, ?_⟩
      all_goals
        rintro rfl
        exact absurd hd (by decide)
    · rintro rfl
      rw [hclosing.1] at hd
      cases hd
  · exact ⟨'-', d :: s, htext, rfl, hclosing.2.symm⟩

theorem writeInt_eq (n : ℤ) : writeInt n =
    (if decide (n < 0) then ['-'] else []) ++ Nat.toDigits 10 n.natAbs ++ ([] ++ []) := by
  simp [writeInt]

/-- The text of a value begins with neither a blank nor a closing bracket. -/
theorem write_opens {v : Json} (hv : Writable floatText v) {closing : Char}
    (hclosing : closing = ']' ∨ closing = '}') : Opens isBlank closing (v.write style) := by
  have hnumber : closing.isDigit = false ∧ closing ≠ '-' := by
    rcases hclosing with rfl | rfl <;> decide
  cases hv with
  | int n =>
      rw [write, writeInt_eq]
      exact number_opens hnumber
  | float spelling h =>
      rw [write, String.toList_ofList]
      exact number_opens hnumber
  | special text h =>
      simp only [List.mem_cons, List.not_mem_nil, or_false] at h
      rcases h with rfl | rfl | rfl <;>
        rcases hclosing with rfl | rfl <;> exact ⟨_, _, rfl, rfl, by decide⟩
  | bool b => cases b <;> rcases hclosing with rfl | rfl <;> exact ⟨_, _, rfl, rfl, by decide⟩
  | arr h =>
      rw [write_arr]
      rcases hclosing with rfl | rfl <;> exact ⟨_, _, rfl, rfl, by decide⟩
  | obj hkeys h =>
      rw [write_obj]
      rcases hclosing with rfl | rfl <;> exact ⟨_, _, rfl, rfl, by decide⟩
  | _ => rcases hclosing with rfl | rfl <;> exact ⟨_, _, rfl, rfl, by decide⟩

/-- A member is read back once its value is. -/
theorem recovers_readMember (hgap : ∀ c ∈ style.keyGap, isBlank c = true) {value : Reader Json}
    {field : String × Json} (hv : Writable floatText field.2)
    (hvalue : Recovers value (write style) (StopsAt continuesNumber) field.2) :
    Recovers (readMember value) (writeField style) (StopsAt continuesNumber) field := by
  intro rest hrest
  have hkey := recovers_readString field.1 (':' :: (style.keyGap ++ (field.2.write style ++ rest)))
    trivial
  have hopens := write_opens style hv (.inl rfl : ']' = ']' ∨ _)
  have hskip : (style.keyGap ++ (field.2.write style ++ rest)).dropWhile isBlank =
      field.2.write style ++ rest := by
    rw [List.dropWhile_append_of_pos hgap, hopens.dropWhile]
  have hcolon : isBlank ':' = false := by decide
  simp only [List.append_assoc, List.singleton_append] at hkey
  simp [writeField, quote, readMember, hkey, hcolon, hskip, hvalue rest hrest]

theorem setField_new {d : JsonObject} {field : String × Json} (h : field.1 ∉ d.map Prod.fst) :
    setField d field = d ++ [field] := by
  rw [setField, if_neg]
  simpa using h

/-- A dictionary is made of its own items. -/
theorem dictOf_of_nodup {fields : JsonObject} (hkeys : (fields.map Prod.fst).Nodup) :
    dictOf fields = fields := by
  induction fields using List.reverseRecOn with
  | nil => rfl
  | append_singleton fields field ih =>
      rw [List.map_append, List.nodup_append] at hkeys
      have hnew : field.1 ∉ fields.map Prod.fst := fun hmem =>
        hkeys.2.2 _ hmem _ (List.mem_singleton_self _) rfl
      have hfields := ih hkeys.1
      rw [dictOf] at hfields
      rw [dictOf, List.foldl_append, hfields]
      exact setField_new hnew

/-- Gaps are blank. -/
def Style.Blank (style : Style) : Prop :=
  (∀ c ∈ style.itemGap, isBlank c = true) ∧ ∀ c ∈ style.keyGap, isBlank c = true

instance (style : Style) : Decidable style.Blank :=
  decidable_of_iff (style.itemGap.all isBlank = true ∧ style.keyGap.all isBlank = true)
    (and_congr List.all_eq_true List.all_eq_true)

variable {style}

/-- What is written of a value is read back, whatever follows that is not of a number. -/
theorem recovers_readValue (hstyle : style.Blank) {v : Json} (hv : Writable floatText v) :
    ∀ n, (v.write style).length ≤ n →
      Recovers (readValue floatText n) (write style) (StopsAt continuesNumber) v := by
  have hstops : ∀ c ∈ [',', ']', '}'], ∀ s, StopsAt continuesNumber (c :: s) := by
    intro c hc s
    rw [stopsAt_cons]
    revert c
    exact List.all_iff_forall_prop.1 (by decide)
  have hpositive : ∀ {v : Json}, Writable floatText v → 0 < (v.write style).length := by
    intro v hv
    obtain ⟨c, s, hwrite, -⟩ := write_opens style hv (.inl rfl : ']' = ']' ∨ _)
    simp [hwrite]
  have hsucc : ∀ {v : Json} {n : ℕ}, Writable floatText v → (v.write style).length ≤ n →
      ∃ m, n = m + 1 := by
    intro v n hv hn
    have hlength := hpositive hv
    exact ⟨n - 1, by omega⟩
  induction hv with
  | null =>
      intro n hn rest _
      obtain ⟨n, rfl⟩ := hsucc .null hn
      rfl
  | bool b =>
      intro n hn rest _
      obtain ⟨n, rfl⟩ := hsucc (.bool b) hn
      cases b <;> rfl
  | int m =>
      intro n hn rest hrest
      obtain ⟨n, rfl⟩ := hsucc (.int m) hn
      have hread :=
        readNumber_append floatText (.inl rfl) (.inl rfl) (decide (m < 0)) m.natAbs hrest
      obtain ⟨d, s, hd, htext⟩ := number_cases (decide (m < 0)) m.natAbs (([] ++ []) ++ rest)
      rw [← List.append_assoc] at htext
      rw [write, writeInt_eq, readValue_number floatText hd n htext, hread,
        if_pos (List.append_nil [])]
      have hvalue : (if decide (m < 0) then -(m.natAbs : ℤ) else m.natAbs) = m := by
        by_cases hm : m < 0
        · simp only [hm, decide_true, if_true]
          omega
        · simp only [hm, decide_false, Bool.false_eq_true, if_false]
          omega
      rw [hvalue]
  | float spelling h =>
      intro n hn rest hrest
      obtain ⟨n, rfl⟩ := hsucc (.float spelling h) hn
      have hread := readNumber_append floatText spelling.fraction_part spelling.exponent_part
        spelling.negative spelling.whole hrest
      obtain ⟨d, s, hd, htext⟩ := number_cases spelling.negative spelling.whole
        ((spelling.fraction ++ spelling.exponent) ++ rest)
      rw [← List.append_assoc] at htext
      rw [write, String.toList_ofList]
      change readValue floatText (n + 1) (_ ++ _ ++ _ ++ rest) = _
      rw [Spelling.sign, readValue_number floatText hd n htext, hread, if_neg spelling.inexact]
      rw [Spelling.text, Spelling.sign] at h
      rw [h]
      rfl
  | special text h =>
      intro n hn rest _
      obtain ⟨n, rfl⟩ := hsucc (.special text h) hn
      simp only [List.mem_cons, List.not_mem_nil, or_false] at h
      rcases h with rfl | rfl | rfl <;> rfl
  | str s =>
      intro n hn rest _
      obtain ⟨n, rfl⟩ := hsucc (.str s) hn
      change (readString (_ ++ rest)).map _ = _
      rw [recovers_readString s rest trivial]
      rfl
  | @arr items h ih =>
      intro n hn rest _
      obtain ⟨n, rfl⟩ := hsucc (.arr h) hn
      rw [write_arr, List.length_cons, List.length_append, List.length_singleton] at hn
      have hitem : ∀ v ∈ items,
          Recovers (readValue floatText n) (write style) (StopsAt continuesNumber) v := by
        intro v hmem
        have hle := length_le_of_mem (write style) style.itemGap hmem
        exact ih v hmem n (by omega)
      have hlist := recovers_readList hitem (fun v hmem => write_opens style (h v hmem) (.inl rfl))
        (hstops ',' (by simp)) (hstops ']' (by simp)) (by decide) hstyle.1 rest
      rw [write_arr, List.cons_append, List.append_assoc, List.singleton_append]
      change (readList _ _ _ _).map _ = _
      rw [hlist]
      rfl
  | @obj fields hkeys h ih =>
      intro n hn rest _
      obtain ⟨n, rfl⟩ := hsucc (.obj hkeys h) hn
      rw [write_obj, List.length_cons, List.length_append, List.length_singleton] at hn
      have hitem : ∀ field ∈ fields, Recovers (readMember (readValue floatText n))
          (writeField style) (StopsAt continuesNumber) field := by
        intro field hmem
        have hle := length_le_of_mem (writeField style) style.itemGap hmem
        apply recovers_readMember style hstyle.2 (h field hmem) (ih field hmem n _)
        simp only [writeField, List.length_append, List.length_cons] at hle
        omega
      have hlist := recovers_readList hitem (fun _ _ => ⟨'"', _, rfl, rfl, by decide⟩)
        (hstops ',' (by simp)) (hstops '}' (by simp)) (by decide) hstyle.1 rest
      rw [write_obj, List.cons_append, List.append_assoc, List.singleton_append]
      change (readList _ _ _ _).map _ = _
      rw [hlist]
      change some (Json.obj (dictOf fields), rest) = _
      rw [dictOf_of_nodup hkeys]

/-- `json.loads` gives back what `json.dumps` or `model_dump_json` has written. -/
theorem loads_dumps (hstyle : style.Blank) {v : Json} (hv : Writable floatText v) :
    loads floatText (v.dumps style) = some v := by
  have hopens := write_opens style hv (.inl rfl : ']' = ']' ∨ _)
  have hskip : (v.write style).dropWhile isBlank = v.write style := by
    simpa using hopens.dropWhile []
  have hread := recovers_readValue hstyle hv (v.write style).length le_rfl [] stopsAt_nil
  rw [List.append_nil] at hread
  simp only [loads, dumps, String.toList_ofList, String.length_ofList, hskip, hread, bind,
    Option.bind, pure]
  rfl

theorem spaced_blank : spaced.Blank := by decide

theorem compact_blank : compact.Blank := by decide

example : loads id " \x7b\"a\" : [1, -2.50e3, null], \"b\":\"\\u00e9\\ud83d\\ude00\"\x7d" =
    some (.obj [("a", .arr [.int 1, .float "-2.50e3", .null]), ("b", .str "é😀")]) := by
  rfl

end Values

section Characters

variable {floatText : String → String} {style : Style}

/-- A space or a character behind it. -/
def Printable (c : Char) : Prop := 0x20 ≤ c.toNat

instance (c : Char) : Decidable (Printable c) := inferInstanceAs (Decidable (_ ≤ _))

theorem Printable.ne_lineFeed {c : Char} (h : Printable c) : c ≠ '\n' := by
  rintro rfl
  exact absurd h (by decide)

theorem Printable.ne_carriageReturn {c : Char} (h : Printable c) : c ≠ '\r' := by
  rintro rfl
  exact absurd h (by decide)

theorem printable_of_isDigit {c : Char} (h : c.isDigit = true) : Printable c := by
  simp only [Char.isDigit, Bool.and_eq_true, decide_eq_true_eq] at h
  exact le_trans (by decide) (UInt32.le_iff_toNat_le.1 h.1)

theorem printable_escape (c : Char) : ∀ d ∈ escape c, Printable d := by
  have hdigit : ∀ n, n < 16 → Printable (Nat.digitChar n) := by decide
  have hall : ∀ s : List Char, (s.all fun c => decide (Printable c)) = true →
      ∀ c ∈ s, Printable c := fun s => List.all_iff_forall_prop.1
  unfold escape
  split_ifs with h₁ h₂ h₃ h₄ h₅ h₆ h₇ h₈
  · exact hall _ (by decide)
  · exact hall _ (by decide)
  · exact hall _ (by decide)
  · exact hall _ (by decide)
  · exact hall _ (by decide)
  · exact hall _ (by decide)
  · exact hall _ (by decide)
  · intro d hd
    simp only [List.mem_cons, List.not_mem_nil, or_false] at hd
    rcases hd with rfl | rfl | rfl | rfl | rfl | rfl
    · decide
    · decide
    · decide
    · decide
    · exact hdigit _ (by omega)
    · exact hdigit _ (by omega)
  · intro d hd
    rw [List.mem_singleton.1 hd]
    exact not_lt.1 h₈

theorem printable_quote (s : String) : ∀ c ∈ quote s, Printable c := by
  intro c hc
  simp only [quote, List.mem_cons, List.mem_append, List.mem_flatMap, List.not_mem_nil,
    or_false] at hc
  rcases hc with rfl | ⟨d, -, hc⟩ | rfl
  · decide
  · exact printable_escape d c hc
  · decide

theorem printable_part {marks signs part : List Char} (hpart : IsPart marks signs part)
    (hmarks : ∀ c ∈ marks, Printable c) (hsigns : ∀ c ∈ signs, Printable c) :
    ∀ c ∈ part, Printable c := by
  rcases hpart with rfl | ⟨mark, hmem, sign, digits, rfl, hsign, -, hdigits⟩
  · simp
  · intro c hc
    rcases List.mem_cons.1 hc with rfl | hc
    · exact hmarks c hmem
    · rcases List.mem_append.1 hc with hc | hc
      · rcases hsign with rfl | ⟨d, hd, rfl⟩
        · cases hc
        · rw [List.mem_singleton.1 hc]
          exact hsigns d hd
      · exact printable_of_isDigit (hdigits c hc)

theorem printable_digits (n : ℕ) : ∀ c ∈ Nat.toDigits 10 n, Printable c :=
  fun c hc => printable_of_isDigit (toDigits_isDigit n c hc)

/-- The text of a value has no control characters, whatever its strings have. -/
theorem printable_write (hgap : ∀ c ∈ style.itemGap ++ style.keyGap, Printable c) {v : Json}
    (hv : Writable floatText v) : ∀ c ∈ v.write style, Printable c := by
  have hitemGap : ∀ c ∈ style.itemGap, Printable c := fun c hc =>
    hgap c (List.mem_append_left _ hc)
  have hkeyGap : ∀ c ∈ style.keyGap, Printable c := fun c hc =>
    hgap c (List.mem_append_right _ hc)
  induction hv with
  | null =>
      rw [write]
      exact List.all_iff_forall_prop.1 (by decide)
  | bool b => cases b <;> (rw [write]; exact List.all_iff_forall_prop.1 (by decide))
  | int n =>
      intro c hc
      rw [write, writeInt] at hc
      rcases List.mem_append.1 hc with hc | hc
      · split_ifs at hc
        · rw [List.mem_singleton.1 hc]
          decide
        · cases hc
      · exact printable_digits _ c hc
  | float spelling h =>
      have hpoint : ∀ c ∈ ['.'], Printable c := List.all_iff_forall_prop.1 (by decide)
      have hletter : ∀ c ∈ ['e', 'E'], Printable c := List.all_iff_forall_prop.1 (by decide)
      have hsigns : ∀ c ∈ ['+', '-'], Printable c := List.all_iff_forall_prop.1 (by decide)
      intro c hc
      rw [write, String.toList_ofList, Spelling.text, Spelling.sign] at hc
      simp only [List.mem_append] at hc
      rcases hc with (hc | hc) | hc | hc
      · split_ifs at hc
        · rw [List.mem_singleton.1 hc]
          decide
        · cases hc
      · exact printable_digits _ c hc
      · exact printable_part spelling.fraction_part hpoint (by simp) c hc
      · exact printable_part spelling.exponent_part hletter hsigns c hc
  | special text h =>
      simp only [List.mem_cons, List.not_mem_nil, or_false] at h
      rw [write]
      rcases h with rfl | rfl | rfl <;> exact List.all_iff_forall_prop.1 (by decide)
  | str s => exact printable_quote s
  | arr h ih =>
      intro c hc
      rw [write_arr] at hc
      simp only [List.mem_cons, List.mem_append, List.not_mem_nil, or_false] at hc
      rcases hc with rfl | hc | rfl
      · decide
      · rcases mem_writeItems hc with rfl | hc | ⟨v, hv, hc⟩
        · decide
        · exact hitemGap c hc
        · exact ih v hv c hc
      · decide
  | obj hkeys h ih =>
      intro c hc
      rw [write_obj] at hc
      simp only [List.mem_cons, List.mem_append, List.not_mem_nil, or_false] at hc
      rcases hc with rfl | hc | rfl
      · decide
      · rcases mem_writeItems hc with rfl | hc | ⟨field, hfield, hc⟩
        · decide
        · exact hitemGap c hc
        · simp only [writeField, List.mem_append, List.mem_cons] at hc
          rcases hc with hc | rfl | hc | hc
          · exact printable_quote _ c hc
          · decide
          · exact hkeyGap c hc
          · exact ih field hfield c hc
      · decide

end Characters

section Objects

variable {floatText : String → String}

/-- Only a text with a brace is read as an object. -/
theorem brace_of_readValue {n : ℕ} {s rest : List Char} {d : JsonObject}
    (h : readValue floatText n s = some (.obj d, rest)) : '{' ∈ s := by
  cases n with
  | zero => cases h
  | succ n =>
      cases s with
      | nil => cases h
      | cons c s =>
          rw [readValue] at h
          split_ifs at h with hstring harray hobject
          · obtain ⟨r, -, hr⟩ := Option.map_eq_some_iff.1 h
            cases hr
          · obtain ⟨r, -, hr⟩ := Option.map_eq_some_iff.1 h
            cases hr
          · rw [hobject]
            exact List.mem_cons_self
          · exfalso
            rcases Option.or_eq_some_iff.1 h with hconstant | ⟨-, hnumber⟩
            · obtain ⟨word, hword, hfound⟩ := List.exists_of_findSome?_eq_some hconstant
              split_ifs at hfound
              have hvalue : word.2 = .obj d := congrArg Prod.fst (Option.some.inj hfound)
              have hall : ∀ word ∈ constants, word.2 ≠ .obj d := by simp [constants]
              exact hall word hword hvalue
            · simp only [readNumber, bind, Option.bind_eq_some_iff, pure] at hnumber
              obtain ⟨r, -, hr⟩ := hnumber
              split_ifs at hr <;> cases hr

theorem brace_of_loads {text : String} {d : JsonObject}
    (h : loads floatText text = some (.obj d)) : '{' ∈ text.toList := by
  simp only [loads, bind, Option.bind_eq_some_iff, pure] at h
  obtain ⟨r, hread, hr⟩ := h
  split_ifs at hr
  obtain ⟨v, rest⟩ := r
  cases hr
  exact (List.dropWhile_sublist _).subset (brace_of_readValue hread)

end Objects

end Json

end CommerceAgent
