import CommerceAgent.Rag.KnowledgeBase

/-!
# The excerpt of a document

`_best_excerpt` looks for the match in the lower-cased content and cuts the excerpt out of
the content itself. Where lower-casing makes the text before the match longer, as it does
with `İ`, the window lies behind the match, or behind the end of the content. The excerpt
is good exactly when the text before the window does not grow beyond the first match, or
another match happens to lie in what the window becomes.
-/

namespace CommerceAgent

open Text

section

variable (table : CaseTable) (content query : String) (maxChars : ℕ)

/-- Some candidate occurs in the text. -/
def Matches (text : List Char) : Prop := ∃ token ∈ candidates table query, token <:+: text

/-- What an excerpt of a long content is meant to be. -/
structure GoodExcerpt : Prop where
  cut : ∃ before ∈ ["", "…"], ∃ after ∈ ["", "…"], bestExcerpt table content query maxChars =
    before ++ String.ofList (excerptBody table content query maxChars) ++ after
  contiguous : excerptBody table content query maxChars <:+: content.toList
  length_le : (excerptBody table content query maxChars).length ≤ maxChars
  ne_nil : excerptBody table content query maxChars ≠ []
  shows : Matches table query (table.lower content.toList) →
    Matches table query (table.lower (excerptBody table content query maxChars))

/-- The first position at which a candidate occurs. -/
def FirstMatch (position : ℕ) : Prop :=
  (∃ token ∈ candidates table query, token <+: (table.lower content.toList).drop position) ∧
    ∀ earlier < position, ∀ token ∈ candidates table query,
      ¬ token <+: (table.lower content.toList).drop earlier

/-- How long the first characters of the content are in lower case. -/
def loweredLength (count : ℕ) : ℕ := (table.lower (content.toList.take count)).length

/-- The text before the window does not grow beyond the first match, or another candidate
occurs in what the window becomes. -/
def WindowMeetsMatch : Prop :=
  ∀ position, FirstMatch table content query position →
    loweredLength table content (position - maxChars / 4) ≤ position ∨
    ∃ token ∈ candidates table query, ∃ other,
      token <+: (table.lower content.toList).drop other ∧
      loweredLength table content (position - maxChars / 4) ≤ other ∧
      other + token.length ≤
        loweredLength table content (min (position - maxChars / 4 + maxChars) content.length)

end

/-- Tokens are made of letters that are no sigmas. -/
theorem no_sigma_of_mem_tokenize {table : CaseTable} {text : String} {token : List Char}
    (h : token ∈ tokenize table text) : ∀ c ∈ token, c ≠ 'σ' ∧ c ≠ 'ς' := by
  have hchinese : ∀ c ∈ (table.lower text.toList).filter chineseChar, c ≠ 'σ' ∧ c ≠ 'ς' := by
    intro c hc
    have hclass := (List.mem_filter.1 hc).2
    constructor <;> rintro rfl <;> exact absurd hclass (by decide)
  intro c hc
  simp only [tokenize, List.mem_append] at h
  rcases h with (hword | hpair) | hsingle
  · have hclass := all_of_mem_runs hword c hc
    constructor <;> rintro rfl <;> exact absurd hclass (by decide)
  · exact hchinese c (subset_of_mem_bigrams hpair hc)
  · split at hsingle
    · rw [List.mem_singleton.1 hsingle] at hc
      exact hchinese c hc
    · cases hsingle

section

variable {table : CaseTable} {content query : String} {maxChars : ℕ}

theorem mem_candidates {token : List Char} :
    token ∈ candidates table query ↔ token ∈ tokenize table query ∧ 2 ≤ token.length := by
  simp [candidates]

theorem FirstMatch.matches {position : ℕ} (h : FirstMatch table content query position) :
    Matches table query (table.lower content.toList) := by
  obtain ⟨token, htoken, hbegin⟩ := h.1
  exact ⟨token, htoken, hbegin.isInfix.trans (List.drop_suffix _ _).isInfix⟩

theorem FirstMatch.unique {position other : ℕ} (h : FirstMatch table content query position)
    (hother : FirstMatch table content query other) : position = other := by
  obtain ⟨token, htoken, hbegin⟩ := h.1
  obtain ⟨token', htoken', hbegin'⟩ := hother.1
  rcases Nat.lt_trichotomy position other with hlt | heq | hgt
  · exact absurd hbegin (hother.2 position hlt token htoken)
  · exact heq
  · exact absurd hbegin' (h.2 other hgt token' htoken')

/-- The excerpt is centered on the first match, where some candidate occurs. -/
theorem firstMatch_excerptCenter (h : Matches table query (table.lower content.toList)) :
    FirstMatch table content query (excerptCenter table content query) := by
  obtain ⟨token, htoken, hinfix⟩ := h
  obtain ⟨position, hposition⟩ := Option.isSome_iff_exists.1 (find_isSome_iff.2 hinfix)
  have hmem : position ∈ (candidates table query).filterMap
      fun token => find token (table.lower content.toList) :=
    List.mem_filterMap.2 ⟨token, htoken, hposition⟩
  cases hmin : ((candidates table query).filterMap
      fun token => find token (table.lower content.toList)).min? with
  | none =>
      rw [List.min?_eq_none_iff.1 hmin] at hmem
      cases hmem
  | some center =>
      have hcenter : excerptCenter table content query = center := by
        simp only [excerptCenter, hmin]
        rfl
      rw [hcenter]
      constructor
      · obtain ⟨first, hfirst, hfound⟩ := List.mem_filterMap.1 (List.min?_mem hmin)
        exact ⟨first, hfirst, find_some hfound⟩
      · intro earlier hearlier other hother hbegin
        have hoccurs : other <:+: table.lower content.toList :=
          hbegin.isInfix.trans (List.drop_suffix _ _).isInfix
        obtain ⟨found, hfound⟩ := Option.isSome_iff_exists.1 (find_isSome_iff.2 hoccurs)
        have hleast : center ≤ found :=
          (List.min?_eq_some_iff.1 hmin).2 found (List.mem_filterMap.2 ⟨other, hother, hfound⟩)
        exact find_least hfound (hearlier.trans_le hleast) hbegin

theorem excerptCenter_eq_zero (h : ¬ Matches table query (table.lower content.toList)) :
    excerptCenter table content query = 0 := by
  have hnone : (candidates table query).filterMap
      (fun token => find token (table.lower content.toList)) = [] := by
    apply List.filterMap_eq_nil_iff.2
    intro token htoken
    cases hfind : find token (table.lower content.toList) with
    | none => rfl
    | some position =>
        exact absurd ⟨token, htoken, find_isSome_iff.1 (by rw [hfind]; rfl)⟩ h
  simp only [excerptCenter, hnone]
  rfl

/-- A text occurs in a slice exactly if it occurs at a position in it. -/
theorem infix_slice_iff {sub s : List Char} {start stop : ℕ} (hsub : sub ≠ []) :
    sub <:+: (s.take stop).drop start ↔
      ∃ position, sub <+: s.drop position ∧ start ≤ position ∧ position + sub.length ≤ stop := by
  have hpositive : 0 < sub.length := List.length_pos_iff.2 hsub
  constructor
  · intro h
    obtain ⟨offset, hoffset⟩ := Option.isSome_iff_exists.1 (find_isSome_iff.2 h)
    have hbegin := find_some hoffset
    rw [List.drop_drop, List.drop_take] at hbegin
    have hparts := List.prefix_take_iff.1 hbegin
    exact ⟨start + offset, hparts.1, by omega, by omega⟩
  · rintro ⟨position, h, hstart, hstop⟩
    have hbegin : sub <+: (s.take stop).drop position := by
      rw [List.drop_take]
      exact List.prefix_take_iff.2 ⟨h, by omega⟩
    have hdrop : ((s.take stop).drop start).drop (position - start) =
        (s.take stop).drop position := by
      rw [List.drop_drop]
      congr 1
      omega
    rw [← hdrop] at hbegin
    exact hbegin.isInfix.trans (List.drop_suffix _ _).isInfix

/-- The part of the lower-cased content that the window becomes. -/
def loweredWindow (table : CaseTable) (content query : String) (maxChars : ℕ) : List Char :=
  table.lowerSlice content.toList (excerptStart table content query maxChars)
    (excerptEnd table content query maxChars)

/-- What the window becomes ends behind the first match, which is no longer than three
quarters of it. -/
theorem le_loweredLength_excerptEnd {token : List Char}
    (hlength : token.length ≤ maxChars - maxChars / 4)
    (hbegin : token <+: (table.lower content.toList).drop (excerptCenter table content query))
    (hne : token ≠ []) :
    excerptCenter table content query + token.length ≤
      loweredLength table content (excerptEnd table content query maxChars) := by
  have hpositive : 0 < token.length := List.length_pos_iff.2 hne
  have hfits := hbegin.length_le
  rw [List.length_drop] at hfits
  have hgrows := table.length_le_lower
    (content.toList.take (excerptEnd table content query maxChars))
  rw [List.length_take, String.length_toList] at hgrows
  unfold loweredLength
  rcases le_total (excerptStart table content query maxChars + maxChars) content.length with
    hinside | hbeyond
  · have hstop : excerptEnd table content query maxChars =
        excerptStart table content query maxChars + maxChars := min_eq_left hinside
    have hstart : excerptCenter table content query - maxChars / 4 =
        excerptStart table content query maxChars := rfl
    omega
  · -- The window reaches to the end of the content.
    have hstop : excerptEnd table content query maxChars = content.length := min_eq_right hbeyond
    have hwhole : content.toList.take (excerptEnd table content query maxChars) =
        content.toList := by
      apply List.take_of_length_le
      rw [String.length_toList, hstop]
    rw [hwhole]
    omega

/-- The condition says that the window becomes a text in which a candidate occurs, if one
occurs at all. -/
theorem windowMeetsMatch_iff
    (htokens : ∀ token ∈ tokenize table query, token.length ≤ maxChars - maxChars / 4) :
    WindowMeetsMatch table content query maxChars ↔
      (Matches table query (table.lower content.toList) →
        Matches table query (loweredWindow table content query maxChars)) := by
  have hne : ∀ token ∈ candidates table query, token ≠ [] := by
    intro token htoken hnil
    have hlong := (mem_candidates.1 htoken).2
    rw [hnil] at hlong
    cases hlong
  constructor
  · intro h hmatches
    have hfirst := firstMatch_excerptCenter hmatches
    rcases h _ hfirst with hgrowth | ⟨token, htoken, other, hother⟩
    · obtain ⟨token, htoken, hbegin⟩ := hfirst.1
      have hstop := le_loweredLength_excerptEnd (htokens token (mem_candidates.1 htoken).1) hbegin
        (hne token htoken)
      exact ⟨token, htoken, (infix_slice_iff (hne token htoken)).2 ⟨_, hbegin, hgrowth, hstop⟩⟩
    · exact ⟨token, htoken, (infix_slice_iff (hne token htoken)).2 ⟨other, hother⟩⟩
  · intro h position hfirst
    obtain ⟨token, htoken, hinfix⟩ := h hfirst.matches
    obtain ⟨other, hother⟩ := (infix_slice_iff (hne token htoken)).1 hinfix
    rw [hfirst.unique (firstMatch_excerptCenter hfirst.matches)]
    exact .inr ⟨token, htoken, other, hother⟩

/-- A candidate occurs in the lower-cased excerpt exactly if it occurs in what the window
becomes. -/
theorem matches_lower_body_iff :
    Matches table query (table.lower (excerptBody table content query maxChars)) ↔
      Matches table query (loweredWindow table content query maxChars) := by
  have htake : content.toList.take (excerptStart table content query maxChars) =
      (content.toList.take (excerptEnd table content query maxChars)).take
        (excerptStart table content query maxChars) := by
    rw [List.take_take]
    unfold excerptEnd
    rcases le_total (excerptStart table content query maxChars) content.length with hle | hge
    · congr 1
      omega
    · rw [List.take_of_length_le (by rwa [String.length_toList]),
        List.take_of_length_le (by rw [String.length_toList]; omega)]
  have hfold : (loweredWindow table content query maxChars).map CaseTable.mergeSigma =
      (table.lower (excerptBody table content query maxChars)).map CaseTable.mergeSigma := by
    rw [loweredWindow, table.map_mergeSigma_lowerSlice content.toList htake,
      table.map_mergeSigma_lower]
    rfl
  have hiff : ∀ token ∈ candidates table query,
      (token <:+: table.lower (excerptBody table content query maxChars) ↔
        token <:+: loweredWindow table content query maxChars) := by
    intro token htoken
    have hsigma := no_sigma_of_mem_tokenize (mem_candidates.1 htoken).1
    rw [← CaseTable.infix_map_mergeSigma_iff hsigma, ← hfold,
      CaseTable.infix_map_mergeSigma_iff hsigma]
  constructor
  · rintro ⟨token, htoken, hinfix⟩
    exact ⟨token, htoken, (hiff token htoken).1 hinfix⟩
  · rintro ⟨token, htoken, hinfix⟩
    exact ⟨token, htoken, (hiff token htoken).2 hinfix⟩

/-- The body stands between the marks of what was cut off. -/
theorem bestExcerpt_cut (hlong : maxChars < content.length) :
    ∃ before ∈ ["", "…"], ∃ after ∈ ["", "…"], bestExcerpt table content query maxChars =
      before ++ String.ofList (excerptBody table content query maxChars) ++ after := by
  unfold bestExcerpt
  rw [if_neg (Nat.not_le.2 hlong)]
  refine ⟨_, ?_, _, ?_, rfl⟩ <;> split <;> simp

theorem excerptBody_infix : excerptBody table content query maxChars <:+: content.toList :=
  (List.drop_suffix _ _).isInfix.trans (List.take_prefix _ _).isInfix

theorem length_excerptBody_le : (excerptBody table content query maxChars).length ≤ maxChars := by
  have hstop : excerptEnd table content query maxChars ≤
      excerptStart table content query maxChars + maxChars := min_le_left _ _
  rw [excerptBody, List.length_drop, List.length_take]
  omega

/-- Without a match the excerpt is the start of the content. -/
theorem excerptBody_ne_nil_of_no_match (hpositive : 1 ≤ maxChars)
    (hlong : maxChars < content.length)
    (h : ¬ Matches table query (table.lower content.toList)) :
    excerptBody table content query maxChars ≠ [] := by
  have hstart : excerptStart table content query maxChars = 0 := by
    rw [excerptStart, excerptCenter_eq_zero h, Nat.zero_sub]
  have hstop : excerptEnd table content query maxChars = maxChars := by
    rw [excerptEnd, hstart, Nat.zero_add]
    exact min_eq_left hlong.le
  apply List.length_pos_iff.1
  rw [excerptBody, hstart, hstop, List.drop_zero, List.length_take, String.length_toList]
  omega

/-- Nothing occurs in the empty text. -/
theorem Matches.ne_nil {text : List Char} (h : Matches table query text) : text ≠ [] := by
  rintro rfl
  obtain ⟨token, htoken, hinfix⟩ := h
  have hlong := (mem_candidates.1 htoken).2
  rw [List.infix_nil.1 hinfix] at hlong
  cases hlong

end

/-- For every content longer than the excerpt and every query whose tokens fit into three
quarters of it: the excerpt is a non-empty part of the content that fits, and shows a match
if there is one, exactly if the text before the window does not grow beyond the first match
or another match lies in what the window becomes. -/
theorem best_excerpt_good_iff (table : CaseTable) (content query : String) (maxChars : ℕ)
    (hpositive : 1 ≤ maxChars) (hlong : maxChars < content.length)
    (htokens : ∀ token ∈ tokenize table query, token.length ≤ maxChars - maxChars / 4) :
    GoodExcerpt table content query maxChars ↔ WindowMeetsMatch table content query maxChars := by
  rw [windowMeetsMatch_iff htokens]
  constructor
  · intro hgood hmatches
    exact matches_lower_body_iff.1 (hgood.shows hmatches)
  · intro hmeets
    have hshows : Matches table query (table.lower content.toList) →
        Matches table query (table.lower (excerptBody table content query maxChars)) :=
      fun hmatches => matches_lower_body_iff.2 (hmeets hmatches)
    constructor
    case cut => exact bestExcerpt_cut hlong
    case contiguous => exact excerptBody_infix
    case length_le => exact length_excerptBody_le
    case ne_nil =>
      by_cases hmatches : Matches table query (table.lower content.toList)
      · intro hnil
        have hlowered := (hshows hmatches).ne_nil
        rw [hnil] at hlowered
        exact hlowered rfl
      · exact excerptBody_ne_nil_of_no_match hpositive hlong hmatches
    case shows => exact hshows

theorem best_excerpt_good_iff_demo :
    bestExcerpt .basicLatin "weekly sales report" "sales" 8 = "…y sales …" ∧
      GoodExcerpt .basicLatin "weekly sales report" "sales" 8 := by
  have hmatches : Matches .basicLatin "sales"
      (CaseTable.basicLatin.lower "weekly sales report".toList) :=
    ⟨"sales".toList, by decide, "weekly ".toList, " report".toList, by decide⟩
  refine ⟨by decide, (best_excerpt_good_iff .basicLatin "weekly sales report" "sales" 8
    (by decide) (by decide) (by decide)).2 ?_⟩
  intro position hfirst
  rw [hfirst.unique (firstMatch_excerptCenter hmatches)]
  exact .inl (by decide)

/-- Four dotted capitals before the match push the window behind the end of the content. -/
theorem best_excerpt_misses_match :
    (∀ token ∈ tokenize .basicLatin "ab", token.length ≤ 4 - 4 / 4) ∧
      4 < "İİİİab".length ∧ bestExcerpt .basicLatin "İİİİab" "ab" 4 = "…" ∧
      Matches .basicLatin "ab" (CaseTable.basicLatin.lower "İİİİab".toList) ∧
      ¬ GoodExcerpt .basicLatin "İİİİab" "ab" 4 := by
  have hnil : excerptBody .basicLatin "İİİİab" "ab" 4 = [] := by decide
  refine ⟨by decide, by decide, by decide, ⟨['a', 'b'], by decide, ?_⟩, ?_⟩
  · exact ⟨['i', Char.ofNat 0x307, 'i', Char.ofNat 0x307, 'i', Char.ofNat 0x307, 'i',
      Char.ofNat 0x307], [], by decide⟩
  · intro hgood
    exact hgood.ne_nil hnil

end CommerceAgent
