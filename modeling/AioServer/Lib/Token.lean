import AioServer.Lib.CString
import Mathlib.Data.List.Basic

/-!
# Tokens between delimiters

A call of `strtok_s` in terms of the parts of its string: delimiters that it skips, the token,
and a rest that begins where the token ends.

* `strtokS_eq_some_iff`: the parts, if there is a token;
* `append_unique`: a string has these parts in one way;
* `strtokS_fields`: with the space as its delimiter, `strtok_s` takes the fields of a line.
-/

namespace AioServer.Lib

section token

variable {delims skip tok rest str : List UInt8}

/-- A token of `strtok_s`. -/
structure IsTok (delims tok : List UInt8) : Prop where
  ne : tok ≠ []
  token : ∀ b ∈ tok, isToken delims b = true

theorem IsTok.head (h : IsTok delims tok) (rest : List UInt8) :
    ∀ b ∈ (tok ++ rest).head?, b ∉ delims := by
  obtain ⟨b, tail, rfl⟩ := List.exists_cons_of_ne_nil h.ne
  intro x hx
  obtain rfl : b = x := by simpa using hx
  exact (isToken_iff.mp (h.token b List.mem_cons_self)).2

/-- A token in front of `rest` ends there: at a NUL, at a delimiter or with the memory. -/
def Ends (delims rest : List UInt8) : Prop := ∀ b ∈ rest.head?, isToken delims b = false

theorem ends_nil : Ends delims [] := by simp [Ends]

theorem ends_cons {b : UInt8} : Ends delims (b :: rest) ↔ isToken delims b = false := by
  simp [Ends]

theorem takeWhile_ends (h : Ends delims rest) : rest.takeWhile (isToken delims) = [] := by
  cases rest with
  | nil => rfl
  | cons b rest =>
    have hb : isToken delims b = false := ends_cons.mp h
    exact List.takeWhile_cons_of_neg (by simp [hb])

theorem takeWhile_token (htok : ∀ b ∈ tok, isToken delims b = true) (h : Ends delims rest) :
    (tok ++ rest).takeWhile (isToken delims) = tok := by
  rw [List.takeWhile_append_of_pos htok, takeWhile_ends h, List.append_nil]

theorem dropWhile_token (htok : ∀ b ∈ tok, isToken delims b = true) (h : Ends delims rest) :
    (tok ++ rest).dropWhile (isToken delims) = rest := by
  have hsplit := List.takeWhile_append_dropWhile (p := isToken delims) (l := tok ++ rest)
  rw [takeWhile_token htok h] at hsplit
  exact List.append_cancel_left hsplit

theorem ends_dropWhile : Ends delims (str.dropWhile (isToken delims)) := by
  unfold Ends
  intro b hb
  have hnot := List.head?_dropWhile_not (isToken delims) str
  rw [hb] at hnot
  simpa using hnot

theorem skipTerminator_suffix : skipTerminator str <:+ str := by
  cases str with
  | nil => exact List.nil_suffix
  | cons b str =>
    show (if b = 0 then b :: str else str) <:+ b :: str
    split_ifs
    · exact List.suffix_rfl
    · exact List.suffix_cons b str

theorem strtokS_skip (hskip : ∀ b ∈ skip, b ≠ 0 ∧ b ∈ delims) :
    strtokS delims (skip ++ str) = strtokS delims str := by
  induction skip with
  | nil => rfl
  | cons b skip ih =>
    obtain ⟨hb, htail⟩ := List.forall_mem_cons.mp hskip
    rw [List.cons_append, strtokS_delim hb.1 hb.2]
    exact ih htail

/-- The token begins at the first byte that is no delimiter, and ends where `Ends` says. -/
theorem strtokS_parts (hskip : ∀ b ∈ skip, b ≠ 0 ∧ b ∈ delims) (htok : IsTok delims tok)
    (hrest : Ends delims rest) :
    strtokS delims (skip ++ (tok ++ rest)) = (some tok, skipTerminator rest) := by
  obtain ⟨b, tail, rfl⟩ := List.exists_cons_of_ne_nil htok.ne
  obtain ⟨hb, htail⟩ := List.forall_mem_cons.mp htok.token
  obtain ⟨h0, hdelim⟩ := isToken_iff.mp hb
  rw [strtokS_skip hskip, List.cons_append, strtokS_token h0 hdelim, takeWhile_token htail hrest,
    dropWhile_token htail hrest]

/-- The parts of a string in which `strtok_s` finds a token. -/
theorem strtokS_eq_some_iff {next : List UInt8} : strtokS delims str = (some tok, next) ↔
    ∃ skip rest, str = skip ++ (tok ++ rest) ∧ (∀ b ∈ skip, b ≠ 0 ∧ b ∈ delims) ∧
      IsTok delims tok ∧ Ends delims rest ∧ next = skipTerminator rest := by
  constructor
  · intro h
    induction str with
    | nil => cases h
    | cons b str ih =>
      by_cases h0 : b = 0
      · subst h0
        simp at h
      by_cases hd : b ∈ delims
      · rw [strtokS_delim h0 hd] at h
        obtain ⟨skip, rest, rfl, hskip, hparts⟩ := ih h
        exact ⟨b :: skip, rest, rfl, List.forall_mem_cons.mpr ⟨⟨h0, hd⟩, hskip⟩, hparts⟩
      · rw [strtokS_token h0 hd, Prod.mk.injEq, Option.some.injEq] at h
        obtain ⟨rfl, rfl⟩ := h
        have htok : ∀ x ∈ b :: str.takeWhile (isToken delims), isToken delims x = true :=
          List.forall_mem_cons.mpr
            ⟨isToken_iff.mpr ⟨h0, hd⟩, List.all_eq_true.mp List.all_takeWhile⟩
        refine ⟨[], str.dropWhile (isToken delims), ?_, by simp, ⟨by simp, htok⟩,
          ends_dropWhile, rfl⟩
        simp [List.takeWhile_append_dropWhile]
  · rintro ⟨skip, rest, rfl, hskip, htok, hrest, rfl⟩
    exact strtokS_parts hskip htok hrest

theorem takeWhile_congr {p q : UInt8 → Bool} (h : ∀ b ∈ str, p b = q b) :
    str.takeWhile p = str.takeWhile q ∧ str.dropWhile p = str.dropWhile q := by
  induction str with
  | nil => exact ⟨rfl, rfl⟩
  | cons b str ih =>
    obtain ⟨hb, htail⟩ := List.forall_mem_cons.mp h
    obtain ⟨htake, hdrop⟩ := ih htail
    rw [List.takeWhile_cons, List.takeWhile_cons, List.dropWhile_cons, List.dropWhile_cons, hb,
      htake, hdrop]
    exact ⟨rfl, rfl⟩

/-- Only the delimiters that occur in the string matter. -/
theorem strtokS_congr {delims' : List UInt8} (h : ∀ b ∈ str, b ∈ delims ↔ b ∈ delims') :
    strtokS delims str = strtokS delims' str := by
  induction str with
  | nil => rfl
  | cons b str ih =>
    obtain ⟨hb, htail⟩ := List.forall_mem_cons.mp h
    have hsame : ∀ x ∈ str, isToken delims x = isToken delims' x := by
      intro x hx
      rw [Bool.eq_iff_iff, isToken_iff, isToken_iff, htail x hx]
    by_cases h0 : b = 0
    · subst h0
      simp
    by_cases hd : b ∈ delims
    · rw [strtokS_delim h0 hd, strtokS_delim h0 (hb.mp hd), ih htail]
    · obtain ⟨htake, hdrop⟩ := takeWhile_congr hsame
      rw [strtokS_token h0 hd, strtokS_token h0 (fun hd' => hd (hb.mpr hd')), htake, hdrop]

end token

/-! ## Parts -/

section parts

variable {α : Type} {p : α → Prop} {a a' s s' : List α}

/-- A front of which every element has a property, in front of one that has not, is determined
by the whole. -/
theorem append_unique (h : a ++ s = a' ++ s') (ha : ∀ x ∈ a, p x) (ha' : ∀ x ∈ a', p x)
    (hs : ∀ x ∈ s.head?, ¬ p x) (hs' : ∀ x ∈ s'.head?, ¬ p x) : a = a' ∧ s = s' := by
  induction a generalizing a' with
  | nil =>
    cases a' with
    | nil => exact ⟨rfl, h⟩
    | cons x a' =>
      have hx : s = x :: (a' ++ s') := h
      exact absurd (ha' x List.mem_cons_self) (hs x (by simp [hx]))
  | cons x a ih =>
    cases a' with
    | nil =>
      have hx : s' = x :: (a ++ s) := h.symm
      exact absurd (ha x List.mem_cons_self) (hs' x (by simp [hx]))
    | cons y a' =>
      obtain ⟨rfl, htail⟩ : x = y ∧ a ++ s = a' ++ s' := by simpa using h
      obtain ⟨rfl, hrest⟩ := ih htail (List.forall_mem_cons.mp ha).2
        (List.forall_mem_cons.mp ha').2
      exact ⟨rfl, hrest⟩

end parts

/-! ## Fields -/

/-- The fields of a line: the nonempty parts between its spaces. -/
def fields (line : List UInt8) : List (List UInt8) :=
  (line.splitOnP (· == 32)).filter (· ≠ [])

section fields

variable {line : List UInt8}

@[simp] theorem fields_nil : fields [] = [] := rfl

theorem fields_cons_space (line : List UInt8) : fields (32 :: line) = fields line := by
  unfold fields
  rw [← List.nil_append (32 :: line), List.splitOnP_append_cons _ _ (by decide)]
  rfl

/-- A field ends at a space. -/
theorem fields_append {field : List UInt8} (hne : field ≠ []) (hfield : ∀ b ∈ field, b ≠ 32)
    (line : List UInt8) : fields (field ++ 32 :: line) = field :: fields line := by
  unfold fields
  rw [List.splitOnP_append_cons _ _ (by decide), List.splitOnP_eq_singleton]
  · simp [hne]
  · simpa using hfield

/-- The last field. -/
theorem fields_eq_singleton {field : List UInt8} (hne : field ≠ [])
    (hfield : ∀ b ∈ field, b ≠ 32) : fields field = [field] := by
  unfold fields
  rw [List.splitOnP_eq_singleton]
  · simp [hne]
  · simpa using hfield

/-- `strtok_s` with the space as its delimiter takes the first field. -/
theorem strtokS_fields (h : 0 ∉ line) :
    (fields line = [] ∧ ∃ next, strtokS [32] line = (none, next)) ∨
    ∃ field next, strtokS [32] line = (some field, next) ∧ fields line = field :: fields next ∧
      next <:+ line := by
  induction line with
  | nil => exact Or.inl ⟨rfl, [], rfl⟩
  | cons b line ih =>
    have h0 : b ≠ 0 := fun hb => h (hb ▸ List.mem_cons_self)
    have htail : 0 ∉ line := fun hb => h (List.mem_cons_of_mem b hb)
    by_cases hb : b = 32
    · subst hb
      rw [strtokS_delim (by decide) (by decide), fields_cons_space]
      refine (ih htail).imp_right ?_
      rintro ⟨field, next, htok, hfields, hnext⟩
      exact ⟨field, next, htok, hfields, hnext.trans (List.suffix_cons 32 line)⟩
    right
    have hdelim : b ∉ ([32] : List UInt8) := by simpa using hb
    let field := b :: line.takeWhile (isToken [32])
    have hfield : ∀ x ∈ field, x ≠ 32 := by
      intro x hx
      rcases List.mem_cons.mp hx with rfl | hx
      · exact hb
      · have htok := List.all_eq_true.mp List.all_takeWhile x hx
        simpa using (isToken_iff.mp htok).2
    have hsplit : b :: line = field ++ line.dropWhile (isToken [32]) := by
      simp [field, List.takeWhile_append_dropWhile]
    rw [strtokS_token h0 hdelim]
    refine ⟨field, _, rfl, ?_, ?_⟩
    · have hends := @ends_dropWhile [32] line
      have hmem : ∀ x ∈ line.dropWhile (isToken [32]), x ≠ 0 := by
        intro x hx h0
        exact htail (h0 ▸ (List.dropWhile_suffix _).mem hx)
      rw [hsplit]
      -- the line ends with the field, or a space follows
      rcases hrest : line.dropWhile (isToken [32]) with _ | ⟨c, rest⟩
      · rw [List.append_nil, fields_eq_singleton (by simp [field]) hfield]
        rfl
      · rw [hrest] at hends hmem
        have hc0 : c ≠ 0 := hmem c List.mem_cons_self
        obtain rfl : c = 32 := by
          have hc := ends_cons.mp hends
          simpa [isToken, hc0] using hc
        exact fields_append (by simp [field]) hfield rest
    · exact skipTerminator_suffix.trans
        ((List.dropWhile_suffix _).trans (List.suffix_cons b line))

end fields

end AioServer.Lib
