import AioServer.Lib.Token

/-!
# Where the string functions look

`strtok_s` and `_stricmp` know no length. Here each call comes with the places of the bytes
that it looks at or overwrites, counted from the start of a buffer. A string ends at its NUL;
where the memory of a list ends there is one too.

* `strtokSFrom`: the two loops of `strtok_s`; `token_strtokSFrom` and `nextToken_strtokSFrom`
  say that it is `strtokS`;
* `strtokSFrom_parts`: a call that finds a token and a delimiter behind it;
* `strtokSFrom_nul`: a call on a buffer that holds a NUL;
* `strtokSFrom_inside`: a call that stays in the buffer is one of these.
-/

namespace AioServer.Lib

/-- A pointer: its distance from the start of the buffer, and the bytes from there on. For a
string, only those of the string. -/
structure Ptr where
  index : ℕ
  bytes : List UInt8
deriving DecidableEq, Repr

/-- A call of `strtok_s`: what it returns, the new context, and the places. -/
structure StrtokCall where
  token : Option Ptr
  nextToken : Ptr
  touched : List ℕ
deriving DecidableEq, Repr

/-- The loop that looks for the end of the token. A delimiter there is overwritten. -/
def endToken (delims : List UInt8) : ℕ → List UInt8 → Ptr × List ℕ
  | i, [] => (⟨i, []⟩, [i])
  | i, b :: str =>
    if b = 0 then (⟨i, b :: str⟩, [i])
    else if delims.contains b then (⟨i + 1, str⟩, [i, i])
    else
      let r := endToken delims (i + 1) str
      (r.1, i :: r.2)

/-- `strtok_s`, with the loop that skips delimiters. -/
def strtokSFrom (delims : List UInt8) : ℕ → List UInt8 → StrtokCall
  | i, [] => ⟨none, ⟨i, []⟩, [i]⟩
  | i, b :: str =>
    if b = 0 then ⟨none, ⟨i, b :: str⟩, [i]⟩
    else if delims.contains b then
      let r := strtokSFrom delims (i + 1) str
      { r with touched := i :: r.touched }
    else
      let r := endToken delims i (b :: str)
      ⟨some ⟨i, b :: str.takeWhile (isToken delims)⟩, r.1, i :: r.2⟩

/-- The places at which `_stricmp` looks in its first operand. -/
def stricmpTouched : ℕ → List UInt8 → List UInt8 → List ℕ
  | i, [], _ => [i]
  | i, _ :: _, [] => [i]
  | i, a :: s, b :: t => if tolower a = tolower b then i :: stricmpTouched (i + 1) s t else [i]

section calls

variable {delims str skip tok rest front beyond : List UInt8} {b : UInt8} {i j : ℕ}

theorem endToken_token (h : isToken delims b = true) : endToken delims i (b :: str) =
    ((endToken delims (i + 1) str).1, i :: (endToken delims (i + 1) str).2) := by
  obtain ⟨h0, hd⟩ := isToken_iff.mp h
  rw [endToken, if_neg h0, if_neg (by simpa using hd)]

theorem strtokSFrom_delim (h0 : b ≠ 0) (h : b ∈ delims) : strtokSFrom delims i (b :: str) =
    { strtokSFrom delims (i + 1) str with
      touched := i :: (strtokSFrom delims (i + 1) str).touched } := by
  rw [strtokSFrom, if_neg h0, if_pos (by simpa using h)]

theorem strtokSFrom_token (h0 : b ≠ 0) (h : b ∉ delims) : strtokSFrom delims i (b :: str) =
    ⟨some ⟨i, b :: str.takeWhile (isToken delims)⟩, (endToken delims i (b :: str)).1,
      i :: (endToken delims i (b :: str)).2⟩ := by
  rw [strtokSFrom, if_neg h0, if_neg (by simpa using h)]

/-! ## The same functions -/

theorem bytes_endToken :
    (endToken delims i str).1.bytes = skipTerminator (str.dropWhile (isToken delims)) := by
  induction str generalizing i with
  | nil => rfl
  | cons b str ih =>
    by_cases h0 : b = 0
    · subst h0
      simp [endToken, isToken, skipTerminator]
    by_cases hd : b ∈ delims
    · simp [endToken, isToken, skipTerminator, h0, hd]
    · have hb : isToken delims b = true := isToken_iff.mpr ⟨h0, hd⟩
      rw [endToken_token hb, List.dropWhile_cons_of_pos hb]
      exact ih

theorem token_strtokSFrom :
    (strtokSFrom delims i str).token.map Ptr.bytes = (strtokS delims str).1 := by
  induction str generalizing i with
  | nil => rfl
  | cons b str ih =>
    by_cases h0 : b = 0
    · subst h0
      simp [strtokSFrom]
    by_cases hd : b ∈ delims
    · rw [strtokSFrom_delim h0 hd, strtokS_delim h0 hd]
      exact ih
    · rw [strtokSFrom_token h0 hd, strtokS_token h0 hd]
      rfl

theorem nextToken_strtokSFrom :
    (strtokSFrom delims i str).nextToken.bytes = (strtokS delims str).2 := by
  induction str generalizing i with
  | nil => rfl
  | cons b str ih =>
    by_cases h0 : b = 0
    · subst h0
      simp [strtokSFrom]
    by_cases hd : b ∈ delims
    · rw [strtokSFrom_delim h0 hd, strtokS_delim h0 hd]
      exact ih
    · have hb : isToken delims b = true := isToken_iff.mpr ⟨h0, hd⟩
      rw [strtokSFrom_token h0 hd, strtokS_token h0 hd, bytes_endToken,
        List.dropWhile_cons_of_pos hb]

/-- `_stricmp` looks no further than at the NUL. -/
theorem stricmpTouched_le {s t : List UInt8} (h : j ∈ stricmpTouched i s t) :
    j ≤ i + s.length := by
  induction s generalizing i t with
  | nil =>
    obtain rfl : j = i := by simpa [stricmpTouched] using h
    simp
  | cons a s ih =>
    cases t with
    | nil =>
      obtain rfl : j = i := by simpa [stricmpTouched] using h
      omega
    | cons b t =>
      rw [List.length_cons]
      unfold stricmpTouched at h
      split_ifs at h
      · rcases List.mem_cons.mp h with rfl | h
        · omega
        · have hrest := ih h
          omega
      · obtain rfl : j = i := by simpa using h
        omega

/-! ## A token and a delimiter -/

theorem endToken_parts {c : UInt8} (htok : ∀ b ∈ tok, isToken delims b = true)
    (hc0 : c ≠ 0) (hc : c ∈ delims) :
    (endToken delims i (tok ++ c :: rest)).1 = ⟨i + tok.length + 1, rest⟩ ∧
      ∀ j ∈ (endToken delims i (tok ++ c :: rest)).2, j ≤ i + tok.length := by
  induction tok generalizing i with
  | nil => simp [endToken, hc0, hc]
  | cons b tok ih =>
    obtain ⟨hb, htail⟩ := List.forall_mem_cons.mp htok
    obtain ⟨hnext, htouched⟩ := ih (i := i + 1) htail
    rw [List.cons_append, endToken_token hb, List.length_cons, hnext]
    refine ⟨Ptr.mk.injEq _ _ _ _ ▸ ⟨by omega, rfl⟩, List.forall_mem_cons.mpr ⟨by omega, ?_⟩⟩
    intro j hj
    have hle := htouched j hj
    omega

/-- The delimiter behind the token is the last byte of which the call knows. -/
theorem strtokSFrom_parts {c : UInt8} (hskip : ∀ b ∈ skip, b ≠ 0 ∧ b ∈ delims)
    (htok : IsTok delims tok) (hc0 : c ≠ 0) (hc : c ∈ delims) :
    (strtokSFrom delims i (skip ++ (tok ++ c :: rest))).token = some ⟨i + skip.length, tok⟩ ∧
    (strtokSFrom delims i (skip ++ (tok ++ c :: rest))).nextToken
      = ⟨i + skip.length + tok.length + 1, rest⟩ ∧
    ∀ j ∈ (strtokSFrom delims i (skip ++ (tok ++ c :: rest))).touched,
      j ≤ i + skip.length + tok.length := by
  induction skip generalizing i with
  | nil =>
    obtain ⟨b, tail, rfl⟩ := List.exists_cons_of_ne_nil htok.ne
    obtain ⟨hb, htail⟩ := List.forall_mem_cons.mp htok.token
    obtain ⟨h0, hd⟩ := isToken_iff.mp hb
    have hend : Ends delims (c :: rest) := ends_cons.mpr (by simp [isToken, hc])
    obtain ⟨hnext, htouched⟩ := @endToken_parts delims (b :: tail) rest i c htok.token hc0 hc
    rw [List.cons_append] at hnext htouched
    rw [List.nil_append, List.cons_append, strtokSFrom_token h0 hd, takeWhile_token htail hend]
    exact ⟨rfl, hnext, List.forall_mem_cons.mpr ⟨by omega, htouched⟩⟩
  | cons b skip ih =>
    obtain ⟨hb, htail⟩ := List.forall_mem_cons.mp hskip
    obtain ⟨htoken, hnext, htouched⟩ := ih (i := i + 1) htail
    rw [List.cons_append, strtokSFrom_delim hb.1 hb.2, List.length_cons]
    refine ⟨?_, ?_, List.forall_mem_cons.mpr ⟨by omega, ?_⟩⟩
    · rw [htoken, Option.some.injEq, Ptr.mk.injEq]
      exact ⟨by omega, rfl⟩
    · rw [hnext, Ptr.mk.injEq]
      exact ⟨by omega, rfl⟩
    · intro j hj
      have hle := htouched j hj
      omega

/-! ## A NUL in the buffer -/

/-- The pointer is in front of a NUL of a buffer that ends at `n`. -/
def BeforeNul (beyond : List UInt8) (n : ℕ) (p : Ptr) : Prop :=
  ∃ front, p.bytes = front ++ beyond ∧ p.index + front.length = n ∧ 0 ∈ front

theorem add_length_cons : i + (b :: front).length = i + 1 + front.length := by
  rw [List.length_cons]
  omega

theorem lt_add_length_cons : i < i + (b :: front).length :=
  Nat.lt_add_of_pos_right (Nat.succ_pos _)

theorem length_token_lt (h : 0 ∈ front) :
    ((front ++ beyond).takeWhile (isToken delims)).length < front.length := by
  induction front with
  | nil => cases h
  | cons b front ih =>
    rw [List.cons_append, List.takeWhile_cons, List.length_cons]
    split_ifs with hb
    · have h0 : 0 ≠ b := (isToken_iff.mp hb).1.symm
      have hlt := ih ((List.mem_cons.mp h).resolve_left h0)
      rw [List.length_cons]
      omega
    · exact Nat.succ_pos _

theorem endToken_nul (h : 0 ∈ front) :
    BeforeNul beyond (i + front.length) (endToken delims i (front ++ beyond)).1 ∧
      ∀ j ∈ (endToken delims i (front ++ beyond)).2, j < i + front.length := by
  induction front generalizing i with
  | nil => cases h
  | cons b front ih =>
    by_cases h0 : b = 0
    · subst h0
      simp only [List.cons_append, endToken, if_true, List.mem_singleton, forall_eq]
      exact ⟨⟨0 :: front, rfl, rfl, List.mem_cons_self⟩, lt_add_length_cons⟩
    have htail : 0 ∈ front := (List.mem_cons.mp h).resolve_left (Ne.symm h0)
    rw [add_length_cons]
    by_cases hd : b ∈ delims
    · have hend : endToken delims i (b :: (front ++ beyond))
          = (⟨i + 1, front ++ beyond⟩, [i, i]) := by
        rw [endToken, if_neg h0, if_pos (by simpa using hd)]
      rw [List.cons_append, hend]
      refine ⟨⟨front, rfl, rfl, htail⟩, ?_⟩
      intro j hj
      obtain rfl : j = i := by simpa using hj
      omega
    · obtain ⟨hnext, htouched⟩ := ih (i := i + 1) htail
      rw [List.cons_append, endToken_token (isToken_iff.mpr ⟨h0, hd⟩)]
      exact ⟨hnext, List.forall_mem_cons.mpr ⟨by omega, htouched⟩⟩

/-- A call in front of a NUL stays in the buffer, and leaves its context in front of a NUL. -/
theorem strtokSFrom_nul (delims : List UInt8) {n : ℕ} {p : Ptr} (h : BeforeNul beyond n p) :
    BeforeNul beyond n (strtokSFrom delims p.index p.bytes).nextToken ∧
      (∀ j ∈ (strtokSFrom delims p.index p.bytes).touched, j < n) ∧
      ∀ t, (strtokSFrom delims p.index p.bytes).token = some t → t.index + t.bytes.length < n := by
  obtain ⟨i, _⟩ := p
  obtain ⟨front, rfl, rfl, h⟩ := h
  simp only
  induction front generalizing i with
  | nil => cases h
  | cons b front ih =>
    by_cases h0 : b = 0
    · subst h0
      simp only [List.cons_append, strtokSFrom, if_true, List.mem_singleton, forall_eq]
      exact ⟨⟨0 :: front, rfl, rfl, List.mem_cons_self⟩, lt_add_length_cons, by simp⟩
    have htail : 0 ∈ front := (List.mem_cons.mp h).resolve_left (Ne.symm h0)
    by_cases hd : b ∈ delims
    · obtain ⟨hnext, htouched, htoken⟩ := ih (i + 1) htail
      rw [List.cons_append, strtokSFrom_delim h0 hd, add_length_cons]
      exact ⟨hnext, List.forall_mem_cons.mpr ⟨by omega, htouched⟩, htoken⟩
    · obtain ⟨hnext, htouched⟩ := @endToken_nul delims (b :: front) beyond i h
      rw [List.cons_append] at hnext htouched
      rw [List.cons_append, strtokSFrom_token h0 hd]
      refine ⟨hnext, List.forall_mem_cons.mpr ⟨lt_add_length_cons, htouched⟩, ?_⟩
      rintro t ⟨⟩
      have hlt := @length_token_lt delims front beyond htail
      simp only [List.length_cons]
      omega

/-! ## What staying in the buffer takes -/

theorem endToken_inside (h : ∀ j ∈ (endToken delims i (front ++ beyond)).2, j < i + front.length) :
    0 ∈ front ∨ ∃ tok c rest, front = tok ++ c :: rest ∧
      (∀ b ∈ tok, isToken delims b = true) ∧ c ∈ delims := by
  induction front generalizing i with
  | nil =>
    have hself : i ∈ (endToken delims i beyond).2 := by
      cases beyond with
      | nil => simp [endToken]
      | cons b beyond => grind [endToken]
    exact absurd (h i hself) (Nat.lt_irrefl _)
  | cons b front ih =>
    by_cases h0 : b = 0
    · exact Or.inl (h0 ▸ List.mem_cons_self)
    by_cases hd : b ∈ delims
    · exact Or.inr ⟨[], b, front, rfl, by simp, hd⟩
    have hb : isToken delims b = true := isToken_iff.mpr ⟨h0, hd⟩
    rw [List.cons_append, endToken_token hb, add_length_cons] at h
    refine (ih (List.forall_mem_cons.mp h).2).imp (List.mem_cons_of_mem b) ?_
    rintro ⟨tok, c, rest, rfl, htok, hc⟩
    exact ⟨b :: tok, c, rest, rfl, List.forall_mem_cons.mpr ⟨hb, htok⟩, hc⟩

/-- A call that stays in the buffer has a NUL there, or a token and a delimiter behind it. -/
theorem strtokSFrom_inside
    (h : ∀ j ∈ (strtokSFrom delims i (front ++ beyond)).touched, j < i + front.length) :
    0 ∈ front ∨ ∃ skip tok c rest, front = skip ++ (tok ++ c :: rest) ∧
      (∀ b ∈ skip, b ∈ delims) ∧ IsTok delims tok ∧ c ∈ delims := by
  induction front generalizing i with
  | nil =>
    have hself : i ∈ (strtokSFrom delims i beyond).touched := by
      cases beyond with
      | nil => simp [strtokSFrom]
      | cons b beyond => grind [strtokSFrom]
    exact absurd (h i hself) (Nat.lt_irrefl _)
  | cons b front ih =>
    by_cases h0 : b = 0
    · exact Or.inl (h0 ▸ List.mem_cons_self)
    by_cases hd : b ∈ delims
    · rw [List.cons_append, strtokSFrom_delim h0 hd, add_length_cons] at h
      refine (ih (List.forall_mem_cons.mp h).2).imp (List.mem_cons_of_mem b) ?_
      rintro ⟨skip, tok, c, rest, rfl, hskip, hparts⟩
      exact ⟨b :: skip, tok, c, rest, rfl, List.forall_mem_cons.mpr ⟨hd, hskip⟩, hparts⟩
    · have hb : isToken delims b = true := isToken_iff.mpr ⟨h0, hd⟩
      rw [List.cons_append, strtokSFrom_token h0 hd] at h
      have hinside : ∀ j ∈ (endToken delims i (b :: front ++ beyond)).2,
          j < i + (b :: front).length := (List.forall_mem_cons.mp h).2
      refine (endToken_inside hinside).imp_right ?_
      rintro ⟨tok, c, rest, hfront, htok, hc⟩
      refine ⟨[], tok, c, rest, hfront, by simp, ⟨?_, htok⟩, hc⟩
      -- the token is not empty: `b` is no delimiter
      rintro rfl
      obtain ⟨rfl, -⟩ := List.cons.inj hfront
      exact hd hc

/-- In a buffer without NUL such a call finds a token, and the next call begins in the buffer. -/
theorem strtokSFrom_closed {n : ℕ} {p : Ptr} (h0 : 0 ∉ front) (hdelims : ∀ b ∈ delims, b ≠ 0)
    (hbytes : p.bytes = front ++ beyond) (hlen : p.index + front.length = n)
    (hin : ∀ j ∈ (strtokSFrom delims p.index p.bytes).touched, j < n) :
    ∃ skip tok c rest next, front = skip ++ (tok ++ c :: rest) ∧ (∀ b ∈ skip, b ∈ delims) ∧
      IsTok delims tok ∧ c ∈ delims ∧
      (strtokSFrom delims p.index p.bytes).token = some ⟨p.index + skip.length, tok⟩ ∧
      (strtokSFrom delims p.index p.bytes).nextToken = next ∧
      next.bytes = rest ++ beyond ∧ next.index + rest.length = n := by
  rw [hbytes, ← hlen] at hin
  obtain ⟨skip, tok, c, rest, rfl, hskip, htok, hc⟩ := (strtokSFrom_inside hin).resolve_left h0
  have hmem : p.bytes = skip ++ (tok ++ c :: (rest ++ beyond)) := by
    rw [hbytes]
    simp
  obtain ⟨htoken, hnext, -⟩ := @strtokSFrom_parts delims skip tok (rest ++ beyond) p.index c
    (fun b hb => ⟨hdelims b (hskip b hb), hskip b hb⟩) htok (hdelims c hc) hc
  rw [← hmem] at htoken hnext
  refine ⟨skip, tok, c, rest, _, rfl, hskip, htok, hc, htoken, hnext, rfl, ?_⟩
  show p.index + skip.length + tok.length + 1 + rest.length = n
  simp only [List.length_append, List.length_cons] at hlen
  omega

end calls

end AioServer.Lib
