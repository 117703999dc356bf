import AioServer.Lib.CString
import Mathlib.Data.List.Basic

/-!
# The Windows server: parsing a request

`server_handle_client_request` receives at most `kClientIOBuffSize` bytes over the front of
the client's buffer and runs `strtok_s` over the buffer. The number of received bytes is
never used, so the scan goes on into what an earlier use of the buffer left there.

* `Scan` is the tokeniser as an automaton over single bytes, `parseRequest_eq` its
  agreement with the three calls of `strtok_s`;
* `Scan.missing` is the least number of bytes that complete a valid request;
* `parse_independent_iff` says for which received bytes the stale ones do not matter.

Behind the buffer the rest of its page is zero, which ends every string.
-/

namespace AioServer.Windows

open Lib

/-! ## The code -/

def kClientIOBuffSize : ℕ := 2048

/-- `" "`. -/
def spaceDelim : List UInt8 := [32]

/-- `" \r\n"`. -/
def lineDelims : List UInt8 := [32, 13, 10]

/-- The last operands of the condition in `server_handle_client_request`: `none` when
`document` is set to NULL. -/
def checkRequest (method document ver : List UInt8) : Option (List UInt8) :=
  if stricmp method (cstr "get") ≠ 0 ∨ stricmp ver (cstr "HTTP/1.1") ≠ 0 then none
  else some document

def parseVersion (method document nextToken : List UInt8) : Option (List UInt8) :=
  match strtokS lineDelims nextToken with
  | (none, _) => none
  | (some ver, _) => checkRequest method document ver

def parseDocument (method nextToken : List UInt8) : Option (List UInt8) :=
  match strtokS spaceDelim nextToken with
  | (none, _) => none
  | (some document, nextToken) => parseVersion method document nextToken

/-- The parsing in `server_handle_client_request`: the document that is passed to
`server_transmit_resource`, `none` for NULL, which is answered with 400. -/
def parseRequest (buffRequest : List UInt8) : Option (List UInt8) :=
  match strtokS spaceDelim buffRequest with
  | (none, _) => none
  | (some method, nextToken) => parseDocument method nextToken

/-- `WSARecv` writes the received bytes over the front of `cl_buffer`. -/
def receive (d clBuffer : List UInt8) : List UInt8 := d ++ clBuffer.drop d.length

/-! ## The tokeniser as an automaton -/

/-- Where the tokeniser is, with the tokens so far. -/
inductive Scan
  | start
  | method (m : List UInt8)
  | afterMethod (m : List UInt8)
  | document (m doc : List UInt8)
  | afterDocument (m doc : List UInt8)
  | version (m doc v : List UInt8)
  | done (outcome : Option (List UInt8))
deriving DecidableEq, Repr

def Scan.step : Scan → UInt8 → Scan
  | .start, b => if b = 0 then .done none else if b = 32 then .start else .method [b]
  | .method m, b =>
    if b = 0 then .done none else if b = 32 then .afterMethod m else .method (m ++ [b])
  | .afterMethod m, b =>
    if b = 0 then .done none else if b = 32 then .afterMethod m else .document m [b]
  | .document m doc, b =>
    if b = 0 then .done none else if b = 32 then .afterDocument m doc
    else .document m (doc ++ [b])
  | .afterDocument m doc, b =>
    if b = 0 then .done none else if b ∈ lineDelims then .afterDocument m doc
    else .version m doc [b]
  | .version m doc v, b =>
    if b = 0 ∨ b ∈ lineDelims then .done (checkRequest m doc v) else .version m doc (v ++ [b])
  | .done o, _ => .done o

/-- The outcome when the string ends here. -/
def Scan.finish : Scan → Option (List UInt8)
  | .version m doc v => checkRequest m doc v
  | .done o => o
  | _ => none

/-- The automaton after some bytes. -/
def Scan.run (q : Scan) (s : List UInt8) : Scan := s.foldl Scan.step q

@[simp] theorem Scan.run_nil (q : Scan) : q.run [] = q := rfl

@[simp] theorem Scan.run_cons (q : Scan) (b : UInt8) (s : List UInt8) :
    q.run (b :: s) = (q.step b).run s := rfl

@[simp] theorem Scan.run_append (q : Scan) (s t : List UInt8) :
    q.run (s ++ t) = (q.run s).run t := List.foldl_append

@[simp] theorem Scan.run_done (o : Option (List UInt8)) (s : List UInt8) :
    (Scan.done o).run s = .done o := by
  induction s with
  | nil => rfl
  | cons b s ih => exact ih

theorem finish_version (m doc v s : List UInt8) :
    ((Scan.version m doc v).run s).finish
      = checkRequest m doc (v ++ s.takeWhile (isToken lineDelims)) := by
  induction s generalizing v with
  | nil => simp [Scan.finish]
  | cons b s ih =>
    by_cases hb : isToken lineDelims b = true
    · obtain ⟨h0, hd⟩ := isToken_iff.mp hb
      have hstep : (Scan.version m doc v).step b = .version m doc (v ++ [b]) := by
        simp [Scan.step, h0, hd]
      rw [Scan.run_cons, hstep, ih, List.takeWhile_cons_of_pos hb]
      simp
    · have hstep : (Scan.version m doc v).step b = .done (checkRequest m doc v) := by
        have hend : b = 0 ∨ b ∈ lineDelims := by
          rw [isToken_iff] at hb
          tauto
        simp [Scan.step, hend]
      rw [Scan.run_cons, hstep, Scan.run_done, List.takeWhile_cons_of_neg hb, List.append_nil]
      rfl

theorem parseVersion_eq (m doc s : List UInt8) :
    parseVersion m doc s = ((Scan.afterDocument m doc).run s).finish := by
  induction s with
  | nil => rfl
  | cons b s ih =>
    by_cases h0 : b = 0
    · subst h0
      simp [parseVersion, Scan.step, Scan.finish]
    by_cases hd : b ∈ lineDelims
    · rw [Scan.run_cons, Scan.step, if_neg h0, if_pos hd, ← ih, parseVersion, parseVersion,
        strtokS_delim h0 hd]
    · rw [Scan.run_cons, Scan.step, if_neg h0, if_neg hd, finish_version, parseVersion,
        strtokS_token h0 hd]
      rfl

/-- The document ends at a space, at a NUL or with the memory. -/
theorem finish_document (m doc s : List UInt8) :
    ((Scan.document m doc).run s).finish
      = parseVersion m (doc ++ s.takeWhile (isToken spaceDelim))
          (skipTerminator (s.dropWhile (isToken spaceDelim))) := by
  induction s generalizing doc with
  | nil => rfl
  | cons b s ih =>
    by_cases h0 : b = 0
    · subst h0
      simp [Scan.step, Scan.finish, isToken, skipTerminator, parseVersion]
    by_cases hd : b = 32
    · subst hd
      simp [Scan.step, isToken, spaceDelim, skipTerminator, parseVersion_eq]
    · have hb : isToken spaceDelim b = true := isToken_iff.mpr ⟨h0, by simpa [spaceDelim] using hd⟩
      rw [Scan.run_cons, Scan.step, if_neg h0, if_neg hd, ih, List.takeWhile_cons_of_pos hb,
        List.dropWhile_cons_of_pos hb, List.append_assoc]
      rfl

theorem parseDocument_eq (m s : List UInt8) :
    parseDocument m s = ((Scan.afterMethod m).run s).finish := by
  induction s with
  | nil => rfl
  | cons b s ih =>
    by_cases h0 : b = 0
    · subst h0
      simp [parseDocument, Scan.step, Scan.finish]
    by_cases hd : b = 32
    · rw [Scan.run_cons, Scan.step, if_neg h0, if_pos hd, ← ih, parseDocument, parseDocument,
        strtokS_delim h0 (by simpa [spaceDelim] using hd)]
    · rw [Scan.run_cons, Scan.step, if_neg h0, if_neg hd, finish_document, parseDocument,
        strtokS_token h0 (by simpa [spaceDelim] using hd)]
      rfl

theorem finish_method (m s : List UInt8) :
    ((Scan.method m).run s).finish
      = parseDocument (m ++ s.takeWhile (isToken spaceDelim))
          (skipTerminator (s.dropWhile (isToken spaceDelim))) := by
  induction s generalizing m with
  | nil => rfl
  | cons b s ih =>
    by_cases h0 : b = 0
    · subst h0
      simp [Scan.step, Scan.finish, isToken, skipTerminator, parseDocument]
    by_cases hd : b = 32
    · subst hd
      simp [Scan.step, isToken, spaceDelim, skipTerminator, parseDocument_eq]
    · have hb : isToken spaceDelim b = true := isToken_iff.mpr ⟨h0, by simpa [spaceDelim] using hd⟩
      rw [Scan.run_cons, Scan.step, if_neg h0, if_neg hd, ih, List.takeWhile_cons_of_pos hb,
        List.dropWhile_cons_of_pos hb, List.append_assoc]
      rfl

/-- The three calls of `strtok_s` are one pass of the automaton. -/
theorem parseRequest_eq (s : List UInt8) : parseRequest s = (Scan.start.run s).finish := by
  induction s with
  | nil => rfl
  | cons b s ih =>
    by_cases h0 : b = 0
    · subst h0
      simp [parseRequest, Scan.step, Scan.finish]
    by_cases hd : b = 32
    · rw [Scan.run_cons, Scan.step, if_neg h0, if_pos hd, ← ih, parseRequest, parseRequest,
        strtokS_delim h0 (by simpa [spaceDelim] using hd)]
    · rw [Scan.run_cons, Scan.step, if_neg h0, if_neg hd, finish_method, parseRequest,
        strtokS_token h0 (by simpa [spaceDelim] using hd)]
      rfl

/-! ## How far a request is from being valid -/

/-- `"get"` and `"http/1.1"`, as `_stricmp` sees them. -/
def lowerGet : List UInt8 := [0x67, 0x65, 0x74]

def lowerHttp : List UInt8 := [0x68, 0x74, 0x74, 0x70, 0x2f, 0x31, 0x2e, 0x31]

theorem checkRequest_eq_some {m doc v o : List UInt8} :
    checkRequest m doc v = some o ↔
      m.map tolower = lowerGet ∧ v.map tolower = lowerHttp ∧ doc = o := by
  have hget : stricmp m (cstr "get") = 0 ↔ m.map tolower = lowerGet :=
    stricmp_eq_zero.trans (by rw [show (cstr "get").map tolower = lowerGet by decide])
  have hhttp : stricmp v (cstr "HTTP/1.1") = 0 ↔ v.map tolower = lowerHttp :=
    stricmp_eq_zero.trans (by rw [show (cstr "HTTP/1.1").map tolower = lowerHttp by decide])
  rw [checkRequest]
  split_ifs with h
  · simp only [false_iff]
    tauto
  · simp only [Option.some.injEq]
    tauto

/-- The least number of bytes that turn what was read into a valid request; `none` if no
bytes do. -/
def Scan.missing : Scan → Option ℕ
  | .start => some 14
  | .method m => if m.map tolower <+: lowerGet then some (14 - m.length) else none
  | .afterMethod m => if m.map tolower = lowerGet then some 10 else none
  | .document m _ => if m.map tolower = lowerGet then some 9 else none
  | .afterDocument m _ => if m.map tolower = lowerGet then some 8 else none
  | .version m _ v =>
    if m.map tolower = lowerGet ∧ v.map tolower <+: lowerHttp then some (8 - v.length) else none
  | .done (some _) => some 0
  | .done none => none

theorem length_of_lower {m t : List UInt8} (h : m.map tolower = t) : m.length = t.length := by
  rw [← h, List.length_map]

theorem length_of_prefix {m t : List UInt8} (h : m.map tolower <+: t) : m.length ≤ t.length := by
  simpa using h.length_le

/-- One more byte of a token that is a prefix of `t`. -/
theorem prefix_of_append {m t : List UInt8} {b : UInt8} (h : (m ++ [b]).map tolower <+: t) :
    m.map tolower <+: t ∧ m.length + 1 ≤ t.length := by
  refine ⟨?_, by simpa using length_of_prefix h⟩
  rw [List.map_append] at h
  exact (List.prefix_append _ _).trans h

/-- A byte brings the end of a valid request nearer by one at most. -/
theorem missing_step {q : Scan} {b : UInt8} {k : ℕ} (h : (q.step b).missing = some k) :
    ∃ j, q.missing = some j ∧ j ≤ k + 1 := by
  cases q with
  | start =>
    refine ⟨14, rfl, ?_⟩
    simp only [Scan.step] at h
    split_ifs at h with h0 hd
    · simp [Scan.missing] at h
    · obtain rfl : 14 = k := by simpa [Scan.missing] using h
      omega
    -- the first byte of the method
    · simp only [Scan.missing] at h
      split_ifs at h with hp
      obtain rfl : 13 = k := by simpa using h
      omega
  | method m =>
    simp only [Scan.step] at h
    split_ifs at h with h0 hd
    · simp [Scan.missing] at h
    -- the space behind a complete method
    · simp only [Scan.missing] at h ⊢
      split_ifs at h with hm
      obtain rfl : 10 = k := by simpa using h
      have hlen : m.length = 3 := length_of_lower hm
      rw [if_pos (hm ▸ List.prefix_refl _), hlen]
      exact ⟨11, rfl, by omega⟩
    · simp only [Scan.missing] at h ⊢
      split_ifs at h with hp
      obtain ⟨hm, hlen⟩ := prefix_of_append hp
      simp only [Option.some.injEq, List.length_append, List.length_singleton] at h
      rw [if_pos hm]
      exact ⟨_, rfl, by omega⟩
  | afterMethod m =>
    simp only [Scan.step] at h
    split_ifs at h with h0 hd
    · simp [Scan.missing] at h
    · exact ⟨k, h, by omega⟩
    · simp only [Scan.missing] at h ⊢
      split_ifs at h with hm
      obtain rfl : 9 = k := by simpa using h
      exact ⟨10, by rw [if_pos hm], by omega⟩
  | document m doc =>
    simp only [Scan.step] at h
    split_ifs at h with h0 hd
    · simp [Scan.missing] at h
    · simp only [Scan.missing] at h ⊢
      split_ifs at h with hm
      obtain rfl : 8 = k := by simpa using h
      exact ⟨9, by rw [if_pos hm], by omega⟩
    · exact ⟨k, h, by omega⟩
  | afterDocument m doc =>
    simp only [Scan.step] at h
    split_ifs at h with h0 hd
    · simp [Scan.missing] at h
    · exact ⟨k, h, by omega⟩
    · simp only [Scan.missing] at h ⊢
      split_ifs at h with hp
      obtain rfl : 7 = k := by simpa using h
      exact ⟨8, by rw [if_pos hp.1], by omega⟩
  | version m doc v =>
    simp only [Scan.step] at h
    split_ifs at h with hend
    -- the byte ends the version: nothing was missing before, or nothing helps
    · cases ho : checkRequest m doc v with
      | none => simp [Scan.missing, ho] at h
      | some o =>
        obtain ⟨hm, hv, -⟩ := checkRequest_eq_some.mp ho
        have hlen : v.length = 8 := length_of_lower hv
        exact ⟨0, by simp [Scan.missing, hm, hv, hlen], by omega⟩
    · simp only [Scan.missing] at h ⊢
      split_ifs at h with hp
      obtain ⟨hv, hlen⟩ := prefix_of_append hp.2
      simp only [Option.some.injEq, List.length_append, List.length_singleton] at h
      rw [if_pos ⟨hp.1, hv⟩]
      exact ⟨_, rfl, by omega⟩
  | done o => exact ⟨k, h, by omega⟩

/-- Bytes that lead to a valid request are at least as many as are missing. -/
theorem missing_le {q : Scan} {s : List UInt8} {o : List UInt8}
    (h : (q.run s).finish = some o) : ∃ k, q.missing = some k ∧ k ≤ s.length := by
  induction s generalizing q with
  | nil =>
    cases q with
    | version m doc v =>
      obtain ⟨hm, hv, -⟩ := checkRequest_eq_some.mp h
      have hlen : v.length = 8 := length_of_lower hv
      exact ⟨0, by simp [Scan.missing, hm, hv, hlen], by simp⟩
    | done o' =>
      obtain rfl : o' = some o := h
      exact ⟨0, rfl, by simp⟩
    | _ => simp [Scan.finish] at h
  | cons b s ih =>
    obtain ⟨k, hk, hle⟩ := ih h
    obtain ⟨j, hj, hjk⟩ := missing_step hk
    exact ⟨j, hj, by simp only [List.length_cons]; omega⟩

/-! ## Completing a request -/

theorem run_method {m t : List UInt8} (h : ∀ b ∈ t, b ≠ 0 ∧ b ≠ 32) :
    (Scan.method m).run t = .method (m ++ t) := by
  induction t generalizing m with
  | nil => simp
  | cons b t ih =>
    have hb := h b (by simp)
    rw [Scan.run_cons, Scan.step, if_neg hb.1, if_neg hb.2,
      ih fun x hx => h x (List.mem_cons_of_mem b hx), List.append_assoc]
    rfl

theorem run_version {m doc v t : List UInt8} (h : ∀ b ∈ t, b ≠ 0 ∧ b ∉ lineDelims) :
    (Scan.version m doc v).run t = .version m doc (v ++ t) := by
  induction t generalizing v with
  | nil => simp
  | cons b t ih =>
    have hb := h b (by simp)
    rw [Scan.run_cons, Scan.step, if_neg (by tauto),
      ih fun x hx => h x (List.mem_cons_of_mem b hx), List.append_assoc]
    rfl

/-- A shortest completion. -/
def Scan.completion : Scan → List UInt8
  | .start => lowerGet ++ [32, 47, 32] ++ lowerHttp
  | .method m => lowerGet.drop m.length ++ [32, 47, 32] ++ lowerHttp
  | .afterMethod _ => [47, 32] ++ lowerHttp
  | .document _ _ => 32 :: lowerHttp
  | .afterDocument _ _ => lowerHttp
  | .version _ _ v => lowerHttp.drop v.length
  | .done _ => []

/-- A prefix, completed. -/
theorem lower_append_drop {m t : List UInt8} (h : m.map tolower <+: t)
    (ht : t.map tolower = t) : (m ++ t.drop m.length).map tolower = t := by
  obtain ⟨r, rfl⟩ := h
  have hr : r.map tolower = r := by
    have hlen : ((m.map tolower).map tolower).length = (m.map tolower).length := by simp
    rw [List.map_append] at ht
    exact (List.append_inj ht hlen).2
  rw [List.map_append, show (m.map tolower ++ r).drop m.length = r by simp, hr]

theorem finish_afterDocument {m doc : List UInt8} (hm : m.map tolower = lowerGet) :
    ((Scan.afterDocument m doc).run lowerHttp).finish = some doc :=
  checkRequest_eq_some.mpr ⟨hm, by decide, rfl⟩

/-- The completion has the length that is missing, and makes the request valid. -/
theorem completion_spec {q : Scan} {k : ℕ} (h : q.missing = some k)
    (hq : ∀ o, q ≠ .done o) :
    q.completion.length = k ∧ ∃ o, (q.run q.completion).finish = some o := by
  cases q with
  | start =>
    obtain rfl : 14 = k := by simpa [Scan.missing] using h
    exact ⟨rfl, [47], by decide⟩
  | method m =>
    simp only [Scan.missing] at h
    split_ifs at h with hp
    have hlen : m.length ≤ 3 := length_of_prefix hp
    simp only [Option.some.injEq] at h
    refine ⟨?_, [47], ?_⟩
    · simp only [Scan.completion, List.length_append, List.length_drop]
      show 3 - m.length + 3 + 8 = k
      omega
    · have hget : (m ++ lowerGet.drop m.length).map tolower = lowerGet :=
        lower_append_drop hp (by decide)
      have hrun : (Scan.method m).run (lowerGet.drop m.length)
          = .method (m ++ lowerGet.drop m.length) :=
        run_method fun b hb => by
          have hall : ∀ b ∈ lowerGet, b ≠ 0 ∧ b ≠ 32 := by simp [lowerGet]
          exact hall b (List.mem_of_mem_drop hb)
      rw [Scan.completion, Scan.run_append, Scan.run_append, hrun]
      exact finish_afterDocument hget
  | afterMethod m =>
    simp only [Scan.missing] at h
    split_ifs at h with hm
    obtain rfl : 10 = k := by simpa using h
    exact ⟨rfl, [47], finish_afterDocument hm⟩
  | document m doc =>
    simp only [Scan.missing] at h
    split_ifs at h with hm
    obtain rfl : 9 = k := by simpa using h
    exact ⟨rfl, doc, finish_afterDocument hm⟩
  | afterDocument m doc =>
    simp only [Scan.missing] at h
    split_ifs at h with hm
    obtain rfl : 8 = k := by simpa using h
    exact ⟨rfl, doc, finish_afterDocument hm⟩
  | version m doc v =>
    simp only [Scan.missing] at h
    split_ifs at h with hp
    have hlen : v.length ≤ 8 := length_of_prefix hp.2
    simp only [Option.some.injEq] at h
    refine ⟨?_, doc, ?_⟩
    · simp only [Scan.completion, List.length_drop]
      show 8 - v.length = k
      omega
    · have hrun : (Scan.version m doc v).run (lowerHttp.drop v.length)
          = .version m doc (v ++ lowerHttp.drop v.length) :=
        run_version fun b hb => by
          have hall : ∀ b ∈ lowerHttp, b ≠ 0 ∧ b ∉ lineDelims := by simp [lowerHttp, lineDelims]
          exact hall b (List.mem_of_mem_drop hb)
      rw [Scan.completion, hrun]
      exact checkRequest_eq_some.mpr ⟨hp.1, lower_append_drop hp.2 (by decide), rfl⟩
  | done o => exact absurd rfl (hq o)

/-- A NUL ends the string. -/
theorem step_nul (q : Scan) : q.step 0 = .done q.finish := by
  cases q <;> simp [Scan.step, Scan.finish]

theorem finish_run_zeros (q : Scan) (n : ℕ) :
    (q.run (List.replicate n 0)).finish = q.finish := by
  cases n with
  | zero => rfl
  | succ n => rw [List.replicate_succ, Scan.run_cons, step_nul, Scan.run_done]; rfl

/-! ## Stale bytes -/

/-- The outcome does not depend on the bytes that follow `d` in a buffer of `size` bytes: the
tokeniser has met its end in `d`, or what it read cannot become valid any more, or there is
no room for what is missing. -/
def Settled (size : ℕ) (d : List UInt8) : Prop :=
  (∃ o, Scan.start.run d = .done o) ∨
    ∀ k, (Scan.start.run d).missing = some k → size - d.length < max 1 k

theorem outcome_eq_of_lt {q : Scan} {x y : List UInt8}
    (hlt : ∀ k, q.missing = some k → x.length < max 1 k) (hlen : y.length = x.length) :
    (q.run x).finish = (q.run y).finish := by
  -- fewer bytes than are missing give 400, whatever they are
  have hnone : ∀ s : List UInt8, s.length = x.length → s ≠ [] → (q.run s).finish = none := by
    intro s hs hne
    by_contra hsome
    obtain ⟨o, ho⟩ := Option.ne_none_iff_exists'.mp hsome
    obtain ⟨k, hk, hle⟩ := missing_le ho
    have hpos := List.length_pos_iff.mpr hne
    have := hlt k hk
    omega
  by_cases hx : x = []
  · subst hx
    obtain rfl : y = [] := List.length_eq_zero_iff.mp hlen
    rfl
  · have hy : y ≠ [] := by
      rintro rfl
      exact hx (List.length_eq_zero_iff.mp hlen.symm)
    rw [hnone x rfl hx, hnone y hlen hy]

/-- With enough room, some bytes complete the request and some do not. -/
theorem exists_outcome_ne {q : Scan} {k r : ℕ} (hk : q.missing = some k)
    (hq : ∀ o, q ≠ .done o) (hr : max 1 k ≤ r) :
    ∃ x y : List UInt8, x.length = r ∧ y.length = r ∧ (q.run x).finish ≠ (q.run y).finish := by
  obtain ⟨hlen, o, ho⟩ := completion_spec hk hq
  refine ⟨q.completion ++ List.replicate (r - k) 0, ?_⟩
  have hvalid : (q.run (q.completion ++ List.replicate (r - k) 0)).finish = some o := by
    rw [Scan.run_append, finish_run_zeros, ho]
  have hx : (q.completion ++ List.replicate (r - k) 0).length = r := by
    rw [List.length_append, List.length_replicate]
    omega
  rw [hvalid]
  by_cases h0 : k = 0
  · -- the version is complete: one more byte spoils it
    refine ⟨65 :: List.replicate (r - 1) 0, hx, by simp; omega, ?_⟩
    rw [Scan.run_cons, finish_run_zeros]
    cases q with
    | version m doc v =>
      simp only [Scan.missing] at hk
      split_ifs at hk with hp
      simp only [Option.some.injEq] at hk
      have hv : (v ++ [65]).map tolower ≠ lowerHttp := by
        intro heq
        have hlen : (v ++ [65]).length = 8 := length_of_lower heq
        simp only [List.length_append, List.length_singleton] at hlen
        omega
      have hstep : (Scan.version m doc v).step 65 = .version m doc (v ++ [65]) := rfl
      rw [hstep]
      intro heq
      exact hv (checkRequest_eq_some.mp heq.symm).2.1
    | method m =>
      simp only [Scan.missing] at hk
      split_ifs at hk with hp
      have hle : m.length ≤ 3 := length_of_prefix hp
      simp only [Option.some.injEq] at hk
      omega
    | start => simp [Scan.missing, h0] at hk
    | afterMethod m => simp [Scan.missing, h0] at hk
    | document m doc => simp [Scan.missing, h0] at hk
    | afterDocument m doc => simp [Scan.missing, h0] at hk
    | done o => exact absurd rfl (hq o)
  · -- zeros end the string at once, before the request is complete
    refine ⟨List.replicate r 0, hx, by simp, ?_⟩
    rw [finish_run_zeros]
    intro heq
    obtain ⟨j, hj, hle⟩ := missing_le (q := q) (s := []) heq.symm
    obtain rfl : j = k := by simpa [hk] using hj.symm
    simp only [List.length_nil] at hle
    omega

/-- The answer to `d` is the same whatever the buffer held before if and only if `d` is
settled. -/
theorem parse_independent_iff {d : List UInt8} (hd : d.length ≤ kClientIOBuffSize) :
    (∀ b₁ b₂ : List UInt8, b₁.length = kClientIOBuffSize → b₂.length = kClientIOBuffSize →
      parseRequest (receive d b₁) = parseRequest (receive d b₂)) ↔
      Settled kClientIOBuffSize d := by
  have hparse : ∀ b, parseRequest (receive d b)
      = ((Scan.start.run d).run (b.drop d.length)).finish := by
    intro b
    rw [parseRequest_eq, receive, Scan.run_append]
  constructor
  · intro hall
    by_cases hdone : ∃ o, Scan.start.run d = .done o
    · exact Or.inl hdone
    · refine Or.inr fun k hk => ?_
      by_contra hroom
      obtain ⟨x, y, hx, hy, hne⟩ := exists_outcome_ne (r := kClientIOBuffSize - d.length) hk
        (fun o ho => hdone ⟨o, ho⟩) (by omega)
      -- any bytes can be left behind `d`
      have hfill : ∀ z : List UInt8, z.length = kClientIOBuffSize - d.length →
          (List.replicate d.length 0 ++ z).length = kClientIOBuffSize ∧
            (List.replicate d.length 0 ++ z).drop d.length = z := by
        intro z hz
        refine ⟨?_, List.drop_left' List.length_replicate⟩
        rw [List.length_append, List.length_replicate]
        omega
      have heq := hall _ _ (hfill x hx).1 (hfill y hy).1
      rw [hparse, hparse, (hfill x hx).2, (hfill y hy).2] at heq
      exact hne heq
  · intro hset b₁ b₂ h₁ h₂
    rw [hparse, hparse]
    rcases hset with ⟨o, ho⟩ | hlt
    · rw [ho, Scan.run_done, Scan.run_done]
    · exact outcome_eq_of_lt (by simpa [h₁] using hlt) (by simp [h₁, h₂])

/-- A complete request line is settled: it is answered alike in a new and in a used buffer. -/
theorem parse_independent_get :
    parseRequest (receive (cstr "GET / HTTP/1.1\r\n") (List.replicate kClientIOBuffSize 0))
      = parseRequest (receive (cstr "GET / HTTP/1.1\r\n")
        (List.replicate kClientIOBuffSize 0x41)) :=
  (parse_independent_iff (by decide)).mpr (Or.inl ⟨some (cstr "/"), by decide⟩) _ _
    List.length_replicate List.length_replicate

/-- After `"GET "` the rest of an earlier request is served. -/
theorem stale_bytes_complete_request : ¬ ∀ d : List UInt8, 1 ≤ d.length →
    d.length ≤ kClientIOBuffSize → ∀ b₁ b₂ : List UInt8, b₁.length = kClientIOBuffSize →
      b₂.length = kClientIOBuffSize →
      parseRequest (receive d b₁) = parseRequest (receive d b₂) := by
  intro h
  have hzero : (List.replicate kClientIOBuffSize (0 : UInt8)).length = kClientIOBuffSize :=
    List.length_replicate
  have hstale : (cstr "GET /secret HTTP/1.1\r\n" ++ List.replicate 2026 0).length
      = kClientIOBuffSize := by
    rw [List.length_append, List.length_replicate]
    decide
  have heq := h (cstr "GET ") (by decide) (by decide) _ _ hzero hstale
  have hleft : parseRequest (receive (cstr "GET ") (List.replicate kClientIOBuffSize 0)) = none :=
    rfl
  have hright : parseRequest (receive (cstr "GET ")
      (cstr "GET /secret HTTP/1.1\r\n" ++ List.replicate 2026 0)) = some (cstr "/secret") := rfl
  have hne : (none : Option (List UInt8)) ≠ some (cstr "/secret") := by simp
  exact hne (hleft.symm.trans (heq.trans hright))

end AioServer.Windows
