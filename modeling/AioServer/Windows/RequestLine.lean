import AioServer.Lib.Token
import AioServer.Windows.Segments

/-!
# The Windows server: the request line

The first two calls of `strtok_s` know no delimiter but the space, and the third skips line
ends, so that a request "line" may go on in the next line of the text.

* `lineDocument`: what the first line of a text asks for;
* `RequestTokens`: the parts of a text that the three calls find;
* `reply_iff`: the document that `server_handle_client_request` passes on is the one of the
  first line, unless the text is a request whose document or second gap goes over a line end.
-/

namespace AioServer.Windows

open Lib

/-! ## What the first line asks for -/

/-- A byte of a line: neither CR nor LF. -/
def inLine (b : UInt8) : Bool := b != 13 && b != 10

/-- The bytes before the first CR or LF. -/
def firstLine (text : List UInt8) : List UInt8 := text.takeWhile inLine

/-- The second of at least three fields, if the first and the third are what they have to be. -/
def fieldsDocument : List (List UInt8) → Option (List UInt8)
  | method :: document :: ver :: _ =>
    if method.map tolower = (cstr "GET").map tolower ∧
        ver.map tolower = (cstr "HTTP/1.1").map tolower then some document else none
  | _ => none

/-- The document of the first line. -/
def lineDocument (text : List UInt8) : Option (List UInt8) :=
  fieldsDocument (fields (firstLine text))

/-! ## The parts of a request -/

/-- A method, a document and a version, and the delimiters in front of each. -/
structure RequestTokens where
  front : List UInt8
  method : List UInt8
  gap : List UInt8
  document : List UInt8
  lineGap : List UInt8
  version : List UInt8
  front_space : ∀ b ∈ front, b ∈ spaceDelim
  method_tok : IsTok spaceDelim method
  gap_space : ∀ b ∈ gap, b ∈ spaceDelim
  document_tok : IsTok spaceDelim document
  lineGap_delim : ∀ b ∈ lineGap, b ∈ lineDelims
  version_tok : IsTok lineDelims version

namespace RequestTokens

/-- The bytes up to the end of the version. A space ends the method, and one the document. -/
def text (x : RequestTokens) : List UInt8 :=
  x.front ++ (x.method ++ 32 :: (x.gap ++ (x.document ++ 32 :: (x.lineGap ++ x.version))))

/-- The method is GET, and the version HTTP/1.1. -/
def IsGet (x : RequestTokens) : Prop :=
  x.method.map tolower = lowerGet ∧ x.version.map tolower = lowerHttp

instance (x : RequestTokens) : Decidable x.IsGet := inferInstanceAs (Decidable (_ ∧ _))

end RequestTokens

/-- The text begins with a GET request whose document or whose gap behind it has a CR or LF. -/
def CrossesLine (text : List UInt8) : Prop :=
  ∃ (x : RequestTokens) (rest : List UInt8), text = x.text ++ rest ∧ Ends lineDelims rest ∧
    x.IsGet ∧ ∃ b ∈ x.document ++ x.lineGap, inLine b = false

section parts

variable {x y : RequestTokens} {s s' rest text : List UInt8} {d : List UInt8}

theorem spaceDelim_ne : ∀ b ∈ spaceDelim, b ≠ 0 ∧ b ∈ spaceDelim := by simp [spaceDelim]

theorem lineDelims_ne : ∀ b ∈ lineDelims, b ≠ 0 ∧ b ∈ lineDelims := by simp [lineDelims]

theorem ends_space : Ends spaceDelim (32 :: rest) := ends_cons.mpr (by decide)

theorem skipTerminator_space : skipTerminator (32 :: rest) = rest := rfl

/-- The three calls find the parts. -/
theorem parse_text (x : RequestTokens) (hrest : Ends lineDelims rest) :
    parseRequest (x.text ++ rest) = checkRequest x.method x.document x.version := by
  have hmethod : strtokS spaceDelim (x.text ++ rest) = (some x.method,
      x.gap ++ (x.document ++ 32 :: (x.lineGap ++ (x.version ++ rest)))) := by
    have hparts := strtokS_parts (fun b hb => spaceDelim_ne b (x.front_space b hb)) x.method_tok
      (@ends_space (x.gap ++ (x.document ++ 32 :: (x.lineGap ++ (x.version ++ rest)))))
    simpa [RequestTokens.text, skipTerminator_space] using hparts
  have hdocument := strtokS_parts (fun b hb => spaceDelim_ne b (x.gap_space b hb)) x.document_tok
    (@ends_space (x.lineGap ++ (x.version ++ rest)))
  have hversion := strtokS_parts (fun b hb => lineDelims_ne b (x.lineGap_delim b hb))
    x.version_tok hrest
  rw [skipTerminator_space] at hdocument
  simp only [parseRequest, hmethod, parseDocument, hdocument, parseVersion, hversion]

/-- In a text without NUL a token that is not the last one ends at a delimiter. -/
theorem exists_space_of_ends (h : 0 ∉ rest) (hends : Ends spaceDelim rest)
    (hne : (strtokS s (skipTerminator rest)).1 ≠ none) : rest = 32 :: skipTerminator rest := by
  cases rest with
  | nil => exact absurd rfl hne
  | cons b rest =>
    have h0 : b ≠ 0 := fun hb => h (hb ▸ List.mem_cons_self)
    obtain rfl : b = 32 := by
      have hb := ends_cons.mp hends
      simpa [isToken, h0, spaceDelim] using hb
    rfl

/-- An accepted text without NUL has the parts of a GET request. -/
theorem exists_parts (h : 0 ∉ text) (hparse : parseRequest text = some d) :
    ∃ (x : RequestTokens) (rest : List UInt8), text = x.text ++ rest ∧ Ends lineDelims rest ∧
      x.IsGet ∧ x.document = d := by
  unfold parseRequest at hparse
  rcases hm : strtokS spaceDelim text with ⟨_ | method, next⟩
  · simp [hm] at hparse
  rw [hm] at hparse
  unfold parseDocument at hparse
  rcases hd : strtokS spaceDelim next with ⟨_ | document, next'⟩
  · simp [hd] at hparse
  simp only [hd] at hparse
  unfold parseVersion at hparse
  rcases hv : strtokS lineDelims next' with ⟨_ | version, next''⟩
  · simp [hv] at hparse
  simp only [hv] at hparse
  obtain ⟨front, rest, rfl, hfront, hmethod, hends, rfl⟩ := strtokS_eq_some_iff.mp hm
  obtain ⟨gap, rest', hnext, hgap, hdocument, hends', rfl⟩ := strtokS_eq_some_iff.mp hd
  obtain ⟨lineGap, rest'', hnext', hlineGap, hversion, hends'', -⟩ := strtokS_eq_some_iff.mp hv
  have hspace : rest = 32 :: skipTerminator rest :=
    exists_space_of_ends (fun h0 => h (by simp [h0])) hends (by rw [hd]; simp)
  rw [hspace, hnext] at h
  have hspace' : rest' = 32 :: skipTerminator rest' :=
    exists_space_of_ends (fun h0 => h (by simp [h0])) hends' (by rw [hv]; simp)
  obtain ⟨hget, hhttp, rfl⟩ := checkRequest_eq_some.mp hparse
  refine ⟨⟨front, method, gap, document, lineGap, version, fun b hb => (hfront b hb).2, hmethod,
    fun b hb => (hgap b hb).2, hdocument, fun b hb => (hlineGap b hb).2, hversion⟩, rest'', ?_,
    hends'', ⟨hget, hhttp⟩, rfl⟩
  rw [hspace, hnext, hspace', hnext']
  simp [RequestTokens.text]

theorem not_token_space : ∀ b ∈ (32 :: rest).head?, ¬ isToken spaceDelim b = true := by
  intro b hb
  obtain rfl : 32 = b := by simpa using hb
  decide

/-- A text has these parts in one way. -/
theorem parts_unique (h : x.text ++ rest = y.text ++ s) :
    x.document = y.document ∧ x.lineGap = y.lineGap := by
  unfold RequestTokens.text at h
  simp only [List.append_assoc, List.cons_append] at h
  obtain ⟨-, hmethod⟩ := append_unique h x.front_space y.front_space
    (x.method_tok.head _) (y.method_tok.head _)
  obtain ⟨-, hgap⟩ := append_unique hmethod x.method_tok.token y.method_tok.token
    not_token_space not_token_space
  obtain ⟨-, hdocument⟩ := append_unique (List.cons.inj hgap).2 x.gap_space y.gap_space
    (x.document_tok.head _) (y.document_tok.head _)
  obtain ⟨hdoc, hlineGap⟩ := append_unique hdocument x.document_tok.token y.document_tok.token
    not_token_space not_token_space
  obtain ⟨hline, -⟩ := append_unique (List.cons.inj hlineGap).2 x.lineGap_delim y.lineGap_delim
    (x.version_tok.head _) (y.version_tok.head _)
  exact ⟨hdoc, hline⟩

/-! ## One line -/

theorem fieldsDocument_eq (m d v : List UInt8) (more : List (List UInt8)) :
    fieldsDocument (m :: d :: v :: more) = checkRequest m d v := by
  have hget : (cstr "GET").map tolower = lowerGet := by decide
  have hhttp : (cstr "HTTP/1.1").map tolower = lowerHttp := by decide
  ext o
  rw [checkRequest_eq_some, fieldsDocument, hget, hhttp]
  split_ifs with h
  · simp [h]
  · simp only [false_iff]
    tauto

/-- Within a line the three calls find its first three fields. -/
theorem parse_line (h : 0 ∉ s) (hline : ∀ b ∈ s, inLine b = true) :
    parseRequest s = fieldsDocument (fields s) := by
  rcases strtokS_fields h with ⟨hf, next, htok⟩ | ⟨m, next, htok, hf, hnext⟩
  · simp only [parseRequest, spaceDelim, htok, hf, fieldsDocument]
  have h' : 0 ∉ next := fun h0 => h (hnext.mem h0)
  rcases strtokS_fields h' with ⟨hf', next', htok'⟩ | ⟨d, next', htok', hf', hnext'⟩
  · simp only [parseRequest, parseDocument, spaceDelim, htok, htok', hf, hf', fieldsDocument]
  have h'' : 0 ∉ next' := fun h0 => h' (hnext'.mem h0)
  have hdelims : strtokS lineDelims next' = strtokS [32] next' := by
    refine strtokS_congr fun b hb => ?_
    have hb' := hline b (hnext.mem (hnext'.mem hb))
    simp only [inLine, Bool.and_eq_true, bne_iff_ne] at hb'
    simp [lineDelims, hb']
  rcases strtokS_fields h'' with ⟨hf'', next'', htok''⟩ | ⟨v, next'', htok'', hf'', -⟩
  · simp only [parseRequest, parseDocument, parseVersion, spaceDelim, hdelims, htok, htok', htok'',
      hf, hf', hf'', fieldsDocument]
  · rw [hf, hf', hf'', fieldsDocument_eq]
    simp only [parseRequest, parseDocument, parseVersion, spaceDelim, hdelims, htok, htok', htok'']

theorem not_token_of_lineEnd {b : UInt8} (h : inLine b = false) :
    isToken lineDelims b = false := by
  rw [← Bool.not_eq_true, isToken_iff]
  simp only [inLine, Bool.and_eq_false_iff, bne_eq_false_iff_eq] at h
  rcases h with rfl | rfl
  · simp [lineDelims]
  · simp [lineDelims]

theorem inLine_firstLine : ∀ b ∈ firstLine text, inLine b = true :=
  fun b hb => List.all_eq_true.mp List.all_takeWhile b hb

theorem firstLine_subset (h : 0 ∉ text) : 0 ∉ firstLine text :=
  fun h0 => h ((List.takeWhile_prefix _).mem h0)

theorem parse_firstLine (h : 0 ∉ text) : parseRequest (firstLine text) = lineDocument text :=
  parse_line (firstLine_subset h) inLine_firstLine

/-- The parts of the first line are parts of the text. -/
theorem exists_line_parts (h : 0 ∉ text) (hdoc : lineDocument text = some d) :
    ∃ (x : RequestTokens) (rest : List UInt8), text = x.text ++ rest ∧ Ends lineDelims rest ∧
      x.IsGet ∧ x.document = d ∧ ∀ b ∈ x.document ++ x.lineGap, inLine b = true := by
  obtain ⟨x, rest, hx, hends, hget, rfl⟩ :=
    exists_parts (firstLine_subset h) ((parse_firstLine h).trans hdoc)
  have htext : text = x.text ++ (rest ++ text.dropWhile inLine) := by
    rw [← List.append_assoc, ← hx]
    exact List.takeWhile_append_dropWhile.symm
  refine ⟨x, rest ++ text.dropWhile inLine, htext, ?_, hget, rfl, ?_⟩
  · cases rest with
    | cons b rest => exact ends_cons.mpr (ends_cons.mp hends)
    | nil =>
      -- the version ends at the line end
      intro b hb
      have hnot := List.head?_dropWhile_not inLine text
      rw [show (text.dropWhile inLine).head? = some b from hb] at hnot
      exact not_token_of_lineEnd (by simpa using hnot)
  · intro b hb
    refine @inLine_firstLine text b ?_
    rw [hx]
    simp only [RequestTokens.text, List.mem_append, List.mem_cons] at hb ⊢
    tauto

/-- A request whose document and gap stay in the line is in the first line. -/
theorem inLine_text (hget : x.IsGet) (hline : ∀ b ∈ x.document ++ x.lineGap, inLine b = true) :
    ∀ b ∈ x.text, inLine b = true := by
  have hspace : ∀ b ∈ spaceDelim, inLine b = true := by simp [spaceDelim, inLine]
  have hmethod : ∀ b ∈ x.method, inLine b = true := by
    intro b hb
    have hlower : tolower b ∈ lowerGet := hget.1 ▸ List.mem_map_of_mem hb
    by_contra hnot
    have hend : b = 13 ∨ b = 10 := by
      simpa [inLine, or_iff_not_imp_left] using hnot
    rcases hend with rfl | rfl
    · revert hlower
      decide
    · revert hlower
      decide
  have hversion : ∀ b ∈ x.version, inLine b = true := by
    intro b hb
    by_contra hnot
    have htok := x.version_tok.token b hb
    rw [not_token_of_lineEnd (by simpa using hnot)] at htok
    cases htok
  intro b hb
  simp only [RequestTokens.text, List.mem_append, List.mem_cons] at hb hline
  rcases hb with hb | hb | rfl | hb | hb | rfl | hb | hb
  · exact hspace b (x.front_space b hb)
  · exact hmethod b hb
  · decide
  · exact hspace b (x.gap_space b hb)
  · exact hline b (Or.inl hb)
  · decide
  · exact hline b (Or.inr hb)
  · exact hversion b hb

/-- The first line of a text that begins with such a request. -/
theorem lineDocument_text (h : 0 ∉ x.text ++ rest) (hends : Ends lineDelims rest)
    (hget : x.IsGet) (hline : ∀ b ∈ x.document ++ x.lineGap, inLine b = true) :
    lineDocument (x.text ++ rest) = some x.document := by
  have hfirst : firstLine (x.text ++ rest) = x.text ++ firstLine rest :=
    List.takeWhile_append_of_pos (inLine_text hget hline)
  have hends' : Ends lineDelims (firstLine rest) := by
    cases rest with
    | nil => exact ends_nil
    | cons b rest =>
      unfold firstLine
      rw [List.takeWhile_cons]
      split_ifs
      · exact ends_cons.mpr (ends_cons.mp hends)
      · exact ends_nil
  rw [← parse_firstLine h, hfirst, parse_text x hends']
  exact checkRequest_eq_some.mpr ⟨hget.1, hget.2, rfl⟩

/-- The document that is passed on is the one of the first line, unless the request crosses a
line end. -/
theorem parse_eq_lineDocument_iff (h : 0 ∉ text) :
    parseRequest text = lineDocument text ↔ ¬ CrossesLine text := by
  constructor
  · rintro heq ⟨x, rest, rfl, hends, hget, b, hb, hend⟩
    rw [parse_text x hends, checkRequest_eq_some.mpr ⟨hget.1, hget.2, rfl⟩] at heq
    obtain ⟨y, rest', hy, -, -, -, hline⟩ := exists_line_parts h heq.symm
    obtain ⟨hdoc, hgap⟩ := parts_unique hy
    rw [hdoc, hgap] at hb
    rw [hline b hb] at hend
    cases hend
  · intro hcross
    cases hparse : parseRequest text with
    | none =>
      cases hdoc : lineDocument text with
      | none => rfl
      | some d =>
        obtain ⟨x, rest, rfl, hends, hget, rfl, -⟩ := exists_line_parts h hdoc
        rw [parse_text x hends, checkRequest_eq_some.mpr ⟨hget.1, hget.2, rfl⟩] at hparse
        cases hparse
    | some d =>
      obtain ⟨x, rest, rfl, hends, hget, rfl⟩ := exists_parts h hparse
      refine (lineDocument_text h hends hget fun b hb => ?_).symm
      by_contra hend
      exact hcross ⟨x, rest, rfl, hends, hget, b, hb, by simpa using hend⟩

end parts

/-! ## The reply -/

/-- The request in a buffer is answered by the fields of its first line. -/
def RepliesToLine (d clBuffer text : List UInt8) : Prop :=
  serverHandleClientRequest (some d) clBuffer = .transmit (lineDocument text)

/-- For every text without NUL in front of a NUL in the buffer, whatever is behind it. -/
theorem repliesToLine_iff {d clBuffer text stale : List UInt8} (hd : d ≠ [])
    (hbuf : receive d clBuffer = text ++ 0 :: stale) (h : 0 ∉ text) :
    RepliesToLine d clBuffer text ↔ ¬ CrossesLine text := by
  have hparse : parseRequest (receive d clBuffer) = parseRequest text := by
    rw [hbuf, parseRequest_eq, parseRequest_eq, Scan.run_append, finish_run_nul]
  unfold RepliesToLine serverHandleClientRequest
  simp only [if_neg hd, hparse, Reply.transmit.injEq]
  exact parse_eq_lineDocument_iff h

/-- A request in one line, in a new buffer. -/
theorem get_stays_in_line : ¬ CrossesLine (cstr "GET /a HTTP/1.1\r\n") :=
  (@repliesToLine_iff (cstr "GET /a HTTP/1.1\r\n") (List.replicate kClientIOBuffSize 0)
    (cstr "GET /a HTTP/1.1\r\n") ((List.replicate kClientIOBuffSize 0).drop 18) (by decide) rfl
    (by decide)).mp rfl

/-- `GET /a` alone in its line, and a header line `b HTTP/1.1`: the document is `/a\r\nb`. -/
theorem document_crosses_line : ¬ ∀ (d clBuffer text stale : List UInt8), d ≠ [] →
    d.length ≤ kClientIOBuffSize → clBuffer.length = kClientIOBuffSize →
      receive d clBuffer = text ++ 0 :: stale → 0 ∉ text → RepliesToLine d clBuffer text := by
  intro h
  have hreply := h (cstr "GET /a\r\nb HTTP/1.1") (List.replicate kClientIOBuffSize 0)
    (cstr "GET /a\r\nb HTTP/1.1") ((List.replicate kClientIOBuffSize 0).drop 19) (by decide)
    (by decide) List.length_replicate rfl (by decide)
  have hcrossed : serverHandleClientRequest (some (cstr "GET /a\r\nb HTTP/1.1"))
      (List.replicate kClientIOBuffSize 0) = .transmit (some (cstr "/a\r\nb")) := rfl
  have hline : lineDocument (cstr "GET /a\r\nb HTTP/1.1") = none := by decide
  unfold RepliesToLine at hreply
  rw [hcrossed, hline] at hreply
  cases hreply

end AioServer.Windows
