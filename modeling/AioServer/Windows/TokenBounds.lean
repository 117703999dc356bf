import AioServer.Lib.Touched
import AioServer.Windows.RequestLine

/-!
# The Windows server: where the parser looks

`server_handle_client_request` never writes a NUL behind the bytes that it has received, and
the buffer has no room for one when they are 2048. The memory behind the buffer is whatever
the allocator has there.

* `requestCalls`: the places at which the three calls of `strtok_s` and the two of `_stricmp`
  look, with the document of `parseRequest`;
* `StaysInBuffer`: none of them is behind the buffer;
* `staysInBuffer_iff`: for which buffers that is so.
-/

namespace AioServer.Windows

open Lib

/-! ## The code -/

/-- `(token = strtok_s(..)) == NULL || ..`: the result is NULL, or what `k` makes of the token
and the new context; with the places of all calls. -/
def orNull (call : StrtokCall) (k : Ptr → Ptr → Option (List UInt8) × List ℕ) :
    Option (List UInt8) × List ℕ :=
  match call.token with
  | none => (none, call.touched)
  | some token =>
    let r := k token call.nextToken
    (r.1, call.touched ++ r.2)

/-- The two calls of `_stricmp`. -/
def checkCalls (method document ver : Ptr) : Option (List UInt8) × List ℕ :=
  (checkRequest method.bytes document.bytes ver.bytes,
    stricmpTouched method.index method.bytes (cstr "get") ++
      if stricmp method.bytes (cstr "get") ≠ 0 then []
      else stricmpTouched ver.index ver.bytes (cstr "HTTP/1.1"))

def versionCalls (method document nextToken : Ptr) : Option (List UInt8) × List ℕ :=
  orNull (strtokSFrom lineDelims nextToken.index nextToken.bytes)
    fun ver _ => checkCalls method document ver

def documentCalls (method nextToken : Ptr) : Option (List UInt8) × List ℕ :=
  orNull (strtokSFrom spaceDelim nextToken.index nextToken.bytes) (versionCalls method)

/-- The condition in `server_handle_client_request`, in a memory that begins with the buffer:
the document, and the places that the calls look at or overwrite. -/
def requestCalls (buffRequest : List UInt8) : Option (List UInt8) × List ℕ :=
  orNull (strtokSFrom spaceDelim 0 buffRequest) documentCalls

/-! ## The same parser -/

theorem orNull_fst {call : StrtokCall} {k : Ptr → Ptr → Option (List UInt8) × List ℕ}
    {f : List UInt8 → List UInt8 → Option (List UInt8)}
    (hk : ∀ t next, (k t next).1 = f t.bytes next.bytes) :
    (orNull call k).1 = (call.token.map Ptr.bytes).bind fun t => f t call.nextToken.bytes := by
  unfold orNull
  cases call.token with
  | none => rfl
  | some t => exact hk t call.nextToken

theorem versionCalls_fst (method document nextToken : Ptr) :
    (versionCalls method document nextToken).1
      = parseVersion method.bytes document.bytes nextToken.bytes := by
  unfold versionCalls parseVersion
  rw [orNull_fst (f := fun ver _ => checkRequest method.bytes document.bytes ver)
    fun _ _ => rfl, token_strtokSFrom]
  rcases strtokS lineDelims nextToken.bytes with ⟨_ | ver, next⟩ <;> rfl

theorem documentCalls_fst (method nextToken : Ptr) :
    (documentCalls method nextToken).1 = parseDocument method.bytes nextToken.bytes := by
  unfold documentCalls parseDocument
  rw [orNull_fst (versionCalls_fst method), token_strtokSFrom, nextToken_strtokSFrom]
  rcases strtokS spaceDelim nextToken.bytes with ⟨_ | document, next⟩ <;> rfl

/-- The document is the one of `parseRequest`. -/
theorem requestCalls_fst (buffRequest : List UInt8) :
    (requestCalls buffRequest).1 = parseRequest buffRequest := by
  unfold requestCalls parseRequest
  rw [orNull_fst documentCalls_fst, token_strtokSFrom, nextToken_strtokSFrom]
  rcases strtokS spaceDelim buffRequest with ⟨_ | method, next⟩ <;> rfl

/-! ## In the buffer -/

/-- Tokenising what was received stays in the buffer, with these bytes behind it. -/
def StaysInBuffer (d clBuffer beyond : List UInt8) : Prop :=
  ∀ i ∈ (requestCalls (receive d clBuffer ++ beyond)).2, i < kClientIOBuffSize

/-- The buffer has three tokens, and a delimiter behind the third. -/
def HoldsTokens (buffer : List UInt8) : Prop :=
  ∃ (x : RequestTokens) (c : UInt8) (rest : List UInt8),
    c ∈ lineDelims ∧ buffer = x.text ++ c :: rest

section inside

variable {buffer beyond : List UInt8} {method document ver next : Ptr} {n j : ℕ}

theorem checkCalls_lt (hm : method.index + method.bytes.length < n)
    (hv : ver.index + ver.bytes.length < n) (hj : j ∈ (checkCalls method document ver).2) :
    j < n := by
  unfold checkCalls at hj
  rcases List.mem_append.mp hj with hj | hj
  · exact Nat.lt_of_le_of_lt (stricmpTouched_le hj) hm
  · split_ifs at hj
    · cases hj
    · exact Nat.lt_of_le_of_lt (stricmpTouched_le hj) hv

/-- A property of all places of a call and of what follows it. -/
theorem forall_orNull {P : ℕ → Prop} {call : StrtokCall}
    {k : Ptr → Ptr → Option (List UInt8) × List ℕ} :
    (∀ j ∈ (orNull call k).2, P j) ↔ (∀ j ∈ call.touched, P j) ∧
      ∀ t, call.token = some t → ∀ j ∈ (k t call.nextToken).2, P j := by
  unfold orNull
  cases call.token with
  | none => simp
  | some t => simp [or_imp, forall_and]

/-! ## A NUL in the buffer -/

theorem versionCalls_nul (hm : method.index + method.bytes.length < n)
    (h : BeforeNul beyond n next) : ∀ j ∈ (versionCalls method document next).2, j < n := by
  obtain ⟨-, htouched, htoken⟩ := strtokSFrom_nul lineDelims h
  exact forall_orNull.mpr ⟨htouched, fun ver hver j hj => checkCalls_lt hm (htoken ver hver) hj⟩

theorem documentCalls_nul (hm : method.index + method.bytes.length < n)
    (h : BeforeNul beyond n next) : ∀ j ∈ (documentCalls method next).2, j < n := by
  obtain ⟨hnext, htouched, -⟩ := strtokSFrom_nul spaceDelim h
  exact forall_orNull.mpr ⟨htouched, fun _ _ => versionCalls_nul hm hnext⟩

/-- It stops every call. -/
theorem requestCalls_nul (h : 0 ∈ buffer) :
    ∀ j ∈ (requestCalls (buffer ++ beyond)).2, j < buffer.length := by
  have hbefore : BeforeNul beyond buffer.length ⟨0, buffer ++ beyond⟩ :=
    ⟨buffer, rfl, Nat.zero_add _, h⟩
  obtain ⟨hnext, htouched, htoken⟩ := strtokSFrom_nul spaceDelim hbefore
  exact forall_orNull.mpr
    ⟨htouched, fun method hmethod => documentCalls_nul (htoken method hmethod) hnext⟩

/-! ## Three tokens in the buffer -/

variable {x : RequestTokens} {c : UInt8} {rest : List UInt8}

/-- The delimiter behind the third token is the last byte. -/
theorem requestCalls_tokens (hc : c ∈ lineDelims) :
    ∀ j ∈ (requestCalls (x.text ++ c :: rest)).2, j < x.text.length + 1 := by
  have hmem : x.text ++ c :: rest = x.front ++ (x.method ++ 32 :: (x.gap ++ (x.document ++
      32 :: (x.lineGap ++ (x.version ++ c :: rest))))) := by
    simp [RequestTokens.text]
  have hlen : x.text.length = x.front.length + x.method.length + 1 + x.gap.length +
      x.document.length + 1 + x.lineGap.length + x.version.length := by
    simp only [RequestTokens.text, List.length_append, List.length_cons]
    omega
  obtain ⟨htoken, hnext, htouched⟩ := @strtokSFrom_parts spaceDelim x.front x.method
    (x.gap ++ (x.document ++ 32 :: (x.lineGap ++ (x.version ++ c :: rest)))) 0 32
    (fun b hb => spaceDelim_ne b (x.front_space b hb)) x.method_tok (by decide) (by decide)
  obtain ⟨htoken', hnext', htouched'⟩ := @strtokSFrom_parts spaceDelim x.gap x.document
    (x.lineGap ++ (x.version ++ c :: rest)) (0 + x.front.length + x.method.length + 1) 32
    (fun b hb => spaceDelim_ne b (x.gap_space b hb)) x.document_tok (by decide) (by decide)
  obtain ⟨htoken'', -, htouched''⟩ := @strtokSFrom_parts lineDelims x.lineGap x.version rest
    (0 + x.front.length + x.method.length + 1 + x.gap.length + x.document.length + 1) c
    (fun b hb => lineDelims_ne b (x.lineGap_delim b hb)) x.version_tok (lineDelims_ne c hc).1 hc
  rw [hmem]
  refine forall_orNull.mpr ⟨fun j hj => ?_, fun method hmethod => ?_⟩
  · have hle := htouched j hj
    omega
  obtain rfl : _ = method := Option.some.inj (htoken.symm.trans hmethod)
  rw [hnext]
  refine forall_orNull.mpr ⟨fun j hj => ?_, fun document hdocument => ?_⟩
  · have hle := htouched' j hj
    omega
  rw [hnext']
  refine forall_orNull.mpr ⟨fun j hj => ?_, fun ver hver j hj => ?_⟩
  · have hle := htouched'' j hj
    omega
  obtain rfl : _ = ver := Option.some.inj (htoken''.symm.trans hver)
  exact checkCalls_lt (by simp only; omega) (by simp only; omega) hj

/-! ## The condition -/

/-- Without NUL in the buffer the calls need three tokens. -/
theorem holdsTokens_of_calls (h0 : 0 ∉ buffer)
    (h : ∀ j ∈ (requestCalls (buffer ++ beyond)).2, j < buffer.length) : HoldsTokens buffer := by
  have hspace : ∀ b ∈ spaceDelim, b = 32 := by simp [spaceDelim]
  obtain ⟨hin, hnextIn⟩ := forall_orNull.mp h
  obtain ⟨front, method, c, rest, next, rfl, hfront, hmethodTok, hc, htoken, hnext, hbytes, hlen⟩ :=
    strtokSFrom_closed (p := ⟨0, buffer ++ beyond⟩) h0 (fun b hb => (spaceDelim_ne b hb).1) rfl
      (Nat.zero_add _) hin
  obtain rfl := hspace c hc
  have h0' : 0 ∉ rest := fun hr => h0 (by simp [hr])
  obtain ⟨hin', hnextIn'⟩ := forall_orNull.mp (hnextIn _ htoken)
  rw [hnext] at hin' hnextIn'
  obtain ⟨gap, document, c', rest', next', rfl, hgap, hdocumentTok, hc', htoken', hnext', hbytes',
    hlen'⟩ := strtokSFrom_closed h0' (fun b hb => (spaceDelim_ne b hb).1) hbytes hlen hin'
  obtain rfl := hspace c' hc'
  have h0'' : 0 ∉ rest' := fun hr => h0' (by simp [hr])
  have hin'' := (forall_orNull.mp (hnextIn' _ htoken')).1
  rw [hnext'] at hin''
  obtain ⟨lineGap, version, c, rest'', -, rfl, hlineGap, hversionTok, hc, -⟩ :=
    strtokSFrom_closed h0'' (fun b hb => (lineDelims_ne b hb).1) hbytes' hlen' hin''
  refine ⟨⟨front, method, gap, document, lineGap, version, hfront, hmethodTok, hgap, hdocumentTok,
    hlineGap, hversionTok⟩, c, rest'', hc, ?_⟩
  simp [RequestTokens.text]

end inside

/-- For everything that can be received over every buffer, and whatever is behind it: the calls
stay in the buffer if and only if it then holds a NUL or three tokens. -/
theorem staysInBuffer_iff {d clBuffer : List UInt8} (hd : d.length ≤ kClientIOBuffSize)
    (hbuf : clBuffer.length = kClientIOBuffSize) (beyond : List UInt8) :
    StaysInBuffer d clBuffer beyond ↔
      0 ∈ receive d clBuffer ∨ HoldsTokens (receive d clBuffer) := by
  have hlen : (receive d clBuffer).length = kClientIOBuffSize := by
    rw [length_receive (hbuf ▸ hd), hbuf]
  unfold StaysInBuffer
  rw [← hlen]
  constructor
  · intro h
    rw [or_iff_not_imp_left]
    exact fun h0 => holdsTokens_of_calls h0 h
  · rintro (h0 | ⟨x, c, rest, hc, hx⟩)
    · exact requestCalls_nul h0
    · rw [hx, List.append_assoc]
      intro j hj
      have hlt := requestCalls_tokens hc j hj
      rw [List.length_append, List.length_cons]
      omega

/-- A request in a new buffer. -/
theorem staysInBuffer_new : StaysInBuffer (cstr "GET / HTTP/1.1\r\n")
    (List.replicate kClientIOBuffSize 0) [0x41, 0x41] :=
  (staysInBuffer_iff (by decide) List.length_replicate _).mpr
    (Or.inl (List.mem_append_right _ (by rw [List.drop_replicate, List.mem_replicate]; decide)))

/-- 2048 bytes `A`: the first call of `strtok_s` looks behind them. -/
theorem token_leaves_buffer : ¬ ∀ (d clBuffer beyond : List UInt8), 1 ≤ d.length →
    d.length ≤ kClientIOBuffSize → clBuffer.length = kClientIOBuffSize →
      StaysInBuffer d clBuffer beyond := by
  intro h
  have hall : ∀ b ∈ List.replicate kClientIOBuffSize (0x41 : UInt8), b = 0x41 :=
    fun b hb => List.eq_of_mem_replicate hb
  have hstays := h (List.replicate kClientIOBuffSize 0x41) (List.replicate kClientIOBuffSize 0) []
    (by rw [List.length_replicate]; decide) (Nat.le_of_eq List.length_replicate)
    List.length_replicate
  have hbuffer : receive (List.replicate kClientIOBuffSize 0x41)
      (List.replicate kClientIOBuffSize 0) = List.replicate kClientIOBuffSize 0x41 := by
    have hdrop : (List.replicate kClientIOBuffSize (0 : UInt8)).drop
        (List.replicate kClientIOBuffSize (0x41 : UInt8)).length = [] :=
      List.drop_of_length_le
        (Nat.le_of_eq (by rw [List.length_replicate, List.length_replicate]))
    rw [receive, hdrop, List.append_nil]
  unfold StaysInBuffer at hstays
  rw [hbuffer] at hstays
  obtain ⟨x, c, rest, hc, hx⟩ := holdsTokens_of_calls
    (fun h0 => absurd (hall 0 h0) (by decide)) (by rw [List.length_replicate]; exact hstays)
  -- there is no delimiter
  have hmem : c ∈ List.replicate kClientIOBuffSize (0x41 : UInt8) := by
    rw [hx]
    simp
  rw [hall c hmem] at hc
  revert hc
  decide

end AioServer.Windows
