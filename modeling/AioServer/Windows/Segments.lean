import AioServer.Windows.Request

/-!
# The Windows server: a request that arrives in several segments

`server_read_from_client` posts a receive of 0 bytes, which completes when the first bytes of
the request are there and takes none of them. `server_handle_client_request` then receives
once and parses. The loop around that receive is left in its first pass on every path, so the
rest of the request, when it comes in a later segment, is never read.

* `respond` is what the server does with the segments of one request;
* `respond_split_iff` says for which ways of splitting a text the response is the one to the
  whole text: the first segment is the whole text, or what it holds already settles the
  response.
-/

namespace AioServer.Windows

open Lib

/-! ## The code -/

/-- `WSARecv` for `len` bytes, on a connection where these segments are still to be received:
the received bytes and what is left. A receive takes bytes of the first segment only. -/
def wsaRecv (len : ℕ) : List (List UInt8) → List UInt8 × List (List UInt8)
  | [] => ([], [])
  | seg :: segs =>
    (seg.take len, if seg.length ≤ len then segs else seg.drop len :: segs)

/-- How `server_handle_client_request` ends. -/
inductive Reply
  /-- the client is handed back without a response -/
  | finish
  /-- `server_transmit_resource` gets the document, NULL for 400 -/
  | transmit (document : Option (List UInt8))
deriving DecidableEq, Repr

/-- `server_handle_client_request`, with what its `WSARecv` gives: `none` when it fails. -/
def serverHandleClientRequest (received : Option (List UInt8)) (clBuffer : List UInt8) : Reply :=
  match received with
  | none => .finish
  | some d => if d = [] then .finish else .transmit (parseRequest (receive d clBuffer))

/-- A request in segments: the receive of 0 bytes that `server_read_from_client` posts, and
the blocking receive in the handler of its completion. -/
def respond (segs : List (List UInt8)) (clBuffer : List UInt8) : Reply :=
  serverHandleClientRequest (some (wsaRecv kClientIOBuffSize (wsaRecv 0 segs).2).1) clBuffer

/-! ## What the response depends on -/

/-- The receive of 0 bytes leaves every segment where it is. -/
theorem wsaRecv_zero {segs : List (List UInt8)} (hne : ∀ s ∈ segs, s ≠ []) :
    wsaRecv 0 segs = ([], segs) := by
  cases segs with
  | nil => rfl
  | cons s rest =>
    have hs : ¬ s.length ≤ 0 := by
      simpa using hne s (by simp)
    simp [wsaRecv, hs]

/-- Only the first segment is parsed. -/
theorem respond_cons {s : List UInt8} {rest : List (List UInt8)}
    (hne : ∀ x ∈ s :: rest, x ≠ []) (hlen : s.length ≤ kClientIOBuffSize)
    (clBuffer : List UInt8) :
    respond (s :: rest) clBuffer = .transmit (parseRequest (receive s clBuffer)) := by
  have hrecv : (wsaRecv kClientIOBuffSize (s :: rest)).1 = s := List.take_of_length_le hlen
  unfold respond
  rw [wsaRecv_zero hne, hrecv]
  exact if_neg (hne s (by simp))

/-- Receiving more bytes behind those of `s` is receiving `s` over another buffer. -/
theorem receive_append (s e clBuffer : List UInt8) :
    receive (s ++ e) clBuffer = receive s (receive (s ++ e) clBuffer) := by
  have hdrop : (receive (s ++ e) clBuffer).drop s.length
      = e ++ clBuffer.drop (s ++ e).length := by
    rw [receive, List.append_assoc]
    exact List.drop_left
  calc receive (s ++ e) clBuffer
      = s ++ (e ++ clBuffer.drop (s ++ e).length) := List.append_assoc _ _ _
    _ = receive s (receive (s ++ e) clBuffer) := by rw [← hdrop]; rfl

theorem length_receive {d clBuffer : List UInt8} (h : d.length ≤ clBuffer.length) :
    (receive d clBuffer).length = clBuffer.length := by
  rw [receive, List.length_append, List.length_drop]
  omega

/-- Bytes that are received over do not matter. -/
theorem receive_congr {d b₁ b₂ : List UInt8} (h : b₁.drop d.length = b₂.drop d.length) :
    receive d b₁ = receive d b₂ := by
  rw [receive, receive, h]

theorem parse_receive (d clBuffer : List UInt8) :
    parseRequest (receive d clBuffer)
      = ((Scan.start.run d).run (clBuffer.drop d.length)).finish := by
  rw [parseRequest_eq, receive, Scan.run_append]

/-- A NUL behind what was read gives the outcome at this point. -/
theorem finish_run_nul (q : Scan) (s : List UInt8) : (q.run (0 :: s)).finish = q.finish := by
  rw [Scan.run_cons, step_nul, Scan.run_done]
  rfl

/-- With enough room, some bytes change the outcome of this point. -/
theorem exists_outcome_ne_finish {q : Scan} {k r : ℕ} (hk : q.missing = some k)
    (hq : ∀ o, q ≠ .done o) (hr : max 1 k ≤ r) :
    ∃ x : List UInt8, x.length = r ∧ (q.run x).finish ≠ q.finish := by
  obtain ⟨x, y, hx, hy, hne⟩ := exists_outcome_ne hk hq hr
  by_cases h : (q.run x).finish = q.finish
  · refine ⟨y, hy, ?_⟩
    intro heq
    exact hne (h.trans heq.symm)
  · exact ⟨x, hx, h⟩

/-- Behind a first segment that settles nothing, the old bytes of the buffer in the place of
the next segment decide. -/
theorem exists_buffer_ne {s e : List UInt8} (he : e ≠ [])
    (hlen : (s ++ e).length ≤ kClientIOBuffSize) (hset : ¬ Settled kClientIOBuffSize s) :
    ∃ buf : List UInt8, buf.length = kClientIOBuffSize ∧
      parseRequest (receive s buf) ≠ parseRequest (receive (s ++ e) buf) := by
  obtain ⟨hdone, k, hk, hroom⟩ : (∀ o, Scan.start.run s ≠ .done o) ∧
      ∃ k, (Scan.start.run s).missing = some k ∧
        max 1 k ≤ kClientIOBuffSize - s.length := by
    simp only [Settled, not_or, not_exists, not_forall, Nat.not_lt] at hset
    obtain ⟨hdone, k, hk, hroom⟩ := hset
    exact ⟨hdone, k, hk, hroom⟩
  obtain ⟨x, hx, hne⟩ := exists_outcome_ne_finish hk hdone hroom
  rw [List.length_append] at hlen
  -- `x`, and `x` with zeros where the next segment comes
  let zeros := List.replicate e.length (0 : UInt8)
  let front := List.replicate s.length (0 : UInt8)
  let b₁ := front ++ x
  let b₂ := front ++ (zeros ++ x.drop e.length)
  have h₁ : b₁.length = kClientIOBuffSize := by
    simp only [b₁, front, List.length_append, List.length_replicate]
    omega
  have h₂ : b₂.length = kClientIOBuffSize := by
    simp only [b₂, front, zeros, List.length_append, List.length_replicate, List.length_drop]
    omega
  have hd₁ : b₁.drop s.length = x := List.drop_left' List.length_replicate
  have hd₂ : b₂.drop s.length = zeros ++ x.drop e.length :=
    List.drop_left' List.length_replicate
  have hwhole : receive (s ++ e) b₁ = receive (s ++ e) b₂ := by
    have hzeros : (zeros ++ x.drop e.length).drop e.length = x.drop e.length :=
      List.drop_left' List.length_replicate
    refine receive_congr ?_
    rw [List.length_append, ← List.drop_drop, ← List.drop_drop, hd₁, hd₂, hzeros]
  have hs₁ : parseRequest (receive s b₁) ≠ (Scan.start.run s).finish := by
    rw [parse_receive, hd₁]
    exact hne
  have hs₂ : parseRequest (receive s b₂) = (Scan.start.run s).finish := by
    have hcons : zeros = 0 :: List.replicate (e.length - 1) 0 := by
      rw [← List.replicate_succ, Nat.sub_add_cancel (List.length_pos_iff.mpr he)]
    rw [parse_receive, hd₂, hcons]
    exact finish_run_nul _ _
  by_cases h : parseRequest (receive s b₁) = parseRequest (receive (s ++ e) b₁)
  · refine ⟨b₂, h₂, ?_⟩
    rw [← hwhole, ← h, hs₂]
    exact hs₁.symm
  · exact ⟨b₁, h₁, h⟩

/-- A text of at most 2048 bytes that arrives in segments is answered like the whole text,
whatever the buffer held, if and only if it arrives in one segment or the first segment is
settled. -/
theorem respond_split_iff {s : List UInt8} {rest : List (List UInt8)}
    (hne : ∀ x ∈ s :: rest, x ≠ [])
    (hlen : (s :: rest).flatten.length ≤ kClientIOBuffSize) :
    (∀ buf : List UInt8, buf.length = kClientIOBuffSize →
      respond (s :: rest) buf = respond [(s :: rest).flatten] buf) ↔
      rest = [] ∨ Settled kClientIOBuffSize s := by
  rw [List.flatten_cons] at hlen ⊢
  have hs : s.length ≤ kClientIOBuffSize := by
    rw [List.length_append] at hlen
    omega
  have hwhole : ∀ x ∈ [s ++ rest.flatten], x ≠ [] := by
    simp [hne s (by simp)]
  have hresp : ∀ buf, respond (s :: rest) buf = respond [s ++ rest.flatten] buf ↔
      parseRequest (receive s buf) = parseRequest (receive (s ++ rest.flatten) buf) := by
    intro buf
    rw [respond_cons hne hs, respond_cons hwhole hlen, Reply.transmit.injEq]
  simp only [hresp]
  constructor
  · intro hall
    by_contra hnot
    obtain ⟨hrest, hset⟩ := not_or.mp hnot
    have he : rest.flatten ≠ [] := by
      obtain ⟨x, tail, rfl⟩ := List.exists_cons_of_ne_nil hrest
      simp [hne x (by simp)]
    obtain ⟨buf, hbuf, hdiff⟩ := exists_buffer_ne he hlen hset
    exact hdiff (hall buf hbuf)
  · rintro (rfl | hset) buf hbuf
    · simp
    · rw [receive_append]
      exact (parse_independent_iff hs).mpr hset _ _ hbuf
        ((length_receive (by rw [hbuf]; exact hlen)).trans hbuf)

/-- Headers that come behind a complete request line do not change the response. -/
theorem respond_headers_later :
    respond [cstr "GET / HTTP/1.1\r\n", cstr "Host: a\r\n\r\n"]
        (List.replicate kClientIOBuffSize 0x41)
      = respond [[cstr "GET / HTTP/1.1\r\n", cstr "Host: a\r\n\r\n"].flatten]
        (List.replicate kClientIOBuffSize 0x41) :=
  (respond_split_iff (by decide) (by decide)).mpr (Or.inr (Or.inl ⟨some (cstr "/"), by decide⟩))
    _ List.length_replicate

/-- `"GET "` and `"/ HTTP/1.1\r\n"` in two segments are answered with 400 in a new buffer. -/
theorem split_request_refused : ¬ ∀ (t : List UInt8) (segs : List (List UInt8)),
    t.length ≤ kClientIOBuffSize → [13, 10] <:+: t → segs.flatten = t →
      (∀ s ∈ segs, s ≠ []) → ∀ buf : List UInt8, buf.length = kClientIOBuffSize →
        respond segs buf = respond [t] buf := by
  intro h
  have heq := h (cstr "GET / HTTP/1.1\r\n") [cstr "GET ", cstr "/ HTTP/1.1\r\n"] (by decide)
    ⟨cstr "GET / HTTP/1.1", [], by decide⟩ (by decide) (by decide)
    (List.replicate kClientIOBuffSize 0) List.length_replicate
  have hsplit : respond [cstr "GET ", cstr "/ HTTP/1.1\r\n"]
      (List.replicate kClientIOBuffSize 0) = .transmit none := rfl
  have hone : respond [cstr "GET / HTTP/1.1\r\n"] (List.replicate kClientIOBuffSize 0)
      = .transmit (some (cstr "/")) := rfl
  rw [hsplit, hone] at heq
  cases heq

end AioServer.Windows
