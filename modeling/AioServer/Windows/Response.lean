import AioServer.Lib.Header
import AioServer.Windows.Path
import Mathlib.Data.List.GetD

/-!
# The Windows server: response headers

`http_codes.c` keeps the text of each response in `kHTTPResponseArray`, in the order of
`kHTTPCodes`; `setup_http_response_array` fills in the lengths. The 200 response is a format,
which `string_v_printf` turns into a header.

* `HTTPCodes`, `kHTTPResponseArray`, `setupHttpResponseArray`: `http_codes.c`;
* `vsnprintf`, `vsnprintfS`, `stringVPrintfResult`: `misc.c`, with the conversions that the
  server uses;
* `okHeader`: the header that the 200 format stands for.
-/

namespace AioServer.Windows

open Lib

/-! ## http_codes.c -/

/-- `kHTTPCodes`. -/
inductive HTTPCodes
  | code200Ok
  | code201Created
  | code202Accepted
  | code204NoContent
  | code301MovedPerm
  | code302MovedTemp
  | code304NotModified
  | code400BadRequest
  | code401Unauthorized
  | code403Forbidden
  | code404NotFound
  | code500InternalError
  | code501NotImplemented
  | code502BadGateway
  | code503ServiceUnavailable
deriving DecidableEq, Repr

/-- `struct http_response`; `none` for NULL. -/
structure HttpResponse where
  httpStringSpec : Option (List UInt8)
  httpCode : ℕ
  stringSpecLen : ℕ
deriving DecidableEq, Repr

/-- `kHTTPContentTypeTextHtml`. -/
def kHTTPContentTypeTextHtml : List UInt8 := cstr "text/html; charset=UTF-8"

def kHTTPResponseArray : List HttpResponse :=
  [⟨some (cstr "HTTP/1.1 200 OK\r\n" ++ cstr "Content-length: %I64u\r\n" ++
      cstr "Connection: close\r\n" ++ cstr "Content-Type: %s\r\n\r\n"), 200, 0xFFFFFFFF⟩,
    ⟨none, 201, 0⟩,
    ⟨none, 202, 0⟩,
    ⟨none, 204, 0⟩,
    ⟨none, 301, 0⟩,
    ⟨none, 302, 0⟩,
    ⟨none, 304, 0⟩,
    ⟨some (cstr "HTTP/1.1 400 Bad request\r\nConnection: close\r\n" ++
      cstr "Content-Length: 0\r\n\r\n"), 400, 0⟩,
    ⟨none, 401, 0⟩,
    ⟨none, 403, 0⟩,
    ⟨some (cstr "HTTP/1.1 404 Not found\r\nConnection: close\r\nContent-Length: 0\r\n\r\n"),
      404, 0⟩,
    ⟨some (cstr "HTTP/1.1 500 Internal server error\r\nConnection: close\r\n" ++
      cstr "Content-Length: 0\r\n\r\n"), 500, 0⟩,
    ⟨none, 501, 0⟩,
    ⟨none, 502, 0⟩,
    ⟨none, 503, 0⟩]

/-- The body of the loop in `setup_http_response_array`; `strlen` counts the bytes of the text. -/
def setupEntry (r : HttpResponse) : HttpResponse :=
  match r.httpStringSpec with
  | none => r
  | some spec => { r with stringSpecLen := spec.length }

def setupHttpResponseArray (a : List HttpResponse) : List HttpResponse := a.map setupEntry

/-- `kHTTPResponseArray[code]`. -/
def responseAt (a : List HttpResponse) (code : HTTPCodes) : HttpResponse :=
  a.getD code.ctorIdx ⟨none, 0, 0⟩

/-! ## misc.c -/

/-- An argument behind the format. -/
inductive VaArg
  | u64 (n : ℕ)
  | str (s : List UInt8)
deriving DecidableEq, Repr

/-- The text that a format with the conversions `%s` and `%I64u` stands for. -/
def vsnprintf : List UInt8 → List VaArg → List UInt8
  | 0x25 :: 0x73 :: fmt, .str s :: args => s ++ vsnprintf fmt args
  | 0x25 :: 0x49 :: 0x36 :: 0x34 :: 0x75 :: fmt, .u64 n :: args =>
    decimal n ++ vsnprintf fmt args
  | b :: fmt, args => b :: vsnprintf fmt args
  | [], _ => []

/-- `vsnprintf_s`, with room for `count` bytes and a NUL: what it writes in front of the NUL,
and what it returns. -/
def vsnprintfS (count : ℕ) (text : List UInt8) : List UInt8 × ℤ :=
  if text.length ≤ count then (text, text.length) else (text.take count, -1)

/-- `string_v_printf`: what it writes in front of the NUL, and what it returns. -/
def stringVPrintfResult (dstLen : ℕ) (fmt : List UInt8) (args : List VaArg) : List UInt8 × ℕ :=
  let r := vsnprintfS (dstLen - 1) (vsnprintf fmt args)
  (r.1, if r.2 > 0 then r.2.toNat else 0)

/-- What is written is the text cut to the buffer. -/
theorem vsnprintfS_fst (dstLen : ℕ) (text : List UInt8) :
    (vsnprintfS (dstLen - 1) text).1 = stringVPrintf dstLen text := by
  unfold vsnprintfS stringVPrintf
  split_ifs with h
  · exact (List.take_of_length_le h).symm
  · rfl

/-- A text that fits is written, and its length returned. -/
theorem stringVPrintfResult_fits {dstLen : ℕ} {fmt : List UInt8} {args : List VaArg}
    (h : (vsnprintf fmt args).length ≤ dstLen - 1) :
    stringVPrintfResult dstLen fmt args = (vsnprintf fmt args, (vsnprintf fmt args).length) := by
  have hresult : vsnprintfS (dstLen - 1) (vsnprintf fmt args)
      = (vsnprintf fmt args, ((vsnprintf fmt args).length : ℤ)) := if_pos h
  unfold stringVPrintfResult
  rw [hresult, Prod.mk.injEq]
  refine ⟨rfl, ?_⟩
  split_ifs <;> omega

/-- `"%s/%s"` is the path of a resource. -/
theorem filePath_eq (root resPath : List UInt8) :
    (stringVPrintfResult (maxPath + 1) (cstr "%s/%s") [.str root, .str (skipSlash resPath)]).1
      = filePath root resPath := by
  have htext : vsnprintf (cstr "%s/%s") [.str root, .str (skipSlash resPath)]
      = root ++ 47 :: (skipSlash resPath ++ []) := rfl
  unfold stringVPrintfResult filePath
  rw [vsnprintfS_fst, htext, List.append_nil]

/-- Never more than the buffer has room for. -/
theorem length_stringVPrintfResult_le (dstLen : ℕ) (fmt : List UInt8) (args : List VaArg) :
    (stringVPrintfResult dstLen fmt args).1.length ≤ dstLen - 1 := by
  unfold stringVPrintfResult
  rw [vsnprintfS_fst]
  exact List.length_take_le _ _

/-! ## The headers -/

/-- `setup_http_response_array` leaves the texts alone and fills in their lengths. -/
theorem responseAt_setup (a : List HttpResponse) (code : HTTPCodes) :
    responseAt (setupHttpResponseArray a) code = setupEntry (responseAt a code) :=
  List.getD_map a ⟨none, 0, 0⟩ setupEntry

theorem httpStringSpec_setup (a : List HttpResponse) (code : HTTPCodes) :
    (responseAt (setupHttpResponseArray a) code).httpStringSpec
      = (responseAt a code).httpStringSpec := by
  rw [responseAt_setup]
  unfold setupEntry
  split
  · rfl
  · rfl

theorem stringSpecLen_setup {a : List HttpResponse} {code : HTTPCodes} {spec : List UInt8}
    (h : (responseAt a code).httpStringSpec = some spec) :
    (responseAt (setupHttpResponseArray a) code).stringSpecLen = spec.length := by
  rw [responseAt_setup, setupEntry, h]

/-- The header of the 200 response for a file of `size` bytes. -/
def okHeader (size : ℕ) : HeaderBlock where
  lines := [cstr "HTTP/1.1 200 OK", cstr "Content-length: " ++ decimal size,
    cstr "Connection: close", cstr "Content-Type: text/html; charset=UTF-8"]
  ne := by simp
  line := by
    have hconst : ∀ l ∈ [cstr "HTTP/1.1 200 OK", cstr "Content-length: ", cstr "Connection: close",
        cstr "Content-Type: text/html; charset=UTF-8"], l ≠ [] ∧ 13 ∉ l ∧ 10 ∉ l := by
      decide
    have hdigits : ∀ b, isDigit b = false → b ∉ decimal size :=
      fun b hb hmem => ne_of_isDigit (isDigit_decimal b hmem) hb rfl
    intro l hl
    simp only [List.mem_cons, List.not_mem_nil, or_false] at hl
    rcases hl with rfl | rfl | rfl | rfl
    · exact hconst _ (by simp)
    · obtain ⟨hne, hcr, hlf⟩ := hconst (cstr "Content-length: ") (by simp)
      rw [List.mem_append, List.mem_append]
      exact ⟨List.append_ne_nil_of_left_ne_nil hne _, not_or.mpr ⟨hcr, hdigits 13 (by decide)⟩,
        not_or.mpr ⟨hlf, hdigits 10 (by decide)⟩⟩
    · exact hconst _ (by simp)
    · exact hconst _ (by simp)

/-- The header of an error response with this status line. -/
def errorHeader (status : List UInt8) (h : status ≠ [] ∧ 13 ∉ status ∧ 10 ∉ status) :
    HeaderBlock where
  lines := [status, cstr "Connection: close", cstr "Content-Length: 0"]
  ne := by simp
  line := by
    have hconst : ∀ l ∈ [cstr "Connection: close", cstr "Content-Length: 0"],
        l ≠ [] ∧ 13 ∉ l ∧ 10 ∉ l := by decide
    intro l hl
    rcases List.mem_cons.mp hl with rfl | hl
    · exact h
    · exact hconst l hl

section headers

variable {size : ℕ}

/-- What is in front of the number and behind it. -/
theorem okHeader_parts (size : ℕ) : (okHeader size).text =
    cstr "HTTP/1.1 200 OK\r\nContent-length: " ++ (decimal size ++
      cstr "\r\nConnection: close\r\nContent-Type: text/html; charset=UTF-8\r\n\r\n") := by
  have htext : (okHeader size).text = cstr "HTTP/1.1 200 OK\r\n" ++
      ((cstr "Content-length: " ++ decimal size) ++
        cstr "\r\nConnection: close\r\nContent-Type: text/html; charset=UTF-8\r\n\r\n") := by
    simp only [HeaderBlock.text, okHeader, List.map_cons, List.map_nil, List.flatten_cons,
      List.flatten_nil, List.append_assoc]
    rfl
  rw [htext, List.append_assoc, ← List.append_assoc]
  rfl

/-- The 200 format stands for the header. -/
theorem okHeader_text (size : ℕ) :
    (responseAt kHTTPResponseArray .code200Ok).httpStringSpec.map
        (fun spec => vsnprintf spec [.u64 size, .str kHTTPContentTypeTextHtml])
      = some (okHeader size).text := by
  rw [okHeader_parts]
  rfl

theorem contentLengths_okHeader : contentLengths (okHeader size).text = [some size] := by
  have hdigit : (decimal size).head? ≠ some 32 := by
    intro h
    have hspace := isDigit_decimal 32 (List.mem_of_mem_head? h)
    revert hspace
    decide
  have hlength : fieldValue (cstr "Content-Length") (cstr "Content-length: " ++ decimal size)
      = some (decimal size) :=
    @fieldValue_line (cstr "Content-Length") (cstr "Content-length") (decimal size) (by decide)
      (by decide) hdigit
  have hothers : [cstr "Connection: close", cstr "Content-Type: text/html; charset=UTF-8"].filterMap
      (fieldValue (cstr "Content-Length")) = [] := by decide
  unfold contentLengths
  rw [headerLines_text, okHeader, List.tail_cons, List.filterMap_cons_some hlength, hothers,
    List.map_singleton, readDecimal_decimal]

theorem statusCode_okHeader : statusCode (okHeader size).text = some 200 := by
  have hstatus : ((fields (cstr "HTTP/1.1 200 OK"))[1]?).bind readDecimal = some 200 := by decide
  unfold statusCode
  rw [headerLines_text]
  exact hstatus

/-- With 20 digits the header fits into the buffer of a client. -/
theorem length_okHeader (h : size < 2 ^ 64) :
    (okHeader size).text.length ≤ kClientIOBuffSize - 1 := by
  have hdigits : (decimal size).length ≤ 20 :=
    length_decimal_le (by decide) (Nat.lt_trans h (by decide))
  have hlen : (okHeader size).text.length = 33 + ((decimal size).length + 63) := by
    rw [okHeader_parts, List.length_append, List.length_append]
    rfl
  rw [hlen]
  show _ ≤ 2047
  omega

theorem zero_notMem_okHeader : (0 : UInt8) ∉ (okHeader size).text := by
  have hdigit : (0 : UInt8) ∉ decimal size := by
    intro h
    exact ne_of_isDigit (isDigit_decimal 0 h) (by decide) rfl
  rw [okHeader_parts, List.mem_append, List.mem_append]
  rintro (h | h | h)
  · revert h
    decide
  · exact hdigit h
  · revert h
    decide

end headers

/-! ## Error responses -/

section errors

variable {status : List UInt8} {h : status ≠ [] ∧ 13 ∉ status ∧ 10 ∉ status}

theorem contentLengths_errorHeader : contentLengths (errorHeader status h).text = [some 0] := by
  have hfields : ([cstr "Connection: close", cstr "Content-Length: 0"].filterMap
      (fieldValue (cstr "Content-Length"))).map readDecimal = [some 0] := by decide
  unfold contentLengths
  rw [headerLines_text]
  exact hfields

theorem statusCode_errorHeader :
    statusCode (errorHeader status h).text = ((fields status)[1]?).bind readDecimal := by
  unfold statusCode
  rw [headerLines_text]
  rfl

/-- The three error responses of the server. -/
theorem exists_errorHeader {code : HTTPCodes}
    (hcode : code ∈ [.code400BadRequest, .code404NotFound, .code500InternalError]) :
    ∃ block : HeaderBlock, (responseAt kHTTPResponseArray code).httpStringSpec = some block.text ∧
      contentLengths block.text = [some 0] ∧ statusCode block.text ≠ some 200 := by
  have herror : ∀ (status : List UInt8) (hs : status ≠ [] ∧ 13 ∉ status ∧ 10 ∉ status),
      (responseAt kHTTPResponseArray code).httpStringSpec = some (errorHeader status hs).text →
      ((fields status)[1]?).bind readDecimal ≠ some 200 → ∃ block : HeaderBlock,
        (responseAt kHTTPResponseArray code).httpStringSpec = some block.text ∧
          contentLengths block.text = [some 0] ∧ statusCode block.text ≠ some 200 :=
    fun status hs htext hstatus => ⟨errorHeader status hs, htext, contentLengths_errorHeader,
      by rw [statusCode_errorHeader]; exact hstatus⟩
  simp only [List.mem_cons, List.not_mem_nil, or_false] at hcode
  rcases hcode with rfl | rfl | rfl
  · exact herror (cstr "HTTP/1.1 400 Bad request") (by decide) (by decide +kernel) (by decide)
  · exact herror (cstr "HTTP/1.1 404 Not found") (by decide) (by decide +kernel) (by decide)
  · exact herror (cstr "HTTP/1.1 500 Internal server error") (by decide) (by decide +kernel)
      (by decide)

end errors

end AioServer.Windows
