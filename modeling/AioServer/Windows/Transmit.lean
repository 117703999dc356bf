import AioServer.Windows.Response
import AioServer.Windows.Sockets

/-!
# The Windows server: transmitting a resource

`server_transmit_resource` opens the file, chooses a header and hands both to `TransmitFile`.
The header is a text of `kHTTPResponseArray`, or is printed over the buffer of the client.

* `ClientData` is a client with its buffer and `cl_ts_buffers`, `serverTransmitResource` the
  function, with the calls it makes; `transmit_run`: these are steps of a worker;
* `ClientRun` is what the server makes of a client from `client_create` on;
* `opensRequested_iff`: when the path that is opened is the one that was asked for;
* `selfConsistent_transmit`: what `TransmitFile` is given fits together.
-/

namespace AioServer.Windows

open Lib

/-! ## Data -/

/-- What a pointer in `cl_ts_buffers` points at. -/
inductive BufferPtr
  | null
  /-- `http_string_spec` of an entry of the table -/
  | spec (code : HTTPCodes)
  | clBuffer
deriving DecidableEq, Repr

/-- `TRANSMIT_FILE_BUFFERS`. -/
structure TransmitFileBuffers where
  head : BufferPtr
  headLength : ℕ
  tail : BufferPtr
  tailLength : ℕ
deriving DecidableEq, Repr

/-- `struct client`, with what `Client` leaves out. -/
structure ClientData where
  client : Client
  clBuffer : List UInt8
  clTsBuffers : TransmitFileBuffers
  offset : ℕ
  offsetHigh : ℕ
deriving DecidableEq, Repr

/-- What the system answers to a worker. -/
structure ResourceCalls where
  createFile : List UInt8 → Handle
  /-- `GetLastError` after `CreateFile` -/
  getLastError : ℕ
  /-- `QuadPart`, or `none` when the call fails -/
  getFileSizeEx : Handle → Option ℤ
  /-- `TransmitFile`: `none` for TRUE, otherwise what `WSAGetLastError` gives -/
  transmitFile : Option ℕ

/-- The arguments of `sv_transmit_file`. -/
structure TransmitCall where
  hSocket : Socket
  hFile : Option Handle
  nNumberOfBytesToWrite : ℕ
  nNumberOfBytesPerSend : ℕ
  transmitBuffers : TransmitFileBuffers
  dwFlags : ℕ
deriving DecidableEq, Repr

/-- A run of `server_transmit_resource`: the client after it, the path passed to `CreateFile`,
the handle passed to `CloseHandle`, the call of `TransmitFile`, and the result. -/
structure Transmission where
  data : ClientData
  createFile : Option (List UInt8)
  closeHandle : Option Handle
  call : TransmitCall
  ret : Bool

/-! ## The code -/

/-- `ERROR_FILE_NOT_FOUND`. -/
def errorFileNotFound : ℕ := 2

/-- `TF_DISCONNECT | TF_REUSE_SOCKET`. -/
def tfDisconnectReuse : ℕ := 0x01 ||| 0x02

namespace ClientData

def setFile (cl : ClientData) (h : Handle) : ClientData :=
  { cl with client := { cl.client with clFile := h } }

def setOpcode (cl : ClientData) (opcode : IOOpcode) : ClientData :=
  { cl with client := { cl.client with aioOpcode := opcode } }

/-- `Head` and `HeadLength`, from the table. -/
def setSpec (cl : ClientData) (a : List HttpResponse) (code : HTTPCodes) : ClientData :=
  { cl with clTsBuffers := { cl.clTsBuffers with
      head := .spec code
      headLength := (responseAt a code).stringSpecLen } }

/-- The 200 header, printed over `cl_buffer`. -/
def printHeader (cl : ClientData) (a : List HttpResponse) (quadPart : ℤ) : ClientData :=
  let r := stringVPrintfResult kClientIOBuffSize
    ((responseAt a .code200Ok).httpStringSpec.getD [])
    [.u64 (quadPart % 2 ^ 64).toNat, .str kHTTPContentTypeTextHtml]
  { cl with
    clBuffer := r.1 ++ 0 :: cl.clBuffer.drop (r.1.length + 1)
    clTsBuffers := { cl.clTsBuffers with head := .clBuffer, headLength := r.2 } }

end ClientData

/-- The end of `server_transmit_resource`. -/
def transmitFile (o : ResourceCalls) (cl : ClientData) (createFile : Option (List UInt8))
    (closeHandle : Option Handle) : Transmission :=
  let cl := { cl with offset := 0, offsetHigh := 0 }
  { data := cl
    createFile := createFile
    closeHandle := closeHandle
    call :=
      { hSocket := cl.client.clSock
        hFile := if cl.client.clFile = invalidHandleValue then none else some cl.client.clFile
        nNumberOfBytesToWrite := 0
        nNumberOfBytesPerSend := 0
        transmitBuffers := cl.clTsBuffers
        dwFlags := tfDisconnectReuse }
    ret := match o.transmitFile with
      | none => true
      | some err => err = errorIoPending }

/-- The branch of a file that could not be opened. -/
def openFailed (a : List HttpResponse) (o : ResourceCalls) (cl : ClientData) : ClientData :=
  if o.getLastError = errorFileNotFound then cl.setSpec a .code404NotFound
  else cl.setSpec a .code500InternalError

/-- `server_transmit_resource`; `root` is `so_www_rootdir`, and `resPath` is `none` for NULL. -/
def serverTransmitResource (root : List UInt8) (a : List HttpResponse) (o : ResourceCalls)
    (cl : ClientData) (resPath : Option (List UInt8)) : Transmission :=
  let cl := cl.setOpcode .sockWrite
  match resPath with
  | none => transmitFile o (cl.setSpec a .code400BadRequest) none none
  | some resPath =>
    -- the returned length is not looked at
    let path := (stringVPrintfResult (maxPath + 1) (cstr "%s/%s")
      [.str root, .str (skipSlash resPath)]).1
    let h := o.createFile path
    let cl := cl.setFile h
    if h = invalidHandleValue then transmitFile o (openFailed a o cl) (some path) none
    else
      match o.getFileSizeEx h with
      | some quadPart => transmitFile o (cl.printHeader a quadPart) (some path) none
      | none =>
        transmitFile o ((cl.setSpec a .code500InternalError).setFile invalidHandleValue)
          (some path) (some h)

/-! ## The steps of a worker -/

section steps

variable {m : ℤ} {s : State} {i : ℕ} {w : Worker} {c : ClientPtr} {root : List UInt8}
  {a : List HttpResponse} {o : ResourceCalls} {cl : ClientData} {resPath : Option (List UInt8)}

theorem step_worker (hcr : s.crashed = false) (hw : s.workers[i]? = some w) (call : WorkerCall) :
    step m s (.worker i call) = workerStep s i w call := by
  simp [step, hcr, hw]

/-- The worker that is set in the place of another. -/
theorem setWorker_workers {v : Worker} (hw : s.workers[i]? = some w) :
    (s.setWorker i v).workers[i]? = some v := by
  obtain ⟨hi, -⟩ := List.getElem?_eq_some_iff.mp hw
  exact List.getElem?_set_self hi

/-- The steps of a worker from `openResource` to `transmit` are the function. -/
theorem transmit_run (hcr : s.crashed = false) (hw : s.workers[i]? = some w)
    (hpc : w.pc = .openResource c resPath) (hc : s.heap c = some cl.client) :
    ∃ tr s', Run (step m) s tr s' ∧ (s'.workers[i]?).map Worker.pc = some (.transmit c) ∧
      s'.heap c = some (serverTransmitResource root a o cl resPath).data.client := by
  cases resPath with
  | none =>
    have hstep : step m s (.worker i .tau) = some ((s.setClient c
        { cl.client with aioOpcode := .sockWrite }).setWorker i { w with pc := .transmit c }) := by
      rw [step_worker hcr hw]
      simp [workerStep, hpc, State.withClient, hc]
    refine ⟨_, _, Run.cons hstep Run.nil, ?_, setClient_heap_self s c _⟩
    rw [setWorker_workers (s := s.setClient c _) hw]
    rfl
  | some resPath =>
    let h := o.createFile (filePath root resPath)
    let cl₁ : Client := { cl.client with aioOpcode := .sockWrite, clFile := h }
    let w₁ : Worker := { w with pc := if h = invalidHandleValue then .transmit c else .querySize c }
    let s₁ := (s.setClient c cl₁).setWorker i w₁
    have hopen : step m s (.worker i (.createFile h)) = some s₁ := by
      rw [step_worker hcr hw]
      simp [workerStep, hpc, State.withClient, hc, s₁, w₁, cl₁]
    have hw₁ : s₁.workers[i]? = some w₁ := setWorker_workers (s := s.setClient c cl₁) hw
    have hc₁ : s₁.heap c = some cl₁ := setClient_heap_self s c cl₁
    unfold serverTransmitResource
    simp only [filePath_eq]
    split_ifs with hbad
    · refine ⟨_, _, Run.cons hopen Run.nil, ?_, ?_⟩
      · rw [hw₁, Option.map_some]
        simp only [w₁, h, if_pos hbad]
      · rw [hc₁]
        unfold openFailed
        split_ifs <;> rfl
    · have hpc₁ : w₁.pc = .querySize c := by
        simp only [w₁, h, if_neg hbad]
      have hcr₁ : s₁.crashed = false := hcr
      cases hsize : o.getFileSizeEx h with
      | some quadPart =>
        have hquery : step m s₁ (.worker i (.getFileSizeEx true))
            = some (s₁.setWorker i { w₁ with pc := .transmit c }) := by
          rw [step_worker hcr₁ hw₁]
          simp [workerStep, hpc₁, State.withClient, hc₁]
        refine ⟨_, _, Run.cons hopen (Run.cons hquery Run.nil), ?_, hc₁⟩
        rw [setWorker_workers hw₁]
        rfl
      | none =>
        have hquery : step m s₁ (.worker i (.getFileSizeEx false)) = some ((s₁.setClient c
            { cl₁ with clFile := invalidHandleValue }).setWorker i
            { w₁ with pc := .transmit c }) := by
          rw [step_worker hcr₁ hw₁]
          simp [workerStep, hpc₁, State.withClient, hc₁]
        refine ⟨_, _, Run.cons hopen (Run.cons hquery Run.nil), ?_, setClient_heap_self s₁ c _⟩
        rw [setWorker_workers (s := s₁.setClient c _) hw₁]
        rfl

end steps

/-! ## The path -/

/-- `CreateFile` is called with the path that was asked for, or not at all. -/
def OpensRequested (root resPath : List UInt8) (r : Transmission) : Prop :=
  ∀ path, r.createFile = some path → path = root ++ 47 :: skipSlash resPath

section path

variable {root resPath : List UInt8} {a : List HttpResponse} {o : ResourceCalls} {cl : ClientData}

/-- A document is always opened. -/
theorem createFile_transmit : (serverTransmitResource root a o cl (some resPath)).createFile
    = some (filePath root resPath) := by
  unfold serverTransmitResource
  simp only [filePath_eq]
  split_ifs
  · rfl
  · cases o.getFileSizeEx (o.createFile (filePath root resPath)) with
    | none => rfl
    | some quadPart => rfl

/-- The path is the one that was asked for if and only if this has at most `MAX_PATH` bytes. -/
theorem opensRequested_iff :
    OpensRequested root resPath (serverTransmitResource root a o cl (some resPath)) ↔
      root.length + 1 + (skipSlash resPath).length ≤ maxPath := by
  unfold OpensRequested
  rw [createFile_transmit]
  simp only [Option.some.injEq, forall_eq', filePath, stringVPrintf, Nat.add_sub_cancel,
    List.take_eq_self_iff, List.length_append, List.length_cons]
  omega

end path

/-- A system with one file for all paths. -/
def oneFile : ResourceCalls where
  createFile _ := 7
  getLastError := 0
  getFileSizeEx _ := some 1234
  transmitFile := some errorIoPending

/-- Of a document of 300 bytes behind `C:/w` the first 255 are opened. -/
theorem opens_prefix : ¬ ∀ (root resPath : List UInt8) (a : List HttpResponse) (o : ResourceCalls)
    (cl : ClientData), OpensRequested root resPath
      (serverTransmitResource root a o cl (some resPath)) := by
  intro h
  have hpath := h (cstr "C:/w") (List.replicate 300 0x61)
    (setupHttpResponseArray kHTTPResponseArray) oneFile
    ⟨newClient 9, [], ⟨.null, 0, .null, 0⟩, 0, 0⟩ _ createFile_transmit
  have hskip : skipSlash (List.replicate 300 0x61) = List.replicate 300 0x61 := rfl
  have hlong : (filePath (cstr "C:/w") (List.replicate 300 0x61)).length ≤ maxPath :=
    List.length_take_le _ _
  rw [hpath, hskip, List.length_append, List.length_cons, List.length_replicate] at hlong
  revert hlong
  decide

/-! ## The response -/

/-- The text that a pointer points at. -/
def ClientData.textAt (cl : ClientData) (a : List HttpResponse) : BufferPtr → Option (List UInt8)
  | .null => none
  | .spec code => (responseAt a code).httpStringSpec
  | .clBuffer => some (cl.clBuffer.takeWhile (· ≠ 0))

/-- The size of the file that is handed over, 0 for none. -/
def SizeHanded (o : ResourceCalls) (hFile : Option Handle) (size : ℕ) : Prop :=
  match hFile with
  | none => size = 0
  | some h => o.getFileSizeEx h = some (size : ℤ)

/-- `TransmitFile` is given this header block as `Head`, and the rest fits to it. -/
structure Fits (a : List HttpResponse) (o : ResourceCalls) (r : Transmission)
    (block : HeaderBlock) : Prop where
  head : r.data.textAt a r.call.transmitBuffers.head = some block.text
  headLength : r.call.transmitBuffers.headLength = block.text.length
  contentLength : ∃ size, contentLengths block.text = [some size] ∧ SizeHanded o r.call.hFile size
  tail : r.call.transmitBuffers.tail = .null ∧ r.call.transmitBuffers.tailLength = 0
  file : r.call.hFile ≠ none ↔ statusCode block.text = some 200
  closed : r.call.hFile = none → r.data.client.clFile = invalidHandleValue

/-- `Head` is a header block, and the call fits to it. -/
def SelfConsistent (a : List HttpResponse) (o : ResourceCalls) (r : Transmission) : Prop :=
  ∃ block, Fits a o r block

/-! ## The life of a client -/

/-- The client that `client_create` returns: `RtlZeroMemory` clears `cl_ts_buffers`, and the
buffer holds what it held. -/
def clientCreateData (sock : Socket) (clBuffer : List UInt8) : ClientData where
  client := newClient sock
  clBuffer := clBuffer
  clTsBuffers := ⟨.null, 0, .null, 0⟩
  offset := 0
  offsetHigh := 0

/-- What the server makes of a client. The opcode says which handler
`server_process_completions` calls. -/
inductive ClientRun (root : List UInt8) (a : List HttpResponse) : ClientData → Prop
  | clientCreate (sock : Socket) (clBuffer : List UInt8)
      (hlen : clBuffer.length = kClientIOBuffSize) :
      ClientRun root a (clientCreateData sock clBuffer)
  /-- `server_add_client_to_list` and `server_remove_client_from_list` -/
  | tracked {cl : ClientData} (h : ClientRun root a cl) (clIsTracked : Bool) :
      ClientRun root a { cl with client := { cl.client with clIsTracked := clIsTracked } }
  /-- The addresses of `AcceptEx`, the bytes of `WSARecv`, the NULs of `strtok_s`. -/
  | written {cl : ClientData} (h : ClientRun root a cl) (clBuffer : List UInt8)
      (hlen : clBuffer.length = kClientIOBuffSize) :
      ClientRun root a { cl with clBuffer := clBuffer }
  /-- `server_read_from_client` -/
  | readFromClient {cl : ClientData} (h : ClientRun root a cl)
      (hop : cl.client.aioOpcode = .connection) : ClientRun root a (cl.setOpcode .sock0BytesRecv)
  /-- `server_handle_client_request` -/
  | transmitResource {cl : ClientData} (h : ClientRun root a cl)
      (hop : cl.client.aioOpcode = .sock0BytesRecv) (o : ResourceCalls)
      (resPath : Option (List UInt8)) :
      ClientRun root a (serverTransmitResource root a o cl resPath).data
  /-- `server_handle_client_write_completion` -/
  | writeCompletion {cl : ClientData} (h : ClientRun root a cl)
      (hop : cl.client.aioOpcode = .sockWrite) :
      ClientRun root a { cl with client := { cl.client with clSockReused := true } }
  /-- `client_reinit` -/
  | clientReinit {cl : ClientData} (h : ClientRun root a cl) {c : ClientPtr}
      {sockets : SocketTable} {reuseSocket : Bool} {sock : Socket} {r : ReinitResult}
      (hr : AioServer.Windows.clientReinit c cl.client sockets reuseSocket sock = some r) :
      ClientRun root a { cl with client := r.client }

/-- What holds of a client all its life: no tail was ever set, and a file is open only for the
response. -/
structure ClientData.Ok (cl : ClientData) : Prop where
  length : cl.clBuffer.length = kClientIOBuffSize
  tail : cl.clTsBuffers.tail = .null ∧ cl.clTsBuffers.tailLength = 0
  file : cl.client.aioOpcode ≠ .sockWrite → cl.client.clFile = invalidHandleValue

section life

variable {root : List UInt8} {a : List HttpResponse} {o : ResourceCalls} {cl : ClientData}

/-! ## What the function can do -/

/-- Every path through the function ends in the call of `TransmitFile`. -/
theorem exists_transmitFile (resPath : Option (List UInt8)) : ∃ cl' createFile closeHandle,
    serverTransmitResource root a o cl resPath = transmitFile o cl' createFile closeHandle := by
  unfold serverTransmitResource
  cases resPath with
  | none => exact ⟨_, _, _, rfl⟩
  | some resPath =>
    simp only [filePath_eq]
    split_ifs
    · exact ⟨_, _, _, rfl⟩
    · cases o.getFileSizeEx (o.createFile (filePath root resPath)) with
      | none => exact ⟨_, _, _, rfl⟩
      | some quadPart => exact ⟨_, _, _, rfl⟩

/-- Its arguments, from the client after it. -/
theorem call_transmit {resPath : Option (List UInt8)} {r : Transmission}
    (hr : serverTransmitResource root a o cl resPath = r) :
    r.call.transmitBuffers = r.data.clTsBuffers ∧ r.call.hFile =
      if r.data.client.clFile = invalidHandleValue then none else some r.data.client.clFile := by
  obtain ⟨cl', createFile, closeHandle, h⟩ := @exists_transmitFile root a o cl resPath
  rw [← hr, h]
  exact ⟨rfl, rfl⟩

/-- An error response: a text of the table, and no file. -/
structure ErrorSent (a : List HttpResponse) (cl : ClientData) (code : HTTPCodes)
    (cl' : ClientData) : Prop where
  isError : code ∈ [.code400BadRequest, .code404NotFound, .code500InternalError]
  clBuffer : cl'.clBuffer = cl.clBuffer
  clTsBuffers : cl'.clTsBuffers = { cl.clTsBuffers with
    head := .spec code
    headLength := (responseAt a code).stringSpecLen }
  clFile : cl'.client.clFile = invalidHandleValue

/-- The 200 response with the file `h`. -/
structure OkSent (a : List HttpResponse) (o : ResourceCalls) (cl : ClientData) (h : Handle)
    (quadPart : ℤ) (cl' : ClientData) : Prop where
  valid : h ≠ invalidHandleValue
  size : o.getFileSizeEx h = some quadPart
  clBuffer : cl'.clBuffer = (cl.printHeader a quadPart).clBuffer
  clTsBuffers : cl'.clTsBuffers = (cl.printHeader a quadPart).clTsBuffers
  clFile : cl'.client.clFile = h

/-- A client without a file leaves with one of the error responses or with the file. -/
theorem transmit_cases (hfile : cl.client.clFile = invalidHandleValue)
    (resPath : Option (List UInt8)) :
    (∃ code, ErrorSent a cl code (serverTransmitResource root a o cl resPath).data) ∨
      ∃ h quadPart, OkSent a o cl h quadPart
        (serverTransmitResource root a o cl resPath).data := by
  unfold serverTransmitResource
  cases resPath with
  | none => exact Or.inl ⟨.code400BadRequest, by simp, rfl, rfl, hfile⟩
  | some resPath =>
    simp only [filePath_eq]
    split_ifs with hopen
    · left
      unfold openFailed
      split_ifs
      · exact ⟨.code404NotFound, by simp, rfl, rfl, hopen⟩
      · exact ⟨.code500InternalError, by simp, rfl, rfl, hopen⟩
    · cases hsize : o.getFileSizeEx (o.createFile (filePath root resPath)) with
      | none => exact Or.inl ⟨.code500InternalError, by simp, rfl, rfl, rfl⟩
      | some quadPart => exact Or.inr ⟨_, quadPart, hopen, hsize, rfl, rfl, rfl⟩

theorem length_printHeader (hlen : cl.clBuffer.length = kClientIOBuffSize) (quadPart : ℤ) :
    (cl.printHeader a quadPart).clBuffer.length = kClientIOBuffSize := by
  have hle := length_stringVPrintfResult_le kClientIOBuffSize
    ((responseAt a .code200Ok).httpStringSpec.getD [])
    [.u64 (quadPart % 2 ^ 64).toNat, .str kHTTPContentTypeTextHtml]
  unfold ClientData.printHeader
  simp only [List.length_append, List.length_cons, List.length_drop, hlen]
  unfold kClientIOBuffSize at hle ⊢
  omega

theorem opcode_transmit {resPath : Option (List UInt8)} :
    (serverTransmitResource root a o cl resPath).data.client.aioOpcode = .sockWrite := by
  unfold serverTransmitResource
  cases resPath with
  | none => rfl
  | some resPath =>
    simp only [filePath_eq]
    split_ifs
    · unfold openFailed
      split_ifs <;> rfl
    · cases o.getFileSizeEx (o.createFile (filePath root resPath)) <;> rfl

/-! ## The invariant of the life -/

theorem ok_transmit (h : cl.Ok) (hop : cl.client.aioOpcode = .sock0BytesRecv)
    (resPath : Option (List UInt8)) :
    (serverTransmitResource root a o cl resPath).data.Ok := by
  have hfile := h.file (by rw [hop]; decide)
  have hopcode : ∀ {P : Prop},
      (serverTransmitResource root a o cl resPath).data.client.aioOpcode ≠ .sockWrite → P :=
    fun hne => absurd opcode_transmit hne
  rcases transmit_cases hfile resPath with ⟨code, hsent⟩ | ⟨file, quadPart, hsent⟩
  · exact ⟨hsent.clBuffer ▸ h.length, by rw [hsent.clTsBuffers]; exact h.tail, hopcode⟩
  · exact ⟨hsent.clBuffer ▸ length_printHeader h.length quadPart,
      by rw [hsent.clTsBuffers]; exact h.tail, hopcode⟩

/-- It holds of every client. -/
theorem ok_of_run (h : ClientRun root a cl) : cl.Ok := by
  induction h with
  | clientCreate sock clBuffer hlen => exact ⟨hlen, ⟨rfl, rfl⟩, fun _ => rfl⟩
  | tracked _ clIsTracked ih => exact ⟨ih.length, ih.tail, ih.file⟩
  | written _ clBuffer hlen ih => exact ⟨hlen, ih.tail, ih.file⟩
  | readFromClient _ hop ih =>
    exact ⟨ih.length, ih.tail, fun _ => ih.file (by rw [hop]; decide)⟩
  | transmitResource _ hop o resPath ih => exact ok_transmit ih hop resPath
  | writeCompletion _ hop ih => exact ⟨ih.length, ih.tail, ih.file⟩
  | clientReinit _ hr ih => exact ⟨ih.length, ih.tail, fun _ => (reinit_of_clientReinit hr).file⟩

/-! ## Every response -/

/-- The table after `setup_http_response_array`. -/
abbrev responses : List HttpResponse := setupHttpResponseArray kHTTPResponseArray

/-- The printed header is the one for the size of the file. -/
theorem printHeader_responses {quadPart : ℤ} (hpos : 0 ≤ quadPart) (hlt : quadPart < 2 ^ 63) :
    (cl.printHeader responses quadPart).clTsBuffers = { cl.clTsBuffers with
        head := .clBuffer
        headLength := (okHeader quadPart.toNat).text.length } ∧
      (cl.printHeader responses quadPart).clBuffer.takeWhile (· ≠ 0)
        = (okHeader quadPart.toNat).text := by
  have hsize : (quadPart % 2 ^ 64).toNat = quadPart.toNat := by omega
  obtain ⟨spec, hspec, htext⟩ := Option.map_eq_some_iff.mp (okHeader_text quadPart.toNat)
  have hfits : (vsnprintf spec [.u64 quadPart.toNat, .str kHTTPContentTypeTextHtml]).length
      ≤ kClientIOBuffSize - 1 := by
    rw [htext]
    exact length_okHeader (by omega)
  have hprint := stringVPrintfResult_fits hfits
  rw [htext] at hprint
  have hdata : cl.printHeader responses quadPart = { cl with
      clBuffer := (okHeader quadPart.toNat).text ++
        0 :: cl.clBuffer.drop ((okHeader quadPart.toNat).text.length + 1)
      clTsBuffers := { cl.clTsBuffers with
        head := .clBuffer
        headLength := (okHeader quadPart.toNat).text.length } } := by
    unfold ClientData.printHeader
    rw [httpStringSpec_setup, hspec, Option.getD_some, hsize, hprint]
  rw [hdata]
  refine ⟨rfl, ?_⟩
  have hne : ∀ b ∈ (okHeader quadPart.toNat).text, decide (b ≠ 0) = true := by
    intro b hb
    rw [decide_eq_true_eq]
    rintro rfl
    exact zero_notMem_okHeader hb
  show ((okHeader quadPart.toNat).text ++ 0 :: _).takeWhile (· ≠ 0) = _
  rw [List.takeWhile_append_of_pos hne, List.takeWhile_cons_of_neg (by decide), List.append_nil]

/-- Whatever is requested and whatever the system answers, what `TransmitFile` is given fits
together. -/
theorem selfConsistent_transmit (h : ClientRun root responses cl)
    (hop : cl.client.aioOpcode = .sock0BytesRecv)
    (hsize : ∀ file quadPart, o.getFileSizeEx file = some quadPart →
      0 ≤ quadPart ∧ quadPart < 2 ^ 63) (resPath : Option (List UInt8)) :
    SelfConsistent responses o (serverTransmitResource root responses o cl resPath) := by
  have hok := ok_of_run h
  have hfile := hok.file (by rw [hop]; decide)
  generalize hr : serverTransmitResource root responses o cl resPath = r
  obtain ⟨hbuffers, hhandle⟩ := call_transmit hr
  rcases transmit_cases hfile resPath with ⟨code, hsent⟩ | ⟨file, quadPart, hsent⟩
  · rw [hr] at hsent
    obtain ⟨block, htext, hlength, hstatus⟩ := exists_errorHeader hsent.isError
    rw [if_pos hsent.clFile] at hhandle
    rw [hsent.clTsBuffers] at hbuffers
    refine ⟨block, ?_, ?_, ⟨0, hlength, ?_⟩, ?_, ?_, fun _ => hsent.clFile⟩
    · rw [hbuffers]
      exact (httpStringSpec_setup _ code).trans htext
    · rw [hbuffers]
      exact stringSpecLen_setup htext
    · rw [hhandle]
      rfl
    · rw [hbuffers]
      exact hok.tail
    · rw [hhandle]
      exact iff_of_false (fun hne => hne rfl) hstatus
  · rw [hr] at hsent
    obtain ⟨hpos, hlt⟩ := hsize file quadPart hsent.size
    obtain ⟨hprinted, htext⟩ := @printHeader_responses cl quadPart hpos hlt
    rw [hsent.clFile, if_neg hsent.valid] at hhandle
    rw [hsent.clTsBuffers, hprinted] at hbuffers
    refine ⟨okHeader quadPart.toNat, ?_, ?_, ⟨quadPart.toNat, contentLengths_okHeader, ?_⟩, ?_, ?_,
      ?_⟩
    · rw [hbuffers]
      show some (r.data.clBuffer.takeWhile (· ≠ 0)) = _
      rw [hsent.clBuffer, htext]
    · rw [hbuffers]
    · rw [hhandle]
      show o.getFileSizeEx file = some ((quadPart.toNat : ℕ) : ℤ)
      rw [hsent.size, Int.toNat_of_nonneg hpos]
    · rw [hbuffers]
      exact hok.tail
    · rw [hhandle]
      exact iff_of_true (Option.some_ne_none file) statusCode_okHeader
    · intro hnone
      rw [hhandle] at hnone
      cases hnone

end life

/-- A new client that asks for a page. -/
theorem selfConsistent_new : SelfConsistent responses oneFile
    (serverTransmitResource (cstr "C:/w") responses oneFile
      ((clientCreateData 9 (List.replicate kClientIOBuffSize 0)).setOpcode .sock0BytesRecv)
      (some (cstr "/index.html"))) :=
  selfConsistent_transmit
    (.readFromClient (.clientCreate 9 _ List.length_replicate) rfl) rfl
    (by rintro file quadPart ⟨⟩; decide) _

end AioServer.Windows
