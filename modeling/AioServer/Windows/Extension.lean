import AioServer.Lib.Retry
import AioServer.Windows.Startup

/-!
# The Windows server: loading an extension function

`load_function_pointer_from_wsa` asks for the pointer of an extension function. When `WSAIoctl`
leaves the request pending it calls `WSAGetOverlappedResult` without waiting, again and again as
long as the error is `WSA_IO_PENDING`. But for an operation that is not finished the error is
`WSA_IO_INCOMPLETE`.

* `loadFunctionPointerFromWsa`: the function, with the results of its calls;
* `Operation`: a pending request, by the documentation of Winsock;
* `awaited_iff`: only a request that is finished at the first call is waited for;
* `serverInit_of_slow`: otherwise `server_init` fails.
-/

namespace AioServer.Windows.Extension

open Lib

/-! ## The code -/

/-- What `WSAGetLastError` returns. -/
abbrev ErrorCode := ℕ

/-- `WSA_IO_PENDING`. -/
def wsaIoPending : ErrorCode := errorIoPending

/-- `WSA_IO_INCOMPLETE`. -/
def wsaIoIncomplete : ErrorCode := 996

/-- The result of a call: success, or the error. -/
abbrev WsaResult := Except ErrorCode Unit

/-- The condition for another round of the loop. -/
def goesOn : WsaResult → Bool
  | .ok _ => false
  | .error e => e == wsaIoPending

/-- What the loop returns. -/
def succeeded : WsaResult → Bool
  | .ok _ => true
  | .error _ => false

/-- `load_function_pointer_from_wsa`: the result, and how many times `WSAGetOverlappedResult` was
called. Its results are a stream. -/
def loadFunctionPointerFromWsa (wsaIoctl : WsaResult) (wsaGetOverlappedResult : ℕ → WsaResult)
    (fuel : ℕ) : Option (Bool × ℕ) :=
  match wsaIoctl with
  | .ok _ => some (true, 0)
  | .error e =>
    if e ≠ wsaIoPending then some (false, 0)
    else (retry goesOn wsaGetOverlappedResult fuel 0).map fun r => (succeeded r.1, r.2)

/-! ## Pending requests -/

/-- A request that `WSAIoctl` has left pending: how many calls of `WSAGetOverlappedResult` find
it unfinished, and how it then ends. The errors that say that an operation is under way are not
among its own. -/
structure Operation where
  unfinished : ℕ
  completion : WsaResult
  own : ∀ e, completion = .error e → e ≠ wsaIoIncomplete ∧ e ≠ wsaIoPending

namespace Operation

/-- `WSAGetOverlappedResult` with `fWait` FALSE. -/
def poll (op : Operation) (k : ℕ) : WsaResult :=
  if k < op.unfinished then .error wsaIoIncomplete else op.completion

/-- A call of the function for this request. -/
def load (op : Operation) (fuel : ℕ) : Option (Bool × ℕ) :=
  loadFunctionPointerFromWsa (.error wsaIoPending) op.poll fuel

/-- A request that succeeds makes the function return TRUE, with the call that finds it finished;
one that fails makes it return FALSE. -/
def Awaited (op : Operation) : Prop :=
  match op.completion with
  | .ok _ => ∃ fuel, op.load fuel = some (true, op.unfinished + 1)
  | .error _ => ∃ fuel polls, op.load fuel = some (false, polls)

variable {op : Operation}

/-- Nothing that the request is answered with makes the loop go on. -/
theorem goesOn_poll (op : Operation) (k : ℕ) : goesOn (op.poll k) = false := by
  unfold poll
  split_ifs
  · decide
  · cases hc : op.completion with
    | ok _ => rfl
    | error e => simpa [goesOn] using (op.own e hc).2

/-- The first call decides. -/
theorem load_eq {fuel : ℕ} (hfuel : 0 < fuel) : op.load fuel = some (succeeded (op.poll 0), 1) := by
  obtain ⟨fuel, rfl⟩ := Nat.exists_eq_add_one_of_ne_zero hfuel.ne'
  unfold load loadFunctionPointerFromWsa
  simp only [ne_eq, not_true_eq_false, if_false]
  rw [retry_of_not_again (op.goesOn_poll 0)]
  rfl

/-- Whatever it returns, it returns after one call. -/
theorem polls_of_load {fuel polls : ℕ} {result : Bool} (h : op.load fuel = some (result, polls)) :
    result = succeeded (op.poll 0) ∧ polls = 1 := by
  cases fuel with
  | zero => cases h
  | succ fuel =>
    rw [load_eq (Nat.succ_pos fuel)] at h
    cases h
    exact ⟨rfl, rfl⟩

/-- A request is waited for if and only if it fails, or is finished at the first call. -/
theorem awaited_iff : op.Awaited ↔ op.unfinished = 0 ∨ ∃ e, op.completion = .error e := by
  unfold Awaited
  cases hc : op.completion with
  | ok u =>
    constructor
    · rintro ⟨fuel, h⟩
      have hone := (polls_of_load h).2
      exact Or.inl (by omega)
    · rintro (hzero | ⟨e, he⟩)
      · refine ⟨1, ?_⟩
        rw [load_eq Nat.one_pos, poll, hzero, if_neg (Nat.lt_irrefl 0), hc]
        rfl
      · cases he
  | error e =>
    refine iff_of_true ⟨1, 1, ?_⟩ (Or.inr ⟨e, rfl⟩)
    rw [load_eq Nat.one_pos, poll]
    split_ifs with hpos
    · rfl
    · rw [hc]
      rfl

end Operation

/-! ## The start of the server -/

/-- The calls of the start, for a request that is answered in this way. -/
def Operation.ioctlCalls (op : Operation) (pointer : Startup.Addr) : Startup.IoctlCalls :=
  .pending 0 (if succeeded (op.poll 0) then some pointer else none)

/-- The start finds the pointer when the function returns TRUE. -/
theorem isSome_startup_iff (op : Operation) (pointer : Startup.Addr) :
    (Startup.loadFunctionPointerFromWsa (op.ioctlCalls pointer)).isSome = true ↔
      ∃ fuel, op.load fuel = some (true, 1) := by
  have hstart : Startup.loadFunctionPointerFromWsa (op.ioctlCalls pointer)
      = if succeeded (op.poll 0) then some pointer else none := rfl
  rw [hstart]
  constructor
  · intro h
    refine ⟨1, ?_⟩
    rw [Operation.load_eq Nat.one_pos]
    split_ifs at h with hsucceeded
    · rw [hsucceeded]
    · cases h
  · rintro ⟨fuel, h⟩
    rw [← (Operation.polls_of_load h).1]
    rfl

section init

open Startup

variable {stats : Bool} {ratio : ℤ} {o : InitCalls} {sv : ServerData} {es : Events}

/-- A server that starts has found `AcceptEx`. -/
theorem acceptx_of_pointers (h : (serverInitPointers stats o sv es).2.1 = true) :
    (Startup.loadFunctionPointerFromWsa o.acceptx).isSome = true := by
  unfold serverInitPointers at h
  cases ha : Startup.loadFunctionPointerFromWsa o.acceptx with
  | none => simp [ha] at h
  | some acceptx => rfl

theorem acceptx_of_init (h : (serverInit stats ratio o).2.1 = true) :
    (Startup.loadFunctionPointerFromWsa o.acceptx).isSome = true := by
  unfold serverInit serverInitPorts at h
  cases hw : o.wsaStartup with
  | false => simp [hw] at h
  | true =>
    cases hi : o.iocp with
    | none => simp [hw, hi] at h
    | some iocp =>
      cases ha : o.iocpAccept with
      | none => simp [hw, hi, ha] at h
      | some iocpAccept =>
        rcases hr : createServerSocket o.socket with ⟨svSock, fs⟩
        cases svSock with
        | none => simp [hw, hi, ha, hr] at h
        | some svSock =>
          simp only [hw, hi, ha, hr, if_true] at h
          exact acceptx_of_pointers h

/-- When the request for `AcceptEx` is slow, the server does not start. -/
theorem serverInit_of_slow {op : Operation} {pointer : Addr} (hslow : 0 < op.unfinished)
    (ho : o.acceptx = op.ioctlCalls pointer) : (serverInit stats ratio o).2.1 = false := by
  by_contra hstarted
  have hsome := acceptx_of_init (Bool.not_eq_false _ ▸ hstarted)
  rw [ho, isSome_startup_iff] at hsome
  obtain ⟨fuel, h⟩ := hsome
  have hpoll := (Operation.polls_of_load h).1
  rw [Operation.poll, if_pos hslow] at hpoll
  cases hpoll

end init

/-- A request that is finished at the second call. -/
def secondCall : Operation where
  unfinished := 1
  completion := .ok ()
  own := by
    intro e he
    cases he

/-- It succeeds, and the function returns FALSE. -/
theorem gives_up : ¬ ∀ op : Operation, op.Awaited := by
  intro h
  obtain ⟨fuel, hload⟩ := h secondCall
  exact absurd (Operation.polls_of_load hload).2 (by decide)

end AioServer.Windows.Extension
