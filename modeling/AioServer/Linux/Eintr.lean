import AioServer.Lib.Retry

/-!
# The Linux server: interrupted system calls

`base/eintr_wrapper.h`: `HANDLE_EINTR_ON_SYSCALL` makes a system call again as long as it
returns -1 with `errno == EINTR`. A result is `Except.error errno` where the call returns -1.
-/

namespace AioServer.Linux

open Lib

/-- `errno`. -/
abbrev Errno := ℕ

def eintr : Errno := 4
def ebadf : Errno := 9
def eagain : Errno := 11
def ewouldblock : Errno := eagain
def emfile : Errno := 24
def emsgsize : Errno := 90

/-- The result of a system call. -/
abbrev SysResult (α : Type) := Except Errno α

/-- The condition of the loop in `HANDLE_EINTR_ON_SYSCALL`. -/
def interrupted {α : Type} : SysResult α → Bool
  | .error errno => errno == eintr
  | .ok _ => false

/-- `HANDLE_EINTR_ON_SYSCALL` on a call whose results are the stream `syscall`, from its call
number `k` on. -/
def handleEintrOnSyscall {α : Type} (syscall : ℕ → SysResult α) (fuel k : ℕ) :
    Option (SysResult α × ℕ) :=
  retry interrupted syscall fuel k

end AioServer.Linux
