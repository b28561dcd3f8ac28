/-
  `check_passwd` of telnetd/check_passwd.c.

  Model. `checkPasswd` is a function of what its calls return: the environment variable,
  the outcomes of `tcgetattr` and `tcsetattr`, and one result of `fgets` on stdin for each
  prompt (`none` for a null return: a timeout or the end of input; a line is the C string
  that `fgets` left in the buffer). The DES hash `__des_crypt_r` is the parameter `crypt`.
  The result records the return value, the lines that were read, the attributes written
  to the terminal in order, and whether the failed login was logged.
-/
import SsrlApps.Telnetd.Pty

namespace SsrlApps.Telnetd

def maxPassRetry : Nat := 3

/-- `TELNETD_DEFAULT_PASSWD` of passwd.h. -/
def telnetdDefaultPasswd : List UInt8 := ascii "tduDcyLX12owo"

/-- What `check_passwd` uses of `struct termios`. -/
structure Termios where
  echo : Bool
  icanon : Bool
  vtime : UInt8
  vmin : UInt8
deriving DecidableEq

/-- What the calls of `check_passwd` return. -/
structure PasswdEnv where
  /-- `getenv("TELNETD_PASSWD")` -/
  getenv : Option (List UInt8)
  /-- The attributes that `tcgetattr` reports, unless it fails. -/
  tcgetattr : Option Termios
  tcsetattrOk : Bool
  /-- The results of `fgets`, prompt by prompt. -/
  input : List (Option (List UInt8))
  /-- `__des_crypt_r`, from the line and the salt. -/
  crypt : List UInt8 → List UInt8 → List UInt8

structure PasswdResult where
  rval : Int
  /-- The lines that were read from stdin. -/
  lines : List (List UInt8)
  /-- The arguments of the `tcsetattr` calls. -/
  attrs : List Termios
  /-- The record about wrong passwords was written. -/
  syslogged : Bool

/-- The stored password: the environment's, or the compiled-in one. -/
def storedPasswd (e : PasswdEnv) : List UInt8 :=
  match e.getenv with
  | some pw => if pw.length = 0 then telnetdDefaultPasswd else pw
  | none => telnetdDefaultPasswd

/-- Strip the line terminators at the end. -/
def stripEol (buf : List UInt8) : List UInt8 :=
  (buf.reverse.dropWhile fun c => c == lf || c == cr).reverse

/-- How the prompt loop ended: with a match, with `goto done`, or with no retry left. -/
inductive LoopEnd where
  | matched
  | gaveUp
  | exhausted
deriving DecidableEq

/-- The prompt loop, with `retries` prompts left: its end and the lines it read. -/
def passwdLoop (crypt : List UInt8 → List UInt8 → List UInt8) (pw : List UInt8) :
    Nat → List (Option (List UInt8)) → LoopEnd × List (List UInt8)
  | 0, _ => (.exhausted, [])
  | _ + 1, [] => (.gaveUp, [])
  | _ + 1, none :: _ => (.gaveUp, [])
  | retries + 1, some buf :: rest =>
    if crypt (stripEol buf) (pw.take 2) = pw then (.matched, [buf])
    else
      let tail := passwdLoop crypt pw retries rest
      (tail.1, buf :: tail.2)

/-- Echo and line editing off, reads time out. -/
def passwdAttrs (told : Termios) : Termios :=
  { told with echo := false, icanon := false, vtime := 255, vmin := 0 }

def checkPasswd (e : PasswdEnv) : PasswdResult :=
  match e.tcgetattr with
  | none => ⟨-1, [], [], false⟩
  | some told =>
    if !e.tcsetattrOk then ⟨-1, [], [passwdAttrs told], false⟩
    else
      let loop := passwdLoop e.crypt (storedPasswd e) maxPassRetry e.input
      ⟨if loop.1 = .matched then 0 else -1, loop.2, [passwdAttrs told, told],
        loop.1 == .exhausted⟩

end SsrlApps.Telnetd
