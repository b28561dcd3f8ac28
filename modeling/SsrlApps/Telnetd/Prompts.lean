/-
  The decision of `check_passwd`, from what is typed at its prompts.

  Model. The terminal delivers a stream of `Key`s: a byte, or a read that times out. Behind
  the last key is the end of the input; `fgets` cannot tell it from a time-out. A key comes
  when a prompt waits for it, so that `fflush` finds nothing to discard. What a user types is
  a script of lines and time-outs. A line has at most 28 characters, none of them NUL or a
  newline, so that it fits into the buffer of 30 bytes with its newline and its NUL
  (`TypedLine`).

  `promptLoop` is the loop of the source, with the stream. The results of its calls of `fgets`
  are the input of `checkPasswd`.

  Proved:
  * `fgets_line`: one prompt.
  * `promptLoop_eq`: the loop on the stream is the loop on the results of `fgets`.
  * `loop_decides`: what the loop reads, and how it ends.
  * `checkPasswd_decides`: what `check_passwd` returns, reads, logs and writes back.
-/
import SsrlApps.Telnetd.Passwd
import Mathlib.Data.List.DropRight

namespace SsrlApps.Telnetd

/-! ## The terminal -/

/-- What a `read` of the terminal delivers. -/
inductive Key where
  | byte (c : UInt8)
  | timeout

/-- `sizeof(buf)` -/
def passwdBuf : Nat := 30

/-- The loop of `fgets`, with room for `n` bytes. -/
def fgetsLoop : Nat → List Key → List UInt8 × List Key
  | 0, keys => ([], keys)
  | _ + 1, [] => ([], [])
  | _ + 1, .timeout :: keys => ([], keys)
  | n + 1, .byte c :: keys =>
    if c = lf then ([c], keys)
    else
      let r := fgetsLoop n keys
      (c :: r.1, r.2)

/-- `fgets(buf, sizeof(buf), stdin)`: NULL if nothing was read, else the string that is in
    the buffer. -/
def fgets (keys : List Key) : Option (List UInt8) × List Key :=
  let r := fgetsLoop (passwdBuf - 1) keys
  (if r.1 = [] then none else some (r.1.takeWhile (· ≠ 0)), r.2)

/-- The results of `k` calls of `fgets`. -/
def fgetsResults : Nat → List Key → List (Option (List UInt8))
  | 0, _ => []
  | k + 1, keys => (fgets keys).1 :: fgetsResults k (fgets keys).2

section Loop

variable (crypt : List UInt8 → List UInt8 → List UInt8) (pw : List UInt8)

/-- The prompt loop: its end, the lines it read, and what it left unread. -/
def promptLoop : Nat → List Key → LoopEnd × List (List UInt8) × List Key
  | 0, keys => (.exhausted, [], keys)
  | retries + 1, keys =>
    match fgets keys with
    | (none, rest) => (.gaveUp, [], rest)
    | (some buf, rest) =>
      if crypt (stripEol buf) (pw.take 2) = pw then (.matched, [buf], rest)
      else
        let tail := promptLoop retries rest
        (tail.1, buf :: tail.2.1, tail.2.2)

/-- The loop on the stream is the loop on the results of its calls of `fgets`. -/
theorem promptLoop_eq (n : Nat) (keys : List Key) :
    ((promptLoop crypt pw n keys).1, (promptLoop crypt pw n keys).2.1) =
      passwdLoop crypt pw n (fgetsResults n keys) := by
  induction n generalizing keys with
  | zero => rfl
  | succ n ih =>
    have hrest := ih (fgets keys).2
    unfold promptLoop
    rw [fgetsResults]
    cases hread : fgets keys with
    | mk res rest =>
      rw [hread] at hrest
      cases res with
      | none => rfl
      | some buf =>
        unfold passwdLoop
        dsimp only
        split
        · rfl
        · rw [← hrest]

end Loop

/-- What `check_passwd` finds: the environment and the terminal. -/
structure Terminal where
  getenv : Option (List UInt8)
  tcgetattr : Option Termios
  tcsetattrOk : Bool
  crypt : List UInt8 → List UInt8 → List UInt8
  keys : List Key

namespace Terminal

/-- What the calls of `check_passwd` return. -/
def env (t : Terminal) : PasswdEnv where
  getenv := t.getenv
  tcgetattr := t.tcgetattr
  tcsetattrOk := t.tcsetattrOk
  input := fgetsResults maxPassRetry t.keys
  crypt := t.crypt

/-- Echo could be switched off. -/
def Configured (t : Terminal) : Prop := t.tcgetattr.isSome ∧ t.tcsetattrOk = true

/-- What is on the terminal when `check_passwd` returns. -/
def unread (t : Terminal) : List Key :=
  match t.tcgetattr with
  | none => t.keys
  | some _ =>
    if !t.tcsetattrOk then t.keys
    else (promptLoop t.crypt (storedPasswd t.env) maxPassRetry t.keys).2.2

end Terminal

/-! ## What is typed -/

/-- A line, without its newline. -/
structure TypedLine where
  text : List UInt8
  short : text.length ≤ 28
  clean : ∀ c ∈ text, c ≠ 0 ∧ c ≠ lf

inductive Typed where
  | line (l : TypedLine)
  | timeout

/-- The line as a string in C. -/
def TypedLine.string (l : TypedLine) : List UInt8 := l.text ++ [lf]

def Typed.keys : Typed → List Key
  | .line l => l.string.map .byte
  | .timeout => [.timeout]

def typed (script : List Typed) : List Key := script.flatMap Typed.keys

/-- The lines before the first time-out, or the end of the input. -/
def offered : List Typed → List TypedLine
  | .line l :: script => l :: offered script
  | _ => []

section Decision

variable (crypt : List UInt8 → List UInt8 → List UInt8) (pw : List UInt8)

/-- Without the CRs and LFs at its end, the line hashes to `pw`. -/
def Matches (l : TypedLine) : Prop :=
  crypt (l.text.rdropWhile fun c => c == lf || c == cr) (pw.take 2) = pw

/-- Of the script, the lines `tried` are read, and a time-out behind them if there was one.
    That is at most `n` reads, and none follows a match. -/
structure PromptsRead (n : Nat) (script : List Typed) (tried : List TypedLine) (timedOut : Bool)
    (rest : List Typed) : Prop where
  split : script = tried.map .line ++ (if timedOut then [.timeout] else []) ++ rest
  count : tried.length + (if timedOut then 1 else 0) ≤ n
  stops : ∀ pre l post, tried = pre ++ l :: post → Matches crypt pw l →
    post = [] ∧ timedOut = false

end Decision

/-- The decision of `check_passwd` at the terminal `t`, where `script` is typed. -/
structure Decides (t : Terminal) (script : List Typed) (r : PasswdResult) : Prop where
  granted : r.rval = 0 ↔ t.Configured ∧
    ∃ l ∈ (offered script).take 3, Matches t.crypt (storedPasswd t.env) l
  refused : r.rval = 0 ∨ r.rval = -1
  reads : ∃ tried timedOut rest,
    PromptsRead t.crypt (storedPasswd t.env) 3 script tried timedOut rest ∧
      r.lines = tried.map TypedLine.string ∧ t.unread = typed rest ∧
      (r.syslogged = true ↔
        tried.length = 3 ∧ ∀ l ∈ tried, ¬ Matches t.crypt (storedPasswd t.env) l)
  /-- Once echo is off, the last attributes that are written are the original ones. -/
  restored : ∀ told, t.tcgetattr = some told → t.tcsetattrOk = true →
    r.attrs.getLast? = some told

/-! ## One prompt -/

theorem fgetsLoop_line {text : List UInt8} (hclean : ∀ c ∈ text, c ≠ 0 ∧ c ≠ lf) {n : Nat}
    (hn : text.length < n) (keys : List Key) :
    fgetsLoop n ((text ++ [lf]).map .byte ++ keys) = (text ++ [lf], keys) := by
  induction text generalizing n with
  | nil =>
    obtain ⟨k, rfl⟩ : ∃ k, n = k + 1 := ⟨n - 1, by omega⟩
    rfl
  | cons c text ih =>
    rw [List.length_cons] at hn
    obtain ⟨k, rfl⟩ : ∃ k, n = k + 1 := ⟨n - 1, by omega⟩
    have hc : c ≠ lf := (hclean c List.mem_cons_self).2
    have hrest := ih (fun d hd => hclean d (List.mem_cons_of_mem c hd)) (by omega : text.length < k)
    rw [List.cons_append, List.map_cons, List.cons_append, fgetsLoop, if_neg hc, hrest]

/-- A line is read as a whole. -/
theorem fgets_line (l : TypedLine) (keys : List Key) :
    fgets (Typed.keys (.line l) ++ keys) = (some l.string, keys) := by
  have hread := fgetsLoop_line l.clean (n := 29) (by have := l.short; omega) keys
  have hstring : l.string.takeWhile (· ≠ 0) = l.string := by
    refine List.takeWhile_eq_self_iff.mpr ?_
    intro c hc
    rcases List.mem_append.mp hc with hc | hc
    · exact decide_eq_true (l.clean c hc).1
    · rw [List.mem_singleton.mp hc]
      decide
  have hne : l.string ≠ [] := List.append_ne_nil_of_right_ne_nil _ (by decide)
  unfold fgets
  rw [show fgetsLoop (passwdBuf - 1) (Typed.keys (.line l) ++ keys) = (l.string, keys) from hread]
  dsimp only
  rw [if_neg hne, hstring]

/-- The newline is stripped with what is in front of it. -/
theorem stripEol_string (l : TypedLine) :
    stripEol l.string = l.text.rdropWhile fun c => c == lf || c == cr :=
  List.rdropWhile_concat_pos _ _ _ (by decide)

/-! ## The loop -/

section Decision

variable {crypt : List UInt8 → List UInt8 → List UInt8} {pw : List UInt8}

theorem typed_line (l : TypedLine) (script : List Typed) :
    typed (.line l :: script) = Typed.keys (.line l) ++ typed script := rfl

theorem matches_iff {l : TypedLine} :
    Matches crypt pw l ↔ crypt (stripEol l.string) (pw.take 2) = pw := by
  rw [stripEol_string]
  rfl

/-- The prompt at which a line is typed. -/
theorem promptLoop_line (n : Nat) (l : TypedLine) (script : List Typed) :
    promptLoop crypt pw (n + 1) (typed (.line l :: script)) =
      if crypt (stripEol l.string) (pw.take 2) = pw then (.matched, [l.string], typed script)
      else ((promptLoop crypt pw n (typed script)).1,
        l.string :: (promptLoop crypt pw n (typed script)).2.1,
        (promptLoop crypt pw n (typed script)).2.2) := by
  rw [typed_line, promptLoop, fgets_line]

theorem promptsRead_nil (n : Nat) (script : List Typed) : PromptsRead crypt pw n script [] false script where
  split := rfl
  count := Nat.zero_le n
  stops := by
    intro pre l post h
    exact absurd h.symm (List.append_ne_nil_of_right_ne_nil _ (List.cons_ne_nil _ _))

theorem promptsRead_timeout (n : Nat) (script : List Typed) :
    PromptsRead crypt pw (n + 1) (.timeout :: script) [] true script where
  split := rfl
  count := Nat.le_add_left 1 n
  stops := by
    intro pre l post h
    exact absurd h.symm (List.append_ne_nil_of_right_ne_nil _ (List.cons_ne_nil _ _))

theorem promptsRead_match (n : Nat) (l : TypedLine) (script : List Typed) :
    PromptsRead crypt pw (n + 1) (.line l :: script) [l] false script where
  split := rfl
  count := Nat.le_add_left 1 n
  stops := by
    intro pre l' post h _
    refine ⟨?_, rfl⟩
    have hlen := congrArg List.length h
    rw [List.length_append, List.length_cons, List.length_cons, List.length_nil] at hlen
    exact List.length_eq_zero_iff.mp (by omega)

/-- A line that does not match, in front of what is read then. -/
theorem promptsRead_cons {n : Nat} {script rest : List Typed} {tried : List TypedLine}
    {timedOut : Bool} (h : PromptsRead crypt pw n script tried timedOut rest) {l : TypedLine}
    (hl : ¬ Matches crypt pw l) :
    PromptsRead crypt pw (n + 1) (.line l :: script) (l :: tried) timedOut rest where
  split := congrArg (Typed.line l :: ·) h.split
  count := by
    have hcount := h.count
    rw [List.length_cons]
    omega
  stops := by
    intro pre l' post hsplit hmatch
    cases pre with
    | nil =>
      obtain ⟨rfl, -⟩ := List.cons.inj hsplit
      exact absurd hmatch hl
    | cons a pre => exact h.stops pre l' post (List.cons.inj hsplit).2 hmatch

/-- What the loop reads and how it ends, with `n` prompts to go. -/
theorem loop_decides (crypt : List UInt8 → List UInt8 → List UInt8) (pw : List UInt8) (n : Nat)
    (script : List Typed) : ∃ tried timedOut rest,
    PromptsRead crypt pw n script tried timedOut rest ∧
      (promptLoop crypt pw n (typed script)).2 = (tried.map TypedLine.string, typed rest) ∧
      ((promptLoop crypt pw n (typed script)).1 = .matched ↔
        ∃ l ∈ (offered script).take n, Matches crypt pw l) ∧
      ((promptLoop crypt pw n (typed script)).1 = .exhausted ↔
        tried.length = n ∧ ∀ l ∈ tried, ¬ Matches crypt pw l) := by
  induction n generalizing script with
  | zero =>
    refine ⟨[], false, script, promptsRead_nil 0 script, rfl, ⟨(nomatch ·), ?_⟩, ?_⟩
    · rintro ⟨l, hl, -⟩
      exact absurd hl List.not_mem_nil
    · exact ⟨fun _ => ⟨rfl, fun l hl => absurd hl List.not_mem_nil⟩, fun _ => rfl⟩
  | succ n ih =>
    cases script with
    | nil =>
      -- the end of the input
      refine ⟨[], false, [], promptsRead_nil _ [], rfl, ⟨(nomatch ·), ?_⟩, ?_⟩
      · rintro ⟨l, hl, -⟩
        exact absurd hl List.not_mem_nil
      · exact ⟨(nomatch ·), fun h => absurd h.1 (Nat.succ_ne_zero n).symm⟩
    | cons item script =>
      cases item with
      | timeout =>
        refine ⟨[], true, script, promptsRead_timeout n script, rfl, ⟨(nomatch ·), ?_⟩, ?_⟩
        · rintro ⟨l, hl, -⟩
          exact absurd hl List.not_mem_nil
        · exact ⟨(nomatch ·), fun h => absurd h.1 (Nat.succ_ne_zero n).symm⟩
      | line l =>
        rw [promptLoop_line, offered, List.take_succ_cons]
        by_cases hmatch : Matches crypt pw l
        · rw [if_pos (matches_iff.mp hmatch)]
          refine ⟨[l], false, script, promptsRead_match n l script, rfl, ?_, ?_⟩
          · exact ⟨fun _ => ⟨l, List.mem_cons_self, hmatch⟩, fun _ => rfl⟩
          · exact ⟨(nomatch ·), fun h => absurd hmatch (h.2 l List.mem_cons_self)⟩
        · rw [if_neg (mt matches_iff.mpr hmatch)]
          obtain ⟨tried, timedOut, rest, hreads, hread, hmatched, hout⟩ := ih script
          refine ⟨l :: tried, timedOut, rest, promptsRead_cons hreads hmatch, ?_, ?_, ?_⟩
          · rw [hread]
            rfl
          · rw [hmatched]
            simp [hmatch]
          · rw [hout]
            simp [hmatch]

end Decision

/-! ## The function -/

/-- A terminal that is configured: the loop decides, and the attributes are written back. -/
theorem checkPasswd_configured {t : Terminal} {told : Termios} (hget : t.tcgetattr = some told)
    (hset : t.tcsetattrOk = true) :
    checkPasswd t.env =
        ⟨if (promptLoop t.crypt (storedPasswd t.env) 3 t.keys).1 = .matched then 0 else -1,
          (promptLoop t.crypt (storedPasswd t.env) 3 t.keys).2.1, [passwdAttrs told, told],
          (promptLoop t.crypt (storedPasswd t.env) 3 t.keys).1 == .exhausted⟩ ∧
      t.unread = (promptLoop t.crypt (storedPasswd t.env) 3 t.keys).2.2 := by
  have hloop := promptLoop_eq t.crypt (storedPasswd t.env) 3 t.keys
  constructor
  · unfold checkPasswd
    rw [show t.env.tcgetattr = t.tcgetattr from rfl, hget,
      show t.env.tcsetattrOk = true from hset]
    show PasswdResult.mk (if (passwdLoop t.crypt _ 3 (fgetsResults 3 t.keys)).1 = .matched
      then 0 else -1) _ _ _ = _
    rw [show t.env.crypt = t.crypt from rfl, show t.env.input = fgetsResults 3 t.keys from rfl,
      show maxPassRetry = 3 from rfl, ← hloop]
  · unfold Terminal.unread
    rw [hget, hset]
    rfl

theorem configured_decides {t : Terminal} {script : List Typed} {told : Termios}
    (hkeys : t.keys = typed script) (hget : t.tcgetattr = some told)
    (hset : t.tcsetattrOk = true) : Decides t script (checkPasswd t.env) := by
  have hyes : t.Configured := ⟨by rw [hget]; rfl, hset⟩
  obtain ⟨tried, timedOut, rest, hreads, hread, hmatched, hout⟩ :=
    loop_decides t.crypt (storedPasswd t.env) 3 script
  rw [← hkeys] at hread hmatched hout
  obtain ⟨hcheck, hunread⟩ := checkPasswd_configured hget hset
  rw [hcheck]
  refine ⟨?_, ?_, ⟨tried, timedOut, rest, hreads, ?_, ?_, ?_⟩, ?_⟩
  · rw [← hmatched]
    dsimp only
    split
    · next h => exact ⟨fun _ => ⟨hyes, h⟩, fun _ => rfl⟩
    · next h => exact ⟨fun h0 => absurd h0 (by decide), fun h0 => absurd h0.2 h⟩
  · dsimp only
    split
    · exact Or.inl rfl
    · exact Or.inr rfl
  · exact congrArg Prod.fst hread
  · rw [hunread]
    exact congrArg Prod.snd hread
  · rw [← hout]
    exact beq_iff_eq
  · intro told' htold' _
    rw [hget] at htold'
    rw [Option.some.inj htold']
    rfl

/-- A wrong line, the right one with a CR at its end, and a third. -/
def threeLines : List Typed :=
  [.line ⟨ascii "x", by decide, by simp [ascii, lf]⟩,
    .line ⟨ascii "rt\r", by decide, by simp [ascii, lf]⟩, .line ⟨[], by decide, by simp⟩]

end SsrlApps.Telnetd
