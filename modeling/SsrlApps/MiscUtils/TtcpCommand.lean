/-
  The command of miscUtils/ttcp.c: its arguments, its buffer and its sockets.

  Model. `ttcp` copies its argument into a buffer of 512 bytes, and makes at most 31 words of
  it, in place. `rtemsShellMainTtcp` is the command behind its options: what they set is in
  `Options`, and what the calls return in `Calls`. Blocks and descriptors are in the ledgers
  of Lib/Ledger; descriptors and addresses are handed out again when they are free. `err` gives
  back the buffer and the socket, and every caller returns behind it. A `close` that returns
  an error has closed the descriptor all the same. Where the alignment puts the buffer inside
  its block, the messages and the numbers at the end are left out; the transfers are in Ttcp
  and TtcpUdp.

  Proved:
  * `ttcp_argv`: the words of the first 511 characters, up to 31, and nothing outside the
    buffer is written.
  * `ttcp_argv_join`: arguments that fit come out as they were put together.
  * `command_cases`: what a command leaves behind.
  * `ttcp_memory`: over any commands, each block is freed once.
  * `ttcp_sockets`: the sockets that stay open are the listening ones whose `accept` failed.
-/
import SsrlApps.Lib.Ledger
import SsrlApps.Lib.Machine
import SsrlApps.Lib.Tokens

namespace SsrlApps.TtcpCommand

/-! ## The arguments -/

section Arguments

open Strtok

/-- `strncpy` into a buffer of `n` bytes; `s` has no terminator. -/
def strncpy (n : Nat) (s : List UInt8) : List UInt8 := s.take n ++ List.replicate (n - s.length) 0

/-- `buf`, with the terminator that `strncpy` may have left out. -/
def argsBuf (args : List UInt8) : List UInt8 := (strncpy 512 args).set 511 0

/-- "ttcp" -/
def commandName : List UInt8 := [0x74, 0x74, 0x63, 0x70]

/-- What `rtems_shell_main_ttcp` finds in `argv`, and `buf` then. -/
def ttcp (args : List UInt8) : List (List UInt8) × List UInt8 :=
  let r := tokens 0 0x20 31 (argsBuf args) 0
  (commandName :: r.1.map (cString 0 r.2), r.2)

theorem length_argsBuf (args : List UInt8) : (argsBuf args).length = 512 := by
  unfold argsBuf strncpy
  rw [List.length_set, List.length_append, List.length_take, List.length_replicate]
  omega

theorem strncpy_take (args : List UInt8) :
    (strncpy 512 args).take 511 = args.take 511 ++ List.replicate (511 - args.length) 0 := by
  unfold strncpy
  rw [List.take_append, List.take_take, List.take_replicate, List.length_take]
  congr 2
  omega

theorem argsBuf_eq (args : List UInt8) :
    argsBuf args = args.take 511 ++ 0 :: List.replicate (511 - args.length) 0 := by
  have hlen : (strncpy 512 args).length = 512 := by
    have hset := length_argsBuf args
    unfold argsBuf at hset
    rwa [List.length_set] at hset
  have hdrop : (strncpy 512 args).drop 512 = [] := List.drop_eq_nil_of_le (Nat.le_of_eq hlen)
  unfold argsBuf
  rw [List.set_eq_take_append_cons_drop, hlen, if_pos (by decide), hdrop, strncpy_take,
    List.append_assoc, ← List.replicate_succ', List.replicate_succ]

theorem tokens_argsBuf {args : List UInt8} (h : 0 ∉ args) :
    ∃ ps b, tokens 0 0x20 31 (argsBuf args) 0 = (ps, b) ∧ b.length = 512 ∧
      ps.map (cString 0 b) = (words 0x20 (args.take 511)).take 31 := by
  have hstring : (0 : UInt8) ∉ args.take 511 := fun hmem => h (List.mem_of_mem_take hmem)
  have hblank : (0x20 : UInt8) ≠ 0 := by decide
  obtain ⟨ps, b, htok, hlen, hmap, -⟩ :=
    tokens_words hblank 31 [] hstring (List.replicate (511 - args.length) 0)
  rw [List.nil_append, ← argsBuf_eq] at htok
  rw [← argsBuf_eq, length_argsBuf] at hlen
  exact ⟨ps, b, htok, hlen, hmap⟩

/-- A word that the buffer has no room for is cut, or missing, and words behind the 31st are
    missing: there is no error. -/
theorem ttcp_argv {args : List UInt8} (h : 0 ∉ args) :
    (ttcp args).1 = commandName :: (words 0x20 (args.take 511)).take 31 ∧
      (ttcp args).2.length = 512 := by
  obtain ⟨ps, b, htok, hlen, hmap⟩ := tokens_argsBuf h
  unfold ttcp
  rw [htok]
  exact ⟨congrArg (commandName :: ·) hmap, hlen⟩

/-- "-s  -t" -/
theorem ttcp_argv_two :
    (ttcp [0x2d, 0x73, 0x20, 0x20, 0x2d, 0x74]).1 =
        commandName :: (words 0x20 ([0x2d, 0x73, 0x20, 0x20, 0x2d, 0x74].take 511)).take 31 ∧
      (ttcp [0x2d, 0x73, 0x20, 0x20, 0x2d, 0x74]).2.length = 512 :=
  ttcp_argv (by simp)

/-- Up to 31 words of up to 511 characters in all, with a blank between two, arrive as they
    are. -/
theorem ttcp_argv_join {ws : List (List UInt8)}
    (hws : ∀ w ∈ ws, w ≠ [] ∧ 0x20 ∉ w ∧ 0 ∉ w) (hcount : ws.length ≤ 31)
    (hlen : ([0x20].intercalate ws).length ≤ 511) :
    (ttcp ([0x20].intercalate ws)).1 = commandName :: ws := by
  have hstring : (0 : UInt8) ∉ [0x20].intercalate ws :=
    notMem_intercalate (by decide) fun w hw => (hws w hw).2.2
  have hwords : words 0x20 ([0x20].intercalate ws) = ws :=
    words_intercalate fun w hw => ⟨(hws w hw).1, (hws w hw).2.1⟩
  obtain ⟨ps, b, htok, -, hmap⟩ := tokens_argsBuf hstring
  rw [List.take_of_length_le hlen, hwords, List.take_of_length_le hcount] at hmap
  unfold ttcp
  rw [htok]
  exact congrArg (commandName :: ·) hmap

theorem ttcp_argv_join_two :
    (ttcp ([0x20].intercalate [[0x2d, 0x73], [0x2d, 0x74]])).1 =
      commandName :: [[0x2d, 0x73], [0x2d, 0x74]] :=
  ttcp_argv_join (by simp) (by decide) (by decide)

end Arguments

/-! ## The command -/

/-- What the options set. -/
structure Options where
  trans : Bool
  udp : Bool
  /-- `options` is not 0. -/
  debug : Bool
  nodelay : Bool
  /-- `sockbufsize` is not 0. -/
  sockbuf : Bool

/-- What the calls of a command return, and whether the arguments are refused. -/
structure Calls where
  usage : Bool
  /-- The host is numeric, or `gethostbyname` knows it. -/
  host : Bool
  /-- 0 is NULL. -/
  malloc : Nat
  socket : Int
  bind : Bool
  setSockbuf : Bool
  setOptions : Bool
  setNodelay : Bool
  connect : Bool
  accept : Int
  closeList : Bool
  getpeername : Bool
  /-- `errno` is 0 behind the transfer. -/
  transfer : Bool
  close : Bool

/-- What outlives a command. -/
structure Kernel where
  socks : FdTable Int
  heap : FdTable Nat
  /-- How often a descriptor was closed that is not open. -/
  badClose : Nat
  /-- How often a block was freed that is not allocated. -/
  badFree : Nat

structure State where
  fd : Int
  allocBuf : Nat
  k : Kernel

/-- A call that returns the descriptor `fd`, or a negative number. -/
def Kernel.openSock (k : Kernel) (fd : Int) : Kernel :=
  if fd < 0 then k else { k with socks := k.socks.openAs fd }

def Kernel.closeSock (k : Kernel) (fd : Int) : Kernel :=
  { k with socks := k.socks.close fd
           badClose := if k.socks.owner fd = none then k.badClose + 1 else k.badClose }

def Kernel.malloc (k : Kernel) (p : Nat) : Kernel :=
  if p = 0 then k else { k with heap := k.heap.openAs p }

def Kernel.free (k : Kernel) (p : Nat) : Kernel :=
  if p = 0 then k
  else
    { k with heap := k.heap.close p
             badFree := if k.heap.owner p = none then k.badFree + 1 else k.badFree }

/-- `err` -/
def err (s : State) : Kernel :=
  let k := s.k.free s.allocBuf
  if s.fd ≠ 0 then k.closeSock s.fd else k

/-- A call, and what the command does behind it. -/
def orErr (ok : Bool) (s : State) (next : State → Kernel) : Kernel :=
  if ok then next s else err s

/-- From the socket to the connection. -/
def openConnection (o : Options) (c : Calls) (s : State) (next : State → Kernel) : Kernel :=
  if o.udp then next s
  else
    orErr (!o.debug || c.setOptions) s fun s =>
      if o.trans then
        orErr (!o.nodelay || c.setNodelay) s fun s => orErr c.connect s next
      else
        let fdList := s.fd
        orErr (0 ≤ c.accept) { s with fd := c.accept, k := s.k.openSock c.accept } fun s =>
          orErr c.closeList { s with k := s.k.closeSock fdList } fun s =>
            orErr c.getpeername s next

def rtemsShellMainTtcp (o : Options) (c : Calls) (k : Kernel) : Kernel :=
  -- `initialize_vars`
  let s : State := ⟨0, 0, k⟩
  if c.usage then s.k.free s.allocBuf
  else
    orErr (!o.trans || c.host) s fun s =>
    orErr (c.malloc ≠ 0) { s with allocBuf := c.malloc, k := s.k.malloc c.malloc } fun s =>
    orErr (0 ≤ c.socket) { s with fd := c.socket, k := s.k.openSock c.socket } fun s =>
    orErr c.bind s fun s =>
    orErr (!o.sockbuf || c.setSockbuf) s fun s =>
    openConnection o c s fun s =>
    orErr c.transfer s fun s =>
    orErr c.close { s with k := s.k.closeSock s.fd } fun s =>
    s.k.free s.allocBuf

/-! ## How far a command gets -/

/-- It calls `socket`. -/
def Calls.opens (o : Options) (c : Calls) : Bool :=
  !c.usage && (!o.trans || c.host) && c.malloc ≠ 0

/-- It has a socket, set up. -/
def Calls.ready (o : Options) (c : Calls) : Bool :=
  c.opens o && 0 ≤ c.socket && c.bind && (!o.sockbuf || c.setSockbuf)

/-- With its socket, it gets to the transfer. -/
def Calls.connects (o : Options) (c : Calls) : Bool :=
  o.udp || (!o.debug || c.setOptions) &&
    if o.trans then (!o.nodelay || c.setNodelay) && c.connect
    else 0 ≤ c.accept && c.closeList && c.getpeername

/-- With its socket, it waits for a connection, in vain. -/
def Calls.waits (o : Options) (c : Calls) : Bool :=
  !o.udp && (!o.debug || c.setOptions) && !o.trans && c.accept < 0

/-- The listening socket is lost. -/
def Calls.lost (o : Options) (c : Calls) : Bool := c.ready o && c.waits o

/-- `err` closes what is not open: there is no socket, or it has been closed. -/
def Calls.closesTwice (o : Options) (c : Calls) : Bool :=
  c.opens o && c.socket < 0 || c.ready o && (c.waits o || c.connects o && (c.transfer && !c.close))

/-! ## One command -/

/-- The ledgers are in order. -/
structure Kernel.Wf (k : Kernel) : Prop where
  socks : k.socks.Wf
  heap : k.heap.Wf

/-- The command holds its block and one socket, and nothing else. -/
structure Held (k : Kernel) (s : State) : Prop where
  block : s.allocBuf ≠ 0 ∧ k.heap.owner s.allocBuf = none ∧
    ∃ b, s.k.heap.owner = Function.update k.heap.owner s.allocBuf (some b)
  sock : s.fd ≠ 0 ∧ k.socks.owner s.fd = none ∧
    ∃ n, s.k.socks.owner = Function.update k.socks.owner s.fd (some n)
  badClose : s.k.badClose = k.badClose
  badFree : s.k.badFree = k.badFree
  wf : s.k.Wf

/-- What a command leaves: the blocks as they were, `socks` open, and `n` bad calls of
    `close`. -/
structure Leaves (k k' : Kernel) (socks : Int → Option Nat) (n : Nat) : Prop where
  heap : k'.heap.owner = k.heap.owner
  socks : k'.socks.owner = socks
  badClose : k'.badClose = k.badClose + n
  badFree : k'.badFree = k.badFree
  wf : k'.Wf

section Command

variable {k k' : Kernel} {s : State}

theorem close_owner {δ : Type} [DecidableEq δ] (t : FdTable δ) (d : δ) :
    (t.close d).owner = Function.update t.owner d none := by
  funext d'
  by_cases hd : d' = d
  · subst hd
    rw [FdTable.close_owner_self, Function.update_self]
  · rw [FdTable.close_owner_ne hd, Function.update_of_ne hd]

/-- Closing what was opened in between restores the table. -/
theorem update_none {δ : Type} [DecidableEq δ] {f g : δ → Option Nat} {d : δ} {n : Option Nat}
    (hd : f d = none) (hg : g = Function.update f d n) : Function.update g d none = f := by
  rw [hg, Function.update_idem, ← hd, Function.update_eq_self]

theorem wf_closeSock (h : k.Wf) (fd : Int) : (k.closeSock fd).Wf :=
  ⟨FdTable.wf_close h.socks fd, h.heap⟩

theorem wf_free (h : k.Wf) (p : Nat) : (k.free p).Wf := by
  unfold Kernel.free
  split
  · exact h
  · exact ⟨h.socks, FdTable.wf_close h.heap p⟩

theorem wf_err (h : s.k.Wf) : (err s).Wf := by
  unfold err
  dsimp only
  split
  · exact wf_closeSock (wf_free h _) _
  · exact wf_free h _

/-- Freeing the block that was allocated in between. -/
theorem free_block {p : Nat} (hp : p ≠ 0) (hfree : k.heap.owner p = none) {b : Nat}
    (hk : k'.heap.owner = Function.update k.heap.owner p (some b)) :
    (k'.free p).heap.owner = k.heap.owner ∧ (k'.free p).socks = k'.socks ∧
      (k'.free p).badClose = k'.badClose ∧ (k'.free p).badFree = k'.badFree := by
  have hopen : k'.heap.owner p ≠ none := by
    rw [hk, Function.update_self]
    exact nofun
  unfold Kernel.free
  rw [if_neg hp, if_neg hopen]
  refine ⟨?_, rfl, rfl, rfl⟩
  show (k'.heap.close p).owner = k.heap.owner
  rw [close_owner]
  exact update_none hfree hk

theorem closeSock_owner (fd : Int) :
    (k.closeSock fd).socks.owner = Function.update k.socks.owner fd none :=
  close_owner _ _

theorem closeSock_badClose (fd : Int) :
    (k.closeSock fd).badClose = k.badClose + if k.socks.owner fd = none then 1 else 0 := by
  show (if k.socks.owner fd = none then k.badClose + 1 else k.badClose) = _
  split <;> rfl

/-- `err` in the hands of a command that has a block: the descriptor is closed, if it is open. -/
theorem leaves_err {p : Nat} {fd : Int} (hp : p ≠ 0) (hfree : k.heap.owner p = none) {b : Nat}
    (hheap : k'.heap.owner = Function.update k.heap.owner p (some b)) (hfd : fd ≠ 0)
    (hclose : k'.badClose = k.badClose) (hbad : k'.badFree = k.badFree) (hwf : k'.Wf) :
    Leaves k (err ⟨fd, p, k'⟩) (Function.update k'.socks.owner fd none)
      (if k'.socks.owner fd = none then 1 else 0) := by
  obtain ⟨hheap', hsocks', hclose', hfree'⟩ := free_block hp hfree hheap
  have herr : err ⟨fd, p, k'⟩ = (k'.free p).closeSock fd := if_pos hfd
  refine ⟨?_, ?_, ?_, ?_, wf_err hwf⟩
  · rw [herr]
    exact hheap'
  · rw [herr, closeSock_owner, hsocks']
  · rw [herr, closeSock_badClose, hclose', hclose, hsocks']
  · rw [herr]
    exact hfree'.trans hbad

theorem Held.err (h : Held k s) : Leaves k (err s) k.socks.owner 0 := by
  obtain ⟨⟨hp, hblock, b, hheap⟩, ⟨hfd, hsock, n, hsocks⟩, hclose, hbad, hwf⟩ := h
  have hleaves := leaves_err hp hblock hheap hfd hclose hbad hwf
  have hopen : s.k.socks.owner s.fd ≠ none := by
    rw [hsocks, Function.update_self]
    exact nofun
  rw [if_neg hopen, update_none hsock hsocks] at hleaves
  exact hleaves

/-- The end of a command. -/
theorem Held.finish (h : Held k s) :
    Leaves k ((s.k.closeSock s.fd).free s.allocBuf) k.socks.owner 0 := by
  obtain ⟨⟨hp, hblock, b, hheap⟩, ⟨hfd, hsock, n, hsocks⟩, hclose, hbad, hwf⟩ := h
  have hopen : s.k.socks.owner s.fd ≠ none := by
    rw [hsocks, Function.update_self]
    exact nofun
  have hsame : (s.k.closeSock s.fd).heap.owner =
      Function.update k.heap.owner s.allocBuf (some b) := hheap
  obtain ⟨hheap', hsocks', hclose', hfree'⟩ := free_block hp hblock hsame
  refine ⟨hheap', ?_, ?_, hfree'.trans hbad, wf_free (wf_closeSock hwf _) _⟩
  · rw [hsocks', closeSock_owner]
    exact update_none hsock hsocks
  · rw [hclose', closeSock_badClose, if_neg hopen, hclose]

/-- `close` has closed the socket and returns an error; `err` closes it again. -/
theorem Held.twice (h : Held k s) :
    Leaves k (TtcpCommand.err { s with k := s.k.closeSock s.fd }) k.socks.owner 1 := by
  obtain ⟨⟨hp, hblock, b, hheap⟩, ⟨hfd, hsock, n, hsocks⟩, hclose, hbad, hwf⟩ := h
  have hopen : s.k.socks.owner s.fd ≠ none := by
    rw [hsocks, Function.update_self]
    exact nofun
  have hclosed : (s.k.closeSock s.fd).socks.owner = k.socks.owner := by
    rw [closeSock_owner]
    exact update_none hsock hsocks
  have hcount : (s.k.closeSock s.fd).badClose = k.badClose := by
    rw [closeSock_badClose, if_neg hopen, hclose, Nat.add_zero]
  have hheap' : (s.k.closeSock s.fd).heap.owner =
      Function.update k.heap.owner s.allocBuf (some b) := hheap
  have hleaves := leaves_err hp hblock hheap' hfd hcount hbad (wf_closeSock hwf s.fd)
  have hsame : Function.update k.socks.owner s.fd none = k.socks.owner := by
    rw [← hsock, Function.update_eq_self]
  rw [hclosed, if_pos hsock, hsame] at hleaves
  exact hleaves

theorem openSock_pos {fd : Int} (hpos : 0 ≤ fd) :
    k.openSock fd = { k with socks := k.socks.openAs fd } :=
  if_neg (Int.not_lt.mpr hpos)

/-- A connection is accepted, and the listening socket is closed. -/
theorem Held.accept (h : Held k s) {fd : Int} (hpos : 0 ≤ fd) (hfd : fd ≠ 0)
    (hfree : k.socks.owner fd = none) (hne : fd ≠ s.fd) :
    Held k ⟨fd, s.allocBuf, (s.k.openSock fd).closeSock s.fd⟩ := by
  obtain ⟨hblock, ⟨-, hsock, n, hsocks⟩, hclose, hbad, hwf⟩ := h
  rw [openSock_pos hpos]
  have hnew : s.k.socks.owner fd = none := by
    rw [hsocks, Function.update_of_ne hne, hfree]
  have hstill : (s.k.socks.openAs fd).owner s.fd ≠ none := by
    rw [FdTable.openAs_owner_ne hne.symm, hsocks, Function.update_self]
    exact nofun
  have hwf' : ({ s.k with socks := s.k.socks.openAs fd } : Kernel).Wf :=
    ⟨FdTable.wf_openAs hwf.socks hnew, hwf.heap⟩
  refine ⟨hblock, ⟨hfd, hfree, s.k.socks.next, ?_⟩, ?_, hbad, wf_closeSock hwf' _⟩
  · rw [closeSock_owner]
    show Function.update (Function.update s.k.socks.owner fd (some s.k.socks.next)) s.fd none =
      Function.update k.socks.owner fd (some s.k.socks.next)
    rw [Function.update_comm hne, update_none hsock hsocks]
  · rw [closeSock_badClose, if_neg hstill]
    exact hclose

/-- `accept` fails; `fd` does not name the listening socket any more. -/
theorem Held.lost (h : Held k s) {fd : Int} (hneg : fd < 0) (hfree : k.socks.owner fd = none)
    (hpos : 0 ≤ s.fd) : ∃ n, Leaves k (TtcpCommand.err ⟨fd, s.allocBuf, s.k.openSock fd⟩)
      (Function.update k.socks.owner s.fd (some n)) 1 := by
  obtain ⟨⟨hp, hblock, b, hheap⟩, ⟨-, hsock, n, hsocks⟩, hclose, hbad, hwf⟩ := h
  have hfd : fd ≠ 0 := by omega
  have hne : fd ≠ s.fd := by omega
  have hsame : s.k.openSock fd = s.k := if_pos hneg
  have hnone : s.k.socks.owner fd = none := by
    rw [hsocks, Function.update_of_ne hne, hfree]
  have hleaves := leaves_err hp hblock hheap hfd hclose hbad hwf
  have hkept : Function.update s.k.socks.owner fd none = s.k.socks.owner := by
    rw [← hnone, Function.update_eq_self]
  rw [if_pos hnone, hkept, hsocks] at hleaves
  rw [hsame]
  exact ⟨n, hleaves⟩

/-- The transfer and the end. -/
theorem finish_cases (h : Held k s) (c : Calls) :
    Leaves k
      (orErr c.transfer s fun s =>
        orErr c.close { s with k := s.k.closeSock s.fd } fun s => s.k.free s.allocBuf)
      k.socks.owner (c.transfer && !c.close).toNat := by
  cases c.transfer with
  | false => exact h.err
  | true =>
    cases c.close with
    | false => exact h.twice
    | true => exact h.finish

/-- The connection; `m` counts what goes wrong in `next`. -/
theorem connection_cases (o : Options) (c : Calls) (h : Held k s) (hpos : 0 ≤ s.fd)
    (hneg : ∀ d < 0, k.socks.owner d = none) (hzero : k.socks.owner 0 ≠ none)
    (haccept : 0 ≤ c.accept → k.socks.owner c.accept = none ∧ c.accept ≠ s.fd)
    {next : State → Kernel} {m : Bool}
    (hnext : ∀ s', Held k s' → Leaves k (next s') k.socks.owner m.toNat) :
    ∃ n, Leaves k (openConnection o c s next)
      (if c.waits o then Function.update k.socks.owner s.fd (some n) else k.socks.owner)
      (c.waits o || c.connects o && m).toNat := by
  unfold openConnection Calls.waits Calls.connects
  cases o.udp with
  | true => exact ⟨0, hnext s h⟩
  | false =>
    cases hset : (!o.debug || c.setOptions) with
    | false => exact ⟨0, h.err⟩
    | true =>
      cases o.trans with
      | true =>
        cases hdelay : (!o.nodelay || c.setNodelay) with
        | false => exact ⟨0, h.err⟩
        | true =>
          cases c.connect with
          | false => exact ⟨0, h.err⟩
          | true => exact ⟨0, hnext s h⟩
      | false =>
        by_cases hacc : 0 ≤ c.accept
        · obtain ⟨hfree, hne⟩ := haccept hacc
          have hfd : c.accept ≠ 0 := fun h0 => hzero (h0 ▸ hfree)
          have hheld := h.accept hacc hfd hfree hne
          have hlt : ¬ c.accept < 0 := Int.not_lt.mpr hacc
          simp only [hacc, hlt, decide_true, decide_false]
          cases c.closeList with
          | false => exact ⟨0, hheld.err⟩
          | true =>
            cases c.getpeername with
            | false => exact ⟨0, hheld.err⟩
            | true => exact ⟨0, hnext _ hheld⟩
        · have hlt : c.accept < 0 := Int.not_le.mp hacc
          simp only [hacc, hlt, decide_true, decide_false]
          exact h.lost hlt (hneg _ hlt) hpos

end Command

/-! ## Commands one after the other -/

/-- No command runs. Descriptor 0 is the standard input. -/
structure Idle (k : Kernel) : Prop where
  wf : k.Wf
  stdin : k.socks.owner 0 ≠ none
  negative : ∀ d < 0, k.socks.owner d = none

/-- The kernel hands out descriptors and blocks that are free. -/
def guard (k : Kernel) (e : Options × Calls) : Prop :=
  (0 ≤ e.2.socket → k.socks.owner e.2.socket = none) ∧
    (0 ≤ e.2.accept → k.socks.owner e.2.accept = none ∧ e.2.accept ≠ e.2.socket) ∧
      (e.2.malloc ≠ 0 → k.heap.owner e.2.malloc = none)

def commandSystem : Guarded Kernel (Options × Calls) :=
  ⟨guard, fun k e => rtemsShellMainTtcp e.1 e.2 k⟩

section Runs

variable {k : Kernel}

theorem leaves_self (hwf : k.Wf) : Leaves k k k.socks.owner 0 := ⟨rfl, rfl, rfl, rfl, hwf⟩

/-- The block and the socket that a command gets. -/
theorem held_opened (hk : Idle k) {p : Nat} (hp : p ≠ 0) (hpfree : k.heap.owner p = none) {fd : Int}
    (hpos : 0 ≤ fd) (hfree : k.socks.owner fd = none) :
    Held k ⟨fd, p, (k.malloc p).openSock fd⟩ := by
  have hmalloc : k.malloc p = { k with heap := k.heap.openAs p } := if_neg hp
  have hfd : fd ≠ 0 := fun h0 => hk.stdin (h0 ▸ hfree)
  rw [openSock_pos hpos, hmalloc]
  exact ⟨⟨hp, hpfree, k.heap.next, rfl⟩, ⟨hfd, hfree, k.socks.next, rfl⟩, rfl, rfl,
    FdTable.wf_openAs hk.wf.socks hfree, FdTable.wf_openAs hk.wf.heap hpfree⟩

/-- There is no socket to be had. -/
theorem leaves_noSocket (hk : Idle k) {p : Nat} (hp : p ≠ 0) (hpfree : k.heap.owner p = none)
    {fd : Int} (hneg : fd < 0) :
    Leaves k (err ⟨fd, p, (k.malloc p).openSock fd⟩) k.socks.owner 1 := by
  have hmalloc : k.malloc p = { k with heap := k.heap.openAs p } := if_neg hp
  have hsame : (k.malloc p).openSock fd = { k with heap := k.heap.openAs p } := by
    rw [← hmalloc]
    exact if_pos hneg
  have hnone := hk.negative fd hneg
  have hkept : Function.update k.socks.owner fd none = k.socks.owner := by
    rw [← hnone, Function.update_eq_self]
  have hheap : ({ k with heap := k.heap.openAs p } : Kernel).heap.owner =
      Function.update k.heap.owner p (some k.heap.next) := rfl
  have hleaves := leaves_err hp hpfree hheap (Int.ne_of_lt hneg) rfl rfl
    ⟨hk.wf.socks, FdTable.wf_openAs hk.wf.heap hpfree⟩
  rw [hsame]
  dsimp only at hleaves
  rw [hkept, if_pos hnone] at hleaves
  exact hleaves

/-- One socket at most stays open, and one `close` at most is wrong. -/
theorem command_cases (hk : Idle k) {o : Options} {c : Calls} (hg : guard k (o, c)) :
    ∃ n, Leaves k (rtemsShellMainTtcp o c k)
      (if c.lost o then Function.update k.socks.owner c.socket (some n) else k.socks.owner)
      (c.closesTwice o).toNat := by
  obtain ⟨hsocket, haccept, hmalloc⟩ := hg
  dsimp only at hsocket haccept hmalloc
  unfold rtemsShellMainTtcp Calls.lost Calls.closesTwice Calls.ready Calls.opens
  cases c.usage with
  | true => exact ⟨0, leaves_self hk.wf⟩
  | false =>
    cases hhost : (!o.trans || c.host) with
    | false => exact ⟨0, leaves_self hk.wf⟩
    | true =>
      by_cases hp : c.malloc = 0
      · simp only [hp, ne_eq, not_true, decide_false]
        exact ⟨0, leaves_self hk.wf⟩
      simp only [hp, ne_eq, not_false_eq_true, decide_true]
      by_cases hpos : 0 ≤ c.socket
      · have hlt : ¬ c.socket < 0 := Int.not_lt.mpr hpos
        have hheld := held_opened hk hp (hmalloc hp) hpos (hsocket hpos)
        simp only [hpos, hlt, decide_true, decide_false]
        cases c.bind with
        | false => exact ⟨0, hheld.err⟩
        | true =>
          cases hbuf : (!o.sockbuf || c.setSockbuf) with
          | false => exact ⟨0, hheld.err⟩
          | true =>
            exact connection_cases o c hheld hpos hk.negative hk.stdin haccept
              fun s' hs' => finish_cases hs' c
      · have hneg : c.socket < 0 := Int.not_le.mp hpos
        simp only [hpos, hneg, decide_true, decide_false]
        exact ⟨0, leaves_noSocket hk hp (hmalloc hp) hneg⟩

theorem lost_pos {o : Options} {c : Calls} (h : c.lost o = true) : 0 ≤ c.socket := by
  unfold Calls.lost Calls.ready at h
  simp only [Bool.and_eq_true, decide_eq_true_eq] at h
  exact h.1.1.1.2

theorem open_after (hk : Idle k) {e : Options × Calls} (hg : guard k e) (d : Int) :
    (rtemsShellMainTtcp e.1 e.2 k).socks.owner d ≠ none ↔
      k.socks.owner d ≠ none ∨ e.2.lost e.1 = true ∧ d = e.2.socket := by
  obtain ⟨n, hleaves⟩ := command_cases hk hg
  rw [hleaves.socks]
  by_cases hlost : e.2.lost e.1 = true
  · rw [if_pos hlost]
    by_cases hd : d = e.2.socket
    · subst hd
      rw [Function.update_self]
      exact iff_of_true nofun (Or.inr ⟨hlost, rfl⟩)
    · rw [Function.update_of_ne hd]
      exact ⟨Or.inl, fun h => h.resolve_right fun h => hd h.2⟩
  · rw [if_neg hlost]
    exact ⟨Or.inl, fun h => h.resolve_right fun h => hlost h.1⟩

theorem idle_step (k : Kernel) (e : Options × Calls) (hk : Idle k) (hg : guard k e) :
    Idle (rtemsShellMainTtcp e.1 e.2 k) := by
  obtain ⟨n, hleaves⟩ := command_cases hk hg
  refine ⟨hleaves.wf, (open_after hk hg 0).mpr (Or.inl hk.stdin), fun d hd => ?_⟩
  by_contra hopen
  rcases (open_after hk hg d).mp hopen with h | ⟨hlost, rfl⟩
  · exact h (hk.negative d hd)
  · exact absurd (lost_pos hlost) (Int.not_le.mpr hd)

theorem idle_run (hk : Idle k) {es : List (Options × Calls)} (h : commandSystem.Legal k es) :
    Idle (commandSystem.exec k es) :=
  Guarded.invariant (M := commandSystem) idle_step hk h

/-- Only the standard input is open. -/
def startUp : Kernel := ⟨FdTable.empty.openAs 0, FdTable.empty, 0, 0⟩

theorem startUp_idle : Idle startUp where
  wf := ⟨FdTable.wf_openAs FdTable.wf_empty rfl, FdTable.wf_empty⟩
  stdin := nofun
  negative _ hd := FdTable.openAs_owner_ne (Int.ne_of_lt hd)

/-- A receiver whose `accept` fails, twice, and a good one. -/
def threeCommands : List (Options × Calls) :=
  let receiver : Options := ⟨false, false, false, false, false⟩
  let good : Calls := ⟨false, true, 0x8000, 3, true, true, true, true, true, 4, true, true, true, true⟩
  [(receiver, { good with accept := -1 }), (receiver, { good with socket := 4, accept := -1 }),
    (receiver, { good with socket := 5, accept := 6 })]

theorem threeCommands_legal : commandSystem.Legal startUp threeCommands :=
  ⟨⟨fun _ => rfl, nofun, fun _ => rfl⟩, ⟨fun _ => rfl, nofun, fun _ => rfl⟩,
    ⟨fun _ => rfl, fun _ => ⟨rfl, by decide⟩, fun _ => rfl⟩, trivial⟩

/-- Over any commands, every block is freed once, and no other one is. -/
theorem ttcp_memory (hk : Idle k) {es : List (Options × Calls)} (h : commandSystem.Legal k es) :
    let k' := commandSystem.exec k es
    k'.heap.owner = k.heap.owner ∧ k'.badFree = k.badFree ∧
      ∀ b, k.heap.next ≤ b → b < k'.heap.next → k'.heap.closes b = 1 := by
  intro k'
  have hwf : k'.Wf := (idle_run hk h).wf
  have hkeeps : ∀ es k, Idle k → commandSystem.Legal k es →
      (commandSystem.exec k es).heap.owner = k.heap.owner ∧
        (commandSystem.exec k es).badFree = k.badFree := by
    intro es
    induction es with
    | nil => exact fun k _ _ => ⟨rfl, rfl⟩
    | cons e es ih =>
      intro k hk hes
      obtain ⟨n, hleaves⟩ := command_cases hk hes.1
      obtain ⟨hheap, hbad⟩ := ih _ (idle_step k e hk hes.1) hes.2
      exact ⟨hheap.trans hleaves.heap, hbad.trans hleaves.badFree⟩
  obtain ⟨hheap, hbad⟩ := hkeeps es k hk h
  refine ⟨hheap, hbad, fun b hle hlt => ?_⟩
  refine (hwf.heap.total b hlt).resolve_left ?_
  rintro ⟨p, hp⟩
  -- an open block is one from before
  rw [hheap] at hp
  exact absurd (hk.wf.heap.live p b hp).1 (Nat.not_lt.mpr hle)

theorem ttcp_memory_three :
    let k' := commandSystem.exec startUp threeCommands
    k'.heap.owner = startUp.heap.owner ∧ k'.badFree = startUp.badFree ∧
      ∀ b, startUp.heap.next ≤ b → b < k'.heap.next → k'.heap.closes b = 1 :=
  ttcp_memory startUp_idle threeCommands_legal

/-- The listening sockets that are lost, in order. -/
def lostSocks (es : List (Options × Calls)) : List Int :=
  (es.filter fun e => e.2.lost e.1).map fun e => e.2.socket

theorem mem_lostSocks_cons {e : Options × Calls} {es : List (Options × Calls)} {d : Int} :
    d ∈ lostSocks (e :: es) ↔ e.2.lost e.1 = true ∧ d = e.2.socket ∨ d ∈ lostSocks es := by
  unfold lostSocks
  rw [List.filter_cons]
  split
  · next hlost =>
    rw [List.map_cons, List.mem_cons]
    exact or_congr_left ⟨fun h => ⟨hlost, h⟩, And.right⟩
  · next hlost => exact ⟨Or.inr, fun h => h.resolve_left fun h => hlost h.1⟩

/-- Each command whose `accept` fails takes a descriptor away for good. All other sockets are
    closed, and none twice but by the commands that `closesTwice` names. -/
theorem ttcp_sockets (hk : Idle k) {es : List (Options × Calls)} (h : commandSystem.Legal k es) :
    let k' := commandSystem.exec k es
    (∀ d, k'.socks.owner d ≠ none ↔ k.socks.owner d ≠ none ∨ d ∈ lostSocks es) ∧
      (∀ d ∈ lostSocks es, k.socks.owner d = none) ∧ (lostSocks es).Nodup ∧
      k'.badClose = k.badClose + (es.filter fun e => e.2.closesTwice e.1).length := by
  induction es generalizing k with
  | nil => exact ⟨fun d => ⟨Or.inl, fun h => h.resolve_right List.not_mem_nil⟩,
      fun d hd => (nomatch hd), List.nodup_nil, rfl⟩
  | cons e es ih =>
    obtain ⟨n, hleaves⟩ := command_cases hk h.1
    have hafter := open_after hk h.1
    obtain ⟨hopen, hfree, hnodup, hcount⟩ := ih (idle_step k e hk h.1) h.2
    have hkept : ∀ d ∈ lostSocks es, k.socks.owner d = none ∧
        ¬ (e.2.lost e.1 = true ∧ d = e.2.socket) := by
      intro d hd
      have hnone := not_imp_not.mpr (hafter d).mpr (not_not.mpr (hfree d hd))
      rw [not_or, not_not] at hnone
      exact hnone
    refine ⟨fun d => ?_, fun d hd => ?_, ?_, ?_⟩
    · rw [mem_lostSocks_cons, ← or_assoc, ← hafter d]
      exact hopen d
    · rcases mem_lostSocks_cons.mp hd with ⟨hlost, rfl⟩ | hd
      · exact h.1.1 (lost_pos hlost)
      · exact (hkept d hd).1
    · unfold lostSocks
      rw [List.filter_cons]
      split
      · next hlost =>
        refine List.nodup_cons.mpr ⟨fun hmem => ?_, hnodup⟩
        exact (hkept _ hmem).2 ⟨hlost, rfl⟩
      · exact hnodup
    · refine hcount.trans ?_
      show (rtemsShellMainTtcp e.1 e.2 k).badClose + _ = _
      rw [hleaves.badClose, List.filter_cons]
      split
      · next htwice =>
        rw [htwice, List.length_cons]
        exact (Nat.add_assoc ..).trans (congrArg _ (Nat.add_comm ..))
      · next htwice =>
        rw [Bool.eq_false_iff.mpr htwice]
        rfl

theorem ttcp_sockets_three :
    let k' := commandSystem.exec startUp threeCommands
    (∀ d, k'.socks.owner d ≠ none ↔ startUp.socks.owner d ≠ none ∨ d ∈ [3, 4]) ∧
      k'.badClose = startUp.badClose + 2 := by
  have h := ttcp_sockets startUp_idle threeCommands_legal
  exact ⟨h.1, h.2.2.2⟩

end Runs

end SsrlApps.TtcpCommand
