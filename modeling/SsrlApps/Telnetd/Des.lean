/-
  The DES of telnetd/des.c: the tables of `des_init`, `setup_salt`, `des_setkey`, `do_des`.

  Model. Words are `BitVec 32`, bytes of a key `UInt8`. The arrays that `des_init` fills are
  functions of their indices: an array that is filled entry by entry is the value of the
  entry, an inverted permutation is the loop that stores into it (`invertTable`). `des_init` runs
  once and nothing else writes to these arrays, so they are constants here.

  A `Context` is `struct Des_Context`; `desCtxInit` takes the memory that `malloc` returns.
  `doDes` returns what `do_des` stores through its two pointers, `none` where it returns 1.
-/
import SsrlApps.Lib.BitRoute
import Mathlib.Logic.Function.Iterate

namespace SsrlApps.Des

open BitRoute

abbrev Word := BitVec 32

/-! ## Tables -/

def ip : List Nat := [
  58, 50, 42, 34, 26, 18, 10,  2, 60, 52, 44, 36, 28, 20, 12,  4,
  62, 54, 46, 38, 30, 22, 14,  6, 64, 56, 48, 40, 32, 24, 16,  8,
  57, 49, 41, 33, 25, 17,  9,  1, 59, 51, 43, 35, 27, 19, 11,  3,
  61, 53, 45, 37, 29, 21, 13,  5, 63, 55, 47, 39, 31, 23, 15,  7]

def keyPerm : List Nat := [
  57, 49, 41, 33, 25, 17,  9,  1, 58, 50, 42, 34, 26, 18,
  10,  2, 59, 51, 43, 35, 27, 19, 11,  3, 60, 52, 44, 36,
  63, 55, 47, 39, 31, 23, 15,  7, 62, 54, 46, 38, 30, 22,
  14,  6, 61, 53, 45, 37, 29, 21, 13,  5, 28, 20, 12,  4]

def keyShifts : List Nat := [1, 1, 2, 2, 2, 2, 2, 2, 1, 2, 2, 2, 2, 2, 2, 1]

def compPerm : List Nat := [
  14, 17, 11, 24,  1,  5,  3, 28, 15,  6, 21, 10,
  23, 19, 12,  4, 26,  8, 16,  7, 27, 20, 13,  2,
  41, 52, 31, 37, 47, 55, 30, 40, 51, 45, 33, 48,
  44, 49, 39, 56, 34, 53, 46, 42, 50, 36, 29, 32]

def sbox : List (List Nat) := [
  [ 14,  4, 13,  1,  2, 15, 11,  8,  3, 10,  6, 12,  5,  9,  0,  7,
     0, 15,  7,  4, 14,  2, 13,  1, 10,  6, 12, 11,  9,  5,  3,  8,
     4,  1, 14,  8, 13,  6,  2, 11, 15, 12,  9,  7,  3, 10,  5,  0,
    15, 12,  8,  2,  4,  9,  1,  7,  5, 11,  3, 14, 10,  0,  6, 13],
  [ 15,  1,  8, 14,  6, 11,  3,  4,  9,  7,  2, 13, 12,  0,  5, 10,
     3, 13,  4,  7, 15,  2,  8, 14, 12,  0,  1, 10,  6,  9, 11,  5,
     0, 14,  7, 11, 10,  4, 13,  1,  5,  8, 12,  6,  9,  3,  2, 15,
    13,  8, 10,  1,  3, 15,  4,  2, 11,  6,  7, 12,  0,  5, 14,  9],
  [ 10,  0,  9, 14,  6,  3, 15,  5,  1, 13, 12,  7, 11,  4,  2,  8,
    13,  7,  0,  9,  3,  4,  6, 10,  2,  8,  5, 14, 12, 11, 15,  1,
    13,  6,  4,  9,  8, 15,  3,  0, 11,  1,  2, 12,  5, 10, 14,  7,
     1, 10, 13,  0,  6,  9,  8,  7,  4, 15, 14,  3, 11,  5,  2, 12],
  [  7, 13, 14,  3,  0,  6,  9, 10,  1,  2,  8,  5, 11, 12,  4, 15,
    13,  8, 11,  5,  6, 15,  0,  3,  4,  7,  2, 12,  1, 10, 14,  9,
    10,  6,  9,  0, 12, 11,  7, 13, 15,  1,  3, 14,  5,  2,  8,  4,
     3, 15,  0,  6, 10,  1, 13,  8,  9,  4,  5, 11, 12,  7,  2, 14],
  [  2, 12,  4,  1,  7, 10, 11,  6,  8,  5,  3, 15, 13,  0, 14,  9,
    14, 11,  2, 12,  4,  7, 13,  1,  5,  0, 15, 10,  3,  9,  8,  6,
     4,  2,  1, 11, 10, 13,  7,  8, 15,  9, 12,  5,  6,  3,  0, 14,
    11,  8, 12,  7,  1, 14,  2, 13,  6, 15,  0,  9, 10,  4,  5,  3],
  [ 12,  1, 10, 15,  9,  2,  6,  8,  0, 13,  3,  4, 14,  7,  5, 11,
    10, 15,  4,  2,  7, 12,  9,  5,  6,  1, 13, 14,  0, 11,  3,  8,
     9, 14, 15,  5,  2,  8, 12,  3,  7,  0,  4, 10,  1, 13, 11,  6,
     4,  3,  2, 12,  9,  5, 15, 10, 11, 14,  1,  7,  6,  0,  8, 13],
  [  4, 11,  2, 14, 15,  0,  8, 13,  3, 12,  9,  7,  5, 10,  6,  1,
    13,  0, 11,  7,  4,  9,  1, 10, 14,  3,  5, 12,  2, 15,  8,  6,
     1,  4, 11, 13, 12,  3,  7, 14, 10, 15,  6,  8,  0,  5,  9,  2,
     6, 11, 13,  8,  1,  4, 10,  7,  9,  5,  0, 15, 14,  2,  3, 12],
  [ 13,  2,  8,  4,  6, 15, 11,  1, 10,  9,  3, 14,  5,  0, 12,  7,
     1, 15, 13,  8, 10,  3,  7,  4, 12,  5,  6, 11,  0, 14,  9,  2,
     7, 11,  4,  1,  9, 12, 14,  2,  0,  6, 10, 13, 15,  3,  5,  8,
     2,  1, 14,  7,  4, 10,  8, 13, 15, 12,  9,  0,  3,  5,  6, 11]]

def pbox : List Nat := [
  16,  7, 20, 21, 29, 12, 28, 17,  1, 15, 23, 26,  5, 18, 31, 10,
   2,  8, 24, 14, 32, 27,  3,  9, 19, 13, 30,  6, 22, 11,  4, 25]

def bits32Table : List Word := [
  0x80000000, 0x40000000, 0x20000000, 0x10000000, 0x08000000, 0x04000000, 0x02000000, 0x01000000,
  0x00800000, 0x00400000, 0x00200000, 0x00100000, 0x00080000, 0x00040000, 0x00020000, 0x00010000,
  0x00008000, 0x00004000, 0x00002000, 0x00001000, 0x00000800, 0x00000400, 0x00000200, 0x00000100,
  0x00000080, 0x00000040, 0x00000020, 0x00000010, 0x00000008, 0x00000004, 0x00000002, 0x00000001]

def bits8 : List Nat := [0x80, 0x40, 0x20, 0x10, 0x08, 0x04, 0x02, 0x01]

def bits32 (i : Nat) : Word := bits32Table.getD i 0

/-- `bits32 + 4` -/
def bits28 (i : Nat) : Word := bits32 (i + 4)

/-- `bits28 + 4` -/
def bits24 (i : Nat) : Word := bits28 (i + 4)

/-! ## `des_init` -/

/-- Inverted S-boxes, the input bits in their natural order. -/
def uSbox (i j : Nat) : Nat :=
  (sbox.getD i []).getD ((j &&& 0x20) ||| ((j &&& 1) <<< 4) ||| ((j >>> 1) &&& 0xf)) 0

/-- `m_sbox[b][(i << 6) | j]`: two S-boxes beside each other. -/
def mSbox (b n : Nat) : Nat :=
  let i := n >>> 6
  let j := n &&& 0x3f
  (uSbox (b <<< 1) i) <<< 4 ||| uSbox ((b <<< 1) + 1) j

def finalPerm (i : Nat) : Nat := ip.getD i 0 - 1

-- static arrays start at 0
def initPerm : Nat → Nat := invertTable ip fun _ => 0

def invKeyPerm : Nat → Nat := invertTable keyPerm fun _ => 255

def invCompPerm : Nat → Nat := invertTable compPerm fun _ => 255

def unPbox : Nat → Nat := invertTable pbox fun _ => 0

/-- An OR-mask: that of every bit of `i`, an index of `width` bits, that is set. -/
def orMask (width i : Nat) (mask : Nat → Word) : Word :=
  orMasks width (fun j => i &&& bits8.getD (j + (8 - width)) 0 ≠ 0) mask

/-- The part of an output bit in the left word, which has the bits below `n`. -/
def toLeft (bits : Nat → Word) (n obit : Nat) : Word := if obit < n then bits obit else 0

/-- The part of an output bit in the right word. -/
def toRight (bits : Nat → Word) (n obit : Nat) : Word := if obit < n then 0 else bits (obit - n)

/-- Input bits that are dropped have the output bit 255. -/
def unlessDropped (obit : Nat) (mask : Word) : Word := if obit = 255 then 0 else mask

def ipMaskl (k i : Nat) : Word := orMask 8 i fun j => toLeft bits32 32 (initPerm (8 * k + j))

def ipMaskr (k i : Nat) : Word := orMask 8 i fun j => toRight bits32 32 (initPerm (8 * k + j))

def fpMaskl (k i : Nat) : Word := orMask 8 i fun j => toLeft bits32 32 (finalPerm (8 * k + j))

def fpMaskr (k i : Nat) : Word := orMask 8 i fun j => toRight bits32 32 (finalPerm (8 * k + j))

def keyPermMaskl (k i : Nat) : Word := orMask 7 i fun j =>
  unlessDropped (invKeyPerm (8 * k + j)) (toLeft bits28 28 (invKeyPerm (8 * k + j)))

def keyPermMaskr (k i : Nat) : Word := orMask 7 i fun j =>
  unlessDropped (invKeyPerm (8 * k + j)) (toRight bits28 28 (invKeyPerm (8 * k + j)))

def compMaskl (k i : Nat) : Word := orMask 7 i fun j =>
  unlessDropped (invCompPerm (7 * k + j)) (toLeft bits24 24 (invCompPerm (7 * k + j)))

def compMaskr (k i : Nat) : Word := orMask 7 i fun j =>
  unlessDropped (invCompPerm (7 * k + j)) (toRight bits24 24 (invCompPerm (7 * k + j)))

def psbox (b i : Nat) : Word := orMask 8 i fun j => bits32 (unPbox (8 * b + j))

/-- `table[0][i0] | table[1][i1] | ...` -/
def lookup (table : Nat → Nat → Word) (indices : List Nat) : Word := orAll (indices.mapIdx table)

/-! ## Contexts -/

/-- `struct Des_Context`; the arrays have 16 entries. -/
structure Context where
  enKeysl : Nat → Word
  enKeysr : Nat → Word
  deKeysl : Nat → Word
  deKeysr : Nat → Word
  saltbits : Word
  oldSalt : Word
  oldRawkey0 : Word
  oldRawkey1 : Word

/-- `des_ctx_init`, in the memory that `malloc` returned: the keys are not initialised. -/
def desCtxInit (mem : Context) : Context :=
  { mem with oldRawkey0 := 0, oldRawkey1 := 0, saltbits := 0, oldSalt := 0 }

def setupSalt (salt : Word) (ctx : Context) : Context :=
  if salt = ctx.oldSalt then ctx
  else { ctx with
    oldSalt := salt
    saltbits := orMasks 24 (fun i => salt &&& ((1 : Word) <<< i) ≠ 0) fun i => (0x800000 : Word) >>> i }

/-- `ntohl` of the word at `key + i`: its first byte is the most significant, on any host. -/
def rawWord (key : Nat → UInt8) (i : Nat) : Word :=
  (key i).toBitVec ++ (key (i + 1)).toBitVec ++ (key (i + 2)).toBitVec ++ (key (i + 3)).toBitVec

/-- The 7-bit indices of a key into the key permutation: no parity bits. -/
def keyIndices (rawkey0 rawkey1 : Word) : List Nat := [
  (rawkey0 >>> 25).toNat, ((rawkey0 >>> 17) &&& 0x7f).toNat,
  ((rawkey0 >>> 9) &&& 0x7f).toNat, ((rawkey0 >>> 1) &&& 0x7f).toNat,
  (rawkey1 >>> 25).toNat, ((rawkey1 >>> 17) &&& 0x7f).toNat,
  ((rawkey1 >>> 9) &&& 0x7f).toNat, ((rawkey1 >>> 1) &&& 0x7f).toNat]

/-- The 7-bit indices of two rotated 28-bit subkeys into the key compression. -/
def compIndices (t0 t1 : Word) : List Nat := [
  ((t0 >>> 21) &&& 0x7f).toNat, ((t0 >>> 14) &&& 0x7f).toNat,
  ((t0 >>> 7) &&& 0x7f).toNat, (t0 &&& 0x7f).toNat,
  ((t1 >>> 21) &&& 0x7f).toNat, ((t1 >>> 14) &&& 0x7f).toNat,
  ((t1 >>> 7) &&& 0x7f).toNat, (t1 &&& 0x7f).toNat]

/-- `(k << shifts) | (k >> (28 - shifts))`; the bits above the 28th are not masked off. -/
def rotate (k : Word) (shifts : Nat) : Word := (k <<< shifts) ||| (k >>> (28 - shifts))

/-- One iteration of the key schedule loop; `shifts` is the sum of the shifts so far. -/
def setkeyRound (k0 k1 : Word) (s : Nat × Context) (round : Nat) : Nat × Context :=
  let shifts := s.1 + keyShifts.getD round 0
  let indices := compIndices (rotate k0 shifts) (rotate k1 shifts)
  let keyl := lookup compMaskl indices
  let keyr := lookup compMaskr indices
  (shifts, { s.2 with
    deKeysl := Function.update s.2.deKeysl (15 - round) keyl
    enKeysl := Function.update s.2.enKeysl round keyl
    deKeysr := Function.update s.2.deKeysr (15 - round) keyr
    enKeysr := Function.update s.2.enKeysr round keyr })

/-- `des_setkey`, from the eight bytes at `key`. It always returns 0. -/
def desSetkey (key : Nat → UInt8) (ctx : Context) : Context :=
  let rawkey0 := rawWord key 0
  let rawkey1 := rawWord key 4
  if rawkey0 ||| rawkey1 ≠ 0 ∧ rawkey0 = ctx.oldRawkey0 ∧ rawkey1 = ctx.oldRawkey1 then ctx
  else
    let ctx := { ctx with oldRawkey0 := rawkey0, oldRawkey1 := rawkey1 }
    let k0 := lookup keyPermMaskl (keyIndices rawkey0 rawkey1)
    let k1 := lookup keyPermMaskr (keyIndices rawkey0 rawkey1)
    ((List.range 16).foldl (setkeyRound k0 k1) (0, ctx)).2

/-! ## `do_des` -/

/-- The indices of the eight bytes of a block. -/
def byteIndices (l r : Word) : List Nat := [
  (l >>> 24).toNat, ((l >>> 16) &&& 0xff).toNat, ((l >>> 8) &&& 0xff).toNat, (l &&& 0xff).toNat,
  (r >>> 24).toNat, ((r >>> 16) &&& 0xff).toNat, ((r >>> 8) &&& 0xff).toNat, (r &&& 0xff).toNat]

/-- The left half of `r`, expanded to 48 bits. -/
def expandl (r : Word) : Word :=
  ((r &&& 0x00000001) <<< 23) ||| ((r &&& 0xf8000000) >>> 9) ||| ((r &&& 0x1f800000) >>> 11) |||
    ((r &&& 0x01f80000) >>> 13) ||| ((r &&& 0x001f8000) >>> 15)

def expandr (r : Word) : Word :=
  ((r &&& 0x0001f800) <<< 7) ||| ((r &&& 0x00001f80) <<< 5) ||| ((r &&& 0x000001f8) <<< 3) |||
    ((r &&& 0x0000001f) <<< 1) ||| ((r &&& 0x80000000) >>> 31)

/-- The S-box lookups and the P-box permutation, of the 48 bits that two words hold. -/
def substitute (r48l r48r : Word) : Word :=
  lookup psbox [mSbox 0 (r48l >>> 12).toNat, mSbox 1 (r48l &&& 0xfff).toNat,
    mSbox 2 (r48r >>> 12).toNat, mSbox 3 (r48r &&& 0xfff).toNat]

/-- The `f` of a round, before the left half is added. -/
def cipherf (saltbits : Word) (key : Word × Word) (r : Word) : Word :=
  let r48l := expandl r
  let r48r := expandr r
  let f := (r48l ^^^ r48r) &&& saltbits
  substitute (r48l ^^^ (f ^^^ key.1)) (r48r ^^^ (f ^^^ key.2))

def desRound (saltbits : Word) (kl kr : Nat → Word) (b : Word × Word) (round : Nat) :
    Word × Word :=
  (b.2, cipherf saltbits (kl round, kr round) b.2 ^^^ b.1)

/-- The 16 rounds. Behind the last one the halves change places: `f` is the right one then. -/
def desRounds (saltbits : Word) (kl kr : Nat → Word) (b : Word × Word) : Word × Word :=
  let b := (List.range 16).foldl (desRound saltbits kl kr) b
  (b.2, b.1)

/-- `do_des`: the 16 rounds `|count|` times, with the keys for decrypting if `count < 0`. -/
def doDes (ctx : Context) (lIn rIn : Word) (count : Int) : Option (Word × Word) :=
  if count = 0 then none
  else
    let kl := if 0 < count then ctx.enKeysl else ctx.deKeysl
    let kr := if 0 < count then ctx.enKeysr else ctx.deKeysr
    let l := lookup ipMaskl (byteIndices lIn rIn)
    let r := lookup ipMaskr (byteIndices lIn rIn)
    let b := (desRounds ctx.saltbits kl kr)^[count.natAbs] (l, r)
    some (lookup fpMaskl (byteIndices b.1 b.2), lookup fpMaskr (byteIndices b.1 b.2))

end SsrlApps.Des
