/-
  What a context of des.c knows, after any calls.

  `des_setkey` returns early when the key is the one it was called with before, `setup_salt`
  when the salt is. The memory of a context is not cleared, but the old key is set to zero,
  and a zero key never counts as the old one: so the first key is always set up.

  Model. A `DesOp` is a call with a context. A `Setting` is what the calls mean: the last key,
  if there was one, and the last salt. `contextAfter` makes calls, in order, in a context that
  was just allocated.

  Proved:
  * `tracks_step`, `tracks_after`: each call keeps the context in line with the setting.
  * `des_textbook`: after any calls, `do_des` is the textbook cipher with the last key and the
    last salt, whatever was in the memory.
  * `des_inBounds`: it stays inside its tables.
  * `des_decrypts`: the opposite count takes back what a count did.
  * `des_complement`: complemented keys take the complement of a block to that of the result.
  * `des_weak`: with a weak key, the same count takes it back.
  * `des_parity`: the last bit of a byte of the key does not count.
-/
import SsrlApps.Telnetd.DesKeys

namespace SsrlApps.Des

open BitRoute

/-! ## Calls and what they mean -/

/-- A call with a context. -/
inductive DesOp where
  | setkey (key : Nat → UInt8)
  | salt (salt : Word)
  | des (l r : Word) (count : Int)

def desStep (ctx : Context) : DesOp → Context
  | .setkey key => desSetkey key ctx
  | .salt salt => setupSalt salt ctx
  | .des _ _ _ => ctx

/-- The context behind the calls `ops`, in the memory `mem`. -/
def contextAfter (mem : Context) (ops : List DesOp) : Context :=
  ops.foldl desStep (desCtxInit mem)

/-- The key and the salt that count. -/
structure Setting where
  key : Option (Bits 64)
  salt : Word

def Setting.step (t : Setting) : DesOp → Setting
  | .setkey key => { t with key := some (keyBits key) }
  | .salt salt => { t with salt := salt }
  | .des _ _ _ => t

def settingAfter (ops : List DesOp) : Setting := ops.foldl Setting.step ⟨none, 0⟩

/-- The subkeys of the direction that the sign of the count chooses. -/
def directed (key : Bits 64) (count : Int) : List (Bits 48) :=
  if 0 < count then subkeys key else (subkeys key).reverse

/-- The key that `crypt` makes of "rtems". -/
def rtemsKey (i : Nat) : UInt8 := [0xe4, 0xe8, 0xca, 0xda, 0xe6].getD i 0

/-- A key is set, then a salt, and then the key again. -/
def rtemsOps : List DesOp := [.setkey rtemsKey, .salt 0xa2d, .setkey rtemsKey]

/-- Memory that nobody has cleared. -/
def dirtyMem : Context where
  enKeysl _ := 0xdeadbeef
  enKeysr _ := 0xdeadbeef
  deKeysl _ := 0xdeadbeef
  deKeysr _ := 0xdeadbeef
  saltbits := 0xdeadbeef
  oldSalt := 0xa2d
  oldRawkey0 := 0xe4e8cada
  oldRawkey1 := 0xe6000000

/-! ## One call -/

/-- The context is in line with the setting. -/
structure Tracks (ctx : Context) (t : Setting) : Prop where
  salt : SaltOf ctx.saltbits t.salt
  oldSalt : ctx.oldSalt = t.salt
  keyed : ∀ key, t.key = some key → ctx.Keyed ∧
    keysOf ctx.enKeysl ctx.enKeysr = subkeys key ∧
    keysOf ctx.deKeysl ctx.deKeysr = (subkeys key).reverse ∧
    pack 32 ctx.oldRawkey0 ctx.oldRawkey1 = key
  fresh : t.key = none → ctx.oldRawkey0 = 0 ∧ ctx.oldRawkey1 = 0

theorem saltOf_zero : SaltOf 0 0 where
  fits := by
    show (0 : Word).toNat < 2 ^ 24
    decide
  bit := by
    intro o _
    exact BitVec.getLsbD_zero.trans BitVec.getLsbD_zero.symm

/-- The bits that `setup_salt` collects. -/
theorem saltOf_collected (salt : Word) :
    SaltOf (orMasks 24 (fun i => salt &&& ((1 : Word) <<< i) ≠ 0)
      fun i => (0x800000 : Word) >>> i) salt := by
  have hmask : ∀ i < 24, ∀ o < 32,
      ((0x800000 : Word) >>> i).getLsbD o = decide (o + i = 23) := by decide
  have htest : ∀ i < 24, (salt &&& ((1 : Word) <<< i) ≠ 0 ↔ salt.getLsbD i = true) := by
    intro i hi
    have hone : ((1 : Word) <<< i) = BitVec.twoPow 32 i := rfl
    rw [hone, BitVec.and_twoPow]
    have hne : BitVec.twoPow 32 i ≠ 0 := by
      revert i
      decide
    split
    · next h => exact iff_of_true hne h
    · next h => exact iff_of_false (fun h0 => h0 rfl) h
  refine ⟨fits_of_bits fun o ho => ?_, fun o ho => ?_⟩
  · by_cases hlt : o < 32
    · refine Bool.eq_false_iff.mpr fun hbit => ?_
      obtain ⟨i, hi, -, hset⟩ := (getLsbD_orMasks _ _ _ _).mp hbit
      rw [hmask i hi o hlt] at hset
      have hsum := of_decide_eq_true hset
      omega
    · exact BitVec.getLsbD_of_ge _ _ (Nat.not_lt.mp hlt)
  · rw [Bool.eq_iff_iff, getLsbD_orMasks]
    constructor
    · rintro ⟨i, hi, hsalt, hset⟩
      rw [hmask i hi _ (by omega)] at hset
      have hsum := of_decide_eq_true hset
      have hio : i = o := by omega
      rw [← hio]
      exact (htest i hi).mp hsalt
    · intro hbit
      refine ⟨o, ho, (htest o ho).mpr hbit, ?_⟩
      rw [hmask o ho _ (by omega)]
      exact decide_eq_true (by omega)

theorem tracks_init (mem : Context) : Tracks (desCtxInit mem) ⟨none, 0⟩ where
  salt := saltOf_zero
  oldSalt := rfl
  keyed := by
    intro key h
    cases h
  fresh := fun _ => ⟨rfl, rfl⟩

theorem tracks_salt {ctx : Context} {t : Setting} (h : Tracks ctx t) (salt : Word) :
    Tracks (setupSalt salt ctx) { t with salt := salt } := by
  unfold setupSalt
  split
  · next hsame =>
    have ht : t.salt = salt := h.oldSalt.symm.trans hsame.symm
    exact ⟨ht ▸ h.salt, hsame.symm, h.keyed, h.fresh⟩
  · exact ⟨saltOf_collected salt, rfl, h.keyed, h.fresh⟩

theorem tracks_setkey {ctx : Context} {t : Setting} (h : Tracks ctx t) (key : Nat → UInt8) :
    Tracks (desSetkey key ctx) { t with key := some (keyBits key) } := by
  unfold desSetkey
  dsimp only
  split
  · next hold =>
    obtain ⟨hzero, h0, h1⟩ := hold
    refine ⟨h.salt, h.oldSalt, ?_, fun hnone => nomatch hnone⟩
    rintro _ ⟨⟩
    cases ht : t.key with
    | none =>
      -- the old key of a new context is zero, and such a key was excluded
      obtain ⟨hr0, hr1⟩ := h.fresh ht
      rw [h0, h1, hr0, hr1] at hzero
      exact absurd rfl hzero
    | some k =>
      obtain ⟨hkeyed, hen, hde, hraw⟩ := h.keyed k ht
      have hkey : k = keyBits key := by
        rw [← hraw, ← h0, ← h1, pack_rawWord]
      rw [← hkey]
      exact ⟨hkeyed, hen, hde, hraw⟩
  · have hsched : Scheduled (lookup keyPermMaskl (keyIndices (rawWord key 0) (rawWord key 4)))
        (lookup keyPermMaskr (keyIndices (rawWord key 0) (rawWord key 4)))
        { ctx with oldRawkey0 := rawWord key 0, oldRawkey1 := rawWord key 4 } 16 _ :=
      scheduled_loop _ (Nat.le_refl 16)
    obtain ⟨hen, hkeyed⟩ := subkeys_eq key hsched
    refine ⟨?_, hsched.oldSalt.trans h.oldSalt, ?_, fun hnone => nomatch hnone⟩
    · rw [hsched.saltbits]
      exact h.salt
    · rintro _ ⟨⟩
      refine ⟨hkeyed, hen, ?_, ?_⟩
      · rw [keysOf_reverse hsched, hen]
      · rw [hsched.oldRawkey0, hsched.oldRawkey1]
        exact pack_rawWord key

theorem tracks_step {ctx : Context} {t : Setting} (h : Tracks ctx t) (op : DesOp) :
    Tracks (desStep ctx op) (t.step op) := by
  cases op with
  | setkey key => exact tracks_setkey h key
  | salt salt => exact tracks_salt h salt
  | des l r count => exact h

theorem tracks_foldl {ctx : Context} {t : Setting} (h : Tracks ctx t) (ops : List DesOp) :
    Tracks (ops.foldl desStep ctx) (ops.foldl Setting.step t) := by
  induction ops generalizing ctx t with
  | nil => exact h
  | cons op ops ih => exact ih (tracks_step h op)

theorem tracks_after (mem : Context) (ops : List DesOp) :
    Tracks (contextAfter mem ops) (settingAfter ops) :=
  tracks_foldl (tracks_init mem) ops

/-! ## Runs -/

section Runs

variable (mem : Context) (ops : List DesOp)

/-- A key is set once `des_setkey` was called. -/
theorem settingAfter_key (h : ∃ key, DesOp.setkey key ∈ ops) :
    ∃ key, (settingAfter ops).key = some key := by
  have hkept : ∀ (ops : List DesOp) (t : Setting) (k : Bits 64), t.key = some k →
      ∃ key, (ops.foldl Setting.step t).key = some key := by
    intro ops
    induction ops with
    | nil => exact fun t k ht => ⟨k, ht⟩
    | cons op ops ih =>
      intro t k ht
      cases op with
      | setkey key => exact ih _ (keyBits key) rfl
      | salt salt => exact ih _ k ht
      | des l r count => exact ih _ k ht
  obtain ⟨key, hmem⟩ := h
  obtain ⟨before, behind, rfl⟩ := List.append_of_mem hmem
  unfold settingAfter
  rw [List.foldl_append, List.foldl_cons]
  exact hkept behind _ (keyBits key) rfl

variable {key : Bits 64}

theorem keys_after (hkey : (settingAfter ops).key = some key) (count : Int) :
    (contextAfter mem ops).keys count = directed key count := by
  obtain ⟨-, hen, hde, -⟩ := (tracks_after mem ops).keyed key hkey
  unfold Context.keys directed
  rw [hen, hde]

/-- `do_des`, whatever the calls before it were. -/
theorem doDes_after (hkey : (settingAfter ops).key = some key) (l r : Word) {count : Int}
    (hcount : count ≠ 0) :
    ∃ l' r', doDes (contextAfter mem ops) l r count = some (l', r') ∧
      pack 32 l' r' = (encipher (settingAfter ops).salt (directed key count))^[count.natAbs]
        (pack 32 l r) := by
  have htracks := tracks_after mem ops
  rw [← keys_after mem ops hkey]
  exact doDes_eq htracks.salt (htracks.keyed key hkey).1 l r hcount

theorem des_textbook (hkey : (settingAfter ops).key = some key) (l r : Word) (count : Int) :
    (doDes (contextAfter mem ops) l r count).map (fun b => pack 32 b.1 b.2) =
      if count = 0 then none
      else some ((encipher (settingAfter ops).salt (directed key count))^[count.natAbs]
        (pack 32 l r)) := by
  by_cases hcount : count = 0
  · rw [if_pos hcount, hcount, doDes_zero]
    rfl
  · obtain ⟨l', r', hdes, hpack⟩ := doDes_after mem ops hkey l r hcount
    rw [if_neg hcount, hdes, ← hpack]
    rfl

/-- The old key and the old salt in the memory do not count. -/
theorem des_textbook_rtems :
    (doDes (contextAfter dirtyMem rtemsOps) 0 0 25).map (fun b => pack 32 b.1 b.2) =
      some ((encipher 0xa2d (subkeys (keyBits rtemsKey)))^[25] (pack 32 0 0)) :=
  des_textbook dirtyMem rtemsOps rfl 0 0 25

/-- No index goes beyond the end of `m_sbox`, in no round and for no block. -/
theorem des_inBounds (hkey : ∃ key, DesOp.setkey key ∈ ops) (r : Word) {round : Nat}
    (hround : round < 16) :
    let ctx := contextAfter mem ops
    (∀ n ∈ roundIndices ctx.saltbits (ctx.enKeysl round, ctx.enKeysr round) r, n < 4096) ∧
      ∀ n ∈ roundIndices ctx.saltbits (ctx.deKeysl round, ctx.deKeysr round) r, n < 4096 := by
  intro ctx
  obtain ⟨key, hset⟩ := settingAfter_key ops hkey
  have htracks := tracks_after mem ops
  obtain ⟨hen, hde⟩ := (htracks.keyed key hset).1
  obtain ⟨henl, henr⟩ := hen round hround
  obtain ⟨hdel, hder⟩ := hde round hround
  exact ⟨roundIndices_lt htracks.salt.fits henl henr r, roundIndices_lt htracks.salt.fits hdel hder r⟩

theorem des_inBounds_rtems :
    let ctx := contextAfter dirtyMem rtemsOps
    (∀ n ∈ roundIndices ctx.saltbits (ctx.enKeysl 15, ctx.enKeysr 15) 7, n < 4096) ∧
      ∀ n ∈ roundIndices ctx.saltbits (ctx.deKeysl 15, ctx.deKeysr 15) 7, n < 4096 :=
  des_inBounds dirtyMem rtemsOps ⟨rtemsKey, List.mem_cons_self⟩ 7 (by decide)

/-! ## Back again -/

theorem directed_neg (key : Bits 64) {count : Int} (hcount : count ≠ 0) :
    directed key (-count) = (directed key count).reverse := by
  unfold directed
  by_cases hpos : 0 < count
  · have hneg : ¬ 0 < -count := by omega
    rw [if_pos hpos, if_neg hneg]
  · have hneg : 0 < -count := by omega
    rw [if_neg hpos, if_pos hneg, List.reverse_reverse]

/-- Two passes after each other that cancel on the bits give the words back. -/
theorem doDes_undone (hkey : (settingAfter ops).key = some key) {count back : Int}
    (hcount : count ≠ 0) (hback : back ≠ 0)
    (hundo : ∀ x, (encipher (settingAfter ops).salt (directed key back))^[back.natAbs]
      ((encipher (settingAfter ops).salt (directed key count))^[count.natAbs] x) = x)
    (l r : Word) :
    (doDes (contextAfter mem ops) l r count).bind
      (fun b => doDes (contextAfter mem ops) b.1 b.2 back) = some (l, r) := by
  obtain ⟨l', r', hdes, hpack⟩ := doDes_after mem ops hkey l r hcount
  obtain ⟨l'', r'', hdes', hpack'⟩ := doDes_after mem ops hkey l' r' hback
  rw [hpack, hundo] at hpack'
  obtain ⟨hl, hr⟩ := pack_inj hpack'
  rw [hdes, Option.bind_some, hdes', hl, hr]

theorem des_decrypts (hkey : ∃ key, DesOp.setkey key ∈ ops) (l r : Word) {count : Int}
    (hcount : count ≠ 0) :
    (doDes (contextAfter mem ops) l r count).bind
      (fun b => doDes (contextAfter mem ops) b.1 b.2 (-count)) = some (l, r) := by
  obtain ⟨key, hset⟩ := settingAfter_key ops hkey
  have hback : -count ≠ 0 := by omega
  refine doDes_undone mem ops hset hcount hback (fun x => ?_) l r
  rw [Int.natAbs_neg, directed_neg key hcount]
  exact encipher_reverse _ _ _ x

theorem des_decrypts_rtems :
    (doDes (contextAfter dirtyMem rtemsOps) 0 0 25).bind
      (fun b => doDes (contextAfter dirtyMem rtemsOps) b.1 b.2 (-25)) = some (0, 0) :=
  des_decrypts dirtyMem rtemsOps ⟨rtemsKey, List.mem_cons_self⟩ 0 0 (by decide)

theorem encipher_weak_iterate (salt : Word) (h : Weak (key.select keyPerm)) (count : Int)
    (x : Bits 64) : (encipher salt (directed key count))^[count.natAbs]
      ((encipher salt (directed key count))^[count.natAbs] x) = x := by
  have hsame : (subkeys key).reverse = subkeys key := by
    unfold subkeys
    rw [subkeysFrom_weak h, List.reverse_replicate]
  have hdirected : directed key count = subkeys key := by
    unfold directed
    rw [hsame, ite_self]
  have hinv : Function.LeftInverse (encipher salt (subkeys key)) (encipher salt (subkeys key)) :=
    encipher_weak salt h
  rw [hdirected]
  exact hinv.iterate count.natAbs x

/-- With a weak key, enciphering twice deciphers. -/
theorem des_weak (hkey : (settingAfter ops).key = some key) (hweak : Weak (key.select keyPerm))
    (l r : Word) {count : Int} (hcount : count ≠ 0) :
    (doDes (contextAfter mem ops) l r count).bind
      (fun b => doDes (contextAfter mem ops) b.1 b.2 count) = some (l, r) :=
  doDes_undone mem ops hkey hcount hcount (encipher_weak_iterate _ hweak count) l r

theorem des_weak_zero :
    (doDes (contextAfter dirtyMem [.setkey fun _ => 0]) 1 2 25).bind
      (fun b => doDes (contextAfter dirtyMem [.setkey fun _ => 0]) b.1 b.2 25) = some (1, 2) :=
  des_weak dirtyMem [.setkey fun _ => 0] rfl ⟨by decide, by decide⟩ 1 2 (by decide)

end Runs

/-! ## Two histories -/

section Histories

variable (mem mem' : Context) (ops ops' : List DesOp)

/-- Only the last salt counts, and of the last key all but the last bits of its bytes. -/
theorem des_parity {key key' : Bits 64} (hkey : (settingAfter ops).key = some key)
    (hkey' : (settingAfter ops').key = some key')
    (hsalt : (settingAfter ops).salt = (settingAfter ops').salt)
    (hbits : ∀ p, p < 64 → p % 8 ≠ 7 → key.bit p = key'.bit p) (l r : Word) (count : Int) :
    doDes (contextAfter mem ops) l r count = doDes (contextAfter mem' ops') l r count := by
  by_cases hcount : count = 0
  · rw [hcount, doDes_zero, doDes_zero]
  · have hdirected : directed key count = directed key' count := by
      unfold directed
      rw [subkeys_congr hbits]
    obtain ⟨a, b, hdes, hpack⟩ := doDes_after mem ops hkey l r hcount
    obtain ⟨a', b', hdes', hpack'⟩ := doDes_after mem' ops' hkey' l r hcount
    rw [hsalt, hdirected, ← hpack'] at hpack
    obtain ⟨rfl, rfl⟩ := pack_inj hpack
    rw [hdes, hdes']

/-- The key with its parity bits set. -/
theorem keyBits_parity (key : Nat → UInt8) {p : Nat} (hp : p < 64) (hpar : p % 8 ≠ 7) :
    (keyBits key).bit p = (keyBits fun i => key i ||| 1).bit p := by
  have hone : ∀ j < 8, j ≠ 0 → (1 : UInt8).toBitVec.getLsbD j = false := by decide
  have hbits : ∀ key : Nat → UInt8, (keyBits key).bit p =
      (key (p / 8)).toBitVec.getLsbD (7 - p % 8) := fun key => dif_pos hp
  rw [hbits, hbits, UInt8.toBitVec_or, BitVec.getLsbD_or, hone _ (by omega) (by omega),
    Bool.or_false]

/-- The same, with the parity bits of the key set. -/
def oddOps : List DesOp := [.salt 0xa2d, .setkey fun i => rtemsKey i ||| 1]

theorem des_parity_odd :
    doDes (contextAfter dirtyMem rtemsOps) 3 4 1 = doDes (contextAfter dirtyMem oddOps) 3 4 1 := by
  have hkey : (settingAfter rtemsOps).key = some (keyBits rtemsKey) := rfl
  have hodd : (settingAfter oddOps).key = some (keyBits fun i => rtemsKey i ||| 1) := rfl
  have hsalt : (settingAfter rtemsOps).salt = (settingAfter oddOps).salt := rfl
  exact des_parity dirtyMem dirtyMem rtemsOps oddOps hkey hodd hsalt
    (fun _ hp hpar => keyBits_parity rtemsKey hp hpar) 3 4 1

/-- The same call, with the complement of the key. -/
def DesOp.complement : DesOp → DesOp
  | .setkey key => .setkey fun i => ~~~ key i
  | op => op

theorem keyBits_complement (key : Nat → UInt8) :
    keyBits (fun i => ~~~ key i) = (keyBits key).complement := by
  funext o
  have hlt : 7 - o.val % 8 < 8 := by omega
  show (~~~ (key (o.val / 8)).toBitVec).getLsbD (7 - o.val % 8) =
    !(key (o.val / 8)).toBitVec.getLsbD (7 - o.val % 8)
  rw [BitVec.getLsbD_not, decide_eq_true hlt, Bool.true_and]

theorem settingAfter_complement :
    settingAfter (ops.map DesOp.complement) =
      { settingAfter ops with key := (settingAfter ops).key.map Bits.complement } := by
  have hfold : ∀ (ops : List DesOp) (t : Setting),
      (ops.map DesOp.complement).foldl Setting.step { t with key := t.key.map Bits.complement } =
        { ops.foldl Setting.step t with
          key := (ops.foldl Setting.step t).key.map Bits.complement } := by
    intro ops
    induction ops with
    | nil => exact fun t => rfl
    | cons op ops ih =>
      intro t
      rw [List.map_cons, List.foldl_cons, List.foldl_cons, ← ih]
      cases op with
      | setkey key =>
        refine congrArg (fun k => List.foldl Setting.step (Setting.mk k t.salt) _) ?_
        exact congrArg some (keyBits_complement key)
      | salt salt => rfl
      | des l r count => rfl
  exact hfold ops ⟨none, 0⟩

theorem pack_complement (l r : Word) : pack 32 (~~~l) (~~~r) = (pack 32 l r).complement := by
  funext o
  show packAt 32 (~~~l) (~~~r) o.val = !packAt 32 l r o.val
  unfold packAt
  split
  · have hlt : 32 - 1 - o.val < 32 := by omega
    rw [BitVec.getLsbD_not, decide_eq_true hlt, Bool.true_and]
  · have hlt : 2 * 32 - 1 - o.val < 32 := by omega
    rw [BitVec.getLsbD_not, decide_eq_true hlt, Bool.true_and]

theorem directed_complement (key : Bits 64) (count : Int) :
    directed key.complement count = (directed key count).map Bits.complement := by
  unfold directed
  rw [subkeys_complement]
  split
  · rfl
  · exact List.map_reverse.symm

/-- The complements of all keys take the complement of a block to that of its result. -/
theorem des_complement (hkey : ∃ key, DesOp.setkey key ∈ ops) (l r : Word) (count : Int) :
    doDes (contextAfter mem' (ops.map DesOp.complement)) (~~~l) (~~~r) count =
      (doDes (contextAfter mem ops) l r count).map fun b => (~~~b.1, ~~~b.2) := by
  obtain ⟨key, hset⟩ := settingAfter_key ops hkey
  by_cases hcount : count = 0
  · rw [hcount, doDes_zero, doDes_zero]
    rfl
  · have hset' : (settingAfter (ops.map DesOp.complement)).key = some key.complement := by
      rw [settingAfter_complement, hset]
      rfl
    obtain ⟨a, b, hdes, hpack⟩ := doDes_after mem ops hset l r hcount
    obtain ⟨a', b', hdes', hpack'⟩ := doDes_after mem' _ hset' (~~~l) (~~~r) hcount
    rw [settingAfter_complement, directed_complement, pack_complement, encipher_complement,
      ← hpack, ← pack_complement] at hpack'
    obtain ⟨rfl, rfl⟩ := pack_inj hpack'
    rw [hdes, hdes']
    rfl

theorem des_complement_rtems :
    doDes (contextAfter dirtyMem (rtemsOps.map DesOp.complement)) (~~~0) (~~~0) 25 =
      (doDes (contextAfter dirtyMem rtemsOps) 0 0 25).map fun b => (~~~b.1, ~~~b.2) :=
  des_complement dirtyMem dirtyMem rtemsOps ⟨rtemsKey, List.mem_cons_self⟩ 0 0 25

end Histories

end SsrlApps.Des
