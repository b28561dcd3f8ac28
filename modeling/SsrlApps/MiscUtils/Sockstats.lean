/-
  The statistics of a socket buffer: `holdsclust` and `getsbstats` of sockstats.c.

  Model. Addresses and unsigned numbers have 32 bits. A socket buffer is the list of its
  packets, a packet the list of its mbufs; of an mbuf the flags and the data pointer are read.
  The clusters are `m_clusters` blocks of `MCLBYTES` bytes from `mbutl` on, each with its
  reference count. This is the build without floating point.

  Where the code looks for a cluster and where there is one (`HoldsCluster`) are two ways to
  pick mbufs; `tally` counts for either. The end of the address range is computed from
  `m_clusters - 1`, so that the last cluster lies behind it.

  Proved:
  * `fold_tally`: the nested loops count what `tally` counts.
  * `holdsclust_iff`: where the code looks.
  * `countsOk_iff`: the statistics are right exactly if no counter overflows and no mbuf is
    misjudged.
-/
import Mathlib.Data.List.Count
import Mathlib.Tactic.Linarith

namespace SsrlApps.MiscUtils

/-! ## The functions -/

/-- `M_EXT` -/
def mExt : UInt16 := 0x0001

-- literals of the two types below
local instance neZeroWord : NeZero (2 ^ 32) := ⟨by decide⟩
local instance neZeroShift : NeZero 32 := ⟨by decide⟩

/-- What is read of `struct mbuf`: `data` is `mtod`. -/
structure Mbuf where
  mFlags : UInt16
  data : Fin (2 ^ 32)

/-- The clusters, in the address space, with positive reference counts. -/
structure MbufPool where
  mbutl : Fin (2 ^ 32)
  /-- `mbstat.m_clusters` -/
  mClusters : Fin (2 ^ 32)
  mclshift : Fin 32
  mclrefcnt : Nat → UInt8
  fits : mbutl.1 + mClusters.1 * 2 ^ mclshift.1 ≤ 2 ^ 32
  positive : ∀ i, i < mClusters.1 → mclrefcnt i ≠ 0

/-- `MCLBYTES` -/
def MbufPool.mclbytes (pool : MbufPool) : Nat := 2 ^ pool.mclshift.1

/-- `mtocl(mtod(mb, int))` -/
def mtocl (pool : MbufPool) (mb : Mbuf) : Nat :=
  (mb.data.1 + 2 ^ 32 - pool.mbutl.1) % 2 ^ 32 / pool.mclbytes

/-- `e` of `holdsclust` -/
def clustersEnd (pool : MbufPool) : Nat :=
  (pool.mbutl.1 + pool.mclbytes * ((pool.mClusters.1 + 2 ^ 32 - 1) % 2 ^ 32)) % 2 ^ 32

def holdsclust (pool : MbufPool) (mb : Mbuf) : Bool :=
  decide (mb.mFlags &&& mExt ≠ 0) && decide (pool.mbutl.1 ≤ mb.data.1) &&
    decide (clustersEnd pool > mb.data.1)

/-- `struct sockbuf` -/
structure Sockbuf where
  sbCc : UInt32
  sbHiwat : UInt32
  sbMbcnt : UInt32
  sbMbmax : UInt32
  sbLowat : UInt32
  sbMb : List (List Mbuf)
  sbFlags : Int16
  sbTimeo : Int32

/-- `struct sbstats` -/
structure Sbstats where
  sbCc : UInt32
  sbHiwat : UInt32
  sbMbcnt : UInt32
  sbMbmax : UInt32
  sbLowat : UInt32
  nmbufs : Nat
  sbFlags : Int16
  sbTimeo : Int32
  nmbcl1s : Nat
  nmbclms : Nat
  clRefs : Nat

/-- The accumulators of `getsbstats`. -/
structure Counters where
  k : Nat
  c1 : Nat
  cm : Nat
  r : Nat

/-- The body of the inner loop. -/
def countMbuf (pool : MbufPool) (t : Counters) (mb : Mbuf) : Counters :=
  let t := { t with k := (t.k + 1) % 2 ^ 32 }
  if holdsclust pool mb then
    let i := (pool.mclrefcnt (mtocl pool mb)).toNat
    if 1 = i then { t with c1 := (t.c1 + 1) % 2 ^ 32 }
    else { t with cm := (t.cm + 1) % 2 ^ 32, r := (t.r + i) % 2 ^ 32 }
  else t

/-- The inner loop. -/
def countPacket (pool : MbufPool) (t : Counters) (packet : List Mbuf) : Counters :=
  packet.foldl (countMbuf pool) t

def getsbstats (pool : MbufPool) (sob : Sockbuf) : Sbstats :=
  let t := sob.sbMb.foldl (countPacket pool) ⟨0, 0, 0, 0⟩
  { sbCc := sob.sbCc
    sbHiwat := sob.sbHiwat
    sbMbcnt := sob.sbMbcnt
    sbMbmax := sob.sbMbmax
    sbLowat := sob.sbLowat
    nmbufs := t.k
    sbFlags := sob.sbFlags
    sbTimeo := sob.sbTimeo
    nmbcl1s := t.c1
    nmbclms := t.cm
    clRefs := t.r }

/-! ## What they are for -/

/-- The mbuf has an external buffer, which is a cluster of the pool. -/
def HoldsCluster (pool : MbufPool) (mb : Mbuf) : Prop :=
  mb.mFlags &&& mExt ≠ 0 ∧ pool.mbutl.1 ≤ mb.data.1 ∧
    mb.data.1 < pool.mbutl.1 + pool.mClusters.1 * pool.mclbytes

instance (pool : MbufPool) : DecidablePred (HoldsCluster pool) :=
  fun _ => inferInstanceAs (Decidable (_ ∧ _))

/-- The reference count of the cluster in which the data are. -/
def refs (pool : MbufPool) (mb : Mbuf) : Nat :=
  (pool.mclrefcnt ((mb.data.1 - pool.mbutl.1) / pool.mclbytes)).toNat

/-- The statistics of a buffer are those of its mbufs. -/
structure CountsOk (pool : MbufPool) (sob : Sockbuf) (s : Sbstats) : Prop where
  nmbufs : s.nmbufs = (sob.sbMb.map List.length).sum
  nmbcl1s : s.nmbcl1s =
    sob.sbMb.flatten.countP fun mb => HoldsCluster pool mb ∧ refs pool mb = 1
  nmbclms : s.nmbclms =
    sob.sbMb.flatten.countP fun mb => HoldsCluster pool mb ∧ 1 < refs pool mb
  clRefs : s.clRefs = ((sob.sbMb.flatten.filter fun mb =>
    HoldsCluster pool mb ∧ 1 < refs pool mb).map (refs pool)).sum

/-- The data are in the last cluster. -/
def InLast (pool : MbufPool) (mb : Mbuf) : Prop :=
  pool.mClusters.1 ≠ 0 ∧
    pool.mbutl.1 + (pool.mClusters.1 - 1) * pool.mclbytes ≤ mb.data.1 ∧
    mb.data.1 < pool.mbutl.1 + pool.mClusters.1 * pool.mclbytes

/-- There is no cluster, and the data are behind `mbutl` and in front of the place one cluster
    below it, which lies behind it if the subtraction wraps. -/
def InNone (pool : MbufPool) (mb : Mbuf) : Prop :=
  pool.mClusters.1 = 0 ∧ pool.mbutl.1 ≤ mb.data.1 ∧
    mb.data.1 < (pool.mbutl.1 + 2 ^ 32 - pool.mclbytes) % 2 ^ 32

/-- The mbufs about which the code is wrong. -/
def Misjudged (pool : MbufPool) (mb : Mbuf) : Prop :=
  mb.mFlags &&& mExt ≠ 0 ∧ (InLast pool mb ∨ InNone pool mb)

/-! ## Counting -/

/-- What is counted in `mbs`, if `holds` says which of them hold a cluster. -/
def tally (pool : MbufPool) (holds : Mbuf → Bool) (mbs : List Mbuf) : Counters where
  k := mbs.length
  c1 := mbs.countP fun mb => holds mb && refs pool mb == 1
  cm := mbs.countP fun mb => holds mb && refs pool mb != 1
  r := ((mbs.filter fun mb => holds mb && refs pool mb != 1).map (refs pool)).sum

/-- `t` and `u` together, in 32 bits. -/
def Counters.plus (t u : Counters) : Counters :=
  ⟨(t.k + u.k) % 2 ^ 32, (t.c1 + u.c1) % 2 ^ 32, (t.cm + u.cm) % 2 ^ 32, (t.r + u.r) % 2 ^ 32⟩

/-- The counters of a tally fit into 32 bits. -/
structure Counters.Fits (t : Counters) : Prop where
  k : t.k < 2 ^ 32
  c1 : t.c1 < 2 ^ 32
  cm : t.cm < 2 ^ 32
  r : t.r < 2 ^ 32

theorem Counters.plus_zero {t : Counters} (h : t.Fits) : t.plus ⟨0, 0, 0, 0⟩ = t := by
  unfold Counters.plus
  rw [Nat.add_zero, Nat.add_zero, Nat.add_zero, Nat.add_zero, Nat.mod_eq_of_lt h.k,
    Nat.mod_eq_of_lt h.c1, Nat.mod_eq_of_lt h.cm, Nat.mod_eq_of_lt h.r]

theorem Counters.zero_plus {t : Counters} (h : t.Fits) : Counters.plus ⟨0, 0, 0, 0⟩ t = t := by
  unfold Counters.plus
  rw [Nat.zero_add, Nat.zero_add, Nat.zero_add, Nat.zero_add, Nat.mod_eq_of_lt h.k,
    Nat.mod_eq_of_lt h.c1, Nat.mod_eq_of_lt h.cm, Nat.mod_eq_of_lt h.r]

theorem Counters.fits_plus (t u : Counters) : (t.plus u).Fits :=
  ⟨Nat.mod_lt _ (by decide), Nat.mod_lt _ (by decide), Nat.mod_lt _ (by decide),
    Nat.mod_lt _ (by decide)⟩

variable {pool : MbufPool} {mb : Mbuf}

/-- Behind `mbutl` the index is that of the cluster in which the data are. -/
theorem refs_mtocl (h : pool.mbutl.1 ≤ mb.data.1) :
    (pool.mclrefcnt (mtocl pool mb)).toNat = refs pool mb := by
  have hlt := mb.data.2
  have hdiff : (mb.data.1 + 2 ^ 32 - pool.mbutl.1) % 2 ^ 32 = mb.data.1 - pool.mbutl.1 := by omega
  unfold mtocl refs
  rw [hdiff]

theorem holdsclust_ge (h : holdsclust pool mb = true) : pool.mbutl.1 ≤ mb.data.1 := by
  unfold holdsclust at h
  simp only [Bool.and_eq_true, decide_eq_true_eq] at h
  exact h.1.2

/-- One mbuf is counted as the tally of it alone. -/
theorem countMbuf_tally (pool : MbufPool) {t : Counters} (ht : t.Fits) (mb : Mbuf) :
    countMbuf pool t mb = t.plus (tally pool (holdsclust pool) [mb]) := by
  have hc1 : t.c1 % 4294967296 = t.c1 := Nat.mod_eq_of_lt ht.c1
  have hcm : t.cm % 4294967296 = t.cm := Nat.mod_eq_of_lt ht.cm
  have hr : t.r % 4294967296 = t.r := Nat.mod_eq_of_lt ht.r
  unfold countMbuf tally Counters.plus
  cases hholds : holdsclust pool mb with
  | false => simp [hholds, hc1, hcm, hr]
  | true =>
    rw [refs_mtocl (holdsclust_ge hholds)]
    by_cases hone : refs pool mb = 1
    · simp [hholds, hone, hcm, hr]
    · have hone' : ¬ 1 = refs pool mb := fun h => hone h.symm
      simp [hholds, hone, hone', hc1]

theorem plus_tally_cons (t : Counters) (holds : Mbuf → Bool) (mb : Mbuf) (mbs : List Mbuf) :
    (t.plus (tally pool holds [mb])).plus (tally pool holds mbs) =
      t.plus (tally pool holds (mb :: mbs)) := by
  have hk : (tally pool holds (mb :: mbs)).k =
      (tally pool holds [mb]).k + (tally pool holds mbs).k := by
    show (mb :: mbs).length = 1 + mbs.length
    rw [List.length_cons, Nat.add_comm]
  have hc1 : (tally pool holds (mb :: mbs)).c1 =
      (tally pool holds [mb]).c1 + (tally pool holds mbs).c1 := by
    unfold tally
    dsimp only
    rw [← List.countP_append, List.singleton_append]
  have hcm : (tally pool holds (mb :: mbs)).cm =
      (tally pool holds [mb]).cm + (tally pool holds mbs).cm := by
    unfold tally
    dsimp only
    rw [← List.countP_append, List.singleton_append]
  have hr : (tally pool holds (mb :: mbs)).r =
      (tally pool holds [mb]).r + (tally pool holds mbs).r := by
    show (((([mb] ++ mbs).filter _)).map _).sum = _
    rw [List.filter_append, List.map_append, List.sum_append]
    rfl
  unfold Counters.plus
  rw [hk, hc1, hcm, hr]
  simp only [Nat.mod_add_mod, Nat.add_assoc]

/-- The inner loop. -/
theorem countPacket_tally (pool : MbufPool) {t : Counters} (ht : t.Fits) (mbs : List Mbuf) :
    countPacket pool t mbs = t.plus (tally pool (holdsclust pool) mbs) := by
  induction mbs generalizing t with
  | nil => exact (Counters.plus_zero ht).symm
  | cons mb mbs ih =>
    show countPacket pool (countMbuf pool t mb) mbs = _
    rw [countMbuf_tally pool ht, ih (Counters.fits_plus _ _), plus_tally_cons]

/-- The nested loops count every mbuf of every packet, once. -/
theorem fold_tally (pool : MbufPool) (packets : List (List Mbuf)) :
    packets.foldl (countPacket pool) ⟨0, 0, 0, 0⟩ =
      Counters.plus ⟨0, 0, 0, 0⟩ (tally pool (holdsclust pool) packets.flatten) := by
  have hzero : Counters.Fits ⟨0, 0, 0, 0⟩ := ⟨by decide, by decide, by decide, by decide⟩
  rw [← countPacket_tally pool hzero]
  exact List.foldl_flatten.symm

/-! ## Where the code looks -/

theorem mclbytes_pos (pool : MbufPool) : 0 < pool.mclbytes := Nat.two_pow_pos _

theorem clustersEnd_some (h : pool.mClusters.1 ≠ 0) :
    clustersEnd pool = pool.mbutl.1 + (pool.mClusters.1 - 1) * pool.mclbytes := by
  have hfits := pool.fits
  have hlt := pool.mClusters.2
  have hbytes := mclbytes_pos pool
  have hcount : (pool.mClusters.1 + 2 ^ 32 - 1) % 2 ^ 32 = pool.mClusters.1 - 1 := by omega
  have hprod : pool.mClusters.1 * pool.mclbytes =
      (pool.mClusters.1 - 1) * pool.mclbytes + pool.mclbytes := by
    rw [← Nat.succ_mul, Nat.succ_eq_add_one, Nat.sub_add_cancel (Nat.pos_of_ne_zero h)]
  rw [show 2 ^ pool.mclshift.1 = pool.mclbytes from rfl, hprod] at hfits
  unfold clustersEnd
  rw [hcount, Nat.mul_comm, Nat.mod_eq_of_lt (by omega)]

theorem clustersEnd_none (h : pool.mClusters.1 = 0) :
    clustersEnd pool = (pool.mbutl.1 + 2 ^ 32 - pool.mclbytes) % 2 ^ 32 := by
  have hbytes : pool.mclbytes ≤ 2 ^ 31 :=
    Nat.pow_le_pow_right (by decide) (Nat.le_of_lt_succ pool.mclshift.2)
  have hpos := mclbytes_pos pool
  unfold clustersEnd
  rw [h, show (0 + 2 ^ 32 - 1) % 2 ^ 32 = 2 ^ 32 - 1 from rfl]
  omega

/-- What `holdsclust` tests. -/
theorem holdsclust_test : holdsclust pool mb = true ↔
    mb.mFlags &&& mExt ≠ 0 ∧ pool.mbutl.1 ≤ mb.data.1 ∧ mb.data.1 < clustersEnd pool := by
  unfold holdsclust
  simp only [Bool.and_eq_true, decide_eq_true_eq, and_assoc, gt_iff_lt]

theorem holdsclust_iff : holdsclust pool mb = true ↔
    if pool.mClusters.1 = 0 then mb.mFlags &&& mExt ≠ 0 ∧ InNone pool mb
    else HoldsCluster pool mb ∧ ¬ InLast pool mb := by
  rw [holdsclust_test]
  split
  · next h =>
    rw [clustersEnd_none h]
    exact and_congr_right fun _ => ⟨fun hr => ⟨h, hr⟩, fun hn => hn.2⟩
  · next h =>
    rw [clustersEnd_some h]
    have hmono : (pool.mClusters.1 - 1) * pool.mclbytes ≤ pool.mClusters.1 * pool.mclbytes :=
      Nat.mul_le_mul_right _ (Nat.sub_le _ _)
    unfold HoldsCluster InLast
    constructor
    · rintro ⟨hext, hge, hlt⟩
      exact ⟨⟨hext, hge, by omega⟩, fun hlast => by omega⟩
    · rintro ⟨⟨hext, hge, hlt⟩, hlast⟩
      refine ⟨hext, hge, ?_⟩
      by_contra hle
      exact hlast ⟨h, Nat.le_of_not_lt hle, hlt⟩

/-- Without clusters no mbuf holds one. -/
theorem not_holdsCluster (h : pool.mClusters.1 = 0) : ¬ HoldsCluster pool mb := by
  rintro ⟨-, hge, hlt⟩
  rw [h, Nat.zero_mul] at hlt
  omega

/-- The code and the purpose agree on the mbufs that are not misjudged. -/
theorem misjudged_iff :
    (holdsclust pool mb = true ↔ HoldsCluster pool mb) ↔ ¬ Misjudged pool mb := by
  rw [holdsclust_iff]
  unfold Misjudged
  split
  · next h =>
    have hno : ¬ HoldsCluster pool mb := not_holdsCluster h
    have hlast : ¬ InLast pool mb := fun hl => hl.1 h
    rw [iff_false_intro hno, iff_false_intro hlast, false_or, iff_false]
  · next h =>
    have hnone : ¬ InNone pool mb := fun hn => h hn.1
    rw [iff_false_intro hnone, or_false]
    constructor
    · rintro hiff ⟨hext, hlast⟩
      have hge : pool.mbutl.1 ≤ mb.data.1 := Nat.le_trans (Nat.le_add_right _ _) hlast.2.1
      exact (hiff.mpr ⟨hext, hge, hlast.2.2⟩).2 hlast
    · intro hmis
      exact ⟨And.left, fun hholds => ⟨hholds, fun hlast => hmis ⟨hholds.1, hlast⟩⟩⟩

/-- For the mbufs that hold a cluster, "not 1" is "more than 1". -/
theorem refs_pos (h : HoldsCluster pool mb) : 0 < refs pool mb := by
  obtain ⟨-, hge, hlt⟩ := h
  have hindex : (mb.data.1 - pool.mbutl.1) / pool.mclbytes < pool.mClusters.1 := by
    rw [Nat.div_lt_iff_lt_mul (mclbytes_pos pool)]
    omega
  have hne := pool.positive _ hindex
  refine Nat.pos_of_ne_zero fun hzero => hne ?_
  exact UInt8.toNat_inj.mp hzero

/-! ## The statistics -/

/-- The tally that the statistics should be. -/
def truth (pool : MbufPool) (mbs : List Mbuf) : Counters :=
  tally pool (fun mb => decide (HoldsCluster pool mb)) mbs

theorem truth_one (mb : Mbuf) : (decide (HoldsCluster pool mb) && refs pool mb == 1) =
    decide (HoldsCluster pool mb ∧ refs pool mb = 1) := by
  rw [Bool.decide_and]
  rfl

theorem truth_more (mb : Mbuf) : (decide (HoldsCluster pool mb) && refs pool mb != 1) =
    decide (HoldsCluster pool mb ∧ 1 < refs pool mb) := by
  rw [Bool.decide_and]
  by_cases h : HoldsCluster pool mb
  · have hpos := refs_pos h
    rw [decide_eq_true h, Bool.true_and, Bool.true_and, Bool.eq_iff_iff]
    simp only [bne_iff_ne, decide_eq_true_eq]
    omega
  · rw [decide_eq_false h, Bool.false_and, Bool.false_and]

theorem truth_r (pool : MbufPool) (mbs : List Mbuf) : (truth pool mbs).r =
    ((mbs.filter fun mb => HoldsCluster pool mb ∧ 1 < refs pool mb).map (refs pool)).sum := by
  unfold truth tally
  dsimp only
  rw [List.filter_congr fun mb _ => truth_more mb]

/-- The statistics are right if the accumulators are the true tally. -/
theorem countsOk_tally (pool : MbufPool) (sob : Sockbuf) :
    CountsOk pool sob (getsbstats pool sob) ↔
      Counters.plus ⟨0, 0, 0, 0⟩ (tally pool (holdsclust pool) sob.sbMb.flatten) =
        truth pool sob.sbMb.flatten := by
  rw [← fold_tally]
  generalize ht : sob.sbMb.foldl (countPacket pool) ⟨0, 0, 0, 0⟩ = t
  have hone : (truth pool sob.sbMb.flatten).c1 =
      sob.sbMb.flatten.countP fun mb => HoldsCluster pool mb ∧ refs pool mb = 1 :=
    List.countP_congr fun mb _ => by rw [truth_one]
  have hmore : (truth pool sob.sbMb.flatten).cm =
      sob.sbMb.flatten.countP fun mb => HoldsCluster pool mb ∧ 1 < refs pool mb :=
    List.countP_congr fun mb _ => by rw [truth_more]
  have hsum := truth_r pool sob.sbMb.flatten
  have hlen : (truth pool sob.sbMb.flatten).k = (sob.sbMb.map List.length).sum :=
    List.length_flatten
  constructor
  · intro h
    obtain ⟨h1, h2, h3, h4⟩ := h
    unfold getsbstats at h1 h2 h3 h4
    rw [ht] at h1 h2 h3 h4
    rw [← hlen] at h1
    rw [← hone] at h2
    rw [← hmore] at h3
    rw [← hsum] at h4
    cases t
    exact Counters.mk.injEq .. |>.mpr ⟨h1, h2, h3, h4⟩
  · intro h
    unfold getsbstats
    rw [ht, h]
    exact ⟨hlen, hone, hmore, hsum⟩

/-- If one of two ways to pick implies the other, and they pick equally many, they agree. -/
theorem countP_agree {α : Type} {p q : α → Bool} {l : List α} (hpq : ∀ x ∈ l, p x = true → q x = true)
    (heq : l.countP p = l.countP q) : ∀ x ∈ l, p x = q x := by
  induction l with
  | nil =>
    intro x hx
    exact absurd hx List.not_mem_nil
  | cons a l ih =>
    have htail : ∀ x ∈ l, p x = true → q x = true := fun x hx => hpq x (List.mem_cons_of_mem a hx)
    have hle : l.countP p ≤ l.countP q := List.countP_mono_left htail
    rw [List.countP_cons, List.countP_cons] at heq
    have hhead := hpq a List.mem_cons_self
    have hsame : p a = q a := by
      cases hp : p a with
      | true => exact (hhead hp).symm
      | false =>
        cases hq : q a with
        | false => rfl
        | true =>
          rw [hp, hq] at heq
          simp at heq
          omega
    intro x hx
    rcases List.mem_cons.mp hx with rfl | hx
    · exact hsame
    · rw [hsame] at heq
      exact ih htail (Nat.add_right_cancel heq) x hx

/-- The mbufs that are picked are those with one reference and those with more. -/
theorem tally_picked (pool : MbufPool) (holds : Mbuf → Bool) (mbs : List Mbuf) :
    (tally pool holds mbs).c1 + (tally pool holds mbs).cm = mbs.countP holds := by
  unfold tally
  induction mbs with
  | nil => rfl
  | cons mb mbs ih =>
    simp only [List.countP_cons] at ih ⊢
    rw [← ih]
    cases holds mb with
    | false => simp
    | true =>
      by_cases hone : refs pool mb = 1
      · simp [hone]
        omega
      · simp [hone]
        omega

theorem tally_le (pool : MbufPool) (holds : Mbuf → Bool) (mbs : List Mbuf) :
    (tally pool holds mbs).c1 ≤ mbs.length ∧ (tally pool holds mbs).cm ≤ mbs.length :=
  ⟨List.countP_le_length, List.countP_le_length⟩

/-- Equal counts come from equal picks. -/
theorem agree_of_tally {mbs : List Mbuf}
    (h1 : (tally pool (holdsclust pool) mbs).c1 = (truth pool mbs).c1)
    (hm : (tally pool (holdsclust pool) mbs).cm = (truth pool mbs).cm) :
    ∀ mb ∈ mbs, ¬ Misjudged pool mb := by
  have hpicked : mbs.countP (holdsclust pool) =
      mbs.countP fun mb => decide (HoldsCluster pool mb) := by
    rw [← tally_picked pool, h1, hm, truth, tally_picked]
  have hagree : ∀ mb ∈ mbs, holdsclust pool mb = decide (HoldsCluster pool mb) := by
    by_cases hnone : pool.mClusters.1 = 0
    · -- nothing should be picked
      have hsub : ∀ mb ∈ mbs, decide (HoldsCluster pool mb) = true →
          holdsclust pool mb = true := by
        intro mb _ hholds
        exact absurd (of_decide_eq_true hholds) (not_holdsCluster hnone)
      exact fun mb hmb => (countP_agree hsub hpicked.symm mb hmb).symm
    · refine countP_agree ?_ hpicked
      intro mb _ hholds
      rw [holdsclust_iff, if_neg hnone] at hholds
      exact decide_eq_true hholds.1
  intro mb hmb
  rw [← misjudged_iff, hagree mb hmb]
  exact decide_eq_true_iff

/-- Equal picks give equal tallies. -/
theorem tally_of_agree {mbs : List Mbuf} (h : ∀ mb ∈ mbs, ¬ Misjudged pool mb) :
    tally pool (holdsclust pool) mbs = truth pool mbs := by
  have hsame : ∀ mb ∈ mbs, holdsclust pool mb = decide (HoldsCluster pool mb) := by
    intro mb hmb
    rw [Bool.eq_iff_iff, decide_eq_true_iff]
    exact misjudged_iff.mpr (h mb hmb)
  unfold truth tally
  rw [Counters.mk.injEq]
  refine ⟨rfl, ?_, ?_, ?_⟩
  · exact List.countP_congr fun mb hmb => by rw [hsame mb hmb]
  · exact List.countP_congr fun mb hmb => by rw [hsame mb hmb]
  · rw [List.filter_congr fun mb hmb => by rw [hsame mb hmb]]

/-- **When the statistics are right.** `getsbstats` counts every mbuf and every cluster exactly
    once if and only if there are less than `2 ^ 32` mbufs and references to shared clusters,
    and no mbuf has its data in the last cluster (or is taken for one when the pool is
    empty). -/
theorem countsOk_iff (pool : MbufPool) (sob : Sockbuf) :
    CountsOk pool sob (getsbstats pool sob) ↔
      (sob.sbMb.map List.length).sum < 2 ^ 32 ∧
      ((sob.sbMb.flatten.filter fun mb =>
        HoldsCluster pool mb ∧ 1 < refs pool mb).map (refs pool)).sum < 2 ^ 32 ∧
      ∀ mb ∈ sob.sbMb.flatten, ¬ Misjudged pool mb := by
  constructor
  · intro hok
    have htally := (countsOk_tally pool sob).mp hok
    have hlen : (sob.sbMb.map List.length).sum < 2 ^ 32 := by
      rw [← hok.nmbufs]
      unfold getsbstats
      rw [fold_tally]
      exact Nat.mod_lt _ (by decide)
    have hrefs : (getsbstats pool sob).clRefs < 2 ^ 32 := by
      unfold getsbstats
      rw [fold_tally]
      exact Nat.mod_lt _ (by decide)
    rw [hok.clRefs] at hrefs
    refine ⟨hlen, hrefs, ?_⟩
    rw [← List.length_flatten] at hlen
    obtain ⟨hle1, hlem⟩ := tally_le pool (holdsclust pool) sob.sbMb.flatten
    have h1 := congrArg Counters.c1 htally
    have hm := congrArg Counters.cm htally
    unfold Counters.plus at h1 hm
    dsimp only at h1 hm
    rw [Nat.zero_add, Nat.mod_eq_of_lt (Nat.lt_of_le_of_lt hle1 hlen)] at h1
    rw [Nat.zero_add, Nat.mod_eq_of_lt (Nat.lt_of_le_of_lt hlem hlen)] at hm
    exact agree_of_tally h1 hm
  · rintro ⟨hlen, hrefs, hagree⟩
    rw [countsOk_tally, tally_of_agree hagree]
    rw [← List.length_flatten] at hlen
    obtain ⟨hle1, hlem⟩ := tally_le pool (fun mb => decide (HoldsCluster pool mb))
      sob.sbMb.flatten
    refine Counters.zero_plus ⟨hlen, Nat.lt_of_le_of_lt hle1 hlen, Nat.lt_of_le_of_lt hlem hlen, ?_⟩
    rw [truth_r]
    exact hrefs

/-- One cluster of 2048 bytes at 0x1000, with one reference. -/
def onePool : MbufPool where
  mbutl := 0x1000
  mClusters := 1
  mclshift := 11
  mclrefcnt _ := 1
  fits := by decide
  positive := by
    intro i _
    decide

/-- A packet of one mbuf, which holds that cluster. -/
def oneBuf : Sockbuf := ⟨100, 8192, 2176, 65536, 1, [[⟨mExt, 0x1010⟩]], 0, 0⟩

/-- The only cluster is the last one, and the mbuf that holds it is not counted. -/
theorem last_cluster_missed : (getsbstats onePool oneBuf).nmbcl1s = 0 ∧
    ¬ CountsOk onePool oneBuf (getsbstats onePool oneBuf) := by
  refine ⟨by decide, fun h => ?_⟩
  have hone : (getsbstats onePool oneBuf).nmbcl1s ≠
      oneBuf.sbMb.flatten.countP fun mb => HoldsCluster onePool mb ∧ refs onePool mb = 1 := by
    decide
  exact hone h.nmbcl1s

end SsrlApps.MiscUtils
