/-
  Logging in: `check_passwd` with the hash of des.c.

  `check_passwd` takes the salt from the stored password, hashes a line with it, and compares
  the strings. Here its parameter `crypt` is `__des_crypt_r`, with `sizeof(cryptbuf)`.

  Proved:
  * `cryptbuf_matches_iff`: the comparison of the strings is one of 64 bits, and stored strings that
    are no hashes match nothing.
  * `granted_iff`: when `check_passwd` returns 0, from what is typed.
  * `login_iff`: the two together, for any stored password.
  * `login_accepts`: who knows the password of a hash that `__des_crypt_r` made gets in, also
    with other characters behind those that count.
-/
import SsrlApps.Telnetd.Crypt
import SsrlApps.Telnetd.Prompts

namespace SsrlApps.Telnetd

open Des

/-! ## The comparison -/

/-- `cryptbuf` behind `__des_crypt_r(buf, salt, cryptbuf, sizeof(cryptbuf))`. -/
def cryptbuf (mem : Context) (buf salt : List UInt8) : List UInt8 :=
  ((desCryptR mem buf salt 21).getD []).takeWhile (· ≠ 0)

/-- The string in `cryptbuf`, when the salt is not empty. -/
theorem cryptbuf_eq (mem : Context) (buf : List UInt8) {salt : List UInt8}
    (hsalt : salt.getD 0 0 ≠ 0) :
    cryptbuf mem buf salt =
      salt.getD 0 0 :: secondChar salt :: encode (hashBits buf salt) := by
  have hsecond : secondChar salt ≠ 0 := by
    unfold secondChar
    split
    · next h => exact h
    · exact hsalt
  have hchars : ∀ c ∈ salt.getD 0 0 :: secondChar salt :: encode (hashBits buf salt),
      decide (c ≠ 0) = true := by
    intro c hc
    rcases List.mem_cons.mp hc with rfl | hc
    · exact decide_eq_true hsalt
    · rcases List.mem_cons.mp hc with rfl | hc
      · exact decide_eq_true hsecond
      · exact decide_eq_true (ascii64_ne_zero c ((encoded_encode _).alphabet c hc))
  unfold cryptbuf
  rw [desCryptR_ok _ _ _ (Int.le_refl 21), Option.getD_some, List.takeWhile_append_of_pos hchars]
  exact List.append_nil _

/-- A line hashes to `pw` exactly if `pw` is a hash, and its bits are those of the line. -/
theorem cryptbuf_matches_iff (mem : Context) (buf : List UInt8) {pw : List UInt8} (hne : pw ≠ [])
    (hclean : ∀ c ∈ pw, c ≠ 0) :
    cryptbuf mem buf (pw.take 2) = pw ↔
      Encoded (pw.drop 2) ∧ decode (pw.drop 2) = hashBits buf (pw.take 2) := by
  obtain ⟨a, tail, rfl⟩ := List.exists_cons_of_ne_nil hne
  have ha : a ≠ 0 := hclean a List.mem_cons_self
  have hfirst : ((a :: tail).take 2).getD 0 0 = a := rfl
  have hdrop : ∀ (b c : UInt8) (l : List UInt8), (b :: c :: l).drop 2 = l := fun _ _ _ => rfl
  rw [cryptbuf_eq mem buf (hfirst.symm ▸ ha), hfirst]
  constructor
  · intro h
    have hencode : (a :: tail).drop 2 = encode (hashBits buf ((a :: tail).take 2)) := by
      conv_lhs => rw [← h]
      exact hdrop _ _ _
    rw [hencode]
    exact ⟨encoded_encode _, decode_encode _⟩
  · rintro ⟨hencoded, hdecode⟩
    cases tail with
    | nil => cases hencoded.length
    | cons b rest =>
      have hb : b ≠ 0 := hclean b (List.mem_cons_of_mem a List.mem_cons_self)
      have hsecond : secondChar ((a :: b :: rest).take 2) = b := if_pos hb
      rw [hsecond, ← hdecode, encode_decode hencoded, hdrop]

/-! ## The decision -/

/-- `check_passwd` returns 0 exactly if one of the first three lines matches. -/
theorem granted_iff (t : Terminal) (script : List Typed) (hkeys : t.keys = typed script) :
    (checkPasswd t.env).rval = 0 ↔
      t.Configured ∧ ∃ l ∈ (offered script).take 3, Matches t.crypt (storedPasswd t.env) l := by
  by_cases hconf : t.Configured
  · obtain ⟨hget, hset⟩ := hconf
    obtain ⟨told, hget⟩ := Option.isSome_iff_exists.mp hget
    exact (configured_decides hkeys hget hset).granted
  · refine iff_of_false (fun h => ?_) fun h => hconf h.1
    have henv : t.env.tcgetattr = t.tcgetattr := rfl
    have hok : t.env.tcsetattrOk = t.tcsetattrOk := rfl
    unfold checkPasswd at h
    cases hget : t.tcgetattr with
    | none =>
      rw [henv, hget] at h
      cases h
    | some told =>
      cases hset : t.tcsetattrOk with
      | false =>
        rw [henv, hget, hok, hset] at h
        cases h
      | true => exact hconf ⟨by rw [hget]; rfl, hset⟩

/-- The terminal, with the hash of des.c. -/
def Terminal.withDes (t : Terminal) (mem : Context) : Terminal := { t with crypt := cryptbuf mem }

/-- What is hashed of a line. -/
def TypedLine.password (l : TypedLine) : List UInt8 :=
  l.text.rdropWhile fun c => c == lf || c == cr

theorem storedPasswd_string {t : Terminal}
    (hclean : ∀ pw, t.getenv = some pw → ∀ c ∈ pw, c ≠ 0) :
    storedPasswd t.env ≠ [] ∧ ∀ c ∈ storedPasswd t.env, c ≠ 0 := by
  have hdefault : telnetdDefaultPasswd ≠ [] ∧ ∀ c ∈ telnetdDefaultPasswd, c ≠ 0 := by
    simp [telnetdDefaultPasswd, ascii]
  have henv : t.env.getenv = t.getenv := rfl
  unfold storedPasswd
  rw [henv]
  cases hget : t.getenv with
  | none => exact hdefault
  | some pw =>
    dsimp only
    split
    · exact hdefault
    · next hlen => exact ⟨fun h => hlen (List.length_eq_zero_iff.mpr h), hclean pw hget⟩

/-- Who gets in, for any stored password and whatever is typed. -/
theorem login_iff (t : Terminal) (mem : Context) (script : List Typed)
    (hkeys : t.keys = typed script) (hclean : ∀ pw, t.getenv = some pw → ∀ c ∈ pw, c ≠ 0)
    {pw : List UInt8} (hpw : storedPasswd t.env = pw) :
    (checkPasswd (t.withDes mem).env).rval = 0 ↔
      t.Configured ∧ Encoded (pw.drop 2) ∧
        ∃ l ∈ (offered script).take 3, hashBits l.password (pw.take 2) = decode (pw.drop 2) := by
  subst hpw
  obtain ⟨hne, hstring⟩ := storedPasswd_string hclean
  have hmatch : ∀ l, Matches (cryptbuf mem) (storedPasswd t.env) l ↔
      Encoded ((storedPasswd t.env).drop 2) ∧ decode ((storedPasswd t.env).drop 2) =
        hashBits l.password ((storedPasswd t.env).take 2) :=
    fun l => cryptbuf_matches_iff mem l.password hne hstring
  have hgranted := granted_iff (t.withDes mem) script hkeys
  refine hgranted.trans (and_congr_right fun _ => ?_)
  constructor
  · rintro ⟨l, hl, hyes⟩
    obtain ⟨hencoded, hhash⟩ := (hmatch l).mp hyes
    exact ⟨hencoded, l, hl, hhash.symm⟩
  · rintro ⟨hencoded, l, hl, hhash⟩
    exact ⟨l, hl, (hmatch l).mpr ⟨hencoded, hhash.symm⟩⟩

/-- The password `stored` in the environment, echo on, and `script` typed. -/
def loginTerminal (stored : List UInt8) (script : List Typed) : Terminal where
  getenv := some stored
  tcgetattr := some ⟨true, true, 0, 1⟩
  tcsetattrOk := true
  crypt line _ := line
  keys := typed script

/-- A password in clear text is no hash. -/
theorem login_iff_clearText :
    (checkPasswd ((loginTerminal (ascii "rt") threeLines).withDes dirtyMem).env).rval = 0 ↔
      (loginTerminal (ascii "rt") threeLines).Configured ∧ Encoded ((ascii "rt").drop 2) ∧
        ∃ l ∈ (offered threeLines).take 3,
          hashBits l.password ((ascii "rt").take 2) = decode ((ascii "rt").drop 2) :=
  login_iff (loginTerminal (ascii "rt") threeLines) dirtyMem threeLines rfl
    (fun _ h c hc => by cases h; revert c hc; simp [ascii]) rfl

/-- The password of a hash opens the door: `secret` was hashed with the salt `a`, `b`, and one
    of the first three lines is the same, in what counts. -/
theorem login_accepts (t : Terminal) (mem mem' : Context) (script : List Typed)
    (hkeys : t.keys = typed script) (hconf : t.Configured) {secret : List UInt8} {a b : UInt8}
    (ha : a ≠ 0) (hb : b ≠ 0) (hstored : t.getenv = some (cryptbuf mem' secret [a, b]))
    {l : TypedLine} (hl : l ∈ (offered script).take 3)
    (hsame : effective 8 l.password = effective 8 secret) :
    (checkPasswd (t.withDes mem).env).rval = 0 := by
  have hfirst : ([a, b] : List UInt8).getD 0 0 = a := rfl
  have hsecond : secondChar [a, b] = b := if_pos hb
  have hhash : ∀ mem buf, cryptbuf mem buf [a, b] = a :: b :: encode (hashBits buf [a, b]) := by
    intro mem buf
    rw [cryptbuf_eq mem buf (hfirst.symm ▸ ha), hsecond, hfirst]
  have hpw : storedPasswd t.env = a :: b :: encode (hashBits secret [a, b]) := by
    have henv : t.env.getenv = some (cryptbuf mem' secret [a, b]) := hstored
    unfold storedPasswd
    rw [henv, hhash]
    rfl
  refine (granted_iff (t.withDes mem) script hkeys).mpr ⟨hconf, l, hl, ?_⟩
  show cryptbuf mem l.password ((storedPasswd t.env).take 2) = storedPasswd t.env
  rw [hpw, ← hashBits_congr hsame]
  exact hhash mem l.password

/-- The password without its last two characters, and a CR. -/
def shortened : TypedLine := ⟨ascii "rtemsrte\r", by decide, by simp [ascii, lf]⟩

/-- A wrong line first. -/
def twoLines : List Typed := threeLines.take 1 ++ [.line shortened]

theorem login_accepts_shortened :
    (checkPasswd ((loginTerminal (cryptbuf dirtyMem (ascii "rtemsrtems") [0x74, 0x64])
      twoLines).withDes dirtyMem).env).rval = 0 :=
  login_accepts _ dirtyMem dirtyMem twoLines rfl ⟨rfl, rfl⟩ (by decide) (by decide) rfl
    (l := shortened) (List.mem_cons_of_mem _ List.mem_cons_self) (by decide)

end SsrlApps.Telnetd
