/-
  `strtok` with one separator, over an arbitrary alphabet.

  A string is in a buffer, from a position up to the terminator `nul`. `strtok` skips the
  separators at a position, and ends the token behind them in place: it overwrites the
  separator that follows the token, and goes on behind it the next time. `tokens n` makes up
  to `n` calls, and keeps the positions of the tokens.

  Proved:
  * `strtok_none`, `strtok_last`, `strtok_next`: one call, for each shape of the string.
  * `tokens_words`: the positions name the first `n` words of the string, in the buffer as it
    is behind the last call; nothing in front of the string has changed.
  * `words_intercalate`: words that are put together come apart again.
-/
import Mathlib.Data.List.GetD

namespace Strtok

variable {α : Type*} [DecidableEq α] (nul sep : α)

/-- The string at `p`. -/
def cString (b : List α) (p : Nat) : List α := (b.drop p).takeWhile (· ≠ nul)

/-- `strspn` -/
def spn (b : List α) (p : Nat) : Nat := ((b.drop p).takeWhile (· = sep)).length

/-- `strcspn` -/
def cspn (b : List α) (p : Nat) : Nat := ((cString nul b p).takeWhile (· ≠ sep)).length

/-- The token, the buffer, and where the next call starts. -/
def strtok (b : List α) (p : Nat) : Option (Nat × List α × Nat) :=
  let start := p + spn sep b p
  if b.getD start nul = nul then none
  else
    let stop := start + cspn nul sep b start
    if b.getD stop nul = nul then some (start, b, stop)
    else some (start, b.set stop nul, stop + 1)

def tokens : Nat → List α → Nat → List Nat × List α
  | 0, b, _ => ([], b)
  | n + 1, b, p =>
    match strtok nul sep b p with
    | none => ([], b)
    | some (start, b', p') => (start :: (tokens n b' p').1, (tokens n b' p').2)

/-- What is between the separators, where there is something. -/
def words (s : List α) : List (List α) := (s.splitOn sep).filter (· ≠ [])

/-! ## Words -/

section Words

variable {sep} {s w : List α}

theorem words_sep (s : List α) : words sep (sep :: s) = words sep s := by
  unfold words
  rw [List.splitOn_cons_eq_if_modifyHead, if_pos (BEq.rfl)]
  rfl

theorem words_spaces (k : Nat) (s : List α) : words sep (List.replicate k sep ++ s) = words sep s := by
  induction k with
  | zero => rfl
  | succ k ih => rw [List.replicate_succ, List.cons_append, words_sep, ih]

theorem words_last (hne : w ≠ []) (hw : sep ∉ w) : words sep w = [w] := by
  unfold words
  rw [List.splitOn_eq_singleton hw]
  exact List.filter_cons_of_pos (decide_eq_true hne)

theorem words_next (hne : w ≠ []) (hw : sep ∉ w) (s : List α) :
    words sep (w ++ sep :: s) = w :: words sep s := by
  unfold words
  rw [List.splitOn_append_cons_self_of_not_mem hw]
  exact List.filter_cons_of_pos (decide_eq_true hne)

theorem words_intercalate {ws : List (List α)} (hws : ∀ w ∈ ws, w ≠ [] ∧ sep ∉ w) :
    words sep ([sep].intercalate ws) = ws := by
  by_cases hnil : ws = []
  · rw [hnil]
    rfl
  · unfold words
    rw [List.splitOn_intercalate sep (fun w hw => (hws w hw).2) hnil]
    exact List.filter_eq_self.mpr fun w hw => decide_eq_true (hws w hw).1

omit [DecidableEq α] in
theorem notMem_intercalate {c : α} (hc : c ≠ sep) {ws : List (List α)} (h : ∀ w ∈ ws, c ∉ w) :
    c ∉ [sep].intercalate ws := by
  induction ws with
  | nil => exact List.not_mem_nil
  | cons w ws ih =>
    obtain ⟨hw, hws⟩ := List.forall_mem_cons.mp h
    cases ws with
    | nil => rwa [List.intercalate_singleton]
    | cons v ws =>
      rw [List.intercalate_cons_cons, List.mem_append, List.mem_append, List.mem_singleton]
      rintro ((hmem | rfl) | hmem)
      · exact hw hmem
      · exact hc rfl
      · exact ih hws hmem

variable (sep) in
/-- A string is separators, and then nothing, a last word, or a word and the rest. -/
theorem shape (s : List α) : ∃ k t, s = List.replicate k sep ++ t ∧
    (t = [] ∨ ∃ w, w ≠ [] ∧ sep ∉ w ∧ (t = w ∨ ∃ r, t = w ++ sep :: r)) := by
  induction s with
  | nil => exact ⟨0, [], rfl, Or.inl rfl⟩
  | cons a s ih =>
    obtain ⟨k, t, hs, ht⟩ := ih
    by_cases ha : a = sep
    · refine ⟨k + 1, t, ?_, ht⟩
      rw [hs, ha]
      rfl
    · refine ⟨0, a :: s, rfl, Or.inr ?_⟩
      cases k with
      | succ k =>
        -- the word ends here
        refine ⟨[a], List.cons_ne_nil _ _, fun h => ha (List.mem_singleton.mp h).symm,
          Or.inr ⟨List.replicate k sep ++ t, ?_⟩⟩
        rw [hs]
        rfl
      | zero =>
        obtain rfl : s = t := hs
        rcases ht with rfl | ⟨w, -, hw, hlast | ⟨r, hr⟩⟩
        · exact ⟨[a], List.cons_ne_nil _ _, fun h => ha (List.mem_singleton.mp h).symm, Or.inl rfl⟩
        · refine ⟨a :: w, List.cons_ne_nil _ _, ?_, Or.inl (hlast ▸ rfl)⟩
          exact fun h => (List.mem_cons.mp h).elim (fun h => ha h.symm) hw
        · refine ⟨a :: w, List.cons_ne_nil _ _, ?_, Or.inr ⟨r, by rw [hr]; rfl⟩⟩
          exact fun h => (List.mem_cons.mp h).elim (fun h => ha h.symm) hw

end Words

/-! ## The calls -/

section Calls

variable {nul sep} {w : List α}

theorem cString_word (hw : nul ∉ w) (a z : List α) :
    cString nul (a ++ (w ++ nul :: z)) a.length = w := by
  have hall : ∀ c ∈ w, decide (c ≠ nul) = true := fun c hc =>
    decide_eq_true fun h => hw (h ▸ hc)
  unfold cString
  rw [List.drop_left, List.takeWhile_append_of_pos hall,
    List.takeWhile_cons_of_neg (by simp), List.append_nil]

omit [DecidableEq α] in
theorem getD_behind (e : α) (a t : List α) (c : α) : (a ++ c :: t).getD a.length e = c := by
  rw [List.getD_append_right _ _ _ _ (Nat.le_refl _), Nat.sub_self]
  rfl

theorem spn_spaces (k : Nat) (a : List α) {t : List α} (ht : t.head? ≠ some sep) :
    spn sep (a ++ (List.replicate k sep ++ t)) a.length = k := by
  have hall : ∀ c ∈ List.replicate k sep, decide (c = sep) = true := fun c hc =>
    decide_eq_true (List.eq_of_mem_replicate hc)
  have hstop : t.takeWhile (· = sep) = [] := by
    cases t with
    | nil => rfl
    | cons c t =>
      refine List.takeWhile_cons_of_neg ?_
      intro h
      exact ht (congrArg some (of_decide_eq_true h))
  unfold spn
  rw [List.drop_left, List.takeWhile_append_of_pos hall, hstop, List.append_nil,
    List.length_replicate]

variable (hsep : sep ≠ nul)
include hsep

theorem cspn_word (hw : nul ∉ w) (hw' : sep ∉ w) (a : List α) {t : List α}
    (ht : t.head? = some sep ∨ t.head? = some nul) :
    cspn nul sep (a ++ (w ++ t)) a.length = w.length := by
  have hall : ∀ c ∈ w, decide (c ≠ nul) = true := fun c hc =>
    decide_eq_true fun h => hw (h ▸ hc)
  have hall' : ∀ c ∈ w, decide (c ≠ sep) = true := fun c hc =>
    decide_eq_true fun h => hw' (h ▸ hc)
  have hstop : (t.takeWhile (· ≠ nul)).takeWhile (· ≠ sep) = [] := by
    cases t with
    | nil => rfl
    | cons c t =>
      rcases ht with h | h
      · obtain rfl : c = sep := Option.some.inj h
        rw [List.takeWhile_cons_of_pos (by simp [hsep])]
        exact List.takeWhile_cons_of_neg (by simp)
      · obtain rfl : c = nul := Option.some.inj h
        rw [List.takeWhile_cons_of_neg (by simp)]
        rfl
  unfold cspn cString
  rw [List.drop_left, List.takeWhile_append_of_pos hall, List.takeWhile_append_of_pos hall', hstop,
    List.append_nil]

/-- Nothing but separators. -/
theorem strtok_none (k : Nat) (a z : List α) :
    strtok nul sep (a ++ (List.replicate k sep ++ nul :: z)) a.length = none := by
  have hspn := spn_spaces k a (t := nul :: z) fun h => hsep (Option.some.inj h).symm
  have hchar := getD_behind nul (a ++ List.replicate k sep) z nul
  rw [List.length_append, List.length_replicate, List.append_assoc] at hchar
  unfold strtok
  dsimp only
  rw [hspn, if_pos hchar]

section Token

variable (hne : w ≠ []) (hw : nul ∉ w) (hw' : sep ∉ w)
include hne hw hw'

/-- What a call finds in front of a token. -/
theorem strtok_found (k : Nat) (a : List α) {t : List α}
    (ht : t.head? = some sep ∨ t.head? = some nul) :
    strtok nul sep (a ++ (List.replicate k sep ++ (w ++ t))) a.length =
      if t.head? = some nul then
        some (a.length + k, a ++ (List.replicate k sep ++ (w ++ t)), a.length + k + w.length)
      else
        some (a.length + k, (a ++ (List.replicate k sep ++ (w ++ t))).set
          (a.length + k + w.length) nul, a.length + k + w.length + 1) := by
  obtain ⟨c, w', rfl⟩ := List.exists_cons_of_ne_nil hne
  obtain ⟨d, t', rfl⟩ : ∃ d t', t = d :: t' := by
    cases t with
    | nil => simp at ht
    | cons d t' => exact ⟨d, t', rfl⟩
  have hc : c ≠ nul := fun h => hw (h ▸ List.mem_cons_self)
  have hspn := spn_spaces k a (t := c :: w' ++ d :: t')
    fun h => hw' (Option.some.inj h ▸ List.mem_cons_self)
  have hcspn := cspn_word hsep hw hw' (a ++ List.replicate k sep) ht
  have hfirst : (a ++ List.replicate k sep ++ (c :: w' ++ d :: t')).getD
      (a ++ List.replicate k sep).length nul = c := getD_behind nul _ _ c
  have hlast := getD_behind nul (a ++ List.replicate k sep ++ c :: w') t' d
  simp only [List.length_append, List.length_replicate, List.append_assoc,
    ← Nat.add_assoc] at hcspn hfirst hlast
  unfold strtok
  dsimp only
  rw [hspn, hfirst, if_neg hc, hcspn, hlast]
  exact if_congr ⟨fun h => congrArg some h, Option.some.inj⟩ rfl rfl

theorem strtok_last (k : Nat) (a z : List α) :
    strtok nul sep (a ++ (List.replicate k sep ++ (w ++ nul :: z))) a.length =
      some (a.length + k, a ++ (List.replicate k sep ++ (w ++ nul :: z)),
        a.length + k + w.length) := by
  rw [strtok_found hsep hne hw hw' k a (Or.inr rfl)]
  exact if_pos rfl

theorem strtok_next (k : Nat) (a r : List α) :
    strtok nul sep (a ++ (List.replicate k sep ++ (w ++ sep :: r))) a.length =
      some (a.length + k, a ++ (List.replicate k sep ++ (w ++ nul :: r)),
        a.length + k + w.length + 1) := by
  have hset : (a ++ (List.replicate k sep ++ (w ++ sep :: r))).set (a.length + k + w.length) nul =
      a ++ (List.replicate k sep ++ (w ++ nul :: r)) := by
    have hpos : a.length + k + w.length = a.length + ((List.replicate k sep).length + w.length) := by
      rw [List.length_replicate, Nat.add_assoc]
    rw [hpos, List.set_append_right _ _ (Nat.le_add_right _ _), Nat.add_sub_cancel_left,
      List.set_append_right _ _ (Nat.le_add_right _ _), Nat.add_sub_cancel_left,
      List.set_append_right _ _ (Nat.le_refl _), Nat.sub_self]
    rfl
  rw [strtok_found hsep hne hw hw' k a (Or.inl rfl), hset]
  exact if_neg fun h => hsep (Option.some.inj h)

end Token

theorem tokens_end (n : Nat) (a z : List α) :
    tokens nul sep n (a ++ nul :: z) a.length = ([], a ++ nul :: z) := by
  cases n with
  | zero => rfl
  | succ n =>
    have hnone := strtok_none hsep 0 a z
    unfold tokens
    rw [List.replicate_zero, List.nil_append] at hnone
    rw [hnone]

/-- The buffer in front of the string stays as it is. -/
theorem tokens_words (n : Nat) (a : List α) {s : List α} (hs : nul ∉ s) (z : List α) :
    ∃ ps t, tokens nul sep n (a ++ (s ++ nul :: z)) a.length = (ps, a ++ t) ∧
      t.length = (s ++ nul :: z).length ∧
      ps.map (cString nul (a ++ t)) = (words sep s).take n ∧
      ∀ p ∈ ps, p < (a ++ s).length := by
  induction n generalizing a s with
  | zero => exact ⟨[], _, rfl, rfl, rfl, fun p hp => nomatch hp⟩
  | succ n ih =>
    obtain ⟨k, t, rfl, ht⟩ := shape sep s
    rw [words_spaces, List.append_assoc]
    unfold tokens
    rcases ht with rfl | ⟨w, hne, hw', rfl | ⟨r, rfl⟩⟩
    · refine ⟨[], List.replicate k sep ++ nul :: z, ?_, by simp, rfl, fun p hp => nomatch hp⟩
      rw [List.nil_append, strtok_none hsep]
    · have hw : nul ∉ t := fun h => hs (List.mem_append_right _ h)
      have hend := tokens_end hsep n (a ++ (List.replicate k sep ++ t)) z
      have hword := cString_word hw (a ++ List.replicate k sep) z
      simp only [List.length_append, List.length_replicate, List.append_assoc,
        ← Nat.add_assoc] at hend hword
      refine ⟨[a.length + k], List.replicate k sep ++ (t ++ nul :: z), ?_, rfl, ?_, ?_⟩
      · rw [strtok_last hsep hne hw hw']
        dsimp only
        rw [hend]
      · rw [words_last hne hw', List.map_singleton, hword, List.take_succ_cons, List.take_nil]
      · intro p hp
        have := List.length_pos_iff.mpr hne
        rw [List.mem_singleton.mp hp]
        simp only [List.length_append, List.length_replicate]
        omega
    · have hw : nul ∉ w := fun h => hs (List.mem_append_right _ (List.mem_append_left _ h))
      have hr : nul ∉ r := fun h =>
        hs (List.mem_append_right _ (List.mem_append_right _ (.tail _ h)))
      -- the rest of the string, behind the terminator of the token
      obtain ⟨ps, t, htok, hlen, hmap, hlt⟩ := ih (a ++ (List.replicate k sep ++ (w ++ [nul]))) hr
      have hword := cString_word hw (a ++ List.replicate k sep) t
      simp only [List.length_append, List.length_replicate, List.append_assoc, List.length_cons,
        List.length_nil, List.cons_append, List.nil_append, ← Nat.add_assoc] at htok hmap hlt hword
      refine ⟨(a.length + k) :: ps, List.replicate k sep ++ (w ++ nul :: t), ?_, ?_, ?_, ?_⟩
      · rw [List.append_assoc, List.cons_append, strtok_next hsep hne hw hw']
        dsimp only
        rw [htok]
      · simp only [List.length_append, List.length_cons] at hlen ⊢
        omega
      · rw [words_next hne hw', List.map_cons, hword, hmap]
        rfl
      · intro p hp
        simp only [List.length_append, List.length_replicate, List.length_cons]
        rcases List.mem_cons.mp hp with rfl | hp
        · omega
        · have := hlt p hp
          omega

end Calls

end Strtok
