/-
  Singly linked lists in memory: cells with a value and a pointer, under keys.

  `Chain f p l` says that in the table `f` the pointer `p` starts a list, ended by a null
  pointer, whose cells have the keys and values of `l`. `release` is the loop that frees
  such a list: it reads the pointer of a cell before it frees the cell.

  Proved:
  * `chain_unique`, `chain_nodup`: a pointer starts at most one list, which has no cycle.
  * `chain_congr`, `chain_snoc`: lists in changed memory; a cell added at the end.
  * `release_chain`: the loop frees each cell of a list once, and nothing else.
-/
import Mathlib.Logic.Function.Basic
import Mathlib.Data.List.Nodup

/-- A cell: its value, and the key of the next one. -/
structure ListCell (κ α : Type*) where
  val : α
  next : Option κ

namespace ListCell

variable {κ α : Type*}

def Chain (f : κ → Option (ListCell κ α)) : Option κ → List (κ × α) → Prop
  | p, [] => p = none
  | p, (a, v) :: l => p = some a ∧ ∃ q, f a = some ⟨v, q⟩ ∧ Chain f q l

variable {f g : κ → Option (ListCell κ α)} {p : Option κ} {l l' : List (κ × α)}

theorem chain_unique (h : Chain f p l) (h' : Chain f p l') : l = l' := by
  induction l generalizing p l' with
  | nil =>
    cases l' with
    | nil => rfl
    | cons x l' => exact nomatch h.symm.trans h'.1
  | cons x l ih =>
    obtain ⟨hp, q, hq, hl⟩ := h
    cases l' with
    | nil => exact nomatch hp.symm.trans h'
    | cons x' l' =>
      obtain ⟨hp', q', hq', hl'⟩ := h'
      have hkey : x.1 = x'.1 := Option.some.inj (hp.symm.trans hp')
      rw [hkey, hq'] at hq
      obtain ⟨hval, hnext⟩ := ListCell.mk.inj (Option.some.inj hq)
      rw [Prod.ext hkey hval.symm, ih hl (hnext ▸ hl')]

/-- The rest of a list, from any of its cells on. -/
theorem chain_suffix {l₁ l₂ : List (κ × α)} {x : κ × α} (h : Chain f p (l₁ ++ x :: l₂)) :
    Chain f (some x.1) (x :: l₂) := by
  induction l₁ generalizing p with
  | nil => exact ⟨rfl, h.2⟩
  | cons y l₁ ih =>
    obtain ⟨-, q, -, hl⟩ := h
    exact ih hl

theorem chain_cell {x : κ × α} (h : Chain f p l) (hx : x ∈ l) : ∃ q, f x.1 = some ⟨x.2, q⟩ := by
  obtain ⟨l₁, l₂, rfl⟩ := List.append_of_mem hx
  obtain ⟨-, q, hq, -⟩ := chain_suffix h
  exact ⟨q, hq⟩

theorem chain_nodup (h : Chain f p l) : (l.map Prod.fst).Nodup := by
  induction l generalizing p with
  | nil => exact List.nodup_nil
  | cons x l ih =>
    have hwhole : Chain f (some x.1) (x :: l) := ⟨rfl, h.2⟩
    obtain ⟨-, q, -, hl⟩ := h
    refine List.nodup_cons.mpr ⟨fun hmem => ?_, ih hl⟩
    -- a second cell with the key of the first would start the same list
    obtain ⟨y, hy, hkey⟩ := List.mem_map.mp hmem
    obtain ⟨l₁, l₂, rfl⟩ := List.append_of_mem hy
    have hrest := chain_suffix hl
    rw [hkey] at hrest
    have hlen := congrArg List.length (chain_unique hwhole hrest)
    simp at hlen
    omega

theorem chain_congr (h : Chain f p l) (hfg : ∀ x ∈ l, g x.1 = f x.1) : Chain g p l := by
  induction l generalizing p with
  | nil => exact h
  | cons x l ih =>
    obtain ⟨hp, q, hq, hl⟩ := h
    refine ⟨hp, q, (hfg x (.head _)).trans hq, ih hl fun y hy => hfg y (.tail _ hy)⟩

/-- A cell `x` with no successor is added behind the last one, whose pointer is set. -/
theorem chain_snoc [DecidableEq κ] {y x : κ × α} (h : Chain f p (l ++ [y]))
    (hx : ∀ z ∈ l ++ [y], z.1 ≠ x.1) :
    Chain (Function.update (Function.update f x.1 (some ⟨x.2, none⟩)) y.1
      (some ⟨y.2, some x.1⟩)) p (l ++ [y] ++ [x]) := by
  induction l generalizing p with
  | nil =>
    obtain ⟨hp, q, hq, -⟩ := h
    have hne : y.1 ≠ x.1 := hx y (.head _)
    refine ⟨hp, some x.1, Function.update_self .., rfl, none, ?_, rfl⟩
    rw [Function.update_of_ne hne.symm]
    exact Function.update_self ..
  | cons z l ih =>
    have hnodup := chain_nodup h
    obtain ⟨hp, q, hq, hl⟩ := h
    refine ⟨hp, q, ?_, ih hl fun w hw => hx w (.tail _ hw)⟩
    have hzx : z.1 ≠ x.1 := hx z (.head _)
    have hzy : z.1 ≠ y.1 := by
      intro heq
      refine (List.nodup_cons.mp hnodup).1 ?_
      rw [heq]
      exact List.mem_map_of_mem (List.mem_append_right _ (.head _))
    rw [Function.update_of_ne hzy, Function.update_of_ne hzx]
    exact hq

/-- The table without the cells of `l`. -/
def without [DecidableEq κ] (f : κ → Option (ListCell κ α)) (l : List (κ × α)) :
    κ → Option (ListCell κ α) :=
  fun a => if a ∈ l.map Prod.fst then none else f a

theorem without_eq [DecidableEq κ] {a : κ} (h : a ∉ l.map Prod.fst) : without f l a = f a :=
  if_neg h

/-- A new cell behind `l` is left out with it; nothing else has changed. -/
theorem without_snoc [DecidableEq κ] {x : κ × α} (hx : without f l x.1 = none)
    (hsame : ∀ a, a ∉ (l ++ [x]).map Prod.fst → g a = f a) :
    without g (l ++ [x]) = without f l := by
  funext a
  by_cases hmem : a ∈ (l ++ [x]).map Prod.fst
  · have hleft : without g (l ++ [x]) a = none := if_pos hmem
    rw [hleft]
    rw [List.map_append, List.mem_append] at hmem
    rcases hmem with hl | hone
    · exact (if_pos hl).symm
    · rw [List.mem_singleton.mp hone]
      exact hx.symm
  · have hl : a ∉ l.map Prod.fst := by
      intro hl
      rw [List.map_append] at hmem
      exact hmem (List.mem_append_left _ hl)
    rw [without_eq hmem, without_eq hl, hsame a hmem]

/-- Frees the list at the pointer, for `k` cells at most. The result is the memory that is
    left, with the keys that were freed, if every one was that of a cell. -/
def release [DecidableEq κ] : Nat → (κ → Option (ListCell κ α)) → Option κ →
    Option ((κ → Option (ListCell κ α)) × List κ)
  | _, f, none => some (f, [])
  | 0, _, some _ => none
  | k + 1, f, some a =>
    match f a with
    | none => none
    | some x =>
      (release k (Function.update f a none) x.next).map fun r => (r.1, a :: r.2)

theorem release_chain [DecidableEq κ] (h : Chain f p l) {k : Nat} (hk : l.length ≤ k) :
    release k f p = some (without f l, l.map Prod.fst) := by
  induction l generalizing f p k with
  | nil =>
    obtain rfl : p = none := h
    have hsame : without f ([] : List (κ × α)) = f := funext fun a => if_neg List.not_mem_nil
    rw [hsame]
    cases k <;> rfl
  | cons x l ih =>
    have hnodup := chain_nodup h
    obtain ⟨rfl, q, hq, hl⟩ := h
    obtain ⟨k, rfl⟩ : ∃ j, k = j + 1 := ⟨k - 1, by simp at hk; omega⟩
    have hrest : Chain (Function.update f x.1 none) q l := by
      refine chain_congr hl fun y hy => Function.update_of_ne (fun heq => ?_) ..
      refine (List.nodup_cons.mp hnodup).1 ?_
      rw [← heq]
      exact List.mem_map_of_mem hy
    have hleft : without (Function.update f x.1 none) l = without f (x :: l) := by
      funext a
      unfold without
      rw [List.map_cons]
      by_cases ha : a = x.1
      · rw [ha, Function.update_self, if_neg (List.nodup_cons.mp hnodup).1, if_pos (.head _)]
      · rw [Function.update_of_ne ha]
        exact if_congr (by simp [ha]) rfl rfl
    unfold release
    rw [hq]
    dsimp only
    rw [ih hrest (Nat.le_of_succ_le_succ hk), hleft]
    rfl

end ListCell
