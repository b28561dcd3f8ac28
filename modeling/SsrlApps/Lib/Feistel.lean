/-
  Feistel networks, over arbitrary half blocks, round keys and round functions.

  A round with key `k` moves the right half `x` to the left and mixes `f k x` into the left
  half. A network makes one round for each key and exchanges the halves at the end. All that
  is needed of the mixing is that mixing the same value twice changes nothing.

  Proved:
  * `network_reverse`: the network with the keys in reverse order is the inverse.
  * `network_reverse_iterate`: so it is for any number of passes.
  * `network_map`, `network_map_iterate`: a symmetry of the round function is one of the
    network.
-/
import Mathlib.Logic.Function.Iterate
import Mathlib.Data.Prod.Basic

namespace Feistel

variable {α κ : Type*} (mix : α → α → α) (f : κ → α → α)

/-- One round, with key `k`. -/
def round (b : α × α) (k : κ) : α × α := (b.2, mix (f k b.2) b.1)

def rounds (ks : List κ) (b : α × α) : α × α := ks.foldl (round mix f) b

def network (ks : List κ) (b : α × α) : α × α := (rounds mix f ks b).swap

theorem rounds_cons (k : κ) (ks : List κ) (b : α × α) :
    rounds mix f (k :: ks) b = rounds mix f ks (round mix f b k) := rfl

theorem rounds_snoc (k : κ) (ks : List κ) (b : α × α) :
    rounds mix f (ks ++ [k]) b = round mix f (rounds mix f ks b) k := List.foldl_append

variable {mix f}

section Inverse

variable (hcancel : ∀ x y, mix x (mix x y) = y)
include hcancel

/-- A round, entered from the other side, is undone by itself. -/
theorem round_swap_round (b : α × α) (k : κ) :
    round mix f (round mix f b k).swap k = b.swap := by
  show (b.2, mix (f k b.2) (mix (f k b.2) b.1)) = (b.2, b.1)
  rw [hcancel]

theorem rounds_swap_rounds (ks : List κ) (b : α × α) :
    rounds mix f ks.reverse (rounds mix f ks b).swap = b.swap := by
  induction ks generalizing b with
  | nil => rfl
  | cons k ks ih =>
    rw [List.reverse_cons, rounds_snoc, rounds_cons, ih]
    exact round_swap_round hcancel b k

/-- Decrypting: the same network with the keys in reverse order. -/
theorem network_reverse (ks : List κ) (b : α × α) :
    network mix f ks.reverse (network mix f ks b) = b := by
  unfold network
  rw [rounds_swap_rounds hcancel, Prod.swap_swap]

theorem network_reverse_iterate (ks : List κ) (n : Nat) (b : α × α) :
    (network mix f ks.reverse)^[n] ((network mix f ks)^[n] b) = b :=
  Function.LeftInverse.iterate (network_reverse hcancel ks) n b

end Inverse

section Symmetry

variable {c : α → α} {ck : κ → κ} (hf : ∀ k x, f (ck k) (c x) = f k x)
  (hmix : ∀ x y, mix x (c y) = c (mix x y))
include hf hmix

theorem rounds_map (ks : List κ) (b : α × α) :
    rounds mix f (ks.map ck) (b.map c c) = (rounds mix f ks b).map c c := by
  induction ks generalizing b with
  | nil => rfl
  | cons k ks ih =>
    have hround : round mix f (b.map c c) (ck k) = (round mix f b k).map c c := by
      show (c b.2, mix (f (ck k) (c b.2)) (c b.1)) = (c b.2, c (mix (f k b.2) b.1))
      rw [hf, hmix]
    rw [List.map_cons, rounds_cons, rounds_cons, hround]
    exact ih _

/-- If the round function does not see that both its arguments are changed, the network is
    changed as its block is. -/
theorem network_map (ks : List κ) (b : α × α) :
    network mix f (ks.map ck) (b.map c c) = (network mix f ks b).map c c := by
  unfold network
  rw [rounds_map hf hmix]
  rfl

theorem network_map_iterate (ks : List κ) (n : Nat) (b : α × α) :
    (network mix f (ks.map ck))^[n] (b.map c c) = ((network mix f ks)^[n] b).map c c := by
  induction n generalizing b with
  | zero => rfl
  | succ n ih => rw [Function.iterate_succ_apply, Function.iterate_succ_apply, network_map hf hmix, ih]

end Symmetry

end Feistel
