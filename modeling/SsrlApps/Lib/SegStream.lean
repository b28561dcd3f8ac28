/-
  A stream that arrives in pieces.

  What a reader will see of a connection, or of a file, is a list of `Item`s: a piece, which
  is not empty, or an error. `read n` takes at most `n` elements, and never more than what is
  left of the first piece. The end of the list is the end of the stream. `content` is what
  comes before the first error, in whatever pieces.

  Proved:
  * `content_read`, `read_error`: what one read takes off the stream.
  * `size_read`: there are only so many reads.
  * `clean_read`: a read that succeeds has left all errors behind.
-/
import Mathlib.Data.List.Basic

namespace SegStream

variable {α : Type*}

inductive Item (α : Type*) where
  | data (x : α) (xs : List α)
  | error

/-- A piece, unless there is nothing in it. -/
def push : List α → List (Item α) → List (Item α)
  | [], s => s
  | x :: xs, s => .data x xs :: s

/-- A read of at most `n` elements: nothing at the end, `none` for an error. -/
def read (n : Nat) : List (Item α) → Option (List α) × List (Item α)
  | [] => (some [], [])
  | .error :: s => (none, s)
  | .data x xs :: s => (some ((x :: xs).take n), push ((x :: xs).drop n) s)

def content : List (Item α) → List α
  | [] => []
  | .error :: _ => []
  | .data x xs :: s => x :: xs ++ content s

/-- A bound on the reads. -/
def size : List (Item α) → Nat
  | [] => 0
  | .error :: s => size s + 1
  | .data _ xs :: s => size s + xs.length + 1

/-- No read will fail. -/
def Clean : List (Item α) → Prop
  | [] => True
  | .error :: _ => False
  | .data _ _ :: s => Clean s

theorem content_push (xs : List α) (s : List (Item α)) : content (push xs s) = xs ++ content s := by
  cases xs <;> rfl

theorem size_push (xs : List α) (s : List (Item α)) : size (push xs s) = size s + xs.length := by
  cases xs <;> rfl

theorem clean_push (xs : List α) (s : List (Item α)) : Clean (push xs s) ↔ Clean s := by
  cases xs <;> exact Iff.rfl

variable {n : Nat} {s s' : List (Item α)} {b : List α}

/-- What is read is the beginning of the content, and the rest is left. -/
theorem content_read (h : read n s = (some b, s')) : content s = b ++ content s' := by
  match s with
  | [] =>
    obtain ⟨rfl, rfl⟩ := by simpa [read] using h
    rfl
  | .error :: s => simp [read] at h
  | .data x xs :: s =>
    obtain ⟨rfl, rfl⟩ := by simpa only [read, Prod.mk.injEq, Option.some.injEq] using h
    rw [content_push, ← List.append_assoc, List.take_append_drop]
    rfl

theorem read_error (h : read n s = (none, s')) : content s = [] ∧ ¬ Clean s := by
  match s with
  | [] => simp [read] at h
  | .error :: s => exact ⟨rfl, id⟩
  | .data x xs :: s => simp [read] at h

theorem read_length (h : read n s = (some b, s')) : b.length ≤ n := by
  match s with
  | [] =>
    obtain ⟨rfl, -⟩ := by simpa [read] using h
    exact Nat.zero_le n
  | .error :: s => simp [read] at h
  | .data x xs :: s =>
    obtain ⟨rfl, -⟩ := by simpa only [read, Prod.mk.injEq, Option.some.injEq] using h
    exact List.length_take_le n _

/-- Nothing is read at the end only, or when nothing was asked for. -/
theorem read_nil (hn : 0 < n) (h : read n s = (some [], s')) : s = [] := by
  match s with
  | [] => rfl
  | .error :: s => simp [read] at h
  | .data x xs :: s =>
    have htake : (x :: xs).take n = [] := by
      simpa only [read, Prod.mk.injEq, Option.some.injEq] using (congrArg Prod.fst h)
    rcases List.take_eq_nil_iff.mp htake with h0 | h0
    · omega
    · cases h0

theorem size_read (h : read n s = (some b, s')) : size s' + b.length = size s := by
  match s with
  | [] =>
    obtain ⟨rfl, rfl⟩ := by simpa [read] using h
    rfl
  | .error :: s => simp [read] at h
  | .data x xs :: s =>
    obtain ⟨rfl, rfl⟩ := by simpa only [read, Prod.mk.injEq, Option.some.injEq] using h
    rw [size_push, List.length_drop, List.length_take, size, List.length_cons]
    omega

theorem clean_read (h : read n s = (some b, s')) : Clean s' ↔ Clean s := by
  match s with
  | [] =>
    obtain ⟨-, rfl⟩ := by simpa [read] using h
    exact Iff.rfl
  | .error :: s => simp [read] at h
  | .data x xs :: s =>
    obtain ⟨-, rfl⟩ := by simpa only [read, Prod.mk.injEq, Option.some.injEq] using h
    exact clean_push _ _

end SegStream
