import Mathlib.Data.Nat.ModEq
import Mathlib.Data.Fintype.Card

/-!
# Library/SlidingWindow — at most `W` consecutive numbers, stored by residue

A sliding window is an interval `[base, next)` of at most `W` numbers.  Its one fact is that the
residues of its members modulo `W` are distinct (`eq_of_mod_eq`), so an array of `W` cells indexed
by residue holds each member in a cell of its own, and a full window uses every cell exactly once
(`exists_mem_of_full`).  The window moves in two ways: `push` takes in the next number while there
is room, `release` lets go of everything below a number.
-/

/-- **A window of at most `W` consecutive numbers.** -/
@[ext]
structure SlidingWindow (W : ℕ) where
  base : ℕ
  next : ℕ
  base_le : base ≤ next
  bounded : next ≤ base + W

namespace SlidingWindow

variable {W : ℕ}

instance : Membership ℕ (SlidingWindow W) := ⟨fun w s => w.base ≤ s ∧ s < w.next⟩

theorem mem_iff {w : SlidingWindow W} {s : ℕ} : s ∈ w ↔ w.base ≤ s ∧ s < w.next := Iff.rfl

/-- No number can be taken in before one is let go. -/
def Full (w : SlidingWindow W) : Prop := w.next = w.base + W

/-! ## Residues -/

/-- **Two members of an interval no longer than the modulus are told apart by their residues.** -/
theorem eq_of_mod_eq_of_close {b s t : ℕ} (h : s % W = t % W) (hs : b ≤ s) (hsW : s < b + W)
    (ht : b ≤ t) (htW : t < b + W) : s = t :=
  Nat.ModEq.eq_of_abs_lt h (by rw [abs_lt]; omega)

theorem eq_of_mod_eq {w : SlidingWindow W} {s t : ℕ} (hs : s ∈ w) (ht : t ∈ w)
    (h : s % W = t % W) : s = t := by
  have := w.bounded
  rw [mem_iff] at hs ht
  exact eq_of_mod_eq_of_close (b := w.base) h hs.1 (by omega) ht.1 (by omega)

/-- Every residue is met in any `W` consecutive numbers. -/
theorem exists_mod_eq (hW : 0 < W) (b : ℕ) {i : ℕ} (hi : i < W) :
    ∃ s, b ≤ s ∧ s < b + W ∧ s % W = i := by
  have hb := Nat.div_add_mod b W
  have hr := Nat.mod_lt b hW
  rcases Nat.lt_or_ge i (b % W) with h | h
  · refine ⟨W * (b / W) + W + i, by omega, by omega, ?_⟩
    rw [Nat.add_assoc, Nat.mul_add_mod, Nat.add_mod_left, Nat.mod_eq_of_lt hi]
  · exact ⟨W * (b / W) + i, by omega, by omega, by rw [Nat.mul_add_mod, Nat.mod_eq_of_lt hi]⟩

/-- **A full window meets every residue.** -/
theorem exists_mem_of_full {w : SlidingWindow W} (hW : 0 < W) (hw : w.Full) {i : ℕ} (hi : i < W) :
    ∃ s ∈ w, s % W = i := by
  obtain ⟨s, hb, hn, hmod⟩ := exists_mod_eq hW w.base hi
  exact ⟨s, ⟨hb, hw ▸ hn⟩, hmod⟩

/-! ## The two moves -/

/-- The window with nothing in it, about to take in `n`. -/
def empty (n : ℕ) : SlidingWindow W := ⟨n, n, le_rfl, Nat.le_add_right n W⟩

@[simp] theorem base_empty (n : ℕ) : (empty n : SlidingWindow W).base = n := rfl

@[simp] theorem next_empty (n : ℕ) : (empty n : SlidingWindow W).next = n := rfl

theorem not_mem_empty (n s : ℕ) : s ∉ (empty n : SlidingWindow W) := by
  rw [mem_iff, base_empty, next_empty]
  omega

/-- Take in the next number. -/
def push (w : SlidingWindow W) (h : ¬ w.Full) : SlidingWindow W where
  base := w.base
  next := w.next + 1
  base_le := by have := w.base_le; omega
  bounded := by have := w.bounded; simp only [Full] at h; omega

@[simp] theorem base_push (w : SlidingWindow W) (h : ¬ w.Full) : (w.push h).base = w.base := rfl

@[simp] theorem next_push (w : SlidingWindow W) (h : ¬ w.Full) : (w.push h).next = w.next + 1 :=
  rfl

theorem mem_push {w : SlidingWindow W} {h : ¬ w.Full} {s : ℕ} :
    s ∈ w.push h ↔ s ∈ w ∨ s = w.next := by
  have := w.base_le
  rw [mem_iff, mem_iff, base_push, next_push]
  omega

/-- The number taken in does not meet the residue of a member. -/
theorem mod_next_ne {w : SlidingWindow W} (h : ¬ w.Full) {s : ℕ} (hs : s ∈ w) :
    s % W ≠ w.next % W := fun hmod =>
  (mem_iff.mp hs).2.ne (eq_of_mod_eq (w := w.push h) (mem_push.mpr (.inl hs))
    (mem_push.mpr (.inr rfl)) hmod)

/-- Let go of everything below `n`. -/
def release (w : SlidingWindow W) (n : ℕ) : SlidingWindow W where
  base := max w.base (min n w.next)
  next := w.next
  base_le := by have := w.base_le; omega
  bounded := by have := w.bounded; omega

@[simp] theorem base_release (w : SlidingWindow W) (n : ℕ) :
    (w.release n).base = max w.base (min n w.next) := rfl

@[simp] theorem next_release (w : SlidingWindow W) (n : ℕ) : (w.release n).next = w.next := rfl

theorem mem_release {w : SlidingWindow W} {n s : ℕ} : s ∈ w.release n ↔ s ∈ w ∧ n ≤ s := by
  rw [mem_iff, mem_iff, base_release, next_release]
  omega

/-- A release at or below the base changes nothing. -/
theorem release_of_le {w : SlidingWindow W} {n : ℕ} (h : n ≤ w.base) : w.release n = w := by
  have := w.base_le
  ext
  · simp only [base_release]
    omega
  · rfl

/-- Above zero, "up to the predecessor" and "below" are the same release. -/
theorem release_pred_succ {w : SlidingWindow W} (hpos : 1 ≤ w.base) (n : ℕ) :
    w.release (n - 1 + 1) = w.release n := by
  rcases Nat.eq_zero_or_pos n with rfl | hn
  · rw [release_of_le (Nat.zero_le _), release_of_le hpos]
  · rw [Nat.sub_add_cancel hn]

/-- **Releases accumulate**: letting go one number at a time is letting go at once. -/
theorem release_succ (w : SlidingWindow W) (n : ℕ) :
    w.release (n + 1) = (w.release n).release (n + 1) := by
  have := w.base_le
  ext
  · simp only [base_release, next_release]
    omega
  · rfl

end SlidingWindow
