import Mathlib.Data.Nat.ModEq
import Mathlib.Tactic.Ring
import Mathlib.Tactic.WLOG

/-!
# Library/EndAround — sums whose carries are added back in

One's complement arithmetic on words below `B` adds the carry out of the top back in at the bottom.
On the natural sum of all words that is `fold`: quotient plus remainder.  A fold keeps the residue
modulo `B - 1`, and two folds bring any sum below `B * B` back to a single word; the only ambiguity
left is zero, which the words `0` and `B - 1` both stand for (`foldTwice_eq_top_iff`).
-/

namespace EndAround

variable {B b s t : ℕ}

/-- Add the carries of `s` out of base `B` back in, once. -/
def fold (B s : ℕ) : ℕ := s / B + s % B

/-- Fold twice — enough for any sum below `B * B`. -/
def foldTwice (B s : ℕ) : ℕ := fold B (fold B s)

/-- What one fold takes away is a multiple of `B - 1`. -/
theorem fold_add_mul (hB : 0 < B) (s : ℕ) : fold B s + (B - 1) * (s / B) = s := by
  obtain ⟨b, rfl⟩ := Nat.exists_eq_succ_of_ne_zero hB.ne'
  have h := Nat.div_add_mod s (b + 1)
  simp only [fold, Nat.succ_eq_add_one, Nat.add_sub_cancel, add_mul, one_mul] at h ⊢
  omega

theorem fold_modEq (hB : 0 < B) (s : ℕ) : fold B s ≡ s [MOD B - 1] := by
  conv_rhs => rw [← fold_add_mul hB s]
  exact (Nat.modEq_iff_dvd' (Nat.le_add_right _ _)).mpr ⟨s / B, by simp⟩

theorem fold_eq_zero_iff (hB : 0 < B) : fold B s = 0 ↔ s = 0 := by
  refine ⟨fun h => ?_, fun h => by simp [fold, h]⟩
  have hdiv : s / B = 0 := (Nat.add_eq_zero_iff.mp h).1
  have := fold_add_mul hB s
  simpa [h, hdiv] using this.symm

/-- **A sum of at most `B` words folds to less than two words.** -/
theorem fold_le (hB : 0 < B) (hs : s < B * B) : fold B s ≤ 2 * (B - 1) := by
  have hq : s / B < B := Nat.div_lt_of_lt_mul hs
  have hr : s % B < B := Nat.mod_lt s hB
  simp only [fold]
  omega

theorem foldTwice_lt (hB : 0 < B) (hs : s < B * B) : foldTwice B s < B := by
  have h := fold_le hB hs
  rw [foldTwice]
  generalize fold B s = x at h
  rcases Nat.lt_or_ge x B with hx | hx
  · rw [fold, Nat.div_eq_of_lt hx, Nat.mod_eq_of_lt hx]
    omega
  · have hq : x / B = 1 := Nat.div_eq_of_lt_le (by omega) (by omega)
    have hm := fold_add_mul hB x
    rw [hq] at hm
    omega

theorem foldTwice_modEq (hB : 0 < B) (s : ℕ) : foldTwice B s ≡ s [MOD B - 1] :=
  (fold_modEq hB _).trans (fold_modEq hB s)

theorem foldTwice_eq_zero_iff (hB : 0 < B) : foldTwice B s = 0 ↔ s = 0 :=
  (fold_eq_zero_iff hB).trans (fold_eq_zero_iff hB)

/-- **The double zero** — a sum folds to the top word exactly when it is a positive multiple of
`B - 1`. -/
theorem foldTwice_eq_top_iff (hB : 2 ≤ B) (hs : s < B * B) :
    foldTwice B s = B - 1 ↔ 0 < s ∧ B - 1 ∣ s := by
  have hB' : 0 < B := by omega
  have hmod := foldTwice_modEq hB' s
  constructor
  · intro h
    refine ⟨Nat.pos_of_ne_zero fun h0 => ?_, ?_⟩
    · have := (foldTwice_eq_zero_iff hB').mpr h0
      omega
    · rw [h] at hmod
      exact (Nat.modEq_zero_iff_dvd.mp (hmod.symm.trans (Nat.modEq_zero_iff_dvd.mpr dvd_rfl)))
  · rintro ⟨hpos, hdvd⟩
    have hlt := foldTwice_lt hB' hs
    have hne : foldTwice B s ≠ 0 := fun h0 => hpos.ne' ((foldTwice_eq_zero_iff hB').mp h0)
    have hdvd' : B - 1 ∣ foldTwice B s :=
      Nat.modEq_zero_iff_dvd.mp (hmod.trans (Nat.modEq_zero_iff_dvd.mpr hdvd))
    have := Nat.le_of_dvd (Nat.pos_of_ne_zero hne) hdvd'
    omega

/-- **Adding the complement of the folded sum makes the sum fold to the top word.** -/
theorem top_dvd_add_complement (hB : 0 < B) (hs : s < B * B) :
    B - 1 ∣ s + (B - 1 - foldTwice B s) := by
  have hlt := foldTwice_lt hB hs
  have h : s + (B - 1 - foldTwice B s) ≡ foldTwice B s + (B - 1 - foldTwice B s) [MOD B - 1] :=
    (foldTwice_modEq hB s).symm.add_right _
  rw [Nat.add_sub_cancel' (by omega)] at h
  exact Nat.modEq_zero_iff_dvd.mp (h.trans (Nat.modEq_zero_iff_dvd.mpr dvd_rfl))

/-- **The complement of the folded sum is the one word below the top word that completes a positive
sum** to a multiple of `B - 1`. -/
theorem eq_complement_iff {x : ℕ} (hB : 0 < B) (hs : s < B * B) (hpos : 0 < s) (hx : x < B) :
    x = B - 1 - foldTwice B s ↔ B - 1 ∣ s + x ∧ x ≠ B - 1 := by
  have hlt := foldTwice_lt hB hs
  have hne := (foldTwice_eq_zero_iff (s := s) hB).not.mpr hpos.ne'
  constructor
  · rintro rfl
    exact ⟨top_dvd_add_complement hB hs, by omega⟩
  · rintro ⟨hdvd, htop⟩
    have hmod : foldTwice B s + x ≡ s + x [MOD B - 1] := (foldTwice_modEq hB s).add_right x
    obtain ⟨k, hk⟩ := Nat.modEq_zero_iff_dvd.mp (hmod.trans (Nat.modEq_zero_iff_dvd.mpr hdvd))
    have hk1 : k = 1 := by
      have hlt2 : (B - 1) * k < (B - 1) * 2 := by omega
      have := Nat.lt_of_mul_lt_mul_left hlt2
      rcases Nat.eq_zero_or_pos k with rfl | hpos
      · omega
      · omega
    rw [hk1] at hk
    omega

/-- **A change smaller than the top word leaves the multiples of it.** -/
theorem not_dvd_of_close (hst : s < t) (ht : t < s + (B - 1)) (h : B - 1 ∣ s) : ¬ B - 1 ∣ t := by
  intro ht'
  have hdvd := Nat.dvd_sub ht' h
  have := Nat.le_of_dvd (by omega) hdvd
  omega

/-! ## Words of two digits

For `B = b * b` the top word is `b * b - 1`, so that modulo it `b` is its own inverse: to multiply
by `b` is to swap the digits of a word. -/

/-- The two digits of a word, in the other order. -/
def swap (b x : ℕ) : ℕ := b * (x % b) + x / b

theorem mul_eq_swap_add (hb : 0 < b) (x : ℕ) : b * x = swap b x + (b * b - 1) * (x / b) := by
  have hpos : 0 < b * b := Nat.mul_pos hb hb
  have hdigits : b * x = b * b * (x / b) + b * (x % b) := by
    conv_lhs => rw [← Nat.div_add_mod x b]
    ring
  have htop : b * b * (x / b) = (b * b - 1) * (x / b) + x / b := by
    rw [← Nat.succ_mul, Nat.succ_eq_add_one, Nat.sub_add_cancel hpos]
  rw [swap, hdigits, htop]
  ring

theorem swap_lt {x : ℕ} (hx : x < b * b) : swap b x < b * b := by
  have hb : 0 < b := Nat.pos_of_ne_zero fun h => by simp [h] at hx
  have hquot : x / b < b := Nat.div_lt_of_lt_mul hx
  have hrem : x % b + 1 ≤ b := Nat.mod_lt x hb
  calc swap b x < b * (x % b) + b := Nat.add_lt_add_left hquot _
    _ = b * (x % b + 1) := by ring
    _ ≤ b * b := Nat.mul_le_mul_left b hrem

theorem swap_eq_zero_iff (hb : 0 < b) {x : ℕ} : swap b x = 0 ↔ x = 0 := by
  have hdigits := Nat.div_add_mod x b
  constructor
  · intro h
    obtain ⟨hrem, hquot⟩ := Nat.add_eq_zero_iff.mp h
    have hzero : x % b = 0 := (Nat.mul_eq_zero.mp hrem).resolve_left hb.ne'
    rw [hquot, hzero] at hdigits
    exact hdigits.symm
  · rintro rfl
    simp [swap]

/-- **A positive word is the only one with its residue.** -/
theorem eq_of_modEq_of_lt {x y : ℕ} (hx : x < B) (hy : y < B) (hmod : x ≡ y [MOD B - 1])
    (hzero : x = 0 ↔ y = 0) : x = y := by
  wlog hle : x ≤ y generalizing x y
  · exact (this hy hx hmod.symm hzero.symm (Nat.le_of_not_le hle)).symm
  obtain ⟨k, hk⟩ := (Nat.modEq_iff_dvd' hle).mp hmod
  rcases Nat.eq_zero_or_pos k with rfl | hpos
  · rw [Nat.mul_zero] at hk
    exact Nat.le_antisymm hle (Nat.sub_eq_zero_iff_le.mp hk)
  · have hge : B - 1 ≤ (B - 1) * k := Nat.le_mul_of_pos_right _ hpos
    omega

/-- **The fold of a sum that was multiplied by `b`** has the digits in the other order. -/
theorem foldTwice_mul (hb : 1 < b) (hs : s < b * b * (b * b)) (ht : t < b * b * (b * b))
    (hmod : t ≡ b * s [MOD b * b - 1]) (hzero : t = 0 ↔ s = 0) :
    foldTwice (b * b) t = swap b (foldTwice (b * b) s) := by
  have hB : 0 < b * b := Nat.mul_pos (by omega) (by omega)
  refine eq_of_modEq_of_lt (foldTwice_lt hB ht) (swap_lt (foldTwice_lt hB hs)) ?_ ?_
  · have hswap : b * foldTwice (b * b) s ≡ swap b (foldTwice (b * b) s) [MOD b * b - 1] := by
      have hmul := mul_eq_swap_add (show 0 < b by omega) (foldTwice (b * b) s)
      rw [hmul]
      exact Nat.add_mul_mod_self_left _ _ _
    calc foldTwice (b * b) t ≡ t [MOD b * b - 1] := foldTwice_modEq hB t
      _ ≡ b * s [MOD b * b - 1] := hmod
      _ ≡ b * foldTwice (b * b) s [MOD b * b - 1] := (foldTwice_modEq hB s).symm.mul_left b
      _ ≡ swap b (foldTwice (b * b) s) [MOD b * b - 1] := hswap
  · rw [foldTwice_eq_zero_iff hB, swap_eq_zero_iff (by omega), foldTwice_eq_zero_iff hB, hzero]

end EndAround
