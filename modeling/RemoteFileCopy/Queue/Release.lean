import Mathlib.Data.Fintype.Card
import RemoteFileCopy.Queue.CircularQueue

/-!
# Queue/Release — the loop an RR runs is one pass over the slots

The loop calls `CircularQueue_remove` for every number below the RR's, and a call removes at most
the one entry in the slot of its number.  What is due after `k` turns is therefore read off the
entries, each by itself (`Due`), and the loop is the pass that clears those (`removeUpTo_eq_sweep`)
— for any contents of the queue, numbers out of place included.
-/

namespace RemoteFileCopy

namespace CircularQueue

variable {W : ℕ} (q : CircularQueue W) (k : ℕ)

/-- **An entry that `k` turns of the loop remove** — valid, with a number from `1` to `k` whose slot
it is in. -/
def Due (i : Fin W) : Prop :=
  (q.entries i).valid = true ∧ 1 ≤ (q.entries i).sequenceNum.toNat
    ∧ (q.entries i).sequenceNum.toNat ≤ k ∧ (q.entries i).sequenceNum.toNat % W = i

instance : DecidablePred (q.Due k) := fun _ => inferInstanceAs (Decidable (_ ∧ _ ∧ _ ∧ _))

/-- One pass over the slots, clearing what is due. -/
def sweep : CircularQueue W where
  entries := fun i =>
    if q.Due k i then { q.entries i with packet := none, valid := false } else q.entries i
  ValidCount := q.ValidCount - (Finset.univ.filter (q.Due k)).card

@[simp] theorem sequenceNum_sweep (i : Fin W) :
    ((q.sweep k).entries i).sequenceNum = (q.entries i).sequenceNum := by
  simp only [sweep]
  split <;> rfl

theorem valid_sweep_iff (i : Fin W) :
    ((q.sweep k).entries i).valid = true ↔ (q.entries i).valid = true ∧ ¬ q.Due k i := by
  simp only [sweep]
  split
  case isTrue hdue => simp [hdue]
  case isFalse hdue => simp [hdue]

/-- **A pass changes nothing exactly if nothing is due.** -/
theorem sweep_eq_self_iff : q.sweep k = q ↔ ∀ i, ¬ q.Due k i := by
  constructor
  · intro h i hdue
    have := (q.valid_sweep_iff k i).mp (by rw [h]; exact hdue.1)
    exact this.2 hdue
  · intro h
    have hnone : Finset.univ.filter (q.Due k) = ∅ :=
      Finset.filter_eq_empty_iff.mpr fun i _ => h i
    have hentries : (q.sweep k).entries = q.entries := funext fun i => if_neg (h i)
    have hcount : (q.sweep k).ValidCount = q.ValidCount := by simp [sweep, hnone]
    exact CircularQueue.ext hentries hcount

theorem not_due_zero (i : Fin W) : ¬ q.Due 0 i := fun h => by
  have := h.2.1
  have := h.2.2.1
  omega

variable [NeZero W] {k}

/-- **One more turn** makes one more number due, in its own slot. -/
theorem due_succ_iff (hk : k + 1 < 4294967296) {i : Fin W} : q.Due (k + 1) i
    ↔ q.Due k i ∨ i = slot W (k + 1) ∧ (q.entries i).valid = true
      ∧ (q.entries i).sequenceNum = UInt32.ofNat (k + 1) := by
  have hval : (UInt32.ofNat (k + 1)).toNat = k + 1 := UInt32.toNat_ofNat_of_lt' hk
  rw [← UInt32.toNat_inj, hval, Fin.ext_iff, val_slot]
  constructor
  · rintro ⟨hv, hpos, hle, hslot⟩
    rcases Nat.lt_or_eq_of_le hle with hlt | heq
    · exact .inl ⟨hv, hpos, Nat.le_of_lt_succ hlt, hslot⟩
    · exact .inr ⟨by rw [← hslot, heq], hv, heq⟩
  · rintro (⟨hv, hpos, hle, hslot⟩ | ⟨hslot, hv, heq⟩)
    · exact ⟨hv, hpos, hle.trans (Nat.le_succ k), hslot⟩
    · exact ⟨hv, by omega, heq.le, by rw [heq, hslot]⟩

/-- A turn whose number is not in its slot changes nothing. -/
theorem sweep_succ_of_missing (hk : k + 1 < 4294967296)
    (hmiss : ¬ ((q.entries (slot W (k + 1))).valid = true
      ∧ (q.entries (slot W (k + 1))).sequenceNum = UInt32.ofNat (k + 1))) :
    q.sweep (k + 1) = q.sweep k := by
  have hdue : q.Due (k + 1) = q.Due k := funext fun i => propext <| by
    rw [q.due_succ_iff hk]
    exact or_iff_left (by rintro ⟨rfl, h⟩; exact hmiss h)
  simp only [sweep, hdue]

/-- A turn whose number is in its slot clears the slot. -/
theorem sweep_succ_of_stored (hk : k + 1 < 4294967296)
    (hv : (q.entries (slot W (k + 1))).valid = true)
    (hseq : (q.entries (slot W (k + 1))).sequenceNum = UInt32.ofNat (k + 1)) :
    q.sweep (k + 1) = (q.sweep k).vacate (slot W (k + 1)) := by
  have hnot : ¬ q.Due k (slot W (k + 1)) := fun hdue => by
    have hle := hdue.2.2.1
    rw [hseq, UInt32.toNat_ofNat'] at hle
    omega
  have hdue : q.Due (k + 1) (slot W (k + 1)) := (q.due_succ_iff hk).mpr (.inr ⟨rfl, hv, hseq⟩)
  have hother : ∀ i ≠ slot W (k + 1), (q.Due (k + 1) i ↔ q.Due k i) := fun i hi => by
    rw [q.due_succ_iff hk]
    exact or_iff_left fun h => hi h.1
  have hcons : Finset.univ.filter (q.Due (k + 1))
      = Finset.cons (slot W (k + 1)) (Finset.univ.filter (q.Due k)) (by simpa using hnot) := by
    ext i
    rw [Finset.mem_cons, Finset.mem_filter, Finset.mem_filter]
    rcases eq_or_ne i (slot W (k + 1)) with rfl | hi
    · simp [hdue]
    · simp [hi, hother i hi]
  refine CircularQueue.ext (funext fun i => ?_) ?_
  · rcases eq_or_ne i (slot W (k + 1)) with rfl | hi
    · simp only [vacate, Function.update_self, sweep, if_pos hdue, if_neg hnot]
    · simp only [vacate, Function.update_of_ne hi, sweep, hother i hi]
  · simp only [vacate, sweep, hcons, Finset.card_cons]
    omega

/-- **The loop of an RR is one pass over the slots.** -/
theorem removeUpTo_eq_sweep (hk : k < 4294967296) : q.removeUpTo k = .ok (q.sweep k) := by
  induction k with
  | zero => rw [(q.sweep_eq_self_iff 0).mpr q.not_due_zero]; rfl
  | succ k ih =>
    have hval : (UInt32.ofNat (k + 1)).toNat = k + 1 := UInt32.toNat_ofNat_of_lt' hk
    rw [removeUpTo_succ_eq (ih (by omega)) (remove_eq _ _), hval]
    by_cases hstored : (q.entries (slot W (k + 1))).valid = true
        ∧ (q.entries (slot W (k + 1))).sequenceNum = UInt32.ofNat (k + 1)
    · obtain ⟨hv, hseq⟩ := hstored
      have hleft : ¬ q.Due k (slot W (k + 1)) := fun hdue => by
        have hle := hdue.2.2.1
        rw [hseq, hval] at hle
        omega
      rw [q.sweep_succ_of_stored hk hv hseq, if_neg]
      rw [refused_iff, not_not, valid_sweep_iff, sequenceNum_sweep]
      exact ⟨⟨hv, hleft⟩, hseq⟩
    · rw [q.sweep_succ_of_missing hk hstored, if_pos]
      rw [refused_iff, valid_sweep_iff, sequenceNum_sweep]
      exact fun h => hstored ⟨h.1.1, h.2⟩

end CircularQueue

end RemoteFileCopy
