import RemoteFileCopy.Queue.CircularQueue

/-!
# Queue/Holds — the circular queue holds a sliding window

`Holds q w f` says what the array means while the server runs: the valid entries are the members of
the window `w`, each in its own slot with the packet `f` gives it, and `ValidCount` counts them.
`insert` of the next number is `SlidingWindow.push` and the loop an RR runs is
`SlidingWindow.release` — one step lemma each, and nothing else touches the window.
-/

namespace RemoteFileCopy

namespace CircularQueue

variable {W : ℕ} [NeZero W]

/-- **The queue holds the window `w`**, with packet `f s` for the number `s`. -/
structure Holds (q : CircularQueue W) (w : SlidingWindow W) (f : ℕ → Bytes) : Prop where
  /-- A member is stored in its slot. -/
  stored : ∀ s ∈ w, q.entries (slot W s) = ⟨some (f s), (f s).length, UInt32.ofNat s, true⟩
  /-- A slot no member uses is free. -/
  vacant : ∀ i, (∀ s ∈ w, slot W s ≠ i) →
    (q.entries i).valid = false ∧ (q.entries i).packet = none
  /-- The counter counts the members. -/
  count : q.ValidCount = w.next - w.base
  /-- Members are told apart as `uint32_t`. -/
  fits : w.next ≤ 4294967296

variable {q : CircularQueue W} {w : SlidingWindow W} {f : ℕ → Bytes}

theorem holds_init (f : ℕ → Bytes) : Holds (init W) (.empty 1) f where
  stored s hs := absurd hs (SlidingWindow.not_mem_empty 1 s)
  vacant _ _ := ⟨rfl, rfl⟩
  count := by simp [init]
  fits := by simp

theorem toNat_ofNat_of_mem (hq : Holds q w f) {s : ℕ} (hs : s ∈ w) :
    (UInt32.ofNat s).toNat = s := by
  have hlt : s < 4294967296 := (SlidingWindow.mem_iff.mp hs).2.trans_le hq.fits
  exact UInt32.toNat_ofNat_of_lt' hlt

namespace Holds

/-- **The valid entries are the members.** -/
theorem valid_iff (hq : Holds q w f) {i : Fin W} :
    (q.entries i).valid = true ↔ ∃ s ∈ w, slot W s = i := by
  constructor
  · intro h
    by_contra hno
    push Not at hno
    rw [(hq.vacant i hno).1] at h
    cases h
  · rintro ⟨s, hs, rfl⟩
    rw [hq.stored s hs]

theorem vacant_of_not_valid (hq : Holds q w f) {i : Fin W} (h : (q.entries i).valid = false) :
    (q.entries i).packet = none := by
  refine (hq.vacant i fun s hs hi => ?_).2
  rw [hq.valid_iff.mpr ⟨s, hs, hi⟩] at h
  cases h

theorem isFull_iff (hq : Holds q w f) : q.isFull = true ↔ w.Full := by
  have := w.base_le
  have := w.bounded
  simp only [isFull, hq.count, decide_eq_true_eq, SlidingWindow.Full]
  omega

theorem isFull_eq_false_iff (hq : Holds q w f) : q.isFull = false ↔ ¬ w.Full := by
  rw [← hq.isFull_iff, Bool.not_eq_true]

/-! ## Insert is push -/

/-- The slot of the next number is free while the window is not full. -/
theorem next_vacant (hq : Holds q w f) (h : ¬ w.Full) :
    (q.entries (slot W w.next)).valid = false :=
  (hq.vacant _ fun _ hs hi => SlidingWindow.mod_next_ne h hs (slot_eq_iff.mp hi)).1

/-- **`insert` of the next number never fails while there is room**, and takes it into the
window. -/
theorem insert (hq : Holds q w f) (h : ¬ w.Full) {n : UInt32} (hn : n.toNat = w.next) :
    ∃ q', q.insert true n (f w.next) = .ok (q', true) ∧ Holds q' (w.push h) f := by
  have hfree := hq.next_vacant h
  have hlt := n.toNat_lt
  refine ⟨_, insert_eq_of_free q n (hq.isFull_eq_false_iff.mpr h) (hn ▸ hfree), ?_⟩
  rw [hn]
  constructor
  case stored =>
    intro s hs
    rcases SlidingWindow.mem_push.mp hs with hs | rfl
    · have hne : slot W s ≠ slot W w.next := fun hi =>
        SlidingWindow.mod_next_ne h hs (slot_eq_iff.mp hi)
      simpa only [Function.update_of_ne hne] using hq.stored s hs
    · simp only [Function.update_self, ← hn, UInt32.ofNat_toNat]
  case vacant =>
    intro i hi
    have hne : i ≠ slot W w.next := (hi _ (SlidingWindow.mem_push.mpr (.inr rfl))).symm
    simpa only [Function.update_of_ne hne] using
      hq.vacant i fun s hs => hi s (SlidingWindow.mem_push.mpr (.inl hs))
  case count =>
    have := hq.count
    have := w.base_le
    simp only [SlidingWindow.next_push, SlidingWindow.base_push]
    omega
  case fits =>
    rw [SlidingWindow.next_push]
    omega

/-! ## The loop of an RR is release -/

/-- Emptying the slot of the base lets go of the base. -/
theorem vacate_base (hq : Holds q w f) (hb : w.base ∈ w) :
    Holds (q.vacate (slot W w.base)) (w.release (w.base + 1)) f where
  stored s hs := by
    obtain ⟨hs, hlt⟩ := SlidingWindow.mem_release.mp hs
    have hne : slot W s ≠ slot W w.base := fun hi => by
      have := SlidingWindow.eq_of_mod_eq hs hb (slot_eq_iff.mp hi)
      omega
    simpa only [vacate, Function.update_of_ne hne] using hq.stored s hs
  vacant i hi := by
    rcases eq_or_ne i (slot W w.base) with rfl | hne
    · simp [vacate]
    · have := hq.vacant i fun s hs hsi => by
        refine hi s (SlidingWindow.mem_release.mpr ⟨hs, ?_⟩) hsi
        have hsb : s ≠ w.base := fun h => hne (by rw [← hsi, h])
        have := (SlidingWindow.mem_iff.mp hs).1
        omega
      simpa only [vacate, Function.update_of_ne hne] using this
  count := by
    have := hq.count
    rw [SlidingWindow.mem_iff] at hb
    simp only [vacate, SlidingWindow.next_release, SlidingWindow.base_release]
    omega
  fits := hq.fits

/-- **One turn of the loop**: the base is let go, a number below it or past an empty window is
refused. -/
theorem remove (hq : Holds q w f) {n : ℕ} (hn : n < 4294967296)
    (hbelow : n ≤ w.base ∨ w.base = w.next) :
    ∃ r, q.remove (UInt32.ofNat n) = .ok r ∧ Holds r.1 (w.release (n + 1)) f := by
  have hval : (UInt32.ofNat n).toNat = n := UInt32.toNat_ofNat_of_lt' hn
  refine ⟨_, remove_eq q _, ?_⟩
  rw [hval]
  by_cases hmem : n ∈ w
  · obtain rfl : n = w.base := by
      rw [SlidingWindow.mem_iff] at hmem
      omega
    rw [hq.stored _ hmem]
    simpa using hq.vacate_base hmem
  · have hrefused : (!(q.entries (slot W n)).valid
        || (q.entries (slot W n)).sequenceNum != UInt32.ofNat n) = true := by
      rw [refused_iff]
      rintro ⟨hv, hseq⟩
      obtain ⟨s, hs, hsn⟩ := hq.valid_iff.mp hv
      rw [← hsn, hq.stored s hs] at hseq
      have := congrArg UInt32.toNat hseq
      simp only [hval, toNat_ofNat_of_mem hq hs] at this
      exact hmem (this ▸ hs)
    rw [if_pos hrefused]
    have hsame : w.release (n + 1) = w := by
      have := w.base_le
      rw [SlidingWindow.mem_iff] at hmem
      ext
      · rw [SlidingWindow.base_release]
        omega
      · rfl
    rwa [hsame]

/-- **The loop of an RR**: after `k` turns everything up to `k` is let go. -/
theorem removeUpTo (hq : Holds q w f) (hpos : 1 ≤ w.base) {k : ℕ} (hk : k < 4294967296) :
    ∃ q', q.removeUpTo k = .ok q' ∧ Holds q' (w.release (k + 1)) f := by
  induction k with
  | zero => exact ⟨q, rfl, by rwa [SlidingWindow.release_of_le hpos]⟩
  | succ k ih =>
    obtain ⟨q₁, h₁, hq₁⟩ := ih (by omega)
    have hbelow : k + 1 ≤ (w.release (k + 1)).base
        ∨ (w.release (k + 1)).base = (w.release (k + 1)).next := by
      have := w.base_le
      simp only [SlidingWindow.base_release, SlidingWindow.next_release]
      omega
    obtain ⟨⟨q₂, ok⟩, h₂, hq₂⟩ := hq₁.remove hk hbelow
    exact ⟨q₂, removeUpTo_succ_eq h₁ h₂, by rw [SlidingWindow.release_succ]; exact hq₂⟩

/-! ## Lookups -/

/-- The first valid entry belongs to a member. -/
theorem firstValid (hq : Holds q w f) {i : Fin W} (h : q.firstValid = some i) :
    ∃ s ∈ w, slot W s = i :=
  hq.valid_iff.mp (List.find?_some (p := fun i => (q.entries i).valid) h)

/-- **In a queue that holds a full window the first valid entry is the first entry.** -/
theorem firstValid_of_full (hq : Holds q w f) (hfull : w.Full) :
    q.firstValid = some (slot W 0) :=
  CircularQueue.firstValid_of_full fun i => by
    obtain ⟨s, hs, hsi⟩ := SlidingWindow.exists_mem_of_full (Nat.pos_of_neZero W) hfull i.isLt
    exact hq.valid_iff.mpr ⟨s, hs, Fin.ext hsi⟩

end Holds

end CircularQueue

end RemoteFileCopy
