import RemoteFileCopy.Library.DirectMapped
import RemoteFileCopy.Library.Transition
import RemoteFileCopy.Queue.CircularQueue

/-!
# Queue/Represents — the circular queue is a direct-mapped table

A valid entry is a cell in use: its number is the key, its packet the value.  `Represents q t` says
that `q` is the table `t`, whatever numbers were inserted, and that `ValidCount` counts it.  Each
operation is one of the table's or leaves the queue as it was, so the relation holds after any
calls from `CircularQueue_init` on (`Represents.run`).

`CircularQueue_get` is the exception: its test asks for a valid entry *or* another number, where
`CircularQueue_remove` asks for both to be as they should.
-/

namespace RemoteFileCopy

namespace CircularQueue

open Transition

variable {W : ℕ} [NeZero W]

/-- The table a queue of window size `W` stands for: packets under sequence numbers. -/
abbrev Table (W : ℕ) [NeZero W] := DirectMapped (fun s : UInt32 => slot W s.toNat) Bytes

/-- **The queue represents the table.** -/
structure Represents (q : CircularQueue W) (t : Table W) : Prop where
  /-- A cell in use is a valid entry, with the key and the packet. -/
  stored : ∀ {i s p}, t.cell i = some (s, p) → q.entries i = ⟨some p, p.length, s, true⟩
  /-- A free cell is an entry that is not valid and has no packet. -/
  vacant : ∀ {i}, t.cell i = none → (q.entries i).valid = false ∧ (q.entries i).packet = none
  /-- The counter counts the cells in use. -/
  count : q.ValidCount = t.count

namespace Represents

variable {q : CircularQueue W} {t : Table W}

theorem init : Represents (init W) .empty where
  stored h := by cases h
  vacant _ := ⟨rfl, rfl⟩
  count := by rw [DirectMapped.count_empty]; rfl

/-- **The valid entries are the cells in use.** -/
theorem valid_iff (h : Represents q t) {i : Fin W} :
    (q.entries i).valid = true ↔ ∃ s p, t.cell i = some (s, p) := by
  cases hc : t.cell i with
  | none => simp [(h.vacant hc).1]
  | some e => simpa [h.stored hc] using ⟨e.1, e.2, rfl⟩

theorem valid_eq_false_iff (h : Represents q t) {i : Fin W} :
    (q.entries i).valid = false ↔ t.cell i = none := by
  cases hc : t.cell i with
  | none => simp [(h.vacant hc).1]
  | some e => simp [h.stored hc]

/-- **A number is stored exactly if its slot is valid and carries it.** -/
theorem lookup_eq_none_iff (h : Represents q t) {s : UInt32} : t.lookup s = none
    ↔ (!(q.entries (slot W s.toNat)).valid
        || (q.entries (slot W s.toNat)).sequenceNum != s) = true := by
  cases hc : t.cell (slot W s.toNat) with
  | none => simp [(h.vacant hc).1, DirectMapped.lookup, hc]
  | some e => simp [h.stored hc, DirectMapped.lookup, hc]

theorem isFull_iff (h : Represents q t) : q.isFull = true ↔ ∀ i, (q.entries i).valid = true := by
  have hle := t.count_le
  have hcard := t.count_eq_card_iff
  rw [Fintype.card_fin] at hle hcard
  rw [isFull, decide_eq_true_eq, h.count, Int.ofNat_le]
  constructor
  · intro hfull i
    rw [← Bool.not_eq_false, h.valid_eq_false_iff]
    exact hcard.mp (le_antisymm hle hfull) i
  · intro hall
    refine (hcard.mpr fun i => ?_).ge
    rw [ne_eq, ← h.valid_eq_false_iff, hall i]
    exact Bool.noConfusion

theorem isEmpty_iff (h : Represents q t) : q.isEmpty = true ↔ ∀ i, (q.entries i).valid = false := by
  rw [isEmpty, decide_eq_true_eq, h.count, Int.natCast_eq_zero, t.count_eq_zero_iff]
  simp only [h.valid_eq_false_iff]

/-- The counter is the number of valid entries, between `0` and `W`. -/
theorem validCount_eq (h : Represents q t) :
    q.ValidCount = (Finset.univ.filter fun i => (q.entries i).valid = true).card
      ∧ 0 ≤ q.ValidCount ∧ q.ValidCount ≤ W := by
  have hused : (Finset.univ.filter fun i => (q.entries i).valid = true) = t.used := by
    ext i
    rw [Finset.mem_filter, and_iff_right (Finset.mem_univ i), t.mem_used, ne_eq,
      ← h.valid_eq_false_iff, Bool.not_eq_false]
  have hle := t.count_le
  rw [Fintype.card_fin] at hle
  rw [hused, h.count]
  exact ⟨rfl, Int.natCast_nonneg _, Int.ofNat_le.mpr hle⟩

/-! ## The operations -/

/-- **`insert` inserts into a free cell.** -/
theorem insert (h : Represents q t) {s : UInt32} (hfree : t.Free s) (p : Bytes) :
    ∃ q', q.insert true s p = .ok (q', true) ∧ Represents q' (t.insert s p)
      ∧ q'.entries = Function.update q.entries (slot W s.toNat) ⟨some p, p.length, s, true⟩ := by
  have hv : (q.entries (slot W s.toNat)).valid = false := (h.vacant hfree).1
  have hroom : q.isFull = false := by
    rw [← Bool.not_eq_true, h.isFull_iff]
    exact fun hall => by simp [hall] at hv
  refine ⟨_, insert_eq_of_free q s hroom hv, ?_, rfl⟩
  constructor
  case stored =>
    intro i s' p' hcell
    rw [DirectMapped.cell_insert] at hcell
    rcases eq_or_ne i (slot W s.toNat) with rfl | hi
    · rw [Function.update_self, Option.some_inj, Prod.mk.injEq] at hcell
      obtain ⟨rfl, rfl⟩ := hcell
      exact Function.update_self _ _ _
    · rw [Function.update_of_ne hi] at hcell
      exact (Function.update_of_ne hi _ _).trans (h.stored hcell)
  case vacant =>
    intro i hcell
    rw [DirectMapped.cell_insert] at hcell
    have hi : i ≠ slot W s.toNat := by
      rintro rfl
      rw [Function.update_self] at hcell
      cases hcell
    rw [Function.update_of_ne hi] at hcell
    simpa only [Function.update_of_ne hi] using h.vacant hcell
  case count =>
    rw [DirectMapped.count_insert hfree, h.count]
    rfl

/-- **`insert` changes nothing where there is no memory or the cell is in use.** -/
theorem insert_refused (h : Represents q t) {mallocOk : Bool} {s : UInt32}
    (hrefused : ¬ (mallocOk = true ∧ t.Free s)) (p : Bytes) :
    q.insert mallocOk s p = .ok (q, false) := by
  cases hfull : q.isFull with
  | true => simp only [CircularQueue.insert, hfull, if_true]
  | false =>
    cases hv : (q.entries (slot W s.toNat)).valid with
    | true =>
      simp only [CircularQueue.insert, hfull, Bool.false_eq_true, if_false, index_eq, bind,
        Except.bind, hv, if_true, pure, Except.pure]
    | false =>
      have hfree := h.valid_eq_false_iff.mp hv
      obtain rfl : mallocOk = false := by
        rw [← Bool.not_eq_true]
        exact fun hm => hrefused ⟨hm, hfree⟩
      have hsame : Function.update q.entries (slot W s.toNat)
          ⟨none, (q.entries (slot W s.toNat)).packetLen,
            (q.entries (slot W s.toNat)).sequenceNum, false⟩ = q.entries := by
        rw [← (h.vacant hfree).2, ← hv]
        exact Function.update_eq_self _ _
      simp only [CircularQueue.insert, hfull, Bool.false_eq_true, if_false, index_eq, bind,
        Except.bind, hv, hsame, Bool.not_false, if_true, pure, Except.pure]

/-- Emptying the cell of a stored number. -/
theorem vacate (h : Represents q t) {s : UInt32} {p : Bytes} (hs : t.lookup s = some p) :
    Represents (q.vacate (slot W s.toNat)) (t.vacate s) where
  stored {i s' p'} hcell := by
    rw [DirectMapped.cell_vacate] at hcell
    have hi : i ≠ slot W s.toNat := by
      rintro rfl
      rw [Function.update_self] at hcell
      cases hcell
    rw [Function.update_of_ne hi] at hcell
    simpa only [CircularQueue.vacate, Function.update_of_ne hi] using h.stored hcell
  vacant {i} hcell := by
    rw [DirectMapped.cell_vacate] at hcell
    rcases eq_or_ne i (slot W s.toNat) with rfl | hi
    · simp [CircularQueue.vacate]
    · rw [Function.update_of_ne hi] at hcell
      simpa only [CircularQueue.vacate, Function.update_of_ne hi] using h.vacant hcell
  count := by
    have hcount := DirectMapped.count_vacate (t := t) (k := s) fun hfree => by
      rw [DirectMapped.lookup_of_free hfree] at hs
      cases hs
    have := h.count
    simp only [CircularQueue.vacate]
    omega

/-- **`remove` empties the cell of a stored number**, and otherwise changes nothing. -/
theorem remove (h : Represents q t) (s : UInt32) : match t.lookup s with
    | some _ => q.remove s = .ok (q.vacate (slot W s.toNat), true)
        ∧ Represents (q.vacate (slot W s.toNat)) (t.vacate s)
    | none => q.remove s = .ok (q, false) := by
  cases hs : t.lookup s with
  | none => exact (remove_eq q s).trans (by rw [if_pos (h.lookup_eq_none_iff.mp hs)])
  | some p =>
    have hstored := h.lookup_eq_none_iff.not.mp (hs ▸ Option.some_ne_none p)
    exact ⟨(remove_eq q s).trans (by rw [if_neg hstored]), h.vacate hs⟩

/-- **`clear` empties the table.** -/
theorem clear (h : Represents q t) : Represents q.clear .empty where
  stored hcell := by cases hcell
  vacant {i} _ := by
    by_cases hv : (q.entries i).valid = true
    · simp [CircularQueue.clear, hv]
    · have hcell := h.valid_eq_false_iff.mp ((Bool.not_eq_true _).mp hv)
      simpa only [CircularQueue.clear, if_neg hv] using h.vacant hcell
  count := by rw [DirectMapped.count_empty]; rfl

end Represents

end CircularQueue

end RemoteFileCopy
