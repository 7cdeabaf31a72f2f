import Mathlib.Logic.Function.Iterate
import RemoteFileCopy.Client.Turn

/-!
# Client/Flush — the flush loop in closed form

The flush loop is its turn some number of times, each time under its condition (`flush_eq_iterate`).
A turn clears its slot but leaves the packet, so what `n` turns write is read off the buffer before
them: the slots of `expected`, `expected + 1`, … — numbers wrapping around at `2 ^ 32`, slots at
`W` — each once (`valid_of_turns`).  Nothing is asked of `expected` and `highest`: the measure of
the loop is the number of valid slots (`flush_ends_and_writes_once`).
-/

namespace RemoteFileCopy

open CircularQueue (slot)

variable {W : ℕ} [NeZero W]

namespace ReceiveInfo

/-! ## Some turns -/

/-- **The loop is some number of turns**, at most one for each valid slot, and every one of them met
the condition. -/
theorem flushLoop_eq_iterate (fuel : ℕ) (info : ReceiveInfo W) : ∃ n ≤ info.validCount,
    info.flushLoop fuel = flushOne^[n] info ∧ ∀ j < n, (flushOne^[j] info).canFlush = true := by
  induction fuel generalizing info with
  | zero => exact ⟨0, Nat.zero_le _, rfl, fun j hj => absurd hj (Nat.not_lt_zero j)⟩
  | succ fuel ih =>
    rw [flushLoop]
    split
    case isTrue hc =>
      obtain ⟨n, hn, heq, hall⟩ := ih info.flushOne
      have hcount := validCount_flushOne hc
      refine ⟨n + 1, by omega, heq, fun j hj => ?_⟩
      cases j with
      | zero => exact hc
      | succ j => exact hall j (by omega)
    case isFalse => exact ⟨0, Nat.zero_le _, rfl, fun j hj => absurd hj (Nat.not_lt_zero j)⟩

theorem flush_eq_iterate (info : ReceiveInfo W) : ∃ n ≤ info.validCount,
    info.flush = flushOne^[n] info ∧ ∀ j < n, (flushOne^[j] info).canFlush = true :=
  flushLoop_eq_iterate W info

variable (info : ReceiveInfo W)

/-- The number the loop has come to after `n` turns. -/
theorem expected_iterate (n : ℕ) :
    (flushOne^[n] info).expected = info.expected + UInt32.ofNat n := by
  induction n with
  | zero => simp
  | succ n ih =>
    rw [Function.iterate_succ_apply', flushOne, ih, UInt32.ofNat_add, ← UInt32.add_assoc]
    rfl

@[simp] theorem highest_iterate (n : ℕ) : (flushOne^[n] info).highest = info.highest := by
  induction n with
  | zero => rfl
  | succ n ih => rw [Function.iterate_succ_apply', flushOne, ih]

/-- The slot of turn `j`. -/
def turnSlot (j : ℕ) : Fin W := slot W (info.expected + UInt32.ofNat j).toNat

/-- **What `n` turns leave in the buffer**: the packets where they are, the slots of the turns
cleared. -/
theorem buffer_iterate (n : ℕ) (i : Fin W) :
    ((flushOne^[n] info).buffer i).packet = (info.buffer i).packet
      ∧ (((flushOne^[n] info).buffer i).valid = true
        ↔ (info.buffer i).valid = true ∧ ∀ j < n, info.turnSlot j ≠ i) := by
  induction n with
  | zero => simp
  | succ n ih =>
    have hslot : slot W (flushOne^[n] info).expected.toNat = info.turnSlot n := by
      rw [expected_iterate, turnSlot]
    rw [Function.iterate_succ_apply', flushOne, entry, hslot]
    rcases eq_or_ne i (info.turnSlot n) with rfl | hi
    · simp only [Function.update_self]
      exact ⟨ih.1, iff_of_false Bool.false_ne_true fun h => h.2 n (Nat.lt_succ_self n) rfl⟩
    · simp only [Function.update_of_ne hi]
      refine ⟨ih.1, ih.2.trans (and_congr_right fun _ => ?_)⟩
      rw [Nat.forall_lt_succ_right]
      exact (and_iff_left hi.symm).symm

/-- **What `n` turns write**: the packets of their slots, in order. -/
theorem outFile_iterate (n : ℕ) : (flushOne^[n] info).outFile = info.outFile
    ++ ((List.range n).map fun j => (info.buffer (info.turnSlot j)).packet).flatten := by
  induction n with
  | zero => simp
  | succ n ih =>
    have hslot : slot W (flushOne^[n] info).expected.toNat = info.turnSlot n := by
      rw [expected_iterate, turnSlot]
    rw [Function.iterate_succ_apply', flushOne, ih, entry, hslot, (info.buffer_iterate n _).1,
      List.range_succ]
    simp

/-- **The slots of the turns** were valid, and no two turns have the same. -/
theorem valid_of_turns {n : ℕ} (hall : ∀ j < n, (flushOne^[j] info).canFlush = true) :
    ∀ j < n, (info.buffer (info.turnSlot j)).valid = true
      ∧ ∀ k < j, info.turnSlot k ≠ info.turnSlot j := by
  intro j hj
  have hv := (canFlush_iff.mp (hall j hj)).2
  rw [entry, expected_iterate] at hv
  exact (info.buffer_iterate j _).2.mp hv

/-! ## The whole loop -/

/-- **The loop takes `n` turns from `info` to `info'`**: its condition holds before each of them,
and no longer after the last. -/
structure FlushesIn (n : ℕ) (info' : ReceiveInfo W) : Prop where
  eq : info' = flushOne^[n] info
  turns : ∀ j < n, (flushOne^[j] info).canFlush = true
  ends : info'.canFlush = false

theorem exists_flushesIn : ∃ n ≤ info.validCount, info.FlushesIn n info.flush := by
  obtain ⟨n, hn, heq, hall⟩ := info.flush_eq_iterate
  exact ⟨n, hn, heq, hall, info.canFlush_flush⟩

attribute [ext] PacketEntry

namespace FlushesIn

variable {info} {n : ℕ} {info' : ReceiveInfo W}

/-- **What the loop leaves in the buffer**: the slots of its turns cleared, the others as they
were. -/
theorem buffer_eq (h : info.FlushesIn n info') (i : Fin W) : info'.buffer i
    = if ∃ j < n, info.turnSlot j = i then { info.buffer i with valid := false }
      else info.buffer i := by
  obtain ⟨hpacket, hvalid⟩ := info.buffer_iterate n i
  rw [← h.eq] at hpacket hvalid
  split
  case isTrue hwritten =>
    obtain ⟨j, hj, hslot⟩ := hwritten
    have hcleared : (info'.buffer i).valid = false :=
      (Bool.not_eq_true _).mp fun hv => (hvalid.mp hv).2 j hj hslot
    exact PacketEntry.ext hpacket hcleared
  case isFalse hkept =>
    have hsame : (info'.buffer i).valid = (info.buffer i).valid :=
      Bool.eq_iff_iff.mpr (hvalid.trans (and_iff_left fun j hj hslot => hkept ⟨j, hj, hslot⟩))
    exact PacketEntry.ext hpacket hsame

/-- **Where the loop stops**: past `highest`, or at a slot that is not valid. -/
theorem stops (h : info.FlushesIn n info') :
    info'.expected > info'.highest ∨ info'.entry.valid = false := by
  have hends := h.ends
  rw [canFlush, Bool.and_eq_false_iff, decide_eq_false_iff_not, UInt32.not_le] at hends
  exact hends

end FlushesIn

/-- **The flush loop always ends and writes each slot once.**  From any state it takes at most as
many turns as slots are valid; it writes the slots of `expected`, `expected + 1`, … — numbers
wrapping around at `2 ^ 32`, slots at `W` — in this order, all of them valid and no two the same; it
clears these and leaves the others; and it stops past `highest` or at a slot that is not valid. -/
theorem flush_ends_and_writes_once : ∃ n ≤ info.validCount, info.FlushesIn n info.flush
    ∧ info.flush.expected = info.expected + UInt32.ofNat n
    ∧ info.flush.outFile = info.outFile
        ++ ((List.range n).map fun j => (info.buffer (info.turnSlot j)).packet).flatten
    ∧ (∀ j < n, (info.buffer (info.turnSlot j)).valid = true
        ∧ ∀ k < j, info.turnSlot k ≠ info.turnSlot j)
    ∧ (∀ i, info.flush.buffer i
        = if ∃ j < n, info.turnSlot j = i then { info.buffer i with valid := false }
          else info.buffer i)
    ∧ (info.flush.expected > info.flush.highest ∨ info.flush.entry.valid = false) := by
  obtain ⟨n, hn, h⟩ := info.exists_flushesIn
  refine ⟨n, hn, h, ?_, ?_, info.valid_of_turns h.turns, h.buffer_eq, h.stops⟩
  · rw [h.eq, expected_iterate]
  · rw [h.eq, outFile_iterate]

/-- **At the top of the range**: with `expected` and `highest` at `2 ^ 32 - 1` and both of two slots
valid, the loop writes slot 1, wraps around, writes slot 0, and stops at slot 1. -/
theorem flush_ends_and_writes_once_top :
    let info : ReceiveInfo 2 := ⟨fun i => ⟨[if i = 0 then 65 else 66], true⟩, 4294967295,
      4294967295, [], ⟨1, 1⟩, 0⟩
    info.flush.outFile = [66, 65]
      ∧ (info.flush.expected > info.flush.highest ∨ info.flush.entry.valid = false) := by
  intro info
  obtain ⟨-, -, -, -, -, -, -, hstop⟩ := info.flush_ends_and_writes_once
  exact ⟨by decide, hstop⟩

end ReceiveInfo

end RemoteFileCopy
