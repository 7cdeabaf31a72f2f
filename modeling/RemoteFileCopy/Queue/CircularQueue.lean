import RemoteFileCopy.Library.SlidingWindow
import RemoteFileCopy.Wire.Pdu

/-!
# Queue/CircularQueue — the server's window of unacknowledged packets

An array of `WindowSize` entries, each holding at most one packet in the slot of its sequence
number modulo `WindowSize`, and a counter of the entries in use.  `CircularQueue W` is the queue of
window size `W`; the operations take the remainder that C takes, so for `W = 0` the ones that need
it fault.

A `QueueEntry *` is the index it points to.  `malloc` succeeds or not as the caller says.
-/

namespace RemoteFileCopy

/-- One slot: `packet` is `NULL` or an allocated block. -/
structure QueueEntry where
  packet : Option Bytes
  packetLen : ℕ
  sequenceNum : UInt32
  valid : Bool
  deriving DecidableEq, Repr

/-- What `calloc` leaves in a slot. -/
def QueueEntry.zero : QueueEntry := ⟨none, 0, 0, false⟩

/-- The queue of window size `W`. -/
@[ext]
structure CircularQueue (W : ℕ) where
  entries : Fin W → QueueEntry
  ValidCount : ℤ

namespace CircularQueue

variable {W : ℕ}

/-! ## The operations -/

/-- `sequenceNum % queue->WindowSize`. -/
def index (W : ℕ) (sequenceNum : UInt32) : Except Fault (Fin W) :=
  if h : 0 < W then .ok ⟨sequenceNum.toNat % W, Nat.mod_lt _ h⟩ else .error .divideByZero

/-- `CircularQueue_init`. -/
def init (W : ℕ) : CircularQueue W := ⟨fun _ => .zero, 0⟩

/-- `CircularQueue_is_full`. -/
def isFull (q : CircularQueue W) : Bool := (W : ℤ) ≤ q.ValidCount

/-- `CircularQueue_is_empty`. -/
def isEmpty (q : CircularQueue W) : Bool := q.ValidCount = 0

/-- `CircularQueue_insert`, and whether it returned `0`. -/
def insert (mallocOk : Bool) (q : CircularQueue W) (sequenceNum : UInt32) (packet : Bytes) :
    Except Fault (CircularQueue W × Bool) :=
  if q.isFull then .ok (q, false)
  else do
    let index ← index W sequenceNum
    let entry := q.entries index
    if entry.valid then return (q, false)
    if !mallocOk then
      return ({ q with entries := Function.update q.entries index { entry with packet := none } },
        false)
    return ({ entries := Function.update q.entries index ⟨some packet, packet.length, sequenceNum,
        true⟩, ValidCount := q.ValidCount + 1 }, true)

/-- `CircularQueue_get`: the slot it returns a pointer to, or `none` for `NULL`. -/
def get (q : CircularQueue W) (sequenceNum : UInt32) : Except Fault (Option (Fin W)) := do
  let index ← index W sequenceNum
  let entry := q.entries index
  return if entry.valid || entry.sequenceNum != sequenceNum then some index else none

/-- Empty a slot: `free`, `NULL`, not valid, and one less in use. -/
def vacate (q : CircularQueue W) (i : Fin W) : CircularQueue W where
  entries := Function.update q.entries i { q.entries i with packet := none, valid := false }
  ValidCount := q.ValidCount - 1

/-- `CircularQueue_remove`, and whether it returned `0`. -/
def remove (q : CircularQueue W) (sequenceNum : UInt32) :
    Except Fault (CircularQueue W × Bool) := do
  let index ← index W sequenceNum
  let entry := q.entries index
  return if !entry.valid || entry.sequenceNum != sequenceNum then (q, false)
    else (q.vacate index, true)

/-- **The loop an RR runs**: `for (i = 1; i < n; i++) CircularQueue_remove(window, i)`, after its
first `k` turns. -/
def removeUpTo (q : CircularQueue W) : ℕ → Except Fault (CircularQueue W)
  | 0 => .ok q
  | k + 1 => do
      let q ← q.removeUpTo k
      let (q, _) ← q.remove (UInt32.ofNat (k + 1))
      return q

theorem removeUpTo_succ_eq {q q₁ : CircularQueue W} {k : ℕ} {r : CircularQueue W × Bool}
    (h₁ : q.removeUpTo k = .ok q₁) (h₂ : q₁.remove (UInt32.ofNat (k + 1)) = .ok r) :
    q.removeUpTo (k + 1) = .ok r.1 := by
  simp only [removeUpTo, h₁, bind, Except.bind, h₂]
  rfl

/-- `CircularQueue_clear`, which returns `0`. -/
def clear (q : CircularQueue W) : CircularQueue W where
  entries := fun i =>
    if (q.entries i).valid then { q.entries i with packet := none, valid := false }
    else q.entries i
  ValidCount := 0

/-- The first valid entry in array order, which the timeout loop of `send_data_state` stops at. -/
def firstValid (q : CircularQueue W) : Option (Fin W) :=
  (List.finRange W).find? fun i => (q.entries i).valid

/-! ## With a positive window size -/

section Positive

variable [NeZero W]

/-- The slot a number is stored in. -/
def slot (W : ℕ) [NeZero W] (s : ℕ) : Fin W := Fin.ofNat W s

@[simp] theorem val_slot (s : ℕ) : (slot W s : ℕ) = s % W := rfl

theorem slot_eq_iff {s t : ℕ} : slot W s = slot W t ↔ s % W = t % W := by
  rw [Fin.ext_iff, val_slot, val_slot]

theorem index_eq (s : UInt32) : index W s = .ok (slot W s.toNat) := by
  rw [index, dif_pos (Nat.pos_of_neZero W)]
  rfl

variable (q : CircularQueue W) (s : UInt32)

theorem get_eq : q.get s = .ok
    (if (q.entries (slot W s.toNat)).valid || (q.entries (slot W s.toNat)).sequenceNum != s
      then some (slot W s.toNat) else none) := by
  rw [get, index_eq]
  rfl

/-- A slot that is valid or carries another number is returned. -/
theorem get_eq_some {q : CircularQueue W} {s : UInt32}
    (h : (q.entries (slot W s.toNat)).valid = true
      ∨ (q.entries (slot W s.toNat)).sequenceNum ≠ s) :
    q.get s = .ok (some (slot W s.toNat)) := by
  rw [get_eq, if_pos]
  simpa using h

/-- A free slot that carries the number is not. -/
theorem get_eq_none {q : CircularQueue W} {s : UInt32}
    (hv : (q.entries (slot W s.toNat)).valid = false)
    (hseq : (q.entries (slot W s.toNat)).sequenceNum = s) : q.get s = .ok none := by
  rw [get_eq, if_neg]
  simp [hv, hseq]

/-- What `remove` refuses: an entry that does not hold the number. -/
theorem refused_iff (e : QueueEntry) :
    (!e.valid || e.sequenceNum != s) = true ↔ ¬ (e.valid = true ∧ e.sequenceNum = s) := by
  cases e.valid <;> simp

theorem remove_eq : q.remove s = .ok
    (if !(q.entries (slot W s.toNat)).valid || (q.entries (slot W s.toNat)).sequenceNum != s
      then (q, false) else (q.vacate (slot W s.toNat), true)) := by
  rw [remove, index_eq]
  rfl

theorem insert_eq_of_free {p : Bytes} (hroom : q.isFull = false)
    (hfree : (q.entries (slot W s.toNat)).valid = false) :
    q.insert true s p = .ok
      ({ entries := Function.update q.entries (slot W s.toNat) ⟨some p, p.length, s, true⟩
         ValidCount := q.ValidCount + 1 }, true) := by
  rw [insert, hroom, index_eq]
  simp only [Bool.false_eq_true, if_false]
  change (if (q.entries (slot W s.toNat)).valid then _ else _) = _
  rw [hfree]
  rfl

/-- **In a full queue the first valid entry is the first entry.** -/
theorem firstValid_of_full {q : CircularQueue W} (h : ∀ i, (q.entries i).valid = true) :
    q.firstValid = some (slot W 0) := by
  obtain ⟨n, rfl⟩ := Nat.exists_eq_succ_of_ne_zero (NeZero.ne W)
  rw [firstValid, List.finRange_succ,
    List.find?_cons_of_pos (p := fun i => (q.entries i).valid) (h 0)]
  rfl

end Positive

end CircularQueue

end RemoteFileCopy
