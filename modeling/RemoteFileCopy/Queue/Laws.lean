import RemoteFileCopy.Queue.Represents

/-!
# Queue/Laws — what the queue does after any calls

The calls of `CircularQueue_insert`, `CircularQueue_remove` and `CircularQueue_clear` as a machine
whose output is the value they return.  After any of its runs the queue represents a table whose
map is what the successful calls have stored (`represents_run`), so counter, valid bits and slots
agree (`queue_laws`) — and `CircularQueue_get` is a lookup in that map exactly where the slot
carries the number asked for (`get_is_lookup_iff`).
-/

namespace RemoteFileCopy

namespace CircularQueue

open Transition

variable {W : ℕ}

/-! ## Runs of calls -/

/-- A call that may change the queue. -/
inductive Call
  | insert (mallocOk : Bool) (sequenceNum : UInt32) (packet : Bytes)
  | remove (sequenceNum : UInt32)
  | clear
  deriving DecidableEq, Repr

/-- The queue after a call, and whether the call returned `0`. -/
def Call.run (q : CircularQueue W) : Call → Except Fault (CircularQueue W × Bool)
  | .insert mallocOk s p => q.insert mallocOk s p
  | .remove s => q.remove s
  | .clear => .ok (q.clear, true)

/-- The queue alone, as a machine. -/
def machine (W : ℕ) : Machine (CircularQueue W) Call Bool where
  step q call := (call.run q).toOption

/-- What a call that returned `ok` does to the packets stored. -/
def Call.store (ok : Bool) (m : UInt32 → Option Bytes) : Call → UInt32 → Option Bytes
  | .insert _ s p => if ok then Function.update m s (some p) else m
  | .remove s => if ok then Function.update m s none else m
  | .clear => fun _ => none

/-- **What a run has stored** — the packet of every number inserted successfully and not removed or
cleared since. -/
def stored : List (Edge (CircularQueue W) Call Bool) → UInt32 → Option Bytes
  | [] => fun _ => none
  | x :: es => x.event.store x.output (stored es)

/-- A step of the machine is what its call comes to. -/
theorem eq_of_run {q q' q₁ : CircularQueue W} {call : Call} {ok ok₁ : Bool}
    (hstep : (machine W).step q call = some (q', ok)) (hrun : call.run q = .ok (q₁, ok₁)) :
    q' = q₁ ∧ ok = ok₁ := by
  simp only [machine, hrun, Except.toOption, Option.some_inj] at hstep
  exact ⟨congrArg Prod.fst hstep.symm, congrArg Prod.snd hstep.symm⟩

variable [NeZero W]

/-- **A call is an operation of the table.** -/
theorem Represents.call {q q' : CircularQueue W} {t : Table W} {ok : Bool} (h : Represents q t)
    {call : Call} (hstep : (machine W).step q call = some (q', ok)) :
    ∃ t' : Table W, Represents q' t' ∧ t'.lookup = call.store ok t.lookup := by
  cases call with
  | insert mallocOk s p =>
    by_cases hok : mallocOk = true ∧ t.Free s
    · obtain ⟨rfl, hfree⟩ := hok
      obtain ⟨q₁, hq₁, hrep, -⟩ := h.insert hfree p
      obtain ⟨rfl, rfl⟩ := eq_of_run hstep hq₁
      exact ⟨_, hrep, DirectMapped.lookup_insert hfree p⟩
    · obtain ⟨rfl, rfl⟩ := eq_of_run hstep (h.insert_refused hok p)
      exact ⟨t, h, rfl⟩
  | remove s =>
    have hremove := h.remove s
    cases hs : t.lookup s with
    | some p =>
      simp only [hs] at hremove
      obtain ⟨rfl, rfl⟩ := eq_of_run hstep hremove.1
      exact ⟨_, hremove.2, DirectMapped.lookup_vacate hs⟩
    | none =>
      simp only [hs] at hremove
      obtain ⟨rfl, rfl⟩ := eq_of_run hstep hremove
      exact ⟨t, h, rfl⟩
  | clear =>
    obtain ⟨rfl, rfl⟩ := eq_of_run hstep rfl
    exact ⟨_, h.clear, rfl⟩

/-- **After any calls the queue represents what they have stored.** -/
theorem represents_run {es : List (Edge (CircularQueue W) Call Bool)} {q : CircularQueue W}
    (h : Run (machine W) (fun _ _ => True) (init W) es q) :
    ∃ t : Table W, Represents q t ∧ t.lookup = stored es := by
  induction h with
  | nil => exact ⟨_, Represents.init, rfl⟩
  | cons _ _ hstep ih =>
    obtain ⟨t, ht, hlookup⟩ := ih
    obtain ⟨t', ht', hlookup'⟩ := ht.call hstep
    exact ⟨t', ht', by rw [hlookup', hlookup, stored]⟩

/-! ## Counter, valid bits and slots -/

/-- **The counter counts, the slots are those of the numbers, and full and empty mean it.** -/
structure Lawful (q : CircularQueue W) : Prop where
  count : q.ValidCount = (Finset.univ.filter fun i => (q.entries i).valid = true).card
  bounds : 0 ≤ q.ValidCount ∧ q.ValidCount ≤ W
  used : ∀ i, (q.entries i).valid = true →
    (q.entries i).packet ≠ none ∧ (q.entries i).sequenceNum.toNat % W = i
  unique : ∀ i j, (q.entries i).valid = true → (q.entries j).valid = true →
    (q.entries i).sequenceNum.toNat % W = (q.entries j).sequenceNum.toNat % W → i = j
  full : q.isFull = true ↔ ∀ i, (q.entries i).valid = true
  empty : q.isEmpty = true ↔ ∀ i, (q.entries i).valid = false

/-- **`insert` succeeds exactly if there is memory and the slot is free**, changes that slot alone,
and nothing where it fails. -/
def InsertLaw (q : CircularQueue W) (mallocOk : Bool) (s : UInt32) (p : Bytes) : Prop :=
  ∃ q' ok, q.insert mallocOk s p = .ok (q', ok)
    ∧ (ok = true ↔ mallocOk = true ∧ (q.entries (slot W s.toNat)).valid = false)
    ∧ (ok = true → q'.entries
        = Function.update q.entries (slot W s.toNat) ⟨some p, p.length, s, true⟩)
    ∧ (ok = false → q' = q)

/-- **`remove` succeeds exactly if the number is stored**, frees its slot alone, and changes nothing
where it fails. -/
def RemoveLaw (q : CircularQueue W) (s : UInt32) : Prop :=
  ∃ q' ok, q.remove s = .ok (q', ok)
    ∧ (ok = true ↔ ∃ i, (q.entries i).valid = true ∧ (q.entries i).sequenceNum = s)
    ∧ (ok = true → q'.entries = Function.update q.entries (slot W s.toNat)
        { q.entries (slot W s.toNat) with packet := none, valid := false })
    ∧ (ok = false → q' = q)

namespace Represents

variable {q : CircularQueue W} {t : Table W}

/-- A valid entry is the entry of its number's slot. -/
theorem entry_of_valid (h : Represents q t) {i : Fin W} (hi : (q.entries i).valid = true) :
    slot W (q.entries i).sequenceNum.toNat = i ∧ (q.entries i).packet ≠ none := by
  obtain ⟨s, p, hcell⟩ := h.valid_iff.mp hi
  rw [h.stored hcell]
  exact ⟨t.slot_eq hcell, Option.some_ne_none p⟩

theorem lawful (h : Represents q t) : Lawful q where
  count := h.validCount_eq.1
  bounds := h.validCount_eq.2
  used i hi := by
    obtain ⟨hslot, hp⟩ := h.entry_of_valid hi
    exact ⟨hp, congrArg Fin.val hslot⟩
  unique i j hi hj hij := by
    rw [← (h.entry_of_valid hi).1, ← (h.entry_of_valid hj).1, slot_eq_iff]
    exact hij
  full := h.isFull_iff
  empty := h.isEmpty_iff

theorem insertLaw (h : Represents q t) (mallocOk : Bool) (s : UInt32) (p : Bytes) :
    InsertLaw q mallocOk s p := by
  have hfree : (q.entries (slot W s.toNat)).valid = false ↔ t.Free s := h.valid_eq_false_iff
  by_cases hok : mallocOk = true ∧ t.Free s
  · obtain ⟨rfl, hroom⟩ := hok
    obtain ⟨q', hq', -, hentries⟩ := h.insert hroom p
    exact ⟨q', true, hq', by simp [hfree, hroom], fun _ => hentries, fun hf => by cases hf⟩
  · exact ⟨q, false, h.insert_refused hok p, by simpa [hfree] using hok, fun hf => (by cases hf),
      fun _ => rfl⟩

/-- A number is stored exactly if its own slot holds it. -/
theorem lookup_ne_none_iff (h : Represents q t) {s : UInt32} : t.lookup s ≠ none
    ↔ ∃ i, (q.entries i).valid = true ∧ (q.entries i).sequenceNum = s := by
  rw [ne_eq, h.lookup_eq_none_iff, refused_iff, not_not]
  constructor
  · exact fun hs => ⟨_, hs⟩
  · rintro ⟨i, hi, rfl⟩
    rw [(h.entry_of_valid hi).1]
    exact ⟨hi, rfl⟩

theorem removeLaw (h : Represents q t) (s : UInt32) : RemoveLaw q s := by
  have hremove := h.remove s
  have hiff := h.lookup_ne_none_iff (s := s)
  cases hs : t.lookup s with
  | some p =>
    simp only [hs] at hremove
    exact ⟨_, true, hremove.1, by simpa [hs] using hiff, fun _ => rfl, fun hf => by cases hf⟩
  | none =>
    simp only [hs] at hremove
    exact ⟨q, false, hremove, by simpa [hs] using hiff, fun hf => (by cases hf), fun _ => rfl⟩

end Represents

/-- **The laws of the queue** — after any calls the counter, the valid bits and the slots agree, and
the next call succeeds when it should and touches one slot. -/
theorem queue_laws {es : List (Edge (CircularQueue W) Call Bool)} {q : CircularQueue W}
    (h : Run (machine W) (fun _ _ => True) (init W) es q) :
    Lawful q ∧ (∀ mallocOk s p, InsertLaw q mallocOk s p) ∧ ∀ s, RemoveLaw q s := by
  obtain ⟨t, ht, -⟩ := represents_run h
  exact ⟨ht.lawful, ht.insertLaw, ht.removeLaw⟩

/-- Two insertions and a removal in a queue of two slots, and three calls that are refused: `9` goes
where `7` is, `7` is gone, and there is no memory for `9`. -/
def sixCalls : List Call :=
  [.insert true 7 [1], .insert true 9 [2], .insert true 8 [3], .remove 7, .remove 7,
    .insert false 9 [4]]

/-- The laws after them. -/
theorem queue_laws_six : ∃ es q, Run (machine 2) (fun _ _ => True) (init 2) es q
    ∧ (es.map Edge.output).reverse = [true, false, true, true, false, false]
    ∧ Lawful q ∧ (∀ mallocOk s p, InsertLaw q mallocOk s p) ∧ ∀ s, RemoveLaw q s := by
  obtain ⟨es, q, run, h⟩ := exists_run_of_replay (M := machine 2) (G := fun _ _ => True)
    (s := init 2) sixCalls
    (P := fun es _ => (es.map Edge.output).reverse = [true, false, true, true, false, false])
    (by decide +kernel)
  exact ⟨es, q, run, of_decide_eq_true h, queue_laws run⟩

/-! ## `CircularQueue_get` -/

/-- **`get` is a lookup in `m`**: not `NULL` exactly for a number stored, and then its packet. -/
def GetIsLookup (q : CircularQueue W) (m : UInt32 → Option Bytes) (s : UInt32) : Prop :=
  match m s with
  | some p => ∃ i, q.get s = .ok (some i)
      ∧ (q.entries i).packet = some p ∧ (q.entries i).packetLen = p.length
  | none => q.get s = .ok none

theorem Represents.getIsLookup_iff {q : CircularQueue W} {t : Table W} (h : Represents q t)
    (s : UInt32) :
    GetIsLookup q t.lookup s ↔ (q.entries (slot W s.toNat)).sequenceNum = s := by
  cases hs : t.lookup s with
  | some p =>
    have hentry := h.stored (DirectMapped.lookup_eq_some_iff.mp hs)
    simp [GetIsLookup, hs, get_eq, hentry]
  | none =>
    have hstored := h.lookup_eq_none_iff.mp hs
    rw [Bool.or_eq_true, Bool.not_eq_true', bne_iff_ne] at hstored
    simp only [GetIsLookup, hs]
    by_cases hseq : (q.entries (slot W s.toNat)).sequenceNum = s
    · have hv := hstored.resolve_right (not_not_intro hseq)
      exact iff_of_true (get_eq_none hv hseq) hseq
    · refine iff_of_false (fun hget => ?_) hseq
      rw [get_eq_some (.inr hseq)] at hget
      cases hget

/-- **Where `get` is a lookup** — exactly for the numbers their slots carry, valid or not. -/
theorem get_is_lookup_iff {es : List (Edge (CircularQueue W) Call Bool)} {q : CircularQueue W}
    (h : Run (machine W) (fun _ _ => True) (init W) es q) (s : UInt32) :
    GetIsLookup q (stored es) s ↔ (q.entries (slot W s.toNat)).sequenceNum = s := by
  obtain ⟨t, ht, hlookup⟩ := represents_run h
  rw [← hlookup]
  exact ht.getIsLookup_iff s

/-- After them `8` is found, and `7`, which was removed, is not. -/
theorem get_is_lookup_six : ∃ es q, Run (machine 2) (fun _ _ => True) (init 2) es q
    ∧ stored es 8 = some [3] ∧ GetIsLookup q (stored es) 8
    ∧ stored es 7 = none ∧ GetIsLookup q (stored es) 7 := by
  obtain ⟨es, q, run, h⟩ := exists_run_of_replay (M := machine 2) (G := fun _ _ => True)
    (s := init 2) sixCalls (P := fun es q => stored es 8 = some [3] ∧ stored es 7 = none
      ∧ (q.entries 0).sequenceNum = 8 ∧ (q.entries 1).sequenceNum = 7) (by decide +kernel)
  obtain ⟨h₈, h₇, hslot₀, hslot₁⟩ := of_decide_eq_true h
  exact ⟨es, q, run, h₈, (get_is_lookup_iff run 8).mpr hslot₀, h₇,
    (get_is_lookup_iff run 7).mpr hslot₁⟩

/-- A fresh queue answers `get` of a number nobody inserted with the slot it would go to. -/
theorem get_of_missing : ¬ ∀ (W : ℕ) [NeZero W] (es : List (Edge (CircularQueue W) Call Bool))
    (q : CircularQueue W), Run (machine W) (fun _ _ => True) (init W) es q →
      ∀ s, GetIsLookup q (stored es) s := by
  intro h
  have hget : get (init 4) 5 = .ok none := h 4 [] (init 4) .nil 5
  rw [get_eq] at hget
  cases hget

end CircularQueue

end RemoteFileCopy
