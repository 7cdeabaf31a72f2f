import Mathlib.Data.Fintype.Card
import RemoteFileCopy.Client.Receive

/-!
# Client/Turn — what one turn of the receive loop does

One equation for each branch of `process_transfer_state`, and the two rules of the flush loop: an
invariant of its turn holds after it (`flush_induction`), and it runs until its condition fails
(`canFlush_flush`), because each turn clears a valid slot.
-/

namespace RemoteFileCopy

open CircularQueue (slot)

variable {W : ℕ} [NeZero W]

/-! ## The flush loop -/

namespace ReceiveInfo

theorem flushLoop_induction {P : ReceiveInfo W → Prop} (n : ℕ) {info : ReceiveInfo W} (h : P info)
    (hturn : ∀ info, P info → info.canFlush = true → P info.flushOne) : P (info.flushLoop n) := by
  induction n generalizing info with
  | zero => exact h
  | succ n ih =>
    rw [flushLoop]
    split
    case isTrue hc => exact ih (hturn info h hc)
    case isFalse => exact h

/-- **What a turn preserves, the loop preserves.** -/
theorem flush_induction {P : ReceiveInfo W → Prop} {info : ReceiveInfo W} (h : P info)
    (hturn : ∀ info, P info → info.canFlush = true → P info.flushOne) : P info.flush :=
  flushLoop_induction W h hturn

/-- What both out-of-order branches do with a payload: buffer it if its slot is free, and raise
`highest`. -/
def keep (info : ReceiveInfo W) (seq : UInt32) (p : Bytes) : ReceiveInfo W :=
  { info with
    buffer := if (info.buffer (slot W seq.toNat)).valid then info.buffer
      else Function.update info.buffer (slot W seq.toNat) ⟨p, true⟩
    highest := if seq > info.highest then seq else info.highest }

/-- The number of slots in use. -/
def validCount (info : ReceiveInfo W) : ℕ :=
  (Finset.univ.filter fun i => (info.buffer i).valid = true).card

theorem canFlush_iff {info : ReceiveInfo W} : info.canFlush = true
    ↔ info.expected.toNat ≤ info.highest.toNat ∧ info.entry.valid = true := by
  simp [canFlush, UInt32.le_iff_toNat_le]

/-- **A turn clears one slot.** -/
theorem validCount_flushOne {info : ReceiveInfo W} (h : info.canFlush = true) :
    info.flushOne.validCount + 1 = info.validCount := by
  have hmem : slot W info.expected.toNat ∈
      Finset.univ.filter fun i => (info.buffer i).valid = true := by
    simpa [entry] using (canFlush_iff.mp h).2
  have herase : (Finset.univ.filter fun i => (info.flushOne.buffer i).valid = true)
      = (Finset.univ.filter fun i => (info.buffer i).valid = true).erase
        (slot W info.expected.toNat) := by
    ext i
    simp only [Finset.mem_erase, Finset.mem_filter, Finset.mem_univ, true_and]
    rcases eq_or_ne i (slot W info.expected.toNat) with rfl | hi
    · simp [flushOne]
    · simp [flushOne, hi]
  rw [validCount, validCount, herase, Finset.card_erase_add_one hmem]

theorem canFlush_flushLoop (n : ℕ) {info : ReceiveInfo W} (h : info.validCount ≤ n) :
    (info.flushLoop n).canFlush = false := by
  induction n generalizing info with
  | zero =>
    by_contra hc
    have := validCount_flushOne ((Bool.not_eq_false _).mp hc)
    simp only [flushLoop] at this
    omega
  | succ n ih =>
    rw [flushLoop]
    split
    case isTrue hc =>
      have := validCount_flushOne hc
      exact ih (by omega)
    case isFalse hc => exact (Bool.not_eq_true _).mp hc

/-- **The loop has run until its condition failed.** -/
theorem canFlush_flush (info : ReceiveInfo W) : info.flush.canFlush = false :=
  canFlush_flushLoop W ((Finset.card_le_univ _).trans_eq (Fintype.card_fin W))

@[simp] theorem highest_flush (info : ReceiveInfo W) : info.flush.highest = info.highest :=
  flush_induction (P := fun i => i.highest = info.highest) rfl fun _ h _ => h

@[simp] theorem serverAddr_flush (info : ReceiveInfo W) :
    info.flush.serverAddr = info.serverAddr :=
  flush_induction (P := fun i => i.serverAddr = info.serverAddr) rfl fun _ h _ => h

end ReceiveInfo

/-! ## The branches -/

section Branches

variable (host : Host) {info : ReceiveInfo W} {r : Received} {p : Bytes}

theorem turn_eof (state : TransferState) (hf : r.flag = 10) :
    processTransferState host state info r = .ok (none,
      { info with serverAddr := r.srcAddr, eofSeq := r.seqNum host }.flush,
      [⟨r.srcAddr, createPDU host (r.seqNum host) 35 []⟩]) := by
  simp [processTransferState, hf, sendEofAckState]

theorem IsDataFlag.ne_eof {f : UInt8} (hf : IsDataFlag f) : f ≠ 10 := by
  rcases hf with rfl | rfl | rfl <;> decide

/-- Any other flag is ignored. -/
theorem turn_other (state : TransferState) (hf : ¬ IsDataFlag r.flag) (hf' : r.flag ≠ 10) :
    processTransferState host state info r
      = .ok (some state, { info with serverAddr := r.srcAddr }, []) := by
  simp [processTransferState, hf, hf']

theorem turn_inOrder_eq (hf : IsDataFlag r.flag) (hs : r.seqNum host = info.expected)
    (hp : r.payload = .ok p) :
    processTransferState host .inOrder info r = .ok (some .inOrder,
      { info with
        serverAddr := r.srcAddr
        outFile := info.outFile ++ p
        expected := info.expected + 1
        highest := info.expected },
      [⟨r.srcAddr, rrPDU host (info.expected + 1)⟩]) := by
  simp [processTransferState, hf, hf.ne_eof, hs, hp, sendRr, bind, Except.bind, pure, Except.pure]

theorem turn_inOrder_gt (hf : IsDataFlag r.flag) (hs : info.expected < r.seqNum host)
    (hp : r.payload = .ok p) :
    processTransferState host .inOrder info r = .ok (some .outOfOrder,
      { info.keep (r.seqNum host) p with serverAddr := r.srcAddr },
      [⟨r.srcAddr, srejPDU host info.expected⟩]) := by
  have hne : r.seqNum host ≠ info.expected := fun h => by simp [h] at hs
  by_cases hv : (info.buffer (slot W (r.seqNum host).toNat)).valid = true <;>
    simp [processTransferState, hf, hf.ne_eof, hs, hne, hp, hv, sendSrej, bufferPacket,
      ReceiveInfo.keep, bind, Except.bind, pure, Except.pure]

theorem turn_outOfOrder_eq (hf : IsDataFlag r.flag) (hs : r.seqNum host = info.expected)
    (hp : r.payload = .ok p) :
    processTransferState host .outOfOrder info r = .ok (some .flush,
      { info with
        serverAddr := r.srcAddr
        outFile := info.outFile ++ p
        expected := info.expected + 1 },
      [⟨r.srcAddr, rrPDU host (info.expected + 1)⟩]) := by
  simp [processTransferState, hf, hf.ne_eof, hs, hp, sendRr, bind, Except.bind, pure, Except.pure]

theorem turn_outOfOrder_gt (hf : IsDataFlag r.flag) (hs : info.expected < r.seqNum host)
    (hp : r.payload = .ok p) :
    processTransferState host .outOfOrder info r = .ok (some .outOfOrder,
      { info.keep (r.seqNum host) p with serverAddr := r.srcAddr }, []) := by
  have hne : r.seqNum host ≠ info.expected := fun h => by simp [h] at hs
  by_cases hv : (info.buffer (slot W (r.seqNum host).toNat)).valid = true <;>
    simp [processTransferState, hf, hf.ne_eof, hs, hne, hp, hv, bufferPacket,
      ReceiveInfo.keep, bind, Except.bind, pure, Except.pure]

/-- **A packet from before `expected` is ignored without an answer**, in order or out of order. -/
theorem turn_lt {state : TransferState} (hstate : state ≠ .flush) (hf : IsDataFlag r.flag)
    (hs : r.seqNum host < info.expected) :
    processTransferState host state info r
      = .ok (some state, { info with serverAddr := r.srcAddr }, []) := by
  have hne : r.seqNum host ≠ info.expected := fun h => by simp [h] at hs
  have hle : ¬ info.expected < r.seqNum host := fun h => UInt32.lt_asymm h hs
  cases state
  case flush => exact absurd rfl hstate
  all_goals simp [processTransferState, hf, hf.ne_eof, hne, hle]

/-- **The turn after a gap was filled**: flush, then ask for the next gap, whose slot is free, or
acknowledge everything. -/
theorem turn_flush_cases (info : ReceiveInfo W) (hf : IsDataFlag r.flag) :
    ({ info with serverAddr := r.srcAddr }.flush.expected.toNat ≤ info.highest.toNat
      ∧ { info with serverAddr := r.srcAddr }.flush.entry.valid = false
      ∧ processTransferState host .flush info r = .ok (some .outOfOrder,
          { info with serverAddr := r.srcAddr }.flush,
          [⟨r.srcAddr, srejPDU host { info with serverAddr := r.srcAddr }.flush.expected⟩]))
    ∨ (info.highest.toNat < { info with serverAddr := r.srcAddr }.flush.expected.toNat
      ∧ processTransferState host .flush info r = .ok (some .inOrder,
          { info with serverAddr := r.srcAddr }.flush,
          [⟨r.srcAddr, rrPDU host { info with serverAddr := r.srcAddr }.flush.expected⟩])) := by
  have hc := ReceiveInfo.canFlush_flush { info with serverAddr := r.srcAddr }
  simp only [processTransferState, hf.ne_eof, hf, if_true, if_false, sendSrej, sendRr,
    ReceiveInfo.serverAddr_flush, ReceiveInfo.highest_flush]
  by_cases hle : { info with serverAddr := r.srcAddr }.flush.expected ≤ info.highest
  · have hv : { info with serverAddr := r.srcAddr }.flush.entry.valid = false := by
      rw [ReceiveInfo.canFlush, ReceiveInfo.highest_flush, Bool.and_eq_false_iff,
        decide_eq_false_iff_not] at hc
      exact hc.resolve_left (not_not_intro hle)
    exact .inl ⟨UInt32.le_iff_toNat_le.mp hle, hv, by simp [hle, hv]⟩
  · exact .inr ⟨Nat.lt_of_not_le (UInt32.le_iff_toNat_le.not.mp hle), by simp [hle]⟩

/-- A turn that goes on is a step of the client. -/
theorem Client.step_of_turn {c : Client W} {state state' : TransferState} {info' : ReceiveInfo W}
    {sends : List Send} {stale : Bytes} {d : Datagram} (hpc : c.pc = .receiving state)
    (hturn : processTransferState host state c.info (safeRecvfrom stale (MAXBUF + 7) d)
      = .ok (some state', info', sends)) :
    c.step host stale d = some (⟨.receiving state', info'⟩, sends) := by
  simp only [Client.step, hpc, hturn]

/-- A turn that returns is the last step. -/
theorem Client.step_of_last_turn {c : Client W} {state : TransferState} {info' : ReceiveInfo W}
    {sends : List Send} {stale : Bytes} {d : Datagram} (hpc : c.pc = .receiving state)
    (hturn : processTransferState host state c.info (safeRecvfrom stale (MAXBUF + 7) d)
      = .ok (none, info', sends)) :
    c.step host stale d = some (⟨.done, info'⟩, sends) := by
  simp only [Client.step, hpc, hturn]

/-- Where a step goes that is a turn that goes on. -/
theorem Client.eq_of_turn {c c' : Client W} {a : Arrival} {state state' : TransferState}
    {info' : ReceiveInfo W} {sends sends' : List Send} (hpc : c.pc = .receiving state)
    (hturn : processTransferState host state c.info a.received = .ok (some state', info', sends'))
    (hstep : (clientMachine W host).step c a = some (c', sends)) :
    c' = ⟨.receiving state', info'⟩ := by
  have heq : (clientMachine W host).step c a = _ := Client.step_of_turn host hpc hturn
  exact congrArg Prod.fst (Option.some_inj.mp (hstep.symm.trans heq))

/-- Where a step goes that is a turn that returns. -/
theorem Client.eq_of_last_turn {c c' : Client W} {a : Arrival} {state : TransferState}
    {info' : ReceiveInfo W} {sends sends' : List Send} (hpc : c.pc = .receiving state)
    (hturn : processTransferState host state c.info a.received = .ok (none, info', sends'))
    (hstep : (clientMachine W host).step c a = some (c', sends)) : c' = ⟨.done, info'⟩ := by
  have heq : (clientMachine W host).step c a = _ := Client.step_of_last_turn host hpc hturn
  exact congrArg Prod.fst (Option.some_inj.mp (hstep.symm.trans heq))

end Branches

end RemoteFileCopy
