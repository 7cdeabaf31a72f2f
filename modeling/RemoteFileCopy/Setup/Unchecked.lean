import RemoteFileCopy.Queue.Release
import RemoteFileCopy.Setup.Handshake

/-!
# Setup/Unchecked — control datagrams are not checked

`wait_on_eof_ack_state` computes a checksum; the accept loop, `write_file_ok_ack_state` and
`wait_on_ack_state` act on the flag alone.  So a damaged datagram is ignored at one of these three
for its flag, or for a number that does nothing — an RR below which nothing is stored, a SREJ for
the number a free slot still carries (`damaged_ignored_iff`).
-/

namespace RemoteFileCopy

variable {W : ℕ} {host : Host} {r : Received}

/-- The bytes received do not check out. -/
def Damaged (host : Host) (r : Received) : Prop := host.inCksum (r.buffer.take r.bytesRecv) ≠ 0

/-- **An ack without effect** — no entry and no counter changes, and nothing is sent. -/
def AckIgnored (host : Host) (window : CircularQueue W) (info : ServerInfo) (r : Received) :
    Prop :=
  ∃ state info', waitOnAckState host window info (some r) = .ok (state, window, info', [])

/-- **An ack that finds nothing to do**: an RR below which nothing is stored, a SREJ for the number
a free slot still carries, and any other flag.  Without slots the code cannot look. -/
def NothingToDo (host : Host) (window : CircularQueue W) (r : Received) : Prop :=
  (r.flag = 5 → (W = 0 → (r.seqNum host).toNat ≤ 1)
      ∧ ∀ i, ¬ window.Due ((r.seqNum host).toNat - 1) i)
    ∧ (r.flag = 6 → ∃ i : Fin W, (r.seqNum host).toNat % W = i
      ∧ (window.entries i).valid = false ∧ (window.entries i).sequenceNum = r.seqNum host)

/-! ## The loop of an RR and the lookup of a SREJ -/

/-- The loop leaves the queue as it was exactly if nothing in it is due. -/
theorem removeUpTo_eq_self_iff (window : CircularQueue W) {k : ℕ} (hk : k < 4294967296) :
    window.removeUpTo k = .ok window ↔ (W = 0 → k = 0) ∧ ∀ i, ¬ window.Due k i := by
  rcases Nat.eq_zero_or_pos W with rfl | hW
  · cases k with
    | zero => exact iff_of_true rfl ⟨fun _ => rfl, fun i => i.elim0⟩
    | succ k =>
      refine iff_of_false (fun h => ?_) fun h => by simpa using h.1 rfl
      obtain ⟨q, -, h⟩ := bind_eq_ok.mp h
      obtain ⟨x, hremove, -⟩ := bind_eq_ok.mp h
      cases hremove
  · have : NeZero W := ⟨hW.ne'⟩
    rw [window.removeUpTo_eq_sweep hk, Except.ok.injEq, window.sweep_eq_self_iff]
    exact (and_iff_right fun h => absurd h hW.ne').symm

/-- A lookup finds nothing exactly in a free slot that carries the number. -/
theorem get_eq_none_iff (window : CircularQueue W) (s : UInt32) :
    window.get s = .ok none ↔ ∃ i : Fin W, s.toNat % W = i
      ∧ (window.entries i).valid = false ∧ (window.entries i).sequenceNum = s := by
  rcases Nat.eq_zero_or_pos W with rfl | hW
  · exact iff_of_false (fun h => by cases h) fun ⟨i, _⟩ => i.elim0
  · have : NeZero W := ⟨hW.ne'⟩
    rw [window.get_eq, Except.ok.injEq]
    constructor
    · intro h
      refine ⟨CircularQueue.slot W s.toNat, rfl, ?_⟩
      simpa using h
    · rintro ⟨i, hi, hv, hseq⟩
      obtain rfl : CircularQueue.slot W s.toNat = i := Fin.ext hi
      simp [hv, hseq]

section Ack

variable (window : CircularQueue W) (info : ServerInfo)

theorem ackIgnored_rr_iff (hrr : r.flag = 5) : AckIgnored host window info r
    ↔ window.removeUpTo ((r.seqNum host).toNat - 1) = .ok window := by
  simp only [AckIgnored, waitOnAckState, if_pos hrr]
  constructor
  · rintro ⟨state, info', h⟩
    obtain ⟨q, hq, h⟩ := bind_eq_ok.mp h
    rw [hq]
    exact congrArg (fun x => Except.ok x.2.1) (Except.ok.inj h)
  · intro h
    rw [h]
    exact ⟨_, _, rfl⟩

theorem ackIgnored_srej_iff (hsrej : r.flag = 6) :
    AckIgnored host window info r ↔ window.get (r.seqNum host) = .ok none := by
  have hrr : r.flag ≠ 5 := by rw [hsrej]; decide
  simp only [AckIgnored, waitOnAckState, if_neg hrr, if_pos hsrej]
  constructor
  · rintro ⟨state, info', h⟩
    obtain ⟨found, hget, h⟩ := bind_eq_ok.mp h
    cases found with
    | none => exact hget
    | some i =>
      obtain ⟨pdu, -, h⟩ := bind_eq_ok.mp h
      cases congrArg (fun x => x.2.2.2) (Except.ok.inj h)
  · intro h
    rw [h]
    exact ⟨_, _, rfl⟩

theorem ackIgnored_of_other (hrr : r.flag ≠ 5) (hsrej : r.flag ≠ 6) :
    AckIgnored host window info r := by
  simp only [AckIgnored, waitOnAckState, if_neg hrr, if_neg hsrej]
  exact ⟨_, _, rfl⟩

/-- **Which acks `wait_on_ack_state` ignores.** -/
theorem ackIgnored_iff : AckIgnored host window info r ↔ NothingToDo host window r := by
  have hlt := (r.seqNum host).toNat_lt
  by_cases hrr : r.flag = 5
  · have hsrej : ¬ r.flag = 6 := by rw [hrr]; decide
    have hone : (r.seqNum host).toNat - 1 = 0 ↔ (r.seqNum host).toNat ≤ 1 := by omega
    rw [ackIgnored_rr_iff window info hrr, removeUpTo_eq_self_iff window (by omega), hone,
      NothingToDo, and_iff_left fun h => absurd h hsrej, forall_prop_of_true hrr]
  · rw [NothingToDo, and_iff_right fun h => absurd h hrr]
    by_cases hsrej : r.flag = 6
    · rw [ackIgnored_srej_iff window info hsrej, get_eq_none_iff, forall_prop_of_true hsrej]
    · exact iff_of_true (ackIgnored_of_other window info hrr hsrej) fun h => absurd h hsrej

end Ack

/-! ## The three points of reception -/

/-- A request is what the accept loop forks on. -/
theorem forked_accept_iff (s : Setup) : (s.accept r).forked = s.forked ↔ r.flag ≠ 8 := by
  by_cases h : r.flag = 8 <;> simp [Setup.accept, h]

/-- An ack of the file is what `write_file_ok_ack_state` goes on at. -/
theorem writeFileOkAck_iff (c : Child) :
    (writeFileOkAckState c (some r)).pc ≠ .next .sendData ↔ r.flag ≠ 34 := by
  by_cases h : r.flag = 34 <;> simp [writeFileOkAckState, h]

/-- **When a damaged datagram is ignored** — at the accept loop exactly if it is no flag 8, in
`write_file_ok_ack_state` exactly if it is no flag 34, and in `wait_on_ack_state`, for any contents
of the window, exactly if it finds nothing to do. -/
theorem damaged_ignored_iff (e : Endian) (r : Received) :
    (∀ s : Setup, (Damaged (.standard e) r → (s.accept r).forked = s.forked)
        ↔ (Damaged (.standard e) r → r.flag ≠ 8))
      ∧ (∀ c : Child, (Damaged (.standard e) r →
          (writeFileOkAckState c (some r)).pc ≠ .next .sendData)
        ↔ (Damaged (.standard e) r → r.flag ≠ 34))
      ∧ ∀ (W : ℕ) (window : CircularQueue W) (info : ServerInfo),
        (Damaged (.standard e) r → AckIgnored (.standard e) window info r)
          ↔ (Damaged (.standard e) r → NothingToDo (.standard e) window r) :=
  ⟨fun s => imp_congr_right fun _ => forked_accept_iff s,
    fun c => imp_congr_right fun _ => writeFileOkAck_iff c,
    fun _ window info => imp_congr_right fun _ => ackIgnored_iff window info⟩

/-- An RR 2 without its checksum releases packet 1. -/
theorem damaged_rr_releases : ¬ ∀ (e : Endian) (r : Received), Damaged (.standard e) r →
    (∀ s : Setup, (s.accept r).forked = s.forked)
      ∧ (∀ c : Child, (writeFileOkAckState c (some r)).pc ≠ .next .sendData)
      ∧ ∀ (W : ℕ) (window : CircularQueue W) (info : ServerInfo),
        AckIgnored (.standard e) window info r := by
  intro h
  have hignored := (h .little ⟨⟨1, 1⟩, [0, 0, 0, 2, 0, 0, 5], 7⟩
    (by unfold Damaged; decide +kernel)).2.2 1
    ⟨fun _ => ⟨some (createPDU (.standard .little) 1 16 [65]), 8, 1, true⟩, 1⟩ (.ofClient ⟨1, 1⟩)
  exact ((ackIgnored_iff _ _).mp hignored).1 rfl |>.2 0 (by decide +kernel)

end RemoteFileCopy
