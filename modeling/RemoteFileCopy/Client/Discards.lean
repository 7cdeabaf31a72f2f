import RemoteFileCopy.Client.Turn

/-!
# Client/Discards — the datagrams a turn throws away

`process_transfer_state` never looks at the checksum, so what it discards it discards for its flag
or its number alone: `discards_iff` says which datagrams leave the receiver as it was, in every one
of its states, whatever they carry.
-/

namespace RemoteFileCopy

open CircularQueue (slot)

variable {W : ℕ} [NeZero W] {host : Host} {state : TransferState} {info : ReceiveInfo W}
  {r : Received}

/-- **A turn throws its datagram away**: it is no EOF; and if it is a data packet, the receiver is
not about to flush, and the packet is from before `expected` or one out of order whose slot is in
use. -/
def Discards (host : Host) (state : TransferState) (info : ReceiveInfo W) (r : Received) : Prop :=
  r.flag ≠ 10 ∧ (IsDataFlag r.flag → state ≠ .flush ∧ (r.seqNum host < info.expected
    ∨ state = .outOfOrder ∧ info.expected < r.seqNum host ∧ r.seqNum host ≤ info.highest
      ∧ (info.buffer (slot W (r.seqNum host).toNat)).valid = true))

instance : Decidable (Discards host state info r) :=
  inferInstanceAs (Decidable (_ ∧ (_ → _)))

/-- **A turn leaves the receiver as it was** — state, numbers, buffer and output file — and sends no
ack of an EOF. -/
def Unmoved (host : Host) (state : TransferState) (info : ReceiveInfo W) (r : Received) : Prop :=
  ∃ info' sends, processTransferState host state info r = .ok (some state, info', sends)
    ∧ info'.expected = info.expected ∧ info'.highest = info.highest ∧ info'.buffer = info.buffer
    ∧ info'.outFile = info.outFile ∧ ∀ m ∈ sends, m.pdu.getD 6 0 ≠ 35

/-- A discarded datagram changes the address and nothing else. -/
theorem Discards.turn (h : Discards host state info r) :
    processTransferState host state info r
      = .ok (some state, { info with serverAddr := r.srcAddr }, []) := by
  obtain ⟨heof, h⟩ := h
  by_cases hf : IsDataFlag r.flag
  · obtain ⟨hstate, hlt | ⟨rfl, hgt, hhigh, hv⟩⟩ := h hf
    · exact turn_lt host hstate hf hlt
    · have hne : r.seqNum host ≠ info.expected := fun heq => by simp [heq] at hgt
      simp [processTransferState, hf, heof, hne, hgt, hv, bufferPacket, UInt32.not_lt.mpr hhigh,
        bind, Except.bind, pure, Except.pure]
  · exact turn_other host state hf heof

/-! ## Nothing else is thrown away -/

section Moves

variable {info' : ReceiveInfo W} {sends : List Send}

/-- A packet in order moves `expected`. -/
theorem expected_of_inOrder_eq (hf : IsDataFlag r.flag) (hs : r.seqNum host = info.expected)
    {state' : Option TransferState}
    (h : processTransferState host .inOrder info r = .ok (state', info', sends)) :
    info'.expected = info.expected + 1 := by
  cases hp : r.payload with
  | error fault =>
    simp [processTransferState, hf, hf.ne_eof, hs, hp, bind, Except.bind] at h
  | ok p =>
    rw [turn_inOrder_eq host hf hs hp] at h
    obtain ⟨-, rfl, -⟩ := by simpa using h
    rfl

/-- A packet past `expected` opens a gap. -/
theorem state_of_inOrder_gt (hf : IsDataFlag r.flag) (hs : info.expected < r.seqNum host)
    {state' : Option TransferState}
    (h : processTransferState host .inOrder info r = .ok (state', info', sends)) :
    state' = some .outOfOrder := by
  have hne : r.seqNum host ≠ info.expected := fun h => by simp [h] at hs
  simp only [processTransferState, hf, hf.ne_eof, hne, gt_iff_lt, hs, if_true, if_false] at h
  cases hb : bufferPacket { info with serverAddr := r.srcAddr } (r.seqNum host) r.payload with
  | error fault => simp [hb, bind, Except.bind] at h
  | ok i =>
    simp only [hb, bind, Except.bind, pure, Except.pure, Except.ok.injEq, Prod.mk.injEq] at h
    exact h.1.symm

/-- The missing packet closes the gap. -/
theorem state_of_outOfOrder_eq (hf : IsDataFlag r.flag) (hs : r.seqNum host = info.expected)
    {state' : Option TransferState}
    (h : processTransferState host .outOfOrder info r = .ok (state', info', sends)) :
    state' = some .flush := by
  cases hp : r.payload with
  | error fault =>
    simp [processTransferState, hf, hf.ne_eof, hs, hp, bind, Except.bind] at h
  | ok p =>
    rw [turn_outOfOrder_eq host hf hs hp] at h
    obtain ⟨rfl, -⟩ := by simpa using h
    rfl

/-- A later packet out of order either finds its slot in use or fills it, and `highest` keeps up
with it. -/
theorem kept_of_outOfOrder_gt (hf : IsDataFlag r.flag) (hs : info.expected < r.seqNum host)
    {state' : Option TransferState}
    (h : processTransferState host .outOfOrder info r = .ok (state', info', sends)) :
    r.seqNum host ≤ info'.highest ∧ (info'.buffer (slot W (r.seqNum host).toNat)).valid = true := by
  have hne : r.seqNum host ≠ info.expected := fun h => by simp [h] at hs
  have hmax : ∀ i : ReceiveInfo W,
      r.seqNum host ≤ if r.seqNum host > i.highest then r.seqNum host else i.highest := fun i => by
    split
    · exact UInt32.le_refl _
    · exact UInt32.not_lt.mp ‹_›
  simp only [processTransferState, hf, hf.ne_eof, hne, gt_iff_lt, hs, if_true, if_false,
    bufferPacket] at h
  split at h
  case isTrue hv =>
    simp only [bind, Except.bind, pure, Except.pure, Except.ok.injEq, Prod.mk.injEq] at h
    obtain ⟨-, rfl, -⟩ := h
    exact ⟨hmax info, hv⟩
  case isFalse hv =>
    cases hp : r.payload with
    | error fault => simp [hp, bind, Except.bind] at h
    | ok p =>
      simp only [hp, bind, Except.bind, pure, Except.pure, Except.ok.injEq, Prod.mk.injEq] at h
      obtain ⟨-, rfl, -⟩ := h
      exact ⟨hmax info, by simp⟩

/-- A flush ends in another state. -/
theorem state_of_flush (hf : IsDataFlag r.flag) {state' : Option TransferState}
    (h : processTransferState host .flush info r = .ok (state', info', sends)) :
    state' ≠ some .flush := by
  rcases turn_flush_cases host info hf with ⟨-, -, hturn⟩ | ⟨-, hturn⟩ <;>
    · rw [hturn] at h
      obtain ⟨rfl, -⟩ := by simpa using h
      simp

end Moves

/-- **What a turn throws away, exactly.** -/
theorem discards_iff : Unmoved host state info r ↔ Discards host state info r := by
  constructor
  · rintro ⟨info', sends, hturn, hexp, hhigh, hbuf, -, -⟩
    refine ⟨fun heof => ?_, fun hf => ?_⟩
    · rw [turn_eof host state heof] at hturn
      simp at hturn
    have horder : r.seqNum host < info.expected ∨ r.seqNum host = info.expected
        ∨ info.expected < r.seqNum host :=
      (UInt32.lt_or_le _ _).imp_right fun hle => (UInt32.lt_or_eq_of_le hle).symm.imp_left .symm
    cases state with
    | inOrder =>
      refine ⟨by simp, ?_⟩
      rcases horder with hlt | heq | hgt
      · exact .inl hlt
      · rw [expected_of_inOrder_eq hf heq hturn] at hexp
        simp at hexp
      · exact absurd (state_of_inOrder_gt hf hgt hturn) (by simp)
    | outOfOrder =>
      refine ⟨by simp, ?_⟩
      rcases horder with hlt | heq | hgt
      · exact .inl hlt
      · exact absurd (state_of_outOfOrder_eq hf heq hturn) (by simp)
      · have hkept := kept_of_outOfOrder_gt hf hgt hturn
        rw [hhigh, hbuf] at hkept
        exact .inr ⟨rfl, hgt, hkept⟩
    | flush => exact absurd rfl (state_of_flush hf hturn)
  · intro h
    exact ⟨_, _, h.turn, rfl, rfl, rfl, rfl, by simp⟩

end RemoteFileCopy
