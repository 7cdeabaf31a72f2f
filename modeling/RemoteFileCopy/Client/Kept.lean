import RemoteFileCopy.Client.Buffered

/-!
# Client/Kept — what becomes of a packet inside the window

In order and out of order a packet inside the window is written or buffered.  A `FLUSH` turn looks
at the flag of its packet only: it writes out what was buffered before, and the packet that woke it
is gone unless an earlier copy is in its slot (`packet_kept_iff`).
-/

namespace RemoteFileCopy

open CircularQueue (slot slot_eq_iff)
open Transition

variable {W : ℕ} [NeZero W] {P : UInt32 → Bytes} {host : Host} {info info' : ReceiveInfo W}
  {r : Received} {s : UInt32}

/-- **The payload of `s` is written**: `expected` has moved past `s`, and the output has grown by
the payloads it moved past. -/
def Written (P : UInt32 → Bytes) (info info' : ReceiveInfo W) (s : UInt32) : Prop :=
  (s - info.expected).toNat < (info'.expected - info.expected).toNat
    ∧ info'.outFile = info.outFile
      ++ payloads P info.expected (info'.expected - info.expected).toNat

/-- **The payload of `s` is held** in its slot. -/
def Held (P : UInt32 → Bytes) (info : ReceiveInfo W) (s : UInt32) : Prop :=
  (info.buffer (slot W s.toNat)).valid = true ∧ (info.buffer (slot W s.toNat)).packet = P s

omit [NeZero W] in
theorem Advances.distance {n : ℕ} (h : Advances P info info' n) :
    (info'.expected - info.expected).toNat = n := by
  have := h.lt
  rw [h.expected, UInt32.add_comm, UInt32.add_sub_cancel, UInt32.toNat_ofNat']
  omega

omit [NeZero W] in
/-- A packet at `expected` or after it is written by a turn that goes past it. -/
theorem Advances.written_iff {n : ℕ} (h : Advances P info info' n)
    (hle : info.expected.toNat ≤ s.toNat) :
    Written P info info' s ↔ s.toNat < info.expected.toNat + n := by
  rw [Written, h.distance, UInt32.toNat_sub_of_le _ _ (UInt32.le_iff_toNat_le.mpr hle),
    and_iff_left h.out]
  omega

namespace Buffered

/-- A buffered packet is held, whether now or before. -/
theorem held_keep (h : Buffered P info) (hle : info.expected.toNat ≤ s.toNat)
    (hlt : s.toNat < info.expected.toNat + W) : Held P (info.keep s (P s)) s := by
  by_cases hv : (info.buffer (slot W s.toNat)).valid = true
  · simp only [Held, ReceiveInfo.keep, if_pos hv]
    exact ⟨hv, (h.packet_of_valid hle hlt hv).2⟩
  · simp only [Held, ReceiveInfo.keep, if_neg hv, Function.update_self, and_self]

/-- **A flush keeps a packet exactly if it is in its slot already.** -/
theorem kept_flush_iff (h : Buffered P info) (hw : info.expected = 0 → info.Empty)
    (hle : info.expected.toNat ≤ s.toNat) (hlt : s.toNat < info.expected.toNat + W) :
    (Written P info info.flush s ∨ Held P info.flush s)
      ↔ (info.buffer (slot W s.toNat)).valid = true := by
  obtain ⟨n, hn, heq, hout, hturns⟩ := h.flush hw
  have hadvances : Advances P info info.flush n :=
    ⟨hn, by rw [heq, ReceiveInfo.expected_iterate], hout⟩
  have hbuffer := info.buffer_iterate n (slot W s.toNat)
  rw [← heq] at hbuffer
  rw [hadvances.written_iff hle]
  constructor
  · rintro (hpast | hheld)
    · -- The turn that wrote `s` found its slot valid.
      obtain ⟨hval, -, hv⟩ := hturns (s.toNat - info.expected.toNat) (by omega)
      rw [ReceiveInfo.turnSlot, hval, Nat.add_sub_cancel' hle] at hv
      exact hv
    · exact (hbuffer.2.mp hheld.1).1
  · intro hv
    by_cases hpast : s.toNat < info.expected.toNat + n
    · exact .inl hpast
    · refine .inr ⟨hbuffer.2.mpr ⟨hv, fun j hj heqs => ?_⟩, ?_⟩
      · -- Two numbers in the window do not share a slot.
        have hval := (hturns j hj).1
        rw [ReceiveInfo.turnSlot, hval, slot_eq_iff] at heqs
        have := SlidingWindow.eq_of_mod_eq_of_close (b := info.expected.toNat) heqs (by omega)
          (by omega) hle hlt
        omega
      · rw [hbuffer.1]
        exact (h.packet_of_valid hle hlt hv).2

/-- **One turn with a packet in the window.** -/
theorem kept_iff (h : Buffered P info) {state : TransferState} (hw : Expects info state)
    (hr : Carries P host r) (hle : info.expected.toNat ≤ (r.seqNum host).toNat)
    (hlt : (r.seqNum host).toNat < info.expected.toNat + W) : ∃ state' info' sends,
      processTransferState host state info r = .ok (some state', info', sends)
        ∧ ((Written P info info' (r.seqNum host) ∨ Held P info' (r.seqNum host))
          ↔ state ≠ .flush ∨ (info.buffer (slot W (r.seqNum host).toNat)).valid = true) := by
  obtain ⟨hf, hp⟩ := hr
  cases state with
  | flush =>
    have hbuf : Buffered P { info with serverAddr := r.srcAddr } := h.congr rfl rfl rfl
    have hkept := hbuf.kept_flush_iff (s := r.seqNum host) hw hle hlt
    rw [or_iff_right (not_not_intro rfl)]
    rcases turn_flush_cases host info hf with ⟨-, -, hturn⟩ | ⟨-, hturn⟩ <;>
      exact ⟨_, _, _, hturn, hkept⟩
  | inOrder =>
    rcases Nat.eq_or_lt_of_le hle with heq | hgt
    · have heq := (UInt32.toNat_inj.mp heq).symm
      refine ⟨_, _, _, turn_inOrder_eq host hf heq hp, iff_of_true (.inl ?_) (.inl (by simp))⟩
      rw [(Advances.one rfl (by rw [heq])).written_iff hle, heq]
      exact Nat.lt_succ_self _
    · exact ⟨_, _, _, turn_inOrder_gt host hf (UInt32.lt_iff_toNat_lt.mpr hgt) hp,
        iff_of_true (.inr (h.held_keep hle hlt)) (.inl (by simp))⟩
  | outOfOrder =>
    rcases Nat.eq_or_lt_of_le hle with heq | hgt
    · have heq := (UInt32.toNat_inj.mp heq).symm
      refine ⟨_, _, _, turn_outOfOrder_eq host hf heq hp, iff_of_true (.inl ?_) (.inl (by simp))⟩
      rw [(Advances.one rfl (by rw [heq])).written_iff hle, heq]
      exact Nat.lt_succ_self _
    · exact ⟨_, _, _, turn_outOfOrder_gt host hf (UInt32.lt_iff_toNat_lt.mpr hgt) hp,
        iff_of_true (.inr (h.held_keep hle hlt)) (.inl (by simp))⟩

end Buffered

/-! ## Whole runs -/

/-- A client that receives, its buffer in order. -/
def Client.Open (P : UInt32 → Bytes) (c : Client W) : Prop :=
  ∃ state, c.pc = .receiving state ∧ Buffered P c.info ∧ Expects c.info state

theorem Client.open_enter (a : SockAddr) : Client.Open P (Client.enter W a) :=
  ⟨.inOrder, rfl, fun _ hi => (by cases hi), fun _ => rfl⟩

/-- **Data packets from inside the window**, each with the payload of its number. -/
def InWindow (P : UInt32 → Bytes) (host : Host) (c : Client W) (a : Arrival) : Prop :=
  Carries P host a.received
    ∧ (a.received.seqNum host).toNat < c.info.expected.toNat + W

instance (c : Client W) (a : Arrival) : Decidable (InWindow P host c a) :=
  inferInstanceAs (Decidable ((_ ∧ _) ∧ _))

/-- The client stays open while packets come from inside the window. -/
theorem Client.Open.step {c c' : Client W} {a : Arrival} {sends : List Send} (h : c.Open P)
    (ha : InWindow P host c a) (hstep : (clientMachine W host).step c a = some (c', sends)) :
    c'.Open P := by
  obtain ⟨state, hpc, hbuf, hw⟩ := h
  obtain ⟨state', info', sends', n, hturn, hbuf', hw', -⟩ :=
    hbuf.turn hw ha.1 (.inr (.inr ha.2))
  obtain rfl := Client.eq_of_turn host hpc hturn hstep
  exact ⟨state', rfl, hbuf', hw'⟩

/-- **When a packet inside the window is kept** — in every state a run of such packets reaches, its
payload is written or held after the turn exactly if the receiver was not flushing or the slot was
already in use. -/
theorem packet_kept_iff {c : Client W} {a : SockAddr} {es : List (Edge (Client W) Arrival
    (List Send))} (run : Run (clientMachine W host) (InWindow P host) (Client.enter W a) es c)
    {state : TransferState} (hpc : c.pc = .receiving state) (hr : Carries P host r)
    (hle : c.info.expected ≤ r.seqNum host)
    (hlt : (r.seqNum host).toNat < c.info.expected.toNat + W) : ∃ state' info' sends,
      processTransferState host state c.info r = .ok (some state', info', sends)
        ∧ ((Written P c.info info' (r.seqNum host) ∨ Held P info' (r.seqNum host))
          ↔ state ≠ .flush ∨ (c.info.buffer (slot W (r.seqNum host).toNat)).valid = true) := by
  obtain ⟨state', hpc', hbuf, hw⟩ := run.invariant (Client.open_enter a)
    fun _ _ _ _ h hg hs => h.step hg hs
  obtain rfl := ClientPc.receiving.inj (hpc.symm.trans hpc')
  exact hbuf.kept_iff hw hr (UInt32.le_iff_toNat_le.mp hle) hlt

/-- The data packet numbered `s`, whose payload is one byte, as it arrives. -/
def packetArrival (s : UInt32) : Arrival :=
  ⟨[], ⟨1, 1⟩, createPDU (.standard .little) s 16 [UInt8.ofNat s.toNat]⟩

/-- Packet `3` comes a second time, when `1` has closed the gap: its first copy is in the slot, and
the flush writes it. -/
theorem packet_kept_twice : ∃ (es : List (Edge (Client 4) Arrival (List Send))) (c : Client 4),
    Run (clientMachine 4 (.standard .little)) (InWindow (fun s => [UInt8.ofNat s.toNat])
        (.standard .little)) (Client.enter 4 ⟨0, 0⟩) es c
      ∧ c.pc = .receiving .flush ∧ (c.info.buffer 3).valid = true
      ∧ ∃ state' info' sends,
        processTransferState (.standard .little) .flush c.info (packetArrival 3).received
            = .ok (some state', info', sends)
          ∧ (Written (fun s => [UInt8.ofNat s.toNat]) c.info info' 3
            ∨ Held (fun s => [UInt8.ofNat s.toNat]) info' 3) := by
  obtain ⟨es, c, run, h⟩ := exists_run_of_replay (M := clientMachine 4 (.standard .little))
    (G := InWindow (fun s => [UInt8.ofNat s.toNat]) (.standard .little))
    (s := Client.enter 4 ⟨0, 0⟩) [packetArrival 3, packetArrival 2, packetArrival 1]
    (P := fun _ c => c.pc = .receiving .flush ∧ c.info.expected = 2
      ∧ (c.info.buffer 3).valid = true) (by decide +kernel)
  obtain ⟨hpc, hexp, hv⟩ := of_decide_eq_true h
  obtain ⟨state', info', sends, hturn, hiff⟩ := packet_kept_iff run hpc
    (r := (packetArrival 3).received) (by unfold Carries; decide +kernel)
    (by rw [hexp]; decide +kernel) (by rw [hexp]; decide +kernel)
  exact ⟨es, c, run, hpc, hv, state', info', sends, hturn, hiff.mpr (.inr hv)⟩

/-- Packet `3` after `2` and `1` is thrown away. -/
theorem packet_after_gap_lost : ¬ ∀ (W : ℕ) [NeZero W] (P : UInt32 → Bytes) (host : Host)
    (c : Client W) (a : SockAddr) (es : List (Edge (Client W) Arrival (List Send))),
    Run (clientMachine W host) (InWindow P host) (Client.enter W a) es c →
    ∀ (state : TransferState) (r : Received), c.pc = .receiving state → Carries P host r →
      c.info.expected ≤ r.seqNum host →
      (r.seqNum host).toNat < c.info.expected.toNat + W → ∃ state' info' sends,
        processTransferState host state c.info r = .ok (some state', info', sends)
          ∧ (Written P c.info info' (r.seqNum host) ∨ Held P info' (r.seqNum host)) := by
  intro hclaim
  obtain ⟨es, c, run, h⟩ := exists_run_of_replay (M := clientMachine 4 (.standard .little))
    (G := InWindow (fun s => [UInt8.ofNat s.toNat]) (.standard .little))
    (s := Client.enter 4 ⟨0, 0⟩) [packetArrival 2, packetArrival 1]
    (P := fun _ c => c.pc = .receiving .flush ∧ c.info.expected = 2
      ∧ (c.info.buffer 3).valid = false) (by decide +kernel)
  obtain ⟨hpc, hexp, hfree⟩ := of_decide_eq_true h
  obtain ⟨state, hpc', hbuf, hw⟩ := run.invariant (Client.open_enter _)
    fun _ _ _ _ h hg hs => h.step hg hs
  obtain rfl := ClientPc.receiving.inj (hpc.symm.trans hpc')
  have hr : Carries (fun s => [UInt8.ofNat s.toNat]) (.standard .little)
      (packetArrival 3).received := by unfold Carries; decide +kernel
  have hseq : (packetArrival 3).received.seqNum (.standard .little) = 3 := by decide +kernel
  have hle : c.info.expected ≤ (packetArrival 3).received.seqNum (.standard .little) := by
    rw [hexp, hseq]; decide
  have hlt : ((packetArrival 3).received.seqNum (.standard .little)).toNat
      < c.info.expected.toNat + 4 := by rw [hexp, hseq]; decide
  obtain ⟨_, _, _, hturn, hkept⟩ := hclaim 4 _ _ c _ es run .flush _ hpc hr hle hlt
  obtain ⟨_, _, _, hturn', hiff⟩ := hbuf.kept_iff hw hr (UInt32.le_iff_toNat_le.mp hle) hlt
  obtain ⟨rfl, rfl, rfl⟩ := by simpa using hturn.symm.trans hturn'
  rcases hiff.mp hkept with hstate | hv
  · exact hstate rfl
  · rw [hseq] at hv
    exact absurd (hfree.symm.trans hv) (by decide)

end RemoteFileCopy
