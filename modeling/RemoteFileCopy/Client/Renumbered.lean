import RemoteFileCopy.Client.Kept

/-!
# Client/Renumbered — under which number a buffered packet is written

A slot of the reorder buffer keeps no sequence number, and nothing compares a packet's number with
the window.  A packet from beyond the window takes the slot of a nearer number and is written as
that.  In a run that never buffers such a packet, whatever else arrives, the output is the payloads
from `1` to `expected - 1` (`written_in_order`).
-/

namespace RemoteFileCopy

open CircularQueue (slot)
open Transition

variable {W : ℕ} [NeZero W] {P : UInt32 → Bytes} {host : Host}

/-- **What arrives**: data packets with the payloads of their numbers, and EOFs. -/
def Numbered (P : UInt32 → Bytes) (host : Host) (a : Arrival) : Prop :=
  Carries P host a.received ∧ 1 ≤ (a.received.seqNum host).toNat
      ∧ (a.received.seqNum host).toNat < 4294967295
    ∨ a.received.flag = 10

instance (a : Arrival) : Decidable (Numbered P host a) :=
  inferInstanceAs (Decidable ((_ ∧ _) ∧ _ ∧ _ ∨ _))

/-- **A packet that would be buffered is inside the window**: the receiver is not about to flush,
and the packet's slot is free. -/
def BuffersInWindow (host : Host) (c : Client W) (a : Arrival) : Prop :=
  a.received.flag ≠ 10 → c.pc ≠ .receiving .flush →
    (c.info.buffer (slot W (a.received.seqNum host).toNat)).valid = false →
      (a.received.seqNum host).toNat < c.info.expected.toNat + W

instance (c : Client W) (a : Arrival) : Decidable (BuffersInWindow host c a) :=
  inferInstanceAs (Decidable (_ → _ → _ → _))

theorem BuffersInWindow.fits {c : Client W} {a : Arrival} (h : BuffersInWindow host c a)
    (hflag : a.received.flag ≠ 10) {state : TransferState} (hpc : c.pc = .receiving state) :
    Fits state c.info (a.received.seqNum host) := by
  by_cases hstate : state = .flush
  · exact .inl hstate
  · by_cases hv : (c.info.buffer (slot W (a.received.seqNum host).toNat)).valid = true
    · exact .inr (.inl hv)
    · refine .inr (.inr (h hflag (fun heq => hstate ?_) ((Bool.not_eq_true _).mp hv)))
      exact ClientPc.receiving.inj (hpc.symm.trans heq)

/-- **The output is the payloads before `expected`**, each under its own number. -/
def InSequence (P : UInt32 → Bytes) (info : ReceiveInfo W) : Prop :=
  info.outFile = payloads P 1 (info.expected.toNat - 1)

/-- The invariant of a client that buffers inside its window. -/
structure Client.Sequential (P : UInt32 → Bytes) (c : Client W) : Prop where
  out : InSequence P c.info
  pos : 1 ≤ c.info.expected.toNat
  receiving : ∀ state, c.pc = .receiving state →
    Buffered P c.info ∧ Expects c.info state ∧ c.info.highest.toNat < 4294967295

theorem Client.sequential_enter (a : SockAddr) : Client.Sequential P (Client.enter W a) where
  out := rfl
  pos := le_rfl
  receiving state hpc := by
    obtain rfl := ClientPc.receiving.inj hpc
    exact ⟨fun _ hi => (by cases hi), fun _ => rfl, Nat.zero_lt_succ _⟩

omit [NeZero W] in
/-- Moving on by payloads keeps the output in sequence, if `expected` does not wrap around. -/
theorem InSequence.advance {info info' : ReceiveInfo W} {n : ℕ} (h : InSequence P info)
    (hpos : 1 ≤ info.expected.toNat) (hadv : Advances P info info' n)
    (hnext : info'.expected.toNat = info.expected.toNat + n) : InSequence P info' := by
  have hstart : 1 + UInt32.ofNat (info.expected.toNat - 1) = info.expected := by
    refine UInt32.toNat_inj.mp ?_
    have hlt := info.expected.toNat_lt
    rw [UInt32.toNat_add, UInt32.toNat_ofNat', UInt32.toNat_one]
    omega
  rw [InSequence, hadv.out, h, hnext,
    show info.expected.toNat + n - 1 = info.expected.toNat - 1 + n by omega, payloads_add, hstart]

section Step

variable {c c' : Client W} {a : Arrival} {sends : List Send} {state : TransferState}

/-- A data packet that is not buffered from beyond the window keeps the output in sequence. -/
theorem Client.Sequential.step_data (h : c.Sequential P) (hpc : c.pc = .receiving state)
    (hcarries : Carries P host a.received) (hlt : (a.received.seqNum host).toNat < 4294967295)
    (hfits : BuffersInWindow host c a)
    (hstep : (clientMachine W host).step c a = some (c', sends)) : c'.Sequential P := by
  obtain ⟨hbuf, hw, hhigh⟩ := h.receiving state hpc
  obtain ⟨state', info', sends', n, hturn, hbuf', hw', hadv, hhigh', hnext⟩ :=
    hbuf.turn hw hcarries (hfits.fits hcarries.1.ne_eof hpc)
  have hnext := hnext hlt hhigh
  obtain rfl := Client.eq_of_turn host hpc hturn hstep
  refine ⟨h.out.advance h.pos hadv hnext, hnext ▸ h.pos.trans (Nat.le_add_right _ n),
    fun _ hpc' => ?_⟩
  obtain rfl := ClientPc.receiving.inj hpc'
  refine ⟨hbuf', hw', ?_⟩
  rcases hhigh' with heq | heq
  · rwa [heq]
  · rwa [heq]

/-- An EOF flushes what is buffered, and ends the client. -/
theorem Client.Sequential.step_eof (h : c.Sequential P) (hpc : c.pc = .receiving state)
    (heof : a.received.flag = 10)
    (hstep : (clientMachine W host).step c a = some (c', sends)) : c'.Sequential P := by
  obtain ⟨hbuf, -, hhigh⟩ := h.receiving state hpc
  have hturn : processTransferState host state c.info a.received = _ := turn_eof host state heof
  have hstart : Buffered P { c.info with
    serverAddr := a.received.srcAddr
    eofSeq := a.received.seqNum host } := hbuf.congr rfl rfl rfl
  obtain ⟨n, hadv, hnext⟩ := hstart.advances_flush fun hzero => by
    have hpos := h.pos
    rw [show c.info.expected = 0 from hzero] at hpos
    cases hpos
  have hnext := hnext hhigh
  obtain rfl := Client.eq_of_last_turn host hpc hturn hstep
  have hadv' : Advances P c.info _ n := ⟨hadv.lt, hadv.expected, hadv.out⟩
  exact ⟨h.out.advance h.pos hadv' hnext, hnext ▸ h.pos.trans (Nat.le_add_right _ n),
    fun _ hpc' => by cases hpc'⟩

/-- **One turn keeps the output in sequence.** -/
theorem Client.Sequential.step (h : c.Sequential P) (ha : Numbered P host a)
    (hfits : BuffersInWindow host c a)
    (hstep : (clientMachine W host).step c a = some (c', sends)) : c'.Sequential P := by
  cases hpc : c.pc with
  | done => simp [clientMachine, Client.step, hpc] at hstep
  | aborted fault => simp [clientMachine, Client.step, hpc] at hstep
  | receiving state =>
    rcases ha with ⟨hcarries, -, hlt⟩ | heof
    · exact h.step_data hpc hcarries hlt hfits hstep
    · exact h.step_eof hpc heof hstep

end Step

/-- **The output is in sequence while nothing from beyond the window is buffered** — for any
payloads and window size, and any data packets and EOFs, in any order, with any gaps and
repetitions. -/
theorem written_in_order {c : Client W} {addr : SockAddr} {es : List (Edge (Client W) Arrival
    (List Send))} (run : Run (clientMachine W host) (fun _ a => Numbered P host a)
      (Client.enter W addr) es c)
    (hfits : ∀ x ∈ es, BuffersInWindow host x.source x.event) :
    c.info.outFile = payloads P 1 (c.info.expected.toNat - 1) :=
  ((run.strengthen hfits).invariant (Client.sequential_enter addr)
    fun _ _ _ _ h hg hs => h.step hg.1 hg.2 hs).out

/-- Packets `2` and `1`, and an EOF that flushes the first of them. -/
theorem written_in_order_two : ∃ c : Client 2, c.pc = .done ∧ c.info.expected = 3
    ∧ c.info.outFile = payloads (fun s => [UInt8.ofNat s.toNat]) 1 (c.info.expected.toNat - 1) := by
  obtain ⟨es, c, run, h⟩ := exists_run_of_replay (M := clientMachine 2 (.standard .little))
    (G := fun _ a => Numbered (fun s => [UInt8.ofNat s.toNat]) (.standard .little) a)
    (s := Client.enter 2 ⟨0, 0⟩) [packetArrival 2, packetArrival 1,
      ⟨[], ⟨1, 1⟩, createPDU (.standard .little) 3 10 []⟩]
    (P := fun es c => c.pc = .done ∧ c.info.expected = 3
      ∧ ∀ x ∈ es, BuffersInWindow (.standard .little) x.source x.event) (by decide +kernel)
  obtain ⟨hpc, hexp, hfits⟩ := of_decide_eq_true h
  exact ⟨c, hpc, hexp, written_in_order run hfits⟩

/-- Packet `3` on a window of two is written as packet `1`. -/
theorem packet_renumbered : ¬ ∀ (W : ℕ) [NeZero W] (P : UInt32 → Bytes) (host : Host) (c : Client W)
    (addr : SockAddr) (es : List (Edge (Client W) Arrival (List Send))),
    Run (clientMachine W host) (fun _ a => Numbered P host a) (Client.enter W addr) es c →
      c.info.outFile = payloads P 1 (c.info.expected.toNat - 1) := by
  intro hclaim
  obtain ⟨es, c, run, h⟩ := exists_run_of_replay (M := clientMachine 2 (.standard .little))
    (G := fun _ a => Numbered (fun s => [UInt8.ofNat s.toNat]) (.standard .little) a)
    (s := Client.enter 2 ⟨0, 0⟩)
    [packetArrival 3, ⟨[], ⟨1, 1⟩, createPDU (.standard .little) 4 10 []⟩]
    (P := fun _ c => c.info.outFile = [3] ∧ c.info.expected = 2) (by decide +kernel)
  obtain ⟨hout, hexp⟩ := of_decide_eq_true h
  have := hclaim 2 _ _ c _ es run
  rw [hout, hexp] at this
  exact absurd this (by decide)

end RemoteFileCopy
