import RemoteFileCopy.DataPhase.Joint

/-!
# DataPhase/Safety — selective reject over a network that does not alter datagrams

In every state a run reaches, the output file is the chunks before `expected`, the sender's window
reaches down to it, and every buffered payload is that of the one number its slot can stand for
(`selective_reject_safe`).
-/

namespace RemoteFileCopy

open Transition

variable {W : ℕ} [NeZero W] {cfg : Config} {s : DataPhase W}
  {es : List (Edge (DataPhase W) NetEvent (List Send))}

/-- **Selective reject is safe.**  (a) The output file is chunks `1` to `expected - 1`; (b) the
queue holds a window `[base, next)` with `base ≤ expected ≤ next`; (c) each slot in use holds the
chunk of the one number within reach that it is the slot of. -/
theorem selective_reject_safe (hK : numChunks cfg.b cfg.source < 4294967295)
    (run : Run (DataPhase.machine W cfg) DataPhase.Unaltered (DataPhase.enter W cfg) es s) :
    s.client.info.outFile = chunks cfg.b cfg.source (s.expected - 1)
      ∧ (∃ w : SlidingWindow W, s.server.window.Holds w (dataPDU cfg.host cfg.b cfg.source)
          ∧ w.next = s.server.sequenceNum.toNat ∧ w.base ≤ s.expected ∧ s.expected ≤ w.next)
      ∧ ∀ i, (s.client.info.buffer i).valid = true → (∃! k, InReach s.client.info i k)
          ∧ ∀ k, InReach s.client.info i k →
              (s.client.info.buffer i).packet = chunk cfg.b cfg.source k := by
  obtain ⟨w, h⟩ := Joint.of_run hK run
  exact ⟨h.client.faithful.out, ⟨w, h.server.holds, h.server.next, h.base_le, h.le_next⟩,
    fun i hi => h.client.faithful.slot_unique hi⟩

/-- A transfer of two one-byte chunks from port 1 to port 2. -/
def twoChunks : Config where
  host := .standard .little
  source := [65, 66]
  windowSize := 2
  bufferSize := 1
  clientAddr := ⟨1, 2⟩
  childAddr := ⟨1, 1⟩
  recvAddr := ⟨0, 0⟩

/-- Packet 2 overtakes packet 1: it is buffered in the slot of 2, and nothing is written. -/
theorem selective_reject_safe_overtaken :
    ∃ s : DataPhase 2, s.expected = 1 ∧ s.client.info.highest = 2
      ∧ s.client.info.outFile = chunks 1 [65, 66] (s.expected - 1)
      ∧ (∃! k, InReach s.client.info 0 k) := by
  obtain ⟨es, s, run, h⟩ := exists_run_of_replay (M := DataPhase.machine 2 twoChunks)
    (G := DataPhase.Unaltered) (s := DataPhase.enter 2 twoChunks)
    [.run, .quiet, .run, .deliver .client 1 [] (dataPDU (.standard .little) 1 [65, 66] 2)]
    (P := fun _ s => s.expected = 1 ∧ s.client.info.highest = 2
      ∧ (s.client.info.buffer 0).valid = true) (by decide +kernel)
  obtain ⟨hexp, hhigh, hv⟩ := of_decide_eq_true h
  obtain ⟨hout, -, hslots⟩ := selective_reject_safe (by decide) run
  exact ⟨s, hexp, hhigh, hout, (hslots 0 hv).1⟩

end RemoteFileCopy
