import RemoteFileCopy.Server.Window

/-!
# Server/Contiguous — the sender's window over a whole run

Whatever datagrams arrive and whenever polls time out, the child's queue holds one contiguous range
`[base, sequenceNum)` of at most `W` numbers, each with the PDU that was sent for it; `base` never
goes back, and the insert whose result `send_data_state` ignores never fails
(`window_contiguous`).
-/

namespace RemoteFileCopy

open CircularQueue (slot)
open Transition

variable {W : ℕ} [NeZero W] {host : Host} {b : ℕ} {src : Bytes}
variable {σ σ' : Server W} {w w' : SlidingWindow W} {ev : ServerEvent} {sends : List Send}

/-- **The lowest number not yet released**, by the child's own counters. -/
def Server.base (σ : Server W) : ℕ := (σ.sequenceNum.toNat - σ.window.ValidCount).toNat

namespace Server.Inv

theorem base_eq (h : Inv host b src σ w) : σ.base = w.base := by
  have := w.base_le
  rw [Server.base, h.holds.count, h.next]
  omega

/-- **The insert of the next packet never fails** while the queue is not full. -/
theorem insert_succeeds (h : Inv host b src σ w) (hroom : σ.window.isFull = false) (pdu : Bytes) :
    ∃ q, σ.window.insert true σ.sequenceNum pdu = .ok (q, true) := by
  have hfree := h.holds.next_vacant (h.holds.isFull_eq_false_iff.mp hroom)
  rw [h.next] at hfree
  exact ⟨_, CircularQueue.insert_eq_of_free _ _ hroom hfree⟩

end Server.Inv

namespace Effect

/-! ## One step of the window -/

/-- **The base never goes back**, and the top moves with the sends only. -/
theorem window_le (h : Effect host b src σ w ev σ' w' sends) :
    w.base ≤ w'.base ∧ w.next ≤ w'.next := by
  cases h with
  | sent q hpc hroom hmore => exact ⟨le_rfl, Nat.le_succ _⟩
  | released q hl hflag => exact ⟨le_max_left _ _, le_rfl⟩
  | _ => exact ⟨le_rfl, le_rfl⟩

/-- A number enters the window in the step that sends its PDU. -/
theorem output_of_next_lt (h : Effect host b src σ w ev σ' w' sends) {s : ℕ} (hlt : s < w'.next)
    (hge : w.next ≤ s) : sends = [⟨σ.info.clientAddr, dataPDU host b src s⟩] := by
  cases h with
  | sent q hpc hroom hmore =>
    rw [SlidingWindow.next_push] at hlt
    rw [show s = w.next by omega]
  | released q hl hflag =>
    rw [SlidingWindow.next_release] at hlt
    omega
  | _ => omega

end Effect

/-- **A PDU sent for the first time** is the one for the next number, which the window has room
for. -/
theorem Effect.of_flag_sixteen (h : Effect host b src σ w ev σ' w' sends)
    (hi : Server.Inv host b src σ w) {m : Send} (hm : m ∈ sends) (hf : m.pdu.getD 6 0 = 16) :
    m.pdu = dataPDU host b src w.next ∧ w.next < w.base + W := by
  cases h with
  | sent q hpc hroom hmore =>
    obtain rfl := List.mem_singleton.mp hm
    have := w.bounded
    exact ⟨rfl, lt_of_le_of_ne this hroom⟩
  | eof | resent | answered =>
    obtain rfl := List.mem_singleton.mp hm
    rw [getD_createPDU] at hf
    cases hf
  | eofResent hpc hcount =>
    obtain rfl := List.mem_singleton.mp hm
    rw [(hi.eof (.inr hpc)).2.2, getD_createPDU] at hf
    cases hf
  | _ => cases hm

/-! ## Whole runs -/

section Run

variable {a : SockAddr} {windowSize bufferSize : UInt16} {es : List (Edge (Server W) ServerEvent
  (List Send))} {G : Server W → ServerEvent → Prop}

/-- **The invariant along a run**, with the step that sent each member. -/
theorem Server.run_inv (hK : numChunks bufferSize.toNat src < 4294967295)
    (run : Run (serverMachine W host) G (Server.enter W a src windowSize bufferSize) es σ) :
    ∃ w, Server.Inv host bufferSize.toNat src σ w ∧ ∀ s, 1 ≤ s → s < w.next →
      ∃ x ∈ es, x.output = [⟨x.source.info.clientAddr, dataPDU host bufferSize.toNat src s⟩] := by
  induction run with
  | nil =>
    refine ⟨_, Server.inv_enter a windowSize bufferSize, fun s hs hlt => ?_⟩
    simp only [SlidingWindow.next_empty] at hlt
    omega
  | cons hr hg hs ih =>
    obtain ⟨w, hi, hsent⟩ := ih
    obtain ⟨w', he, hi'⟩ := hi.step hK hs
    refine ⟨w', hi', fun s hs1 hlt => ?_⟩
    rcases Nat.lt_or_ge s w.next with hold | hnew
    · obtain ⟨x, hx, hout⟩ := hsent s hs1 hold
      exact ⟨x, List.mem_cons_of_mem _ hx, hout⟩
    · exact ⟨_, List.mem_cons_self, he.output_of_next_lt hlt hnew⟩

/-- **The sender's window is contiguous.**  After any run the queue holds the range from `base` to
`sequenceNum`, at most `W` numbers, each in its slot with the PDU some step of the run sent for it;
the next insert succeeds while there is room; and along the run the base never goes back and only
the next number, below `base + W`, is ever sent anew. -/
theorem window_contiguous (hK : numChunks bufferSize.toNat src < 4294967295)
    (run : Run (serverMachine W host) (fun _ _ => True)
      (Server.enter W a src windowSize bufferSize) es σ) :
    (∃ w : SlidingWindow W, w.base = σ.base ∧ w.next = σ.sequenceNum.toNat
        ∧ σ.window.Holds w (dataPDU host bufferSize.toNat src)
        ∧ ∀ s ∈ w, ∃ x ∈ es,
            x.output = [⟨x.source.info.clientAddr, dataPDU host bufferSize.toNat src s⟩])
      ∧ (σ.window.isFull = false →
          ∀ pdu, ∃ q, σ.window.insert true σ.sequenceNum pdu = .ok (q, true))
      ∧ ∀ x ∈ es, x.source.base ≤ x.target.base ∧ ∀ m ∈ x.output, m.pdu.getD 6 0 = 16 →
          m.pdu = dataPDU host bufferSize.toNat src x.source.sequenceNum.toNat
            ∧ x.source.sequenceNum.toNat < x.source.base + W := by
  obtain ⟨w, hi, hsent⟩ := Server.run_inv hK run
  refine ⟨⟨w, hi.base_eq.symm, hi.next, hi.holds, fun s hs => ?_⟩, hi.insert_succeeds,
    fun x hx => ?_⟩
  · obtain ⟨hbase, hlt⟩ := SlidingWindow.mem_iff.mp hs
    exact hsent s (hi.pos.trans hbase) hlt
  · obtain ⟨⟨es', run'⟩, -, hstep⟩ := run.edge hx
    obtain ⟨v, hv, -⟩ := Server.run_inv hK run'
    obtain ⟨v', he, hv'⟩ := hv.step hK hstep
    rw [hv.base_eq, hv'.base_eq, ← hv.next]
    exact ⟨he.window_le.1, fun m hm hf => he.of_flag_sixteen hv hm hf⟩

/-- Two packets on a window of one, an RR between them. -/
theorem window_contiguous_two :
    ∃ (es : List (Edge (Server 1) ServerEvent (List Send))) (σ : Server 1), σ.base = 2
      ∧ es.length = 4
      ∧ (∃ w : SlidingWindow 1, w.base = σ.base ∧ w.next = σ.sequenceNum.toNat
        ∧ σ.window.Holds w (dataPDU (.standard .little) 1 [65, 66]) ∧ ∀ s ∈ w, ∃ x ∈ es,
          x.output = [⟨x.source.info.clientAddr, dataPDU (.standard .little) 1 [65, 66] s⟩]) := by
  obtain ⟨es, σ, run, h⟩ := exists_run_of_replay (M := serverMachine 1 (.standard .little))
    (G := fun _ _ => True) (s := Server.enter 1 ⟨1, 1⟩ [65, 66] 1 1)
    [.run, .quiet, .receive [] ⟨⟨1, 1⟩, rrPDU (.standard .little) 2⟩, .run]
    (P := fun es σ => σ.base = 2 ∧ es.length = 4) (by decide +kernel)
  obtain ⟨hbase, hlen⟩ := of_decide_eq_true h
  exact ⟨es, σ, hbase, hlen, (window_contiguous (by decide) run).1⟩

end Run

end RemoteFileCopy
