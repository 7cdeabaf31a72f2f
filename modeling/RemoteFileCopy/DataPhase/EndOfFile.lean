import RemoteFileCopy.DataPhase.Safety

/-!
# DataPhase/EndOfFile — when an acknowledged transfer is complete

`send_data_state` sends its EOF as soon as the file is read, with packets still unacknowledged, and
the client flushes what it has and acknowledges.  So the file is whole exactly when nothing is
missing below the EOF's number as it arrives (`completeWhenAcked_iff`): every slot from `expected`
up to it is in use.
-/

namespace RemoteFileCopy

open CircularQueue (slot)
open Transition

variable {W : ℕ} [NeZero W] (cfg : Config)

/-- **Nothing is missing below an EOF when it arrives.** -/
def NothingMissing (s : DataPhase W) : NetEvent → Prop
  | .deliver .client _ stale bytes =>
      let r := safeRecvfrom stale (MAXBUF + 7) ⟨cfg.childAddr, bytes⟩
      r.flag = 10 → ∀ k, s.expected ≤ k → k < (r.seqNum cfg.host).toNat →
        (s.client.info.buffer (slot W k)).valid = true
  | _ => True

/-- **An ack of an EOF is sent for a whole file only**: with the number `N` goes the file that is
chunks `1` to `N - 1`, and `N` is what the client expects. -/
def CompleteWhenAcked (x : Edge (DataPhase W) NetEvent (List Send)) : Prop :=
  ∀ m ∈ x.output, m.pdu.getD 6 0 = 35 →
    let N := (ntohl cfg.host.endian (loadU32 cfg.host.endian m.pdu)).toNat
    x.target.client.info.outFile = cfg.source
      ∧ x.target.client.info.outFile = chunks cfg.b cfg.source (N - 1) ∧ x.target.expected = N

instance (x : Edge (DataPhase W) NetEvent (List Send)) : Decidable (CompleteWhenAcked cfg x) :=
  inferInstanceAs (Decidable (∀ m ∈ x.output, _ → _ ∧ _ ∧ _))

variable {cfg} {s s' : DataPhase W} {w : SlidingWindow W} {sends : List Send} {ev : NetEvent}

/-- The server never sends an ack of an EOF. -/
theorem ToClient.flag_ne {e next : ℕ} {d : Bytes} (h : ToClient cfg e next d) :
    d.getD 6 0 ≠ 35 := by
  cases h with
  | data n s flag hflag hs hlt hn =>
    rw [getD_createPDU]
    rcases hflag with rfl | rfl | rfl <;> decide
  | eof n hn hend =>
    rw [getD_createPDU]
    decide

omit [NeZero W] in
/-- A step that sends no ack of an EOF completes nothing. -/
theorem completeWhenAcked_of_flag_ne (h : ∀ m ∈ sends, m.pdu.getD 6 0 ≠ 35) :
    CompleteWhenAcked cfg ⟨s, ev, sends, s'⟩ := fun m hm hf => absurd hf (h m hm)

namespace Joint

/-- **The turn that takes in the EOF.** -/
theorem eof_iff (h : Joint cfg s w) (hb : 0 < cfg.b) {n : UInt32} (hn : n.toNat = w.next)
    (hend : w.next = numChunks cfg.b cfg.source + 1) (a : SockAddr) :
    let info := { s.client.info with serverAddr := a, eofSeq := n }.flush
    (info.outFile = cfg.source ∧ info.outFile = chunks cfg.b cfg.source (n.toNat - 1)
        ∧ info.expected.toNat = n.toNat)
      ↔ ∀ k, s.expected ≤ k → k < n.toNat → (s.client.info.buffer (slot W k)).valid = true := by
  have hf : Faithful cfg.b cfg.source { s.client.info with serverAddr := a, eofSeq := n } :=
    h.client.faithful.congr rfl rfl rfl rfl
  have hle := hf.flush.1.le_highest
  have hhigh := h.highest_lt
  have hbase := h.base_le
  have hbound := w.bounded
  rw [ReceiveInfo.highest_flush] at hle
  have hiff := hf.flush_expected_eq_iff (n := n.toNat)
    (by change _ ≤ s.expected + W; omega) (hle.trans (Nat.succ_le_of_lt (hn ▸ hhigh)))
  refine Iff.trans ⟨fun hc => hc.2.2, fun he => ?_⟩ hiff
  have hout := hf.flush.1.out
  rw [he] at hout
  refine ⟨?_, hout, he⟩
  rw [hout, hn, hend, Nat.add_sub_cancel, chunks_numChunks hb]

/-- A turn with a datagram as it was sent acknowledges whole files only, exactly when nothing is
missing. -/
theorem client_completeWhenAcked_iff (h : Joint cfg s w)
    (hK : numChunks cfg.b cfg.source < 4294967295) (hb : 0 < cfg.b) {i : ℕ} {stale bytes : Bytes}
    (hd : ToClient cfg s.expected w.next bytes) {c : Client W}
    (hc : s.client.step cfg.host stale ⟨cfg.childAddr, bytes⟩ = some (c, sends))
    (hclient : s'.client = c) :
    CompleteWhenAcked cfg ⟨s, .deliver .client i stale bytes, sends, s'⟩
      ↔ NothingMissing cfg s (.deliver .client i stale bytes) := by
  obtain ⟨state, hpc⟩ := Client.receiving_of_step hc
  have hmax : MAXBUF = 1400 := rfl
  have hbase : w.base ≤ s.client.info.expected.toNat := h.base_le
  have hbound := w.bounded
  have hnum := h.server.le_numChunks
  cases hd with
  | data n k flag hflag hk hlt hn =>
    obtain ⟨state', info', sends', hstep, hg⟩ := h.client.deliver_data hflag
      (h.server.short k hk hlt) (hn.symm.imp_right fun hn => ⟨by omega, by omega, hn⟩) hpc stale
      cfg.childAddr
    obtain ⟨-, rfl⟩ : _ ∧ sends' = sends := by simpa using hstep.symm.trans hc
    refine iff_of_true (completeWhenAcked_of_flag_ne fun m hm => ?_) fun hf => ?_
    · rcases hg.sends m hm with rfl | ⟨rfl, -⟩
      · rw [rrPDU, controlPDU_eq, getD_createPDU]
        decide
      · rw [srejPDU, controlPDU_eq, getD_createPDU]
        decide
    · rw [flag_safeRecvfrom _ _ _ _ _ _ (by omega)] at hf
      exact absurd hf hflag.ne_eof
  | eof n hn hend =>
    obtain ⟨rfl, rfl⟩ : _ = c ∧ _ = sends := by
      simpa using (Client.step_eof hpc n stale cfg.childAddr).symm.trans hc
    have hflag : (safeRecvfrom stale (MAXBUF + 7)
        ⟨cfg.childAddr, createPDU cfg.host n 10 []⟩).flag = 10 :=
      flag_safeRecvfrom _ _ _ _ _ _ (by omega)
    have hseq : (safeRecvfrom stale (MAXBUF + 7)
        ⟨cfg.childAddr, createPDU cfg.host n 10 []⟩).seqNum cfg.host = n :=
      seqNum_safeRecvfrom _ _ _ _ _ _ (by omega)
    have hcore := h.eof_iff hb hn hend cfg.childAddr
    simp only [CompleteWhenAcked, NothingMissing, List.mem_singleton, forall_eq, getD_createPDU,
      loadU32_createPDU, hclient, hflag, hseq, DataPhase.expected, forall_true_left]
    exact hcore

/-- **One step acknowledges whole files only, exactly when nothing is missing.** -/
theorem completeWhenAcked_step_iff (h : Joint cfg s w)
    (hK : numChunks cfg.b cfg.source < 4294967295)
    (hb : 0 < cfg.b) (hg : s.Unaltered ev) (hs : s.step cfg ev = some (s', sends)) :
    CompleteWhenAcked cfg ⟨s, ev, sends, s'⟩ ↔ NothingMissing cfg s ev := by
  have hserver {s₁ : DataPhase W} {sev : ServerEvent} (h₁ : Joint cfg s₁ w)
      (hs₁ : s₁.serverStep cfg sev = some (s', sends))
      (hack : ∀ stale d, sev = .receive stale d →
        d.srcAddr = cfg.clientAddr ∧ AckFits cfg.host s₁.expected s₁.server stale d) :
      CompleteWhenAcked cfg ⟨s, ev, sends, s'⟩ := by
    obtain ⟨w', -, hsends⟩ := h₁.serverStep hK hs₁ hack
    exact completeWhenAcked_of_flag_ne fun m hm => (hsends m hm).2.flag_ne
  cases ev with
  | run => exact iff_of_true (hserver h hs (by simp)) trivial
  | quiet => exact iff_of_true (hserver h hs (by simp)) trivial
  | deliver side i stale bytes =>
    simp only [DataPhase.step] at hs
    split at hs
    case isFalse => cases hs
    cases side with
    | server =>
      refine iff_of_true (hserver (h.erase .server i) hs fun stale' d hd => ?_) trivial
      obtain ⟨rfl, rfl⟩ := by simpa using hd
      exact ⟨rfl, (h.toServer _ (List.mem_of_getElem? hg)).ackFits h.server h.base_le _ _⟩
    | client =>
      obtain ⟨c, hstep, rfl⟩ := DataPhase.clientStep_eq_some hs
      exact h.client_completeWhenAcked_iff hK hb (h.toClient _ (List.mem_of_getElem? hg)) hstep rfl
  | lose side i =>
    simp only [DataPhase.step] at hs
    split at hs
    case isFalse => cases hs
    obtain ⟨-, rfl⟩ := by simpa using hs
    exact iff_of_true (completeWhenAcked_of_flag_ne (by simp)) trivial
  | duplicate side i =>
    obtain ⟨d, hd, heq⟩ := Option.map_eq_some_iff.mp hs
    obtain ⟨-, rfl⟩ := by simpa using heq
    exact iff_of_true (completeWhenAcked_of_flag_ne (by simp)) trivial

end Joint

/-! ## Whole runs -/

/-- **Every acknowledged transfer of a run is complete, exactly when nothing is missing below any
EOF that arrives.** -/
theorem completeWhenAcked_iff (hK : numChunks cfg.b cfg.source < 4294967295)
    (hb : 1 ≤ cfg.b ∧ cfg.b ≤ MAXBUF) {es : List (Edge (DataPhase W) NetEvent (List Send))}
    (run : Run (DataPhase.machine W cfg) DataPhase.Unaltered (DataPhase.enter W cfg) es s) :
    (∀ x ∈ es, CompleteWhenAcked cfg x) ↔ ∀ x ∈ es, NothingMissing cfg x.source x.event := by
  refine forall₂_congr fun x hx => ?_
  obtain ⟨⟨es', run'⟩, hg, hstep⟩ := run.edge hx
  obtain ⟨w, h⟩ := Joint.of_run hK run'
  exact h.completeWhenAcked_step_iff hK hb.1 hg hstep

/-- One chunk, its EOF, and both delivered. -/
theorem completeWhenAcked_iff_delivered :
    ∃ (es : List (Edge (DataPhase 2) NetEvent (List Send))) (s : DataPhase 2), s.client.pc = .done
      ∧ Run (DataPhase.machine 2 twoChunks) DataPhase.Unaltered (DataPhase.enter 2 twoChunks) es s
      ∧ ((∀ x ∈ es, CompleteWhenAcked twoChunks x)
        ↔ ∀ x ∈ es, NothingMissing twoChunks x.source x.event) := by
  obtain ⟨es, s, run, h⟩ := exists_run_of_replay (M := DataPhase.machine 2 twoChunks)
    (G := DataPhase.Unaltered) (s := DataPhase.enter 2 twoChunks)
    [.run, .deliver .client 0 [] (dataPDU (.standard .little) 1 [65, 66] 1),
      .deliver .server 0 [] (rrPDU (.standard .little) 2), .quiet, .run,
      .deliver .client 0 [] (dataPDU (.standard .little) 1 [65, 66] 2),
      .deliver .server 0 [] (rrPDU (.standard .little) 3), .quiet, .run,
      .deliver .client 0 [] (createPDU (.standard .little) 3 10 [])]
    (P := fun _ s => s.client.pc = .done) (by decide +kernel)
  exact ⟨es, s, of_decide_eq_true h, run,
    completeWhenAcked_iff (by decide) (by decide) run⟩

/-- **A truncated file is acknowledged**: both packets are lost, the EOF arrives, and the client
acknowledges it with an empty file. -/
theorem truncated_file_acknowledged :
    ∃ (es : List (Edge (DataPhase 4) NetEvent (List Send))) (s : DataPhase 4),
      Run (DataPhase.machine 4 twoChunks) DataPhase.Unaltered (DataPhase.enter 4 twoChunks) es s
        ∧ s.client.info.outFile = [] ∧ ¬ ∀ x ∈ es, CompleteWhenAcked twoChunks x := by
  obtain ⟨es, s, run, h⟩ := exists_run_of_replay (M := DataPhase.machine 4 twoChunks)
    (G := DataPhase.Unaltered) (s := DataPhase.enter 4 twoChunks)
    [.run, .quiet, .run, .quiet, .run, .lose .client 0, .lose .client 0,
      .deliver .client 0 [] (createPDU (.standard .little) 3 10 [])]
    (P := fun es s => s.client.info.outFile = [] ∧ ¬ ∀ x ∈ es, CompleteWhenAcked twoChunks x)
    (by decide +kernel)
  exact ⟨es, s, run, of_decide_eq_true h⟩

end RemoteFileCopy
