import RemoteFileCopy.DataPhase.LossFree

/-!
# DataPhase/Alike — in order, the size of the receive buffer plays no part

A client that stays in order touches no slot of its buffer.  So over FIFO channels a client with `W`
slots does what a client with as many as the child would (`Alike`), and the phases of
`DataPhase/LossFree` are also those of a transfer whose two windows differ.
-/

namespace RemoteFileCopy

variable {V W : ℕ} {cfg : Config}

/-- **Two clients that have heard the same**, whatever their buffers. -/
structure Alike (c : Client V) (c' : Client W) : Prop where
  pc : c'.pc = c.pc
  expected : c'.info.expected = c.info.expected
  highest : c'.info.highest = c.info.highest
  outFile : c'.info.outFile = c.info.outFile

theorem Alike.enter (a : SockAddr) : Alike (Client.enter V a) (Client.enter W a) :=
  ⟨rfl, rfl, rfl, rfl⟩

variable [NeZero V] [NeZero W]

/-- Where nothing may be flushed the flush does nothing. -/
theorem ReceiveInfo.flush_of_lt {info : ReceiveInfo W}
    (h : info.highest.toNat < info.expected.toNat) : info.flush = info := by
  have hcan : info.canFlush = false := by
    rw [Bool.eq_false_iff]
    exact fun hc => absurd (canFlush_iff.mp hc).1 (Nat.not_le.mpr h)
  have hloop : ∀ n, info.flushLoop n = info := by
    intro n
    cases n with
    | zero => rfl
    | succ n => rw [ReceiveInfo.flushLoop, hcan, if_neg Bool.false_ne_true]
  exact hloop W

/-- A client in its receive loop takes in whatever comes. -/
theorem Client.step_eq_none_iff {host : Host} {c : Client W} {stale : Bytes} {d : Datagram} :
    c.step host stale d = none ↔ ∀ state, c.pc ≠ .receiving state := by
  refine ⟨fun hnone state hpc => ?_, fun hpc => ?_⟩
  · simp only [Client.step, hpc] at hnone
    split at hnone <;> cases hnone
  · by_contra hsome
    obtain ⟨r, hr⟩ := Option.ne_none_iff_exists'.mp hsome
    obtain ⟨state, hstate⟩ := Client.receiving_of_step hr
    exact hpc state hstate

namespace Alike

variable {c : Client V} {c' c₁' : Client W} {stale : Bytes} {a : SockAddr} {sends : List Send}

/-- **The next packet** does to one what it does to the other. -/
theorem step_next (h : Alike c c') (hpc : c.pc = .receiving .inOrder) {p : Bytes}
    (hp : p.length ≤ MAXBUF)
    (hs : c'.step cfg.host stale ⟨a, createPDU cfg.host c.info.expected 16 p⟩
      = some (c₁', sends)) :
    ∃ c₁, c.step cfg.host stale ⟨a, createPDU cfg.host c.info.expected 16 p⟩ = some (c₁, sends)
      ∧ Alike c₁ c₁' := by
  have hmax : MAXBUF = 1400 := rfl
  set r := safeRecvfrom stale (MAXBUF + 7) ⟨a, createPDU cfg.host c.info.expected 16 p⟩ with hr
  have hflag : IsDataFlag r.flag := by simp [hr, IsDataFlag]
  have hseq : r.seqNum cfg.host = c.info.expected := by simp [hr]
  have hpay : r.payload = .ok p := payload_safeRecvfrom _ _ _ _ _ _ (by omega)
  have hstep := Client.step_of_turn cfg.host hpc (turn_inOrder_eq cfg.host hflag hseq hpay)
  have hstep' := Client.step_of_turn cfg.host (h.pc.trans hpc)
    (turn_inOrder_eq cfg.host hflag (hseq.trans h.expected.symm) hpay)
  obtain ⟨rfl, rfl⟩ := Prod.mk.inj (Option.some_inj.mp (hstep'.symm.trans hs))
  refine ⟨_, by rw [hstep, h.expected], rfl, ?_, h.expected, ?_⟩
  · simp only [h.expected]
  · simp only [h.outFile]

/-- **The EOF, in order**, ends both. -/
theorem step_eof (h : Alike c c') (hpc : c.pc = .receiving .inOrder)
    (hlt : c.info.highest.toNat < c.info.expected.toNat) {n : UInt32}
    (hs : c'.step cfg.host stale ⟨a, createPDU cfg.host n 10 []⟩ = some (c₁', sends)) :
    ∃ c₁, c.step cfg.host stale ⟨a, createPDU cfg.host n 10 []⟩ = some (c₁, sends)
      ∧ Alike c₁ c₁' := by
  have hflush : ReceiveInfo.flush { c.info with serverAddr := a, eofSeq := n } = _ :=
    ReceiveInfo.flush_of_lt hlt
  have hlt' : c'.info.highest.toNat < c'.info.expected.toNat := by
    rwa [h.highest, h.expected]
  have hflush' : ReceiveInfo.flush { c'.info with serverAddr := a, eofSeq := n } = _ :=
    ReceiveInfo.flush_of_lt hlt'
  have hstep : c.step cfg.host stale ⟨a, createPDU cfg.host n 10 []⟩ = _ :=
    Client.step_eof hpc n stale a
  have hstep' : c'.step cfg.host stale ⟨a, createPDU cfg.host n 10 []⟩ = _ :=
    Client.step_eof (h.pc.trans hpc) n stale a
  rw [hflush] at hstep
  rw [hflush'] at hstep'
  obtain ⟨rfl, rfl⟩ := Prod.mk.inj (Option.some_inj.mp (hstep'.symm.trans hs))
  exact ⟨_, hstep, rfl, h.expected, h.highest, h.outFile⟩

/-- **Whatever comes next over a FIFO channel** does to one what it does to the other. -/
theorem step {s : DataPhase V} (h : Alike s.client c') (hs : Phased cfg s) {d : Bytes}
    {rest : List Bytes} (hd : s.toClient = d :: rest)
    (hstep : c'.step cfg.host stale ⟨a, d⟩ = some (c₁', sends)) :
    ∃ c₁, s.client.step cfg.host stale ⟨a, d⟩ = some (c₁, sends) ∧ Alike c₁ c₁' := by
  have next : ∀ w : SlidingWindow V, Client.Inv cfg.b cfg.source s.client →
      Server.Inv cfg.host cfg.b cfg.source s.server w → s.client.pc = .receiving .inOrder →
      s.expected < w.next → d = dataPDU cfg.host cfg.b cfg.source s.expected →
      ∃ c₁, s.client.step cfg.host stale ⟨a, d⟩ = some (c₁, sends) ∧ Alike c₁ c₁' := by
    intro w hc hsv hpc hlt hd
    rw [dataPDU, DataPhase.expected, UInt32.ofNat_toNat] at hd
    subst hd
    exact h.step_next hpc (hsv.short _ hc.faithful.pos hlt) hstep
  obtain ⟨w, hf | he | hend⟩ := hs
  · have hlt : s.expected < w.next := by
      by_contra hno
      rw [hf.toClient, packets, span_eq_nil_iff.mpr (Nat.le_of_not_lt hno)] at hd
      cases hd
    rw [hf.toClient, packets, span_cons hlt] at hd
    exact next w hf.client hf.server hf.inOrder hlt (List.cons.inj hd).1.symm
  · rcases lt_or_ge s.expected w.next with hlt | hle
    · rw [he.toClient, packets, span_cons hlt, List.cons_append] at hd
      exact next w he.client he.server he.inOrder hlt (List.cons.inj hd).1.symm
    · rw [he.toClient, packets, span_eq_nil_iff.mpr hle, List.nil_append] at hd
      obtain ⟨rfl, -⟩ := List.cons.inj hd
      have hsettled : s.client.info.highest.toNat + 1 = s.client.info.expected.toNat :=
        he.client.settled _ he.inOrder
      exact h.step_eof he.inOrder (by omega) hstep
  · obtain ⟨state, hpc⟩ := Client.receiving_of_step hstep
    rw [h.pc, hend.client] at hpc
    cases hpc

end Alike

end RemoteFileCopy
