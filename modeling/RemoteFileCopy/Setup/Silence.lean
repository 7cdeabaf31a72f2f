import RemoteFileCopy.Server.Timeouts
import RemoteFileCopy.Setup.Cleanup

/-!
# Setup/Silence — a child whose client says no more

    WRITE_FILE_OK_ACK ── count ──▸ DONE
    SEND_DATA ── timeoutCount, or the end of the file and then eofResendCount ──▸ DONE

The handshake has a counter of its own, and a silent child never leaves it for the data phase.  So
from wherever the client falls silent, one counter runs out: ten or eleven polls, and ten
retransmissions at most (`silent_child_ends`).
-/

namespace RemoteFileCopy

open Transition

/-- Polls time out. -/
def Silent (_ : ProcessClient) (ev : ServerEvent) : Prop := ∀ stale d, ev ≠ .receive stale d

/-- The one-second polls of a run. -/
def polls (es : List (Edge ProcessClient ServerEvent (List Send))) : ℕ :=
  (es.map fun x => pollCost x.source.pc x.event).sum

/-- The PDUs of a run that are neither new packets nor the first EOF. -/
def retransmissions (es : List (Edge ProcessClient ServerEvent (List Send))) : ℕ :=
  (es.map fun x => resendCost x.source.pc x.event x.output).sum

namespace ProcessClient

/-- **The child is at work**: in `WRITE_FILE_OK_ACK`, `SEND_DATA`, `WAIT_ON_EOF_ACK` or
`RESEND_EOF`. -/
def Serving : ProcessClient → Prop
  | .start _ => False
  | .handshake c => c.pc = .next .writeFileOkAck ∨ c.pc = .next .sendData
  | .transfer σ => σ.pc = .fill ∨ σ.pc = .drain ∨ σ.pc = .next .waitOnEofAck
    ∨ σ.pc = .next .resendEof

instance : DecidablePred Serving
  | .start _ => inferInstanceAs (Decidable False)
  | .handshake _ => inferInstanceAs (Decidable (_ ∨ _))
  | .transfer _ => inferInstanceAs (Decidable (_ ∨ _))

/-- Where it goes on, or has come to its end. -/
def Awake : ProcessClient → Prop
  | .start _ => False
  | .handshake c => c.pc = .next .writeFileOkAck ∨ c.pc = .next .sendData ∨ c.pc = .next .done
  | .transfer σ => σ.pc.Awake

theorem Serving.awake {c : ProcessClient} (h : c.Serving) : c.Awake := by
  cases c with
  | start => exact h
  | handshake c => exact h.imp_right .inl
  | transfer σ => exact h.imp_right (Or.imp_right (Or.imp_right .inl))

/-- What a child keeps from its request on. -/
def Kept (r : Received) : ProcessClient → Prop
  | .start r' => r' = r
  | .handshake c => (c.pc = .next .writeFileOkAck → c.count < 10)
    ∧ (c.pc = .next .writeFileOkAck ∨ c.pc = .next .sendData →
      (∃ file, c.info.file = some file) ∧ c.info.bufferSize.toNat ≤ MAXBUF)
  | .transfer σ => σ.Kept

/-- The polls a silent child has left. -/
def pollsLeft : ProcessClient → ℕ
  | .start _ => 0
  | .handshake c =>
    match c.pc with
    | .next .writeFileOkAck => 10 - c.count
    | .next .sendData => 11
    | _ => 0
  | .transfer σ => σ.pollsLeft

/-- The retransmissions it has left. -/
def resendsLeft : ProcessClient → ℕ
  | .start _ => 0
  | .handshake c => if c.pc = .next .sendData then 10 else 0
  | .transfer σ => σ.resendsLeft

/-- More than the number of steps it has left. -/
def fuel : ProcessClient → ℕ
  | .start _ => 0
  | .handshake c =>
    match c.pc with
    | .next .writeFileOkAck => 10 - c.count
    | .next .sendData => 51 + 12 * (c.info.file.getD []).length
    | _ => 0
  | .transfer σ => σ.fuel

theorem pollsLeft_le (c : ProcessClient) : c.pollsLeft ≤ 11 := by
  cases c with
  | start => exact Nat.zero_le _
  | handshake c =>
    simp only [pollsLeft]
    split <;> omega
  | transfer σ => exact σ.pollsLeft_le

theorem resendsLeft_le (c : ProcessClient) : c.resendsLeft ≤ 10 := by
  cases c with
  | start => exact Nat.zero_le _
  | handshake c =>
    simp only [resendsLeft]
    split <;> omega
  | transfer σ => exact σ.resendsLeft_le

section Steps

variable {host : Host} {fopen : CString → Option Bytes} {r : Received} {c c' : ProcessClient}
  {ev : ServerEvent} {sends : List Send}

/-- The child on entry to `send_data_state`. -/
theorem kept_start {info : ServerInfo} (hfile : ∃ file, info.file = some file)
    (hbuffer : info.bufferSize.toNat ≤ MAXBUF) : (Server.start info).Kept where
  file := hfile
  bufferSize := hbuffer
  timeoutCount _ := Nat.zero_lt_succ 9
  eofResendCount := Nat.zero_le _
  window := resendable_init

/-- **The step lemma**, whatever is received. -/
theorem Kept.step (hb : (r.requestBuffer host).toNat ≤ MAXBUF) (h : c.Kept r)
    (hs : c.step host fopen ev = some (c', sends)) : c'.Kept r := by
  cases c with
  | start r' =>
    obtain rfl : r' = r := h
    cases ev with
    | run =>
      obtain ⟨rfl, -⟩ := Prod.mk.inj (Option.some_inj.mp hs)
      by_cases hopens : Opens fopen r'
      · obtain ⟨name, file, hname, hopen⟩ := hopens
        simp only [Child.start, filenameState_eq_ok host fopen hname hopen]
        exact ⟨fun _ => Nat.zero_lt_succ 9, fun _ => ⟨⟨file, rfl⟩, hb⟩⟩
      · obtain ⟨-, hpc⟩ := Child.start_of_not_opens host hopens
        refine ⟨fun hack => ?_, ?_⟩
        · cases hpc _ hack
        · rintro (hack | hsend)
          · cases hpc _ hack
          · cases hpc _ hsend
    | quiet | receive stale d => cases hs
  | handshake c =>
    obtain ⟨hcount, hfile⟩ := h
    simp only [ProcessClient.step] at hs
    split at hs
    case h_1 hpc =>
      obtain ⟨rfl, -⟩ := Prod.mk.inj (Option.some_inj.mp hs)
      refine ⟨fun hack => ?_, fun _ => hfile (.inl hpc)⟩
      by_contra hge
      simp only [writeFileOkAckState] at hack hge
      rw [if_neg (by omega)] at hack
      cases hack
    case h_2 stale d hpc =>
      obtain ⟨rfl, -⟩ := Prod.mk.inj (Option.some_inj.mp hs)
      exact ⟨fun _ => hcount hpc, fun _ => hfile (.inl hpc)⟩
    case h_3 hpc =>
      obtain ⟨rfl, -⟩ := Prod.mk.inj (Option.some_inj.mp hs)
      obtain ⟨hopened, hbuffer⟩ := hfile (.inr hpc)
      exact kept_start hopened hbuffer
    case h_4 => cases hs
  | transfer σ =>
    obtain ⟨⟨σ', sends'⟩, hstep, heq⟩ := Option.map_eq_some_iff.mp hs
    obtain ⟨rfl, -⟩ := Prod.mk.inj heq
    exact Server.Kept.step h (Server.step_cases hstep)

/-- **What a silent step spends**, out of both budgets and of its fuel. -/
structure Spends (c : ProcessClient) (ev : ServerEvent) (c' : ProcessClient) (sends : List Send) :
    Prop where
  awake : c'.Awake
  polls : pollCost c.pc ev + c'.pollsLeft ≤ c.pollsLeft
  resends : resendCost c.pc ev sends + c'.resendsLeft ≤ c.resendsLeft
  fuel : c'.fuel < c.fuel

/-- The handshake counts its timeouts. -/
theorem spends_handshake {c : Child} (hpc : c.pc = .next .writeFileOkAck) (hcount : c.count < 10) :
    (handshake c).Spends .quiet (.handshake (writeFileOkAckState c none)) [] := by
  have hpoll := pollCost_le (ProcessClient.handshake c).pc .quiet
  have hleft : (ProcessClient.handshake c).pollsLeft = 10 - c.count := by
    simp only [pollsLeft, hpc]
  have hfuel : (ProcessClient.handshake c).fuel = 10 - c.count := by simp only [fuel, hpc]
  rcases Nat.lt_or_ge (c.count + 1) 10 with hlt | hge
  · simp only [writeFileOkAckState, if_pos hlt]
    refine ⟨.inl rfl, ?_, ?_, ?_⟩
    · rw [hleft]
      simp only [pollsLeft]
      omega
    · rw [resendCost_nil]
      exact Nat.zero_le _
    · rw [hfuel]
      simp only [fuel]
      omega
  · simp only [writeFileOkAckState, if_neg (Nat.not_lt.mpr hge)]
    refine ⟨.inr (.inr rfl), ?_, ?_, ?_⟩
    · rw [hleft]
      exact hpoll.trans (by omega)
    · rw [resendCost_nil]
      exact Nat.zero_le _
    · rw [hfuel]
      exact Nat.sub_pos_of_lt hcount

/-- **The step lemma for a silent client.** -/
theorem Kept.spends (h : c.Kept r) (hawake : c.Awake) (hsilent : Silent c ev)
    (hs : c.step host fopen ev = some (c', sends)) : c.Spends ev c' sends := by
  cases c with
  | start => exact hawake.elim
  | handshake c =>
    simp only [ProcessClient.step] at hs
    split at hs
    case h_1 hpc =>
      obtain ⟨rfl, rfl⟩ := Prod.mk.inj (Option.some_inj.mp hs)
      exact spends_handshake hpc (h.1 hpc)
    case h_2 => exact absurd rfl (hsilent _ _)
    case h_3 hpc =>
      obtain ⟨rfl, rfl⟩ := Prod.mk.inj (Option.some_inj.mp hs)
      refine ⟨.inl rfl, ?_, ?_, ?_⟩
      · rw [pollCost_run, Nat.zero_add, show (ProcessClient.handshake c).pollsLeft = 11 by
          simp only [pollsLeft, hpc]]
        exact pollsLeft_le _
      · rw [resendCost_nil, Nat.zero_add, show (ProcessClient.handshake c).resendsLeft = 10 by
          simp only [resendsLeft, hpc, if_true]]
        exact resendsLeft_le _
      · rw [show (ProcessClient.handshake c).fuel = 51 + 12 * (c.info.file.getD []).length by
          simp only [fuel, hpc]]
        exact Nat.lt_of_le_of_lt (Nat.sub_le _ _) (by simp only [Server.start]; omega)
    case h_4 => cases hs
  | transfer σ =>
    obtain ⟨⟨σ', sends'⟩, hstep, heq⟩ := Option.map_eq_some_iff.mp hs
    obtain ⟨rfl, rfl⟩ := Prod.mk.inj heq
    obtain ⟨hend, hpolls, hresends, hfuel⟩ :=
      Server.Kept.spends h (Server.step_cases hstep) hsilent
    exact ⟨hend, hpolls, hresends, hfuel⟩

/-- **A silent child is only stuck in `DONE`.** -/
theorem Awake.done_of_stuck (hawake : c.Awake)
    (hstuck : Stuck (processClient host fopen) Silent c) : c.pc = .next .done := by
  have hrun : c.step host fopen .run = none := hstuck .run fun _ _ => by simp
  have hquiet : c.step host fopen .quiet = none := hstuck .quiet fun _ _ => by simp
  cases c with
  | start => exact hawake.elim
  | handshake c =>
    rcases hawake with hpc | hpc | hpc
    · simp [ProcessClient.step, hpc] at hquiet
    · simp [ProcessClient.step, hpc] at hrun
    · exact hpc
  | transfer σ =>
    simp only [ProcessClient.step, Option.map_eq_none_iff] at hrun hquiet
    rcases hawake with hpc | hpc | hpc | hpc | hpc
    · cases hfull : σ.window.isFull <;> simp [Server.step, hpc, hfull] at hrun hquiet
    · simp [Server.step, hpc] at hquiet
    · simp [Server.step, hpc] at hquiet
    · simp [Server.step, hpc] at hrun
    · exact hpc

end Steps

end ProcessClient

/-! ## From wherever the client falls silent -/

section Silence

variable {host : Host} {fopen : CString → Option Bytes} {r : Received} {c : ProcessClient}

/-- **A child does not outlive its client.**  From any point of any run at which it is at work, if
every poll times out from then on, it comes to `DONE` within eleven one-second polls, and it sends
ten PDUs at most that are neither new packets nor the first EOF. -/
theorem silent_child_ends (hb : (r.requestBuffer host).toNat ≤ MAXBUF)
    (hreach : Reachable (processClient host fopen) (fun _ _ => True) (.start r) c)
    (hserving : c.Serving) :
    Inevitably (processClient host fopen) Silent (fun c => c.pc = .next .done) c
      ∧ ∀ es c', Run (processClient host fopen) Silent c es c' →
        polls es ≤ 11 ∧ retransmissions es ≤ 10 := by
  obtain ⟨before, run⟩ := hreach
  have hkept : c.Kept r := run.invariant (P := (·.Kept r)) rfl fun _ _ _ _ h _ hs => h.step hb hs
  have hstep : ∀ c ev c' sends, c.Kept r ∧ c.Awake → Silent c ev →
      (processClient host fopen).step c ev = some (c', sends) → c'.Kept r ∧ c'.Awake :=
    fun _ _ _ _ h hsilent hs => ⟨h.1.step hb hs, (h.1.spends h.2 hsilent hs).awake⟩
  have h₀ : c.Kept r ∧ c.Awake := ⟨hkept, hserving.awake⟩
  refine ⟨.of_measure ProcessClient.fuel (fun _ _ _ _ h hsilent hs =>
    ⟨hstep _ _ _ _ h hsilent hs, (h.1.spends h.2 hsilent hs).fuel⟩)
    (fun _ h hstuck => h.2.done_of_stuck hstuck) h₀, fun es c' run => ⟨?_, ?_⟩⟩
  · have hle := run.cost_add_budget_le (fun x => pollCost x.source.pc x.event)
      ProcessClient.pollsLeft h₀ hstep fun _ _ _ _ h hsilent hs =>
        (h.1.spends h.2 hsilent hs).polls
    exact (Nat.le_add_right _ _).trans (hle.trans c.pollsLeft_le)
  · have hle := run.cost_add_budget_le (fun x => resendCost x.source.pc x.event x.output)
      ProcessClient.resendsLeft h₀ hstep fun _ _ _ _ h hsilent hs =>
        (h.1.spends h.2 hsilent hs).resends
    exact (Nat.le_add_right _ _).trans (hle.trans c.resendsLeft_le)

/-- A child in `SEND_DATA`, with three bytes to send in a window of two. -/
theorem silent_child_ends_three : ∃ c : ProcessClient, c.pc = .fill
    ∧ Inevitably (processClient (.standard .big) fun _ => some [65, 66, 67]) Silent
      (fun c => c.pc = .next .done) c
    ∧ ∀ es c', Run (processClient (.standard .big) fun _ => some [65, 66, 67]) Silent c es c' →
      polls es ≤ 11 ∧ retransmissions es ≤ 10 := by
  obtain ⟨es, c, run, h⟩ := exists_run_of_replay
    (M := processClient (.standard .big) fun _ => some [65, 66, 67]) (G := fun _ _ => True)
    (s := .start smallRequest)
    [.run, .receive [] ⟨⟨1, 1⟩, fileOkAckPDU (.standard .big)⟩, .run]
    (P := fun _ c => c.Serving ∧ c.pc = .fill) (by decide +kernel)
  obtain ⟨hserving, hpc⟩ := of_decide_eq_true h
  exact ⟨c, hpc, silent_child_ends (r := smallRequest) (by decide +kernel) ⟨es, run⟩ hserving⟩

end Silence

end RemoteFileCopy
