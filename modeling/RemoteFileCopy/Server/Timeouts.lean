import RemoteFileCopy.Server.Oldest

/-!
# Server/Timeouts — the data phase of a child that hears nothing

    window full ── timeoutCount, ten timeouts ──▸ DONE
    file at its end ── eofResendCount, eleven timeouts ──▸ DONE

A window that is full and hears nothing stays full, so a silent child meets one of the two counters
only.  `Server.Kept` is what makes it go that far: there is a file, a read fits its array, the two
counters are in range, and every stored packet can be sent again.  `pollsLeft` and `resendsLeft` are
budgets that a silent step takes its polls and its retransmissions from, and `fuel` goes down with
every one.
-/

namespace RemoteFileCopy

open Transition

/-! ## A window whose packets can be sent again -/

section Window

variable {W : ℕ} {host : Host} {q q' : CircularQueue W} {s : UInt32} {payload : Bytes} {ok : Bool}

/-- **A window in order**: a stored packet has a header, and a window without slots has no room. -/
structure CircularQueue.Resendable (q : CircularQueue W) : Prop where
  packet : ∀ i, (q.entries i).valid = true →
    ∃ p, (q.entries i).packet = some p ∧ 7 ≤ (q.entries i).packetLen
  room : q.isFull = false → 0 < W

theorem resendable_init : (CircularQueue.init W).Resendable where
  packet _ h := by cases h
  room h := by
    have hW : ¬ W = 0 := by simpa [CircularQueue.isFull, CircularQueue.init] using h
    omega

theorem CircularQueue.Resendable.insert (hq : q.Resendable)
    (h : q.insert true s (createPDU host s 16 payload) = .ok (q', ok)) : q'.Resendable := by
  rw [CircularQueue.insert] at h
  split at h
  case isTrue =>
    obtain ⟨rfl, -⟩ := Prod.mk.inj (Except.ok.inj h)
    exact hq
  case isFalse hroom =>
    obtain ⟨i, -, h⟩ := bind_eq_ok.mp h
    dsimp only at h
    split at h
    case isTrue =>
      obtain ⟨rfl, -⟩ := Prod.mk.inj (Except.ok.inj h)
      exact hq
    case isFalse =>
      obtain ⟨rfl, -⟩ := Prod.mk.inj (Except.ok.inj h)
      refine ⟨fun j hj => ?_, fun _ => i.pos⟩
      rcases eq_or_ne j i with rfl | hne
      · exact ⟨createPDU host s 16 payload, by simp⟩
      · simp only [Function.update_of_ne hne] at hj ⊢
        exact hq.packet j hj

theorem CircularQueue.Resendable.remove (hq : q.Resendable) (h : q.remove s = .ok (q', ok)) :
    q'.Resendable := by
  obtain ⟨i, -, h⟩ := bind_eq_ok.mp h
  have hq' := congrArg Prod.fst (Except.ok.inj h)
  dsimp only at hq'
  split at hq'
  case isTrue => exact hq' ▸ hq
  case isFalse =>
    obtain rfl : _ = q' := hq'
    refine ⟨fun j hj => ?_, fun _ => i.pos⟩
    rcases eq_or_ne j i with rfl | hne
    · simp [CircularQueue.vacate] at hj
    · simp only [CircularQueue.vacate, Function.update_of_ne hne] at hj ⊢
      exact hq.packet j hj

/-- The child's calls keep its window in order. -/
theorem keeps_resendable (host : Host) : Server.Keeps (W := W) host CircularQueue.Resendable where
  insert hq h := hq.insert h
  remove hq h := hq.remove h

end Window

/-! ## What a child keeps -/

section Kept

variable {W : ℕ} {host : Host} {σ : Server W} {ev : ServerEvent} {r : Server W × List Send}

/-- **What keeps a child going**, in the data phase. -/
structure Server.Kept (σ : Server W) : Prop where
  file : ∃ rest, σ.info.file = some rest
  bufferSize : σ.info.bufferSize.toNat ≤ MAXBUF
  timeoutCount : σ.pc = .fill → σ.timeoutCount < 10
  eofResendCount : σ.info.eofResendCount ≤ 10
  window : σ.window.Resendable

/-- An insert into a window with slots does not fail. -/
theorem exists_insert_eq_ok (hW : 0 < W) (q : CircularQueue W) (s : UInt32) (p : Bytes) :
    ∃ q' ok, q.insert true s p = .ok (q', ok) := by
  have : NeZero W := ⟨hW.ne'⟩
  rw [CircularQueue.insert]
  split
  · exact ⟨_, _, rfl⟩
  · rw [CircularQueue.index_eq]
    change ∃ q' ok, (if (q.entries (CircularQueue.slot W s.toNat)).valid then _ else _) = _
    split <;> exact ⟨_, _, rfl⟩

/-- **A read** makes the file shorter, or finds its end. -/
theorem Server.Kept.read (h : σ.Kept) (host : Host) (hroom : σ.window.isFull = false) :
    (∃ q rest sends, σ.settle (sendNext host σ) = ({ σ with
        pc := .drain
        window := q
        info := { σ.info with file := some rest }
        sequenceNum := σ.sequenceNum + 1 }, sends)
      ∧ q.Resendable ∧ rest.length < (σ.info.file.getD []).length)
    ∨ ∃ eofPacket sends, σ.settle (sendNext host σ) = ({ σ with
        pc := .next .waitOnEofAck
        info := { σ.info with eofPacket := eofPacket, eofSeq := σ.sequenceNum } }, sends) := by
  obtain ⟨rest, hfile⟩ := h.file
  rcases eq_or_ne (rest.take σ.info.bufferSize.toNat) [] with hnil | hne
  · rw [sendNext_of_nil hfile hnil]
    exact .inr ⟨_, _, rfl⟩
  · obtain ⟨q, ok, hinsert⟩ := exists_insert_eq_ok (h.window.room hroom) σ.window σ.sequenceNum
      (createPDU host σ.sequenceNum 16 (rest.take σ.info.bufferSize.toNat))
    have hfits : (rest.take σ.info.bufferSize.toNat).length ≤ MAXBUF :=
      (List.length_take_le _ _).trans h.bufferSize
    rw [sendNext_of_payload hfile rfl hfits hne hinsert]
    refine .inl ⟨_, _, _, rfl, h.window.insert hinsert, ?_⟩
    have hpos := List.length_pos_iff.mpr hne
    rw [List.length_take] at hpos
    rw [hfile, Option.getD_some, List.length_drop]
    omega

/-- **A timeout** sends one packet at most. -/
theorem Server.Kept.timeout (h : σ.Kept) (host : Host) : ∃ sends, sends.length ≤ 1
    ∧ σ.settle (resendOldest host σ) = ({ σ with
        pc := if σ.timeoutCount + 1 ≥ 10 then .next .done else .fill
        timeoutCount := σ.timeoutCount + 1 }, sends) := by
  rw [resendOldest]
  cases hfirst : σ.window.firstValid with
  | none => exact ⟨[], Nat.zero_le _, rfl⟩
  | some i =>
    have hvalid : (σ.window.entries i).valid = true :=
      List.find?_some (p := fun i => (σ.window.entries i).valid) hfirst
    obtain ⟨p, hp, hlen⟩ := h.window.packet i hvalid
    simp only [QueueEntry.rebuild, hp, if_neg (Nat.not_lt.mpr hlen)]
    exact ⟨_, le_rfl, rfl⟩

/-- **The step lemma.** -/
theorem Server.Kept.step (h : σ.Kept) (hr : StepCase host σ ev r) : r.1.Kept := by
  cases hr with
  | read hpc hroom =>
    rcases h.read host hroom with ⟨q, rest, sends, heq, hq, -⟩ | ⟨eofPacket, sends, heq⟩
    · rw [heq]
      exact ⟨⟨rest, rfl⟩, h.bufferSize, by simp, h.eofResendCount, hq⟩
    · rw [heq]
      exact ⟨h.file, h.bufferSize, by simp, h.eofResendCount, h.window⟩
  | timeout =>
    obtain ⟨sends, -, heq⟩ := h.timeout host
    rw [heq]
    refine ⟨h.file, h.bufferSize, fun hpc => ?_, h.eofResendCount, h.window⟩
    by_contra hge
    dsimp only at hpc hge
    rw [if_pos (by omega)] at hpc
    cases hpc
  | drained => exact ⟨h.file, h.bufferSize, fun _ => Nat.zero_lt_succ 9, h.eofResendCount, h.window⟩
  | @acked hl stale d q sends hack =>
    have hq : q.Resendable := by
      refine Outcome.of_ok (P := fun _ => True) (Q := fun x => x.2.1.Resendable) ?_ hack
      exact waitOnAckState_rule ((keeps_resendable host).removeUpTo h.window _)
        (.of_cases (fun _ _ => trivial) fun _ _ => trivial)
        (fun _ => .of_cases (fun _ _ => trivial) fun _ _ => h.window) h.window
    refine ⟨h.file, h.bufferSize, fun hpc => ?_, h.eofResendCount, hq⟩
    simp [heard, show σ.pc = .fill from hpc]
  | ackFault | eofQuiet | eofHeard =>
    exact ⟨h.file, h.bufferSize, by simp, h.eofResendCount, h.window⟩
  | eofResend =>
    simp only [resendEofState]
    split
    · exact ⟨h.file, h.bufferSize, by simp, h.eofResendCount, h.window⟩
    · exact ⟨h.file, h.bufferSize, by simp, by dsimp only; omega, h.window⟩

/-! ## What a silent step spends -/

/-- The one-second polls a child has left, if it hears nothing. -/
def Server.pollsLeft (σ : Server W) : ℕ :=
  match σ.pc with
  | .fill => if σ.window.isFull then 10 - σ.timeoutCount else 11
  | .drain => 11
  | .next .waitOnEofAck => 11 - σ.info.eofResendCount
  | .next .resendEof => 10 - σ.info.eofResendCount
  | _ => 0

/-- The retransmissions it has left. -/
def Server.resendsLeft (σ : Server W) : ℕ :=
  match σ.pc with
  | .fill => if σ.window.isFull then 10 - σ.timeoutCount else 10
  | .drain => 10
  | .next .waitOnEofAck | .next .resendEof => 10 - σ.info.eofResendCount
  | _ => 0

/-- More than the number of steps it has left. -/
def Server.fuel (σ : Server W) : ℕ :=
  match σ.pc with
  | .fill => 50 + 12 * (σ.info.file.getD []).length - σ.timeoutCount
  | .drain => 51 + 12 * (σ.info.file.getD []).length
  | .next .waitOnEofAck => 2 * (11 - σ.info.eofResendCount)
  | .next .resendEof => 2 * (10 - σ.info.eofResendCount) + 1
  | _ => 0

/-- A step waits a second where it polls, except in the drain loop, whose polls return at once. -/
def pollCost (pc : ServerPc) (ev : ServerEvent) : ℕ := if ev = .quiet ∧ pc ≠ .drain then 1 else 0

/-- A step sends again what it sends, except in the fill loop, whose packets and whose EOF are
new. -/
def resendCost (pc : ServerPc) (ev : ServerEvent) (sends : List Send) : ℕ :=
  if pc = .fill ∧ ev = .run then 0 else sends.length

@[simp] theorem pollCost_run (pc : ServerPc) : pollCost pc .run = 0 := rfl

theorem pollCost_drain (ev : ServerEvent) : pollCost .drain ev = 0 := if_neg fun h => h.2 rfl

theorem pollCost_le (pc : ServerPc) (ev : ServerEvent) : pollCost pc ev ≤ 1 := by
  rw [pollCost]
  split <;> decide

@[simp] theorem resendCost_read (sends : List Send) : resendCost .fill .run sends = 0 := rfl

@[simp] theorem resendCost_nil (pc : ServerPc) (ev : ServerEvent) : resendCost pc ev [] = 0 :=
  ite_self _

theorem resendCost_le (pc : ServerPc) (ev : ServerEvent) (sends : List Send) :
    resendCost pc ev sends ≤ sends.length := by
  rw [resendCost]
  split
  · exact Nat.zero_le _
  · exact le_rfl

theorem Server.pollsLeft_le (σ : Server W) : σ.pollsLeft ≤ 11 := by
  rw [pollsLeft]
  split
  · split <;> omega
  all_goals omega

theorem Server.resendsLeft_le (σ : Server W) : σ.resendsLeft ≤ 10 := by
  rw [resendsLeft]
  split
  · split <;> omega
  all_goals omega

/-- Where the child goes on, or has come to its end. -/
def ServerPc.Awake (pc : ServerPc) : Prop :=
  pc = .fill ∨ pc = .drain ∨ pc = .next .waitOnEofAck ∨ pc = .next .resendEof ∨ pc = .next .done

/-- **What a silent step spends**, out of both budgets and of its fuel. -/
structure Server.Spends (σ : Server W) (ev : ServerEvent) (r : Server W × List Send) : Prop where
  awake : r.1.pc.Awake
  polls : pollCost σ.pc ev + r.1.pollsLeft ≤ σ.pollsLeft
  resends : resendCost σ.pc ev r.2 + r.1.resendsLeft ≤ σ.resendsLeft
  fuel : r.1.fuel < σ.fuel

/-- **Where both budgets are full** a step that costs nothing has only its fuel to spend. -/
theorem Server.Spends.of_full (hawake : r.1.pc.Awake) (hpolls : σ.pollsLeft = 11)
    (hpoll : pollCost σ.pc ev = 0) (hresends : σ.resendsLeft = 10)
    (hresend : resendCost σ.pc ev r.2 = 0) (hfuel : r.1.fuel < σ.fuel) : σ.Spends ev r where
  awake := hawake
  polls := by
    rw [hpoll, Nat.zero_add, hpolls]
    exact r.1.pollsLeft_le
  resends := by
    rw [hresend, Nat.zero_add, hresends]
    exact r.1.resendsLeft_le
  fuel := hfuel

/-- A read spends nothing of the budgets. -/
theorem Server.Kept.spends_read (h : σ.Kept) (hpc : σ.pc = .fill)
    (hroom : σ.window.isFull = false) : σ.Spends .run (σ.settle (sendNext host σ)) := by
  have ht := h.timeoutCount hpc
  have hk := h.eofResendCount
  have hpolls : σ.pollsLeft = 11 := by simp [pollsLeft, hpc, hroom]
  have hresends : σ.resendsLeft = 10 := by simp [resendsLeft, hpc, hroom]
  have hfree (sends : List Send) : resendCost σ.pc .run sends = 0 := by
    rw [hpc, resendCost_read]
  have hfuel : σ.fuel = 50 + 12 * (σ.info.file.getD []).length - σ.timeoutCount := by
    simp only [fuel, hpc]
  rcases h.read host hroom with ⟨q, rest, sends, heq, -, hlt⟩ | ⟨eofPacket, sends, heq⟩
  · rw [heq]
    refine .of_full (.inr (.inl rfl)) hpolls (pollCost_run _) hresends (hfree _) ?_
    rw [hfuel]
    simp only [fuel, Option.getD_some]
    omega
  · rw [heq]
    refine .of_full (.inr (.inr (.inl rfl))) hpolls (pollCost_run _) hresends (hfree _) ?_
    rw [hfuel]
    simp only [fuel]
    omega

/-- A full window counts its timeouts. -/
theorem Server.Kept.spends_timeout (h : σ.Kept) (hpc : σ.pc = .fill)
    (hfull : σ.window.isFull = true) : σ.Spends .quiet (σ.settle (resendOldest host σ)) := by
  have ht := h.timeoutCount hpc
  obtain ⟨sends, hsends, heq⟩ := h.timeout host
  have hpoll := pollCost_le σ.pc .quiet
  have hresend := resendCost_le σ.pc .quiet sends
  have hpolls : σ.pollsLeft = 10 - σ.timeoutCount := by simp only [pollsLeft, hpc, hfull, if_true]
  have hresends : σ.resendsLeft = 10 - σ.timeoutCount := by
    simp only [resendsLeft, hpc, hfull, if_true]
  have hfuel : σ.fuel = 50 + 12 * (σ.info.file.getD []).length - σ.timeoutCount := by
    simp only [fuel, hpc]
  rw [heq]
  by_cases hlast : σ.timeoutCount + 1 ≥ 10
  · simp only [if_pos hlast]
    refine ⟨by simp [ServerPc.Awake], ?_, ?_, ?_⟩
    · rw [hpolls]
      exact hpoll.trans (by omega)
    · rw [hresends]
      exact hresend.trans (by omega)
    · rw [hfuel]
      exact Nat.lt_of_lt_of_le (Nat.zero_lt_succ 40) (by omega)
  · simp only [if_neg hlast]
    refine ⟨.inl rfl, ?_, ?_, ?_⟩
    · rw [hpolls]
      simp only [pollsLeft, hfull, if_true]
      omega
    · rw [hresends]
      simp only [resendsLeft, hfull, if_true]
      omega
    · rw [hfuel]
      simp only [fuel]
      omega

/-- The EOF is resent ten times. -/
theorem Server.Kept.spends_eofResend (h : σ.Kept) (hpc : σ.pc = .next .resendEof) :
    σ.Spends .run ({ σ with
      pc := .next (resendEofState σ.info).1
      info := (resendEofState σ.info).2.1 }, (resendEofState σ.info).2.2) := by
  have hk := h.eofResendCount
  have hresend := resendCost_le σ.pc .run (resendEofState σ.info).2.2
  have hpolls : σ.pollsLeft = 10 - σ.info.eofResendCount := by simp only [pollsLeft, hpc]
  have hresends : σ.resendsLeft = 10 - σ.info.eofResendCount := by simp only [resendsLeft, hpc]
  have hfuel : σ.fuel = 2 * (10 - σ.info.eofResendCount) + 1 := by simp only [fuel, hpc]
  rw [resendEofState] at hresend ⊢
  split at hresend
  case isTrue hlast =>
    simp only [if_pos hlast]
    refine ⟨by simp [ServerPc.Awake], Nat.zero_le _, ?_, ?_⟩
    · rw [resendCost_nil]
      exact Nat.zero_le _
    · rw [hfuel]
      exact Nat.zero_lt_succ _
  case isFalse hlast =>
    simp only [if_neg hlast]
    refine ⟨by simp [ServerPc.Awake], ?_, ?_, ?_⟩
    · rw [pollCost_run, hpolls]
      simp only [pollsLeft]
      omega
    · rw [hresends]
      simp only [resendsLeft, List.length_singleton] at hresend ⊢
      omega
    · rw [hfuel]
      simp only [fuel]
      omega

/-- **The step lemma for a child that hears nothing.** -/
theorem Server.Kept.spends (h : σ.Kept) (hr : StepCase host σ ev r)
    (hsilent : ∀ stale d, ev ≠ .receive stale d) : σ.Spends ev r := by
  have hk := h.eofResendCount
  cases hr with
  | read hpc hroom => exact h.spends_read hpc hroom
  | timeout hpc hfull => exact h.spends_timeout hpc hfull
  | drained hpc =>
    refine .of_full (.inl rfl) (by simp only [pollsLeft, hpc]) (hpc ▸ pollCost_drain .quiet)
      (by simp only [resendsLeft, hpc]) (resendCost_nil _ _) ?_
    simp only [fuel, hpc]
    omega
  | eofQuiet hpc =>
    have hpoll := pollCost_le σ.pc .quiet
    have hpolls : σ.pollsLeft = 11 - σ.info.eofResendCount := by simp only [pollsLeft, hpc]
    have hresends : σ.resendsLeft = 10 - σ.info.eofResendCount := by simp only [resendsLeft, hpc]
    have hfuel : σ.fuel = 2 * (11 - σ.info.eofResendCount) := by simp only [fuel, hpc]
    refine ⟨by simp [ServerPc.Awake], ?_, ?_, ?_⟩
    · rw [hpolls]
      simp only [pollsLeft]
      omega
    · rw [hresends, resendCost_nil, Nat.zero_add]
      exact le_rfl
    · rw [hfuel]
      simp only [fuel]
      omega
  | eofResend hpc => exact h.spends_eofResend hpc
  | acked | ackFault | eofHeard => exact absurd rfl (hsilent _ _)

end Kept

end RemoteFileCopy
