import RemoteFileCopy.Library.Outcome
import RemoteFileCopy.Queue.Holds
import RemoteFileCopy.Server.SendData
import RemoteFileCopy.Server.SourceFile

/-!
# Server/Window — what one step of the child can do

`Server.Inv` says that the child's window is a sliding window of the file's chunks, closed at the
top by `sequenceNum`.  `Effect` lists what a step out of such a state does to the child, to the
window and to the network; `Server.Inv.step` is the one place where the step function is taken
apart, and everything else argues from the list.

    run       sent · eof · overflow                    eofResent · gaveUp
    quiet     resent · drained                         eofQuiet
    receive   released · answered · refused · faulted · ignored     eofHeard
-/

namespace RemoteFileCopy

open CircularQueue (slot)

variable {W : ℕ} (host : Host) (b : ℕ) (src : Bytes)

/-- **The PDU of a chunk**, as it is first sent and as the window keeps it. -/
def dataPDU (s : ℕ) : Bytes := createPDU host (UInt32.ofNat s) 16 (chunk b src s)

/-! ## Stored packets -/

/-- A retransmission of a stored PDU carries its payload, under whatever number it is given. -/
theorem rebuild_createPDU (s n m : UInt32) (flag : UInt8) (p : Bytes) :
    QueueEntry.rebuild host ⟨some (createPDU host s 16 p), (createPDU host s 16 p).length, n, true⟩
      m flag = .ok (createPDU host m flag p) := by
  simp [QueueEntry.rebuild]

/-- **A timeout resends the first valid entry**, under the number its packet carries. -/
theorem resendOldest_eq {σ : Server W} {i : Fin W} {s n : UInt32} {p : Bytes}
    (hfirst : σ.window.firstValid = some i) (hentry : σ.window.entries i
      = ⟨some (createPDU host s 16 p), (createPDU host s 16 p).length, n, true⟩) :
    resendOldest host σ = .ok ({ σ with
        pc := if σ.timeoutCount + 1 ≥ 10 then .next .done else .fill
        timeoutCount := σ.timeoutCount + 1 },
      [⟨σ.info.clientAddr, createPDU host s 18 p⟩]) := by
  simp only [resendOldest, hfirst, hentry, Option.getD_some, loadU32_createPDU, rebuild_createPDU]
  rfl

/-! ## Rules

What a state function promises, from what each of its ends does. -/

section Rules

variable {host : Host} {σ : Server W} {P : Fault → Prop} {Q : Server W × List Send → Prop}

/-- A step is what it computes, or where it aborted. -/
theorem Server.settle_rule {x : Except Fault (Server W × List Send)}
    (h : Outcome (fun fault => Q ({ σ with pc := .aborted fault }, [])) Q x) : Q (σ.settle x) := by
  cases x with
  | error fault => exact h
  | ok r => exact h

/-- **One turn of the fill loop** — no file, a read too large, the end of the file, a packet. -/
theorem sendNext_rule (hnull : σ.info.file = none → P .nullFile)
    (hover : ∀ rest, σ.info.file = some rest →
      MAXBUF < (rest.take σ.info.bufferSize.toNat).length → P .overflow)
    (heof : Q ({ σ with
        pc := .next .waitOnEofAck
        info := { σ.info with
          eofPacket := createPDU host σ.sequenceNum 10 []
          eofSeq := σ.sequenceNum } },
      [⟨σ.info.clientAddr, createPDU host σ.sequenceNum 10 []⟩]))
    (hsent : ∀ rest payload, σ.info.file = some rest →
      Outcome P (fun x => Q ({ σ with
          pc := .drain
          window := x.1
          info := { σ.info with file := some (rest.drop σ.info.bufferSize.toNat) }
          sequenceNum := σ.sequenceNum + 1 },
        [⟨σ.info.clientAddr, createPDU host σ.sequenceNum 16 payload⟩]))
        (σ.window.insert true σ.sequenceNum (createPDU host σ.sequenceNum 16 payload))) :
    Outcome P Q (sendNext host σ) := by
  simp only [sendNext]
  split
  case _ hfile => exact hnull hfile
  case _ rest hfile =>
    split
    case isTrue hbig => exact hover rest hfile hbig
    case isFalse =>
      split
      case isTrue => exact heof
      case isFalse => exact (hsent rest _ hfile).bind fun _ h => h

/-- **A timeout** — nothing to resend, or the first valid entry. -/
theorem resendOldest_rule
    (hnone : Q ({ σ with
      pc := if σ.timeoutCount + 1 ≥ 10 then .next .done else .fill
      timeoutCount := σ.timeoutCount + 1 }, []))
    (hsome : ∀ (entry : QueueEntry) (resentSeq : UInt32),
      Outcome P (fun timeoutPDU => Q ({ σ with
          pc := if σ.timeoutCount + 1 ≥ 10 then .next .done else .fill
          timeoutCount := σ.timeoutCount + 1 }, [⟨σ.info.clientAddr, timeoutPDU⟩]))
        (entry.rebuild host resentSeq 18)) :
    Outcome P Q (resendOldest host σ) := by
  rw [resendOldest]
  split
  case _ => exact hnone
  case _ i hfirst => exact (hsome _ _).bind fun _ h => h

/-- **An ack** — an RR, a SREJ that finds an entry, or one that changes only the address. -/
theorem waitOnAckState_rule
    {Q : ServerState × CircularQueue W × ServerInfo × List Send → Prop} {q : CircularQueue W}
    {info : ServerInfo} {r : Received}
    (hrr : Outcome P (fun q' => Q (.sendData, q', { info with clientAddr := r.srcAddr }, []))
      (q.removeUpTo ((r.seqNum host).toNat - 1)))
    (hget : Outcome P (fun _ => True) (q.get (r.seqNum host)))
    (hsrej : ∀ entry : QueueEntry,
      Outcome P (fun srejPDU => Q (.sendData, q, { info with clientAddr := r.srcAddr },
        [⟨r.srcAddr, srejPDU⟩])) (entry.rebuild host (r.seqNum host) 17))
    (hsame : Q (.sendData, q, { info with clientAddr := r.srcAddr }, [])) :
    Outcome P Q (waitOnAckState host q info (some r)) := by
  simp only [waitOnAckState]
  split
  case isTrue => exact hrr.bind fun _ h => h
  case isFalse =>
    split
    case isTrue =>
      refine hget.bind fun found _ => ?_
      cases found with
      | none => exact hsame
      | some i => exact (hsrej _).bind fun _ h => h
    case isFalse => exact hsame

end Rules

/-! ## Steps by equations -/

section Step

/-- The child polls for acks: in the drain loop, or on a full window. -/
def Server.Listening (σ : Server W) : Prop :=
  σ.pc = .fill ∧ σ.window.isFull = true ∨ σ.pc = .drain

instance (σ : Server W) : Decidable σ.Listening := inferInstanceAs (Decidable (_ ∧ _ ∨ _))

/-- The child after an ack from `a` that left it the window `q`; only the wait on a full window
counts its timeouts afresh. -/
def Server.heard (σ : Server W) (a : SockAddr) (q : CircularQueue W) : Server W :=
  { σ with
    window := q
    info := { σ.info with clientAddr := a }
    timeoutCount := if σ.pc = .fill then 0 else σ.timeoutCount }

variable {host} {σ : Server W} {stale : Bytes} {d : Datagram}

theorem Server.Listening.pc_ne_aborted (hl : σ.Listening) (fault : Fault) :
    σ.pc ≠ .aborted fault := by
  rcases hl with ⟨hpc, -⟩ | hpc <;> simp [hpc]

/-- A read larger than the array. -/
theorem sendNext_of_long {rest : Bytes} (hfile : σ.info.file = some rest)
    (hbig : MAXBUF < (rest.take σ.info.bufferSize.toNat).length) :
    sendNext host σ = .error .overflow := by
  simp only [sendNext, hfile, if_pos hbig]

/-- A read at the end of the file. -/
theorem sendNext_of_nil {rest : Bytes} (hfile : σ.info.file = some rest)
    (hnil : rest.take σ.info.bufferSize.toNat = []) :
    sendNext host σ = .ok ({ σ with
        pc := .next .waitOnEofAck
        info := { σ.info with
          eofPacket := createPDU host σ.sequenceNum 10 []
          eofSeq := σ.sequenceNum } },
      [⟨σ.info.clientAddr, createPDU host σ.sequenceNum 10 []⟩]) := by
  simp [sendNext, hfile, hnil]

/-- A read that comes back with a payload. -/
theorem sendNext_of_payload {rest payload : Bytes} {q : CircularQueue W} {ok : Bool}
    (hfile : σ.info.file = some rest) (hread : rest.take σ.info.bufferSize.toNat = payload)
    (hfits : payload.length ≤ MAXBUF) (hne : payload ≠ [])
    (hinsert : σ.window.insert true σ.sequenceNum (createPDU host σ.sequenceNum 16 payload)
      = .ok (q, ok)) :
    sendNext host σ = .ok ({ σ with
        pc := .drain
        window := q
        info := { σ.info with file := some (rest.drop σ.info.bufferSize.toNat) }
        sequenceNum := σ.sequenceNum + 1 },
      [⟨σ.info.clientAddr, createPDU host σ.sequenceNum 16 payload⟩]) := by
  simp only [sendNext, hfile, hread, if_neg (Nat.not_lt.mpr hfits),
    if_neg (List.length_eq_zero_iff.not.mpr hne), hinsert]
  rfl

theorem Server.step_run (host : Host) (hpc : σ.pc = .fill) (hroom : σ.window.isFull = false) :
    σ.step host .run = some (σ.settle (sendNext host σ)) := by
  simp [Server.step, hpc, hroom]

theorem Server.step_receive (hl : σ.Listening) (q : CircularQueue W) (sends : List Send)
    (hack : waitOnAckState host σ.window σ.info (some (safeRecvfrom stale 7 d))
      = .ok (.sendData, q, { σ.info with clientAddr := d.srcAddr }, sends)) :
    σ.step host (.receive stale d) = some (σ.heard d.srcAddr q, sends) := by
  rcases hl with ⟨hpc, hfull⟩ | hpc
  · simp only [Server.step, hpc, hfull, Server.receiveAck, hack, Server.heard, if_true]
    rfl
  · simp only [Server.step, hpc, Server.receiveAck, hack, Server.heard]
    rfl

theorem Server.step_receive_fault (hl : σ.Listening) (fault : Fault)
    (hack : waitOnAckState host σ.window σ.info (some (safeRecvfrom stale 7 d))
      = .error fault) :
    σ.step host (.receive stale d) = some ({ σ with pc := .aborted fault }, []) := by
  rcases hl with ⟨hpc, hfull⟩ | hpc
  · simp only [Server.step, hpc, hfull, Server.receiveAck, hack, if_true]
    rfl
  · simp only [Server.step, hpc, Server.receiveAck, hack]
    rfl

/-- A datagram in `WAIT_ON_EOF_ACK` ends the child or leaves it waiting. -/
theorem waitOnEofAckState_some (host : Host) (info : ServerInfo) (r : Received) :
    ∃ state, (state = .done ∨ state = .waitOnEofAck)
      ∧ waitOnEofAckState host info (some r) = (state, { info with clientAddr := r.srcAddr }) := by
  simp only [waitOnEofAckState]
  split
  · exact ⟨_, .inl rfl, rfl⟩
  · exact ⟨_, .inr rfl, rfl⟩

/-- `wait_on_ack_state` goes back to `SEND_DATA`, and has only let the datagram say where to. -/
theorem waitOnAckState_some (q : CircularQueue W) (info : ServerInfo) (r : Received) :
    Outcome (fun _ => True)
      (fun x => (∃ q' sends, x = (.sendData, q', { info with clientAddr := r.srcAddr }, sends))
        ∧ ∀ m ∈ x.2.2.2, m.dest = r.srcAddr)
      (waitOnAckState host q info (some r)) :=
  waitOnAckState_rule
    (.of_cases (fun _ _ => trivial) fun _ _ => ⟨⟨_, _, rfl⟩, by simp⟩)
    (.of_cases (fun _ _ => trivial) fun _ _ => trivial)
    (fun _ => .of_cases (fun _ _ => trivial) fun _ _ => ⟨⟨_, _, rfl⟩, by simp⟩)
    ⟨⟨_, _, rfl⟩, by simp⟩

/-- **The kinds of steps** — what the child computes in each state it can take a step from. -/
inductive Server.StepCase (host : Host) (σ : Server W) : ServerEvent → Server W × List Send → Prop
  | read (hpc : σ.pc = .fill) (hroom : σ.window.isFull = false) :
      StepCase host σ .run (σ.settle (sendNext host σ))
  | timeout (hpc : σ.pc = .fill) (hfull : σ.window.isFull = true) :
      StepCase host σ .quiet (σ.settle (resendOldest host σ))
  | drained (hpc : σ.pc = .drain) :
      StepCase host σ .quiet ({ σ with pc := .fill, timeoutCount := 0 }, [])
  | acked (hl : σ.Listening) {stale : Bytes} {d : Datagram} {q : CircularQueue W}
      {sends : List Send}
      (hack : waitOnAckState host σ.window σ.info (some (safeRecvfrom stale 7 d))
        = .ok (.sendData, q, { σ.info with clientAddr := d.srcAddr }, sends)) :
      StepCase host σ (.receive stale d) (σ.heard d.srcAddr q, sends)
  | ackFault (hl : σ.Listening) {stale : Bytes} {d : Datagram} {fault : Fault}
      (hack : waitOnAckState host σ.window σ.info (some (safeRecvfrom stale 7 d))
        = .error fault) :
      StepCase host σ (.receive stale d) ({ σ with pc := .aborted fault }, [])
  | eofQuiet (hpc : σ.pc = .next .waitOnEofAck) :
      StepCase host σ .quiet ({ σ with pc := .next .resendEof }, [])
  | eofHeard (hpc : σ.pc = .next .waitOnEofAck) {stale : Bytes} {d : Datagram}
      (state : ServerState) : StepCase host σ (.receive stale d)
        ({ σ with pc := .next state, info := { σ.info with clientAddr := d.srcAddr } }, [])
  | eofResend (hpc : σ.pc = .next .resendEof) :
      StepCase host σ .run ({ σ with
          pc := .next (resendEofState σ.info).1
          info := (resendEofState σ.info).2.1 }, (resendEofState σ.info).2.2)

/-- A child that was aborted stays where it is. -/
theorem Server.step_of_aborted {fault : Fault} (hpc : σ.pc = .aborted fault) (ev : ServerEvent) :
    σ.step host ev = none := by
  cases ev <;> simp [Server.step, hpc]

/-- A datagram the child listened for was either handled or fatal. -/
theorem Server.Listening.stepCase (hl : σ.Listening) {r : Server W × List Send}
    (h : σ.step host (.receive stale d) = some r) : StepCase host σ (.receive stale d) r := by
  cases hack : waitOnAckState host σ.window σ.info (some (safeRecvfrom stale 7 d)) with
  | error fault =>
    obtain rfl := Option.some_inj.mp ((Server.step_receive_fault hl fault hack).symm.trans h)
    exact .ackFault hl hack
  | ok x =>
    obtain ⟨⟨q, sends, rfl⟩, -⟩ := (waitOnAckState_some _ _ _).of_ok hack
    obtain rfl := Option.some_inj.mp ((Server.step_receive hl q sends hack).symm.trans h)
    exact .acked hl hack

/-- A run is a read or a resend of the EOF. -/
theorem Server.stepCase_run {r : Server W × List Send} (h : σ.step host .run = some r) :
    StepCase host σ .run r := by
  simp only [Server.step] at h
  split at h
  case _ hpc =>
    cases hfull : σ.window.isFull with
    | true => simp [hfull] at h
    | false =>
      obtain rfl : σ.settle (sendNext host σ) = r := by simpa [hfull] using h
      exact .read hpc hfull
  case _ hpc =>
    obtain rfl := Option.some_inj.mp h
    exact .eofResend hpc
  case _ => cases h

/-- A poll that finds nothing is a timeout or the end of a drain. -/
theorem Server.stepCase_quiet {r : Server W × List Send} (h : σ.step host .quiet = some r) :
    StepCase host σ .quiet r := by
  simp only [Server.step] at h
  split at h
  case _ hpc =>
    cases hfull : σ.window.isFull with
    | false => simp [hfull] at h
    | true =>
      obtain rfl : σ.settle (resendOldest host σ) = r := by simpa [hfull] using h
      exact .timeout hpc hfull
  case _ hpc =>
    obtain rfl := Option.some_inj.mp h
    exact .drained hpc
  case _ hpc =>
    obtain rfl := Option.some_inj.mp h
    exact .eofQuiet hpc
  case _ => cases h

/-- A datagram is an ack, or comes while the child waits for the ack of its EOF. -/
theorem Server.stepCase_receive {r : Server W × List Send}
    (h : σ.step host (.receive stale d) = some r) : StepCase host σ (.receive stale d) r := by
  cases hpc : σ.pc with
  | fill =>
    cases hfull : σ.window.isFull with
    | true => exact Server.Listening.stepCase (.inl ⟨hpc, hfull⟩) h
    | false => simp [Server.step, hpc, hfull] at h
  | drain => exact Server.Listening.stepCase (.inr hpc) h
  | next state =>
    cases state with
    | waitOnEofAck =>
      obtain ⟨state, -, heq⟩ := waitOnEofAckState_some host σ.info (safeRecvfrom stale MAXBUF d)
      simp only [Server.step, hpc, heq] at h
      obtain rfl := Option.some_inj.mp h
      exact .eofHeard hpc state
    | _ => simp [Server.step, hpc] at h
  | aborted fault => simp [Server.step, hpc] at h

/-- **Every step is of one of the kinds.** -/
theorem Server.step_cases {ev : ServerEvent} {r : Server W × List Send}
    (h : σ.step host ev = some r) : StepCase host σ ev r := by
  cases ev with
  | run => exact Server.stepCase_run h
  | quiet => exact Server.stepCase_quiet h
  | receive stale d => exact Server.stepCase_receive h

end Step

/-! ## The invariant -/

section Effect

variable [NeZero W]

/-- **The child's window is open up to `sequenceNum`** over the chunks of the file, and the file is
read up to there, in reads that fit the array; while the child waits for the ack of its EOF it has
read all of it. -/
structure Server.Inv (σ : Server W) (w : SlidingWindow W) : Prop where
  holds : σ.window.Holds w (dataPDU host b src)
  next : w.next = σ.sequenceNum.toNat
  pos : 1 ≤ w.base
  bufferSize : σ.info.bufferSize.toNat = b
  file : σ.info.file = some (src.drop ((w.next - 1) * b))
  short : ∀ s, 1 ≤ s → s < w.next → (chunk b src s).length ≤ MAXBUF
  le_numChunks : w.next ≤ numChunks b src + 1
  eof : σ.pc = .next .waitOnEofAck ∨ σ.pc = .next .resendEof →
    w.next = numChunks b src + 1 ∧ σ.info.eofSeq = σ.sequenceNum
      ∧ σ.info.eofPacket = createPDU host σ.sequenceNum 10 []

/-- **Everything a step can do** out of a state with the window `w`. -/
inductive Effect (σ : Server W) (w : SlidingWindow W) :
    ServerEvent → Server W → SlidingWindow W → List Send → Prop
  /-- The next chunk goes out and into the window. -/
  | sent (q : CircularQueue W) (hpc : σ.pc = .fill) (hroom : ¬ w.Full)
      (hmore : w.next ≤ numChunks b src) :
      Effect σ w .run
        { σ with
          pc := .drain
          window := q
          info := { σ.info with file := some (src.drop (w.next * b)) }
          sequenceNum := σ.sequenceNum + 1 }
        (w.push hroom) [⟨σ.info.clientAddr, dataPDU host b src w.next⟩]
  /-- The file is at its end, whatever is still in the window. -/
  | eof (hpc : σ.pc = .fill) (hroom : ¬ w.Full) (hend : w.next = numChunks b src + 1) :
      Effect σ w .run
        { σ with
          pc := .next .waitOnEofAck
          info := { σ.info with
            eofPacket := createPDU host σ.sequenceNum 10 []
            eofSeq := σ.sequenceNum } }
        w [⟨σ.info.clientAddr, createPDU host σ.sequenceNum 10 []⟩]
  /-- A read larger than the array it goes to. -/
  | overflow (hpc : σ.pc = .fill) (hbig : MAXBUF < b) :
      Effect σ w .run { σ with pc := .aborted .overflow } w []
  /-- A timeout resends the member in the first slot. -/
  | resent (s : ℕ) (hpc : σ.pc = .fill) (hfull : w.Full) (hs : s ∈ w)
      (hslot : slot W s = slot W 0) :
      Effect σ w .quiet
        { σ with
          pc := if σ.timeoutCount + 1 ≥ 10 then .next .done else .fill
          timeoutCount := σ.timeoutCount + 1 }
        w [⟨σ.info.clientAddr, createPDU host (UInt32.ofNat s) 18 (chunk b src s)⟩]
  /-- No more acks are waiting. -/
  | drained (hpc : σ.pc = .drain) :
      Effect σ w .quiet { σ with pc := .fill, timeoutCount := 0 } w []
  /-- An RR lets go of everything below its number. -/
  | released (q : CircularQueue W) (hl : σ.Listening) {stale : Bytes} {d : Datagram}
      (hflag : (safeRecvfrom stale 7 d).flag = 5) :
      Effect σ w (.receive stale d) (σ.heard d.srcAddr q)
        (w.release ((safeRecvfrom stale 7 d).seqNum host).toNat) []
  /-- A SREJ is answered with the member in the slot of its number. -/
  | answered (s : ℕ) (hl : σ.Listening) {stale : Bytes} {d : Datagram}
      (hflag : (safeRecvfrom stale 7 d).flag = 6) (hs : s ∈ w)
      (hslot : slot W s = slot W ((safeRecvfrom stale 7 d).seqNum host).toNat) :
      Effect σ w (.receive stale d) (σ.heard d.srcAddr σ.window) w
        [⟨d.srcAddr, createPDU host ((safeRecvfrom stale 7 d).seqNum host) 17 (chunk b src s)⟩]
  /-- A SREJ for the number a free slot still records is not answered. -/
  | refused (hl : σ.Listening) {stale : Bytes} {d : Datagram}
      (hflag : (safeRecvfrom stale 7 d).flag = 6)
      (hfree : (σ.window.entries
        (slot W ((safeRecvfrom stale 7 d).seqNum host).toNat)).valid = false)
      (hseq : (σ.window.entries
        (slot W ((safeRecvfrom stale 7 d).seqNum host).toNat)).sequenceNum
          = (safeRecvfrom stale 7 d).seqNum host) :
      Effect σ w (.receive stale d) (σ.heard d.srcAddr σ.window) w []
  /-- A SREJ for another number is answered from a free slot. -/
  | faulted (hl : σ.Listening) {stale : Bytes} {d : Datagram}
      (hflag : (safeRecvfrom stale 7 d).flag = 6)
      (hfree : (σ.window.entries
        (slot W ((safeRecvfrom stale 7 d).seqNum host).toNat)).valid = false)
      (hseq : (σ.window.entries
        (slot W ((safeRecvfrom stale 7 d).seqNum host).toNat)).sequenceNum
          ≠ (safeRecvfrom stale 7 d).seqNum host) :
      Effect σ w (.receive stale d) { σ with pc := .aborted .nullPacket } w []
  /-- Any other datagram only changes where the next PDU goes. -/
  | ignored (hl : σ.Listening) {stale : Bytes} {d : Datagram}
      (hflag : (safeRecvfrom stale 7 d).flag ≠ 5 ∧ (safeRecvfrom stale 7 d).flag ≠ 6) :
      Effect σ w (.receive stale d) (σ.heard d.srcAddr σ.window) w []
  /-- No ack of the EOF came. -/
  | eofQuiet (hpc : σ.pc = .next .waitOnEofAck) :
      Effect σ w .quiet { σ with pc := .next .resendEof } w []
  /-- The EOF goes out again. -/
  | eofResent (hpc : σ.pc = .next .resendEof) (hcount : σ.info.eofResendCount < 10) :
      Effect σ w .run
        { σ with
          pc := .next .waitOnEofAck
          info := { σ.info with eofResendCount := σ.info.eofResendCount + 1 } }
        w [⟨σ.info.clientAddr, σ.info.eofPacket⟩]
  /-- Ten resends are enough. -/
  | gaveUp (hpc : σ.pc = .next .resendEof) (hcount : 10 ≤ σ.info.eofResendCount) :
      Effect σ w .run { σ with pc := .next .done } w []
  /-- A datagram while waiting for the ack of the EOF. -/
  | eofHeard (state : ServerState) (hpc : σ.pc = .next .waitOnEofAck) {stale : Bytes}
      {d : Datagram} (hstate : state = .done ∨ state = .waitOnEofAck) :
      Effect σ w (.receive stale d)
        { σ with pc := .next state, info := { σ.info with clientAddr := d.srcAddr } } w []

variable {host b src} {σ σ' : Server W} {w : SlidingWindow W} {ev : ServerEvent} {sends : List Send}

/-- The child on entry, its window empty. -/
theorem Server.inv_enter (a : SockAddr) (windowSize bufferSize : UInt16) :
    Server.Inv host bufferSize.toNat src (Server.enter W a src windowSize bufferSize)
      (.empty 1) where
  holds := CircularQueue.holds_init _
  next := rfl
  pos := le_rfl
  bufferSize := rfl
  file := by simp [Server.enter]
  short s hs hlt := by simp at hlt; omega
  le_numChunks := by simp
  eof h := by simp [Server.enter] at h

namespace Server.Inv

/-- The address and the timeout counter play no part. -/
theorem heard (h : Inv host b src σ w) (a : SockAddr) :
    Inv host b src (σ.heard a σ.window) w :=
  ⟨h.holds, h.next, h.pos, h.bufferSize, h.file, h.short, h.le_numChunks, h.eof⟩

/-- A child that is not waiting for the ack of an EOF may stand anywhere else that is not. -/
theorem move (h : Inv host b src σ w) {pc : ServerPc} (hpc : pc ≠ .next .waitOnEofAck)
    (hpc' : pc ≠ .next .resendEof) (n : ℕ) :
    Inv host b src { σ with pc := pc, timeoutCount := n } w :=
  ⟨h.holds, h.next, h.pos, h.bufferSize, h.file, h.short, h.le_numChunks,
    fun hor => (hor.elim hpc hpc').elim⟩

/-- A step that is taken, with what it does; the window after it is found along the way. -/
def Takes (host : Host) (b : ℕ) (src : Bytes) (σ : Server W) (w : SlidingWindow W)
    (ev : ServerEvent) : Prop :=
  ∃ σ' w' sends, σ.step host ev = some (σ', sends) ∧ Effect host b src σ w ev σ' w' sends
    ∧ Inv host b src σ' w'

/-! ## Sending -/

section Read

variable (h : Inv host b src σ w) (hroom : ¬ w.Full)

include h

theorem read_eq : (src.drop ((w.next - 1) * b)).take σ.info.bufferSize.toNat
    = chunk b src w.next := by
  rw [h.bufferSize, chunk]

theorem dataPDU_next : createPDU host σ.sequenceNum 16 (chunk b src w.next)
    = dataPDU host b src w.next := by
  rw [dataPDU, h.next, UInt32.ofNat_toNat]

theorem drop_read :
    (src.drop ((w.next - 1) * b)).drop σ.info.bufferSize.toNat = src.drop (w.next * b) := by
  rw [List.drop_drop, h.bufferSize, ← Nat.succ_mul, Nat.succ_eq_add_one,
    Nat.sub_add_cancel (h.pos.trans w.base_le)]

/-- **The step that sends the next chunk**, whatever its number. -/
theorem step_sent (hpc : σ.pc = .fill) (hmore : w.next ≤ numChunks b src)
    (hfits : (chunk b src w.next).length ≤ MAXBUF) :
    ∃ q, σ.step host .run = some ({ σ with
          pc := .drain
          window := q
          info := { σ.info with file := some (src.drop (w.next * b)) }
          sequenceNum := σ.sequenceNum + 1 },
        [⟨σ.info.clientAddr, dataPDU host b src w.next⟩])
      ∧ q.Holds (w.push hroom) (dataPDU host b src) := by
  have hstep := Server.step_run host hpc (h.holds.isFull_eq_false_iff.mpr hroom)
  obtain ⟨q, hinsert, hq⟩ := h.holds.insert hroom h.next.symm
  rw [sendNext_of_payload h.file h.read_eq hfits
    ((chunk_ne_nil_iff (h.pos.trans w.base_le)).mpr hmore)
    (by rw [h.dataPDU_next, hinsert]), h.drop_read, h.dataPDU_next] at hstep
  exact ⟨q, hstep, hq⟩

/-- The child with the next chunk in its window, whose number is not the last there is. -/
theorem sent (hlast : w.next < 4294967295) {q : CircularQueue W}
    (hq : q.Holds (w.push hroom) (dataPDU host b src)) (hmore : w.next ≤ numChunks b src)
    (hfits : (chunk b src w.next).length ≤ MAXBUF) :
    Inv host b src { σ with
      pc := .drain
      window := q
      info := { σ.info with file := some (src.drop (w.next * b)) }
      sequenceNum := σ.sequenceNum + 1 } (w.push hroom) where
  holds := hq
  next := by
    have := h.next
    change w.next + 1 = (σ.sequenceNum + 1).toNat
    rw [UInt32.toNat_add, UInt32.toNat_one]
    omega
  pos := h.pos
  bufferSize := h.bufferSize
  file := rfl
  short s hs hlt := by
    rcases Nat.lt_succ_iff_lt_or_eq.mp hlt with hlt | rfl
    · exact h.short s hs hlt
    · exact hfits
  le_numChunks := Nat.succ_le_succ hmore
  eof := by simp

/-- **One read of the file**: the next chunk, or the end of the file. -/
theorem takes_run (hlast : w.next ≤ numChunks b src → w.next < 4294967295) (hpc : σ.pc = .fill)
    (hroom : ¬ w.Full) : Takes host b src σ w .run := by
  have hstep := Server.step_run host hpc (h.holds.isFull_eq_false_iff.mpr hroom)
  have hpos : 1 ≤ w.next := h.pos.trans w.base_le
  by_cases hbig : MAXBUF < (chunk b src w.next).length
  · rw [sendNext_of_long h.file (h.read_eq ▸ hbig)] at hstep
    exact ⟨_, w, _, hstep, .overflow hpc (hbig.trans_le (length_chunk_le b src _)),
      h.move (by simp) (by simp) σ.timeoutCount⟩
  rcases h.le_numChunks.lt_or_eq with hmore | hend
  · have hmore := Nat.lt_succ_iff.mp hmore
    have hfits := Nat.le_of_not_lt hbig
    obtain ⟨q, hstep, hq⟩ := h.step_sent hroom hpc hmore hfits
    exact ⟨_, _, _, hstep, .sent q hpc hroom hmore, h.sent hroom (hlast hmore) hq hmore hfits⟩
  · have hnil : chunk b src w.next = [] := by
      by_contra hne
      have := (chunk_ne_nil_iff hpos).mp hne
      omega
    rw [sendNext_of_nil h.file (h.read_eq.trans hnil)] at hstep
    exact ⟨_, w, _, hstep, .eof hpc hroom hend, h.holds, h.next, h.pos, h.bufferSize, h.file,
      h.short, h.le_numChunks, fun _ => ⟨hend, rfl, rfl⟩⟩

end Read

/-- **A timeout on a full window** resends the member in the first slot. -/
theorem takes_quiet (h : Inv host b src σ w) (hpc : σ.pc = .fill) (hfull : w.Full) :
    Takes host b src σ w .quiet := by
  have hstep : σ.step host .quiet = some (σ.settle (resendOldest host σ)) := by
    simp [Server.step, hpc, h.holds.isFull_iff.mpr hfull]
  have hfirst := h.holds.firstValid_of_full hfull
  obtain ⟨s, hs, hslot⟩ := h.holds.firstValid hfirst
  have hentry := h.holds.stored s hs
  rw [hslot] at hentry
  rw [resendOldest_eq host hfirst hentry] at hstep
  refine ⟨_, w, _, hstep, .resent s hpc hfull hs hslot, h.move ?_ ?_ _⟩ <;> split <;> simp

/-! ## Receiving -/

section Receive

variable {stale : Bytes} {d : Datagram}

/-- **An RR**, whatever its number. -/
theorem takes_rr (h : Inv host b src σ w) (hl : σ.Listening)
    (hrr : (safeRecvfrom stale 7 d).flag = 5) : Takes host b src σ w (.receive stale d) := by
  set r := safeRecvfrom stale 7 d with hr
  obtain ⟨q, hq, hholds⟩ := h.holds.removeUpTo h.pos (k := (r.seqNum host).toNat - 1)
    (by have := (r.seqNum host).toNat_lt; omega)
  rw [SlidingWindow.release_pred_succ h.pos] at hholds
  refine ⟨_, _, _, Server.step_receive hl q [] ?_, .released q hl hrr, ?_⟩
  · simp only [waitOnAckState, ← hr, if_pos hrr, hq, bind, Except.bind]
    rfl
  · exact ⟨hholds, h.next, h.pos.trans (le_max_left _ _), h.bufferSize, h.file, h.short,
      h.le_numChunks, h.eof⟩

/-- **A SREJ that meets a packet**, whatever its number. -/
theorem takes_srej_of_valid (h : Inv host b src σ w) (hl : σ.Listening)
    (hsrej : (safeRecvfrom stale 7 d).flag = 6)
    (hv : (σ.window.entries
      (slot W ((safeRecvfrom stale 7 d).seqNum host).toNat)).valid = true) :
    Takes host b src σ w (.receive stale d) := by
  set r := safeRecvfrom stale 7 d with hr
  have hrr : ¬ r.flag = 5 := by
    rw [hsrej]
    decide
  obtain ⟨s, hs, hslot⟩ := h.holds.valid_iff.mp hv
  have hget := CircularQueue.get_eq_some (.inl hv)
  have hentry := h.holds.stored s hs
  rw [hslot] at hentry
  refine ⟨_, _, _, Server.step_receive hl σ.window _ ?_, .answered s hl hsrej hs hslot, h.heard _⟩
  simp only [waitOnAckState, ← hr, if_neg hrr, if_pos hsrej, hget, hentry, dataPDU,
    rebuild_createPDU, bind, Except.bind]
  rfl

/-- **A SREJ that meets a free slot**: `get` returns the slot if it carries another number. -/
theorem takes_srej_of_free (h : Inv host b src σ w) (hl : σ.Listening)
    (hsrej : (safeRecvfrom stale 7 d).flag = 6)
    (hv : (σ.window.entries
      (slot W ((safeRecvfrom stale 7 d).seqNum host).toNat)).valid = false) :
    Takes host b src σ w (.receive stale d) := by
  set r := safeRecvfrom stale 7 d with hr
  have hrr : ¬ r.flag = 5 := by
    rw [hsrej]
    decide
  by_cases hseq : (σ.window.entries (slot W (r.seqNum host).toNat)).sequenceNum = r.seqNum host
  · have hget := CircularQueue.get_eq_none hv hseq
    refine ⟨_, _, _, Server.step_receive hl σ.window [] ?_, .refused hl hsrej hv hseq, h.heard _⟩
    simp only [waitOnAckState, ← hr, if_neg hrr, if_pos hsrej, hget, bind, Except.bind]
    rfl
  · have hget := CircularQueue.get_eq_some (.inr hseq)
    refine ⟨_, _, _, Server.step_receive_fault hl .nullPacket ?_, .faulted hl hsrej hv hseq,
      h.move (by simp) (by simp) σ.timeoutCount⟩
    simp only [waitOnAckState, ← hr, if_neg hrr, if_pos hsrej, hget, bind, Except.bind,
      QueueEntry.rebuild, h.holds.vacant_of_not_valid hv]

/-- **A datagram in `send_data_state`**, whatever it carries. -/
theorem takes_receive (h : Inv host b src σ w) (hl : σ.Listening) (stale : Bytes) (d : Datagram) :
    Takes host b src σ w (.receive stale d) := by
  by_cases hrr : (safeRecvfrom stale 7 d).flag = 5
  · exact h.takes_rr hl hrr
  by_cases hsrej : (safeRecvfrom stale 7 d).flag = 6
  · cases hv : (σ.window.entries
      (slot W ((safeRecvfrom stale 7 d).seqNum host).toNat)).valid with
    | true => exact h.takes_srej_of_valid hl hsrej hv
    | false => exact h.takes_srej_of_free hl hsrej hv
  · refine ⟨_, _, _, Server.step_receive hl σ.window [] ?_, .ignored hl ⟨hrr, hsrej⟩, h.heard _⟩
    simp only [waitOnAckState, if_neg hrr, if_neg hsrej]
    rfl

/-- **An RR releases** everything below its number. -/
theorem step_rr (h : Inv host b src σ w) (hl : σ.Listening) (n : UInt32) (stale : Bytes)
    (a : SockAddr) :
    ∃ q, σ.step host (.receive stale ⟨a, rrPDU host n⟩) = some (σ.heard a q, [])
      ∧ Inv host b src (σ.heard a q) (w.release n.toNat) := by
  obtain ⟨σ', w', sends, hstep, he, hi⟩ :=
    h.takes_receive hl stale ⟨a, rrPDU host n⟩
  have hflag : (safeRecvfrom stale 7 ⟨a, rrPDU host n⟩).flag = 5 :=
    flag_controlPDU host n 5 stale a le_rfl
  have hseq : (safeRecvfrom stale 7 ⟨a, rrPDU host n⟩).seqNum host = n :=
    seqNum_controlPDU host n 5 stale a le_rfl
  cases he with
  | released q hl' hf =>
    rw [hseq] at hi
    exact ⟨q, hstep, hi⟩
  | answered s hl' hf | refused hl' hf | faulted hl' hf =>
    exact absurd (hflag.symm.trans hf) (by decide)
  | ignored hl' hf => exact absurd hflag hf.1
  | eofHeard state hpc => rcases hl with ⟨hpc', -⟩ | hpc' <;> simp [hpc] at hpc'

/-- **A SREJ for a member is answered** with that member. -/
theorem step_srej (h : Inv host b src σ w) (hl : σ.Listening) {n : UInt32} (hn : n.toNat ∈ w)
    (stale : Bytes) (a : SockAddr) :
    σ.step host (.receive stale ⟨a, srejPDU host n⟩)
      = some (σ.heard a σ.window, [⟨a, createPDU host n 17 (chunk b src n.toNat)⟩]) := by
  obtain ⟨σ', w', sends, hstep, he, -⟩ :=
    h.takes_receive hl stale ⟨a, srejPDU host n⟩
  have hflag : (safeRecvfrom stale 7 ⟨a, srejPDU host n⟩).flag = 6 :=
    flag_controlPDU host n 6 stale a le_rfl
  have hseq : (safeRecvfrom stale 7 ⟨a, srejPDU host n⟩).seqNum host = n :=
    seqNum_controlPDU host n 6 stale a le_rfl
  have hvalid := h.holds.valid_iff.mpr ⟨n.toNat, hn, rfl⟩
  cases he with
  | answered s hl' hf hs hslot =>
    rw [hseq] at hstep hslot
    rw [hstep, SlidingWindow.eq_of_mod_eq hs hn (CircularQueue.slot_eq_iff.mp hslot)]
  | released q hl' hf => exact absurd (hflag.symm.trans hf) (by decide)
  | ignored hl' hf => exact absurd hflag hf.2
  | refused hl' hf hfree | faulted hl' hf hfree =>
    rw [hseq, hvalid] at hfree
    cases hfree
  | eofHeard state hpc => rcases hl with ⟨hpc', -⟩ | hpc' <;> simp [hpc] at hpc'

end Receive

/-! ## The step -/

/-- The invariant says nothing of where the child waits for the ack of its EOF, or for whom. -/
theorem waiting (h : Inv host b src σ w)
    (hpc : σ.pc = .next .waitOnEofAck ∨ σ.pc = .next .resendEof) (pc : ServerPc) (a : SockAddr)
    (n : ℕ) : Inv host b src
      { σ with pc := pc, info := { σ.info with clientAddr := a, eofResendCount := n } } w :=
  ⟨h.holds, h.next, h.pos, h.bufferSize, h.file, h.short, h.le_numChunks, fun _ => h.eof hpc⟩

/-- A step of any kind does one of the listed things; only a send needs a number. -/
theorem takes (h : Inv host b src σ w)
    (hlast : ev = .run → w.next ≤ numChunks b src → w.next < 4294967295)
    {r : Server W × List Send} (hr : StepCase host σ ev r) : Takes host b src σ w ev := by
  cases hr with
  | read hpc hroom => exact h.takes_run (hlast rfl) hpc (h.holds.isFull_eq_false_iff.mp hroom)
  | timeout hpc hfull => exact h.takes_quiet hpc (h.holds.isFull_iff.mp hfull)
  | drained hpc =>
    exact ⟨_, w, [], by simp [Server.step, hpc], .drained hpc, h.move (by simp) (by simp) 0⟩
  | acked hl | ackFault hl => exact h.takes_receive hl _ _
  | eofQuiet hpc =>
    exact ⟨_, w, [], by simp [Server.step, hpc, waitOnEofAckState], .eofQuiet hpc,
      h.waiting (.inl hpc) _ _ _⟩
  | @eofHeard hpc stale d =>
    obtain ⟨state, hstate, heq⟩ := waitOnEofAckState_some host σ.info (safeRecvfrom stale MAXBUF d)
    exact ⟨_, w, [], by simp only [Server.step, hpc, heq]; rfl, .eofHeard state hpc hstate,
      h.waiting (.inl hpc) _ _ _⟩
  | eofResend hpc =>
    by_cases hcount : 10 ≤ σ.info.eofResendCount
    · exact ⟨_, w, [], by simp [Server.step, hpc, resendEofState, hcount], .gaveUp hpc hcount,
        h.move (by simp) (by simp) σ.timeoutCount⟩
    · exact ⟨_, w, [⟨σ.info.clientAddr, σ.info.eofPacket⟩],
        by simp [Server.step, hpc, resendEofState, hcount],
        .eofResent hpc (Nat.lt_of_not_le hcount), h.waiting (.inr hpc) _ _ _⟩

/-- **One step of the child does one of the listed things and keeps the invariant**, unless it sends
a packet under the last number there is. -/
theorem step_of_last (h : Inv host b src σ w)
    (hlast : ev = .run → w.next ≤ numChunks b src → w.next < 4294967295)
    (hs : σ.step host ev = some (σ', sends)) :
    ∃ w', Effect host b src σ w ev σ' w' sends ∧ Inv host b src σ' w' := by
  obtain ⟨σ₁, w', sends₁, hs₁, he, hi⟩ := h.takes hlast (Server.step_cases hs)
  obtain ⟨rfl, rfl⟩ : σ₁ = σ' ∧ sends₁ = sends := by simpa using hs₁.symm.trans hs
  exact ⟨w', he, hi⟩

/-- **One step of the child does one of the listed things and keeps the invariant.** -/
theorem step (h : Inv host b src σ w) (hK : numChunks b src < 4294967295)
    (hs : σ.step host ev = some (σ', sends)) :
    ∃ w', Effect host b src σ w ev σ' w' sends ∧ Inv host b src σ' w' :=
  h.step_of_last (fun _ hmore => hmore.trans_lt hK) hs

end Server.Inv

end Effect

end RemoteFileCopy
