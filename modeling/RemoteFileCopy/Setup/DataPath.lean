import RemoteFileCopy.Library.Outcome
import RemoteFileCopy.Server.Window
import RemoteFileCopy.Setup.ProcessClient

/-!
# Setup/DataPath — the sizes of a request, three functions later

    | window size, 2 | buffer size, 2 | from-filename |
           |                |                |
           |                |                +── filename[100]
           |                +── fread(payload, 1, bufferSize), payload[MAXBUF]
           +── sequenceNum % WindowSize

Neither `checkArgs` nor `filename_state` bounds the two sizes, so the data path is free of errors
exactly for the requests whose own fields are in bounds (`data_path_error_free_iff`).
-/

namespace RemoteFileCopy

open Transition

/-! ## The request -/

/-- The name a request spells, however long. -/
def Received.requestName (r : Received) : CString :=
  .ofBuffer ((r.buffer.drop 11).take (r.bytesRecv - 11))

/-- The window size a child ends up with. -/
def Received.requestWindow (host : Host) (r : Received) : UInt16 := loadU16 host.endian r.buffer 7

/-- The buffer size a child ends up with. -/
def Received.requestBuffer (host : Host) (r : Received) : UInt16 := loadU16 host.endian r.buffer 9

section Request

variable {host : Host} {fopen : CString → Option Bytes} {r : Received} {file : Bytes}

theorem requestedFilename_eq (h : 11 ≤ r.bytesRecv) :
    requestedFilename r.buffer r.bytesRecv
      = if r.bytesRecv ≤ 110 then .ok r.requestName else .error .overflow := by
  rw [requestedFilename, if_neg (by omega)]
  by_cases h110 : r.bytesRecv ≤ 110
  · rw [if_neg (by omega), if_pos h110]
    rfl
  · rw [if_pos (by omega), if_neg h110]

/-- What a child knows of its request when it waits for the ack. -/
def Received.opened (host : Host) (r : Received) (file : Bytes) : ServerInfo :=
  { ServerInfo.ofClient r.srcAddr with
    file := some file
    windowSize := r.requestWindow host
    bufferSize := r.requestBuffer host }

/-- **How a child starts** on a request for a file that opens. -/
theorem Child.start_eq (host : Host) (h11 : 11 ≤ r.bytesRecv)
    (hopen : fopen r.requestName = some file) :
    (Child.start host fopen r).1
      = if r.bytesRecv ≤ 110 then ⟨.next .writeFileOkAck, r.opened host file, 0⟩
        else ⟨.aborted .overflow, .ofClient r.srcAddr, 0⟩ := by
  have hname := requestedFilename_eq h11
  split at hname
  case isTrue h110 =>
    rw [Child.start, filenameState_eq_ok host fopen hname hopen, if_pos h110]
    rfl
  case isFalse h110 =>
    rw [Child.start, filenameState, hname, if_neg h110]
    rfl

end Request

/-! ## What a step of the data phase can fail on -/

/-- Neither a write past an array nor a remainder by zero. -/
def Fault.Avoided (fault : Fault) : Prop := fault ≠ .overflow ∧ fault ≠ .divideByZero

section Faults

variable {W : ℕ} [NeZero W] {host : Host}

namespace CircularQueue

theorem outcome_insert (q : CircularQueue W) (s : UInt32) (p : Bytes) :
    Outcome Fault.Avoided (fun _ => True) (q.insert true s p) := by
  rw [insert]
  split
  · trivial
  · rw [index_eq]
    change Outcome _ _ (if (q.entries (slot W s.toNat)).valid then _ else _)
    split <;> trivial

theorem outcome_get (q : CircularQueue W) (s : UInt32) :
    Outcome Fault.Avoided (fun _ => True) (q.get s) := by
  rw [get_eq]
  trivial

theorem outcome_removeUpTo (q : CircularQueue W) (k : ℕ) :
    Outcome Fault.Avoided (fun _ => True) (q.removeUpTo k) := by
  induction k with
  | zero => trivial
  | succ k ih =>
    refine ih.bind fun q' _ => ?_
    rw [remove_eq]
    trivial

end CircularQueue

/-- A retransmission can only fail on the packet it is about. -/
theorem QueueEntry.outcome_rebuild (entry : QueueEntry) (s : UInt32) (flag : UInt8) :
    Outcome Fault.Avoided (fun _ => True) (entry.rebuild host s flag) := by
  rw [QueueEntry.rebuild]
  split
  · exact ⟨Fault.noConfusion, Fault.noConfusion⟩
  · split
    · exact ⟨Fault.noConfusion, Fault.noConfusion⟩
    · trivial

theorem outcome_waitOnAckState (q : CircularQueue W) (info : ServerInfo) (r : Received) :
    Outcome Fault.Avoided (fun _ => True) (waitOnAckState host q info (some r)) :=
  waitOnAckState_rule (q.outcome_removeUpTo _) (q.outcome_get _)
    (fun entry => entry.outcome_rebuild _ _) trivial

end Faults

/-! ## The sizes stay in bounds -/

/-- **The data phase of a request with sizes in bounds**: a window that is not empty, the buffer
size `b`, and nothing left to read of an empty file. -/
structure Server.Sized {W : ℕ} (b : UInt16) (file : Bytes) (σ : Server W) : Prop where
  pos : 0 < W
  bufferSize : σ.info.bufferSize = b
  rest : ∃ rest, σ.info.file = some rest ∧ (file = [] → rest = [])
  avoided : ∀ fault, σ.pc = .aborted fault → fault.Avoided

section Sized

variable {W : ℕ} {host : Host} {b : UInt16} {file : Bytes} {σ : Server W}

/-- Where the child stands plays no part, unless it is aborted. -/
theorem Server.Sized.move (h : σ.Sized b file) {pc : ServerPc}
    (hpc : ∀ fault, pc = .aborted fault → fault.Avoided) (n : ℕ) :
    Server.Sized b file { σ with pc := pc, timeoutCount := n } :=
  ⟨h.pos, h.bufferSize, h.rest, hpc⟩

/-- It may be aborted by anything else. -/
theorem Server.Sized.abort (h : σ.Sized b file) {fault : Fault} (hfault : fault.Avoided) :
    Server.Sized b file { σ with pc := .aborted fault } :=
  h.move (fun _ hpc => ServerPc.aborted.inj hpc ▸ hfault) σ.timeoutCount

/-- A read within the array. -/
theorem Server.Sized.read (h : σ.Sized b file) (hb : b.toNat ≤ MAXBUF) :
    (σ.settle (sendNext host σ)).1.Sized b file := by
  have : NeZero W := ⟨h.pos.ne'⟩
  obtain ⟨rest, hrest, hempty⟩ := h.rest
  refine Server.settle_rule (Q := fun r => r.1.Sized b file) (sendNext_rule ?_ ?_ ?_ ?_)
  · exact fun _ => h.abort ⟨Fault.noConfusion, Fault.noConfusion⟩
  · intro rest' _ hbig
    rw [List.length_take, h.bufferSize] at hbig
    omega
  · exact ⟨h.pos, h.bufferSize, h.rest, by simp⟩
  · intro rest' payload hrest'
    obtain rfl := Option.some_inj.mp (hrest.symm.trans hrest')
    refine .of_cases (fun fault hfault => h.abort ?_) fun _ _ => ?_
    · exact (σ.window.outcome_insert _ _).of_error hfault
    · refine ⟨h.pos, h.bufferSize, ⟨_, rfl, fun hfile => ?_⟩, by simp⟩
      rw [hempty hfile, List.drop_nil]

theorem Server.Sized.timeout (h : σ.Sized b file) :
    (σ.settle (resendOldest host σ)).1.Sized b file := by
  have hpc (fault : Fault) : (if σ.timeoutCount + 1 ≥ 10 then .next .done else .fill)
      = ServerPc.aborted fault → fault.Avoided := by
    split <;> simp
  refine Server.settle_rule (Q := fun r => r.1.Sized b file)
    (resendOldest_rule (h.move hpc _) fun entry resentSeq => ?_)
  refine .of_cases (fun fault hfault => h.abort ?_) fun _ _ => h.move hpc _
  exact (entry.outcome_rebuild _ _).of_error hfault

/-- **The step lemma.** -/
theorem Server.Sized.step (h : σ.Sized b file) (hb : b.toNat ≤ MAXBUF) {ev : ServerEvent}
    {r : Server W × List Send} (hr : StepCase host σ ev r) : r.1.Sized b file := by
  have : NeZero W := ⟨h.pos.ne'⟩
  cases hr with
  | read => exact h.read hb
  | timeout => exact h.timeout
  | acked hl => exact ⟨h.pos, h.bufferSize, h.rest, h.avoided⟩
  | ackFault hl hack => exact h.abort ((outcome_waitOnAckState _ _ _).of_error hack)
  | drained | eofQuiet => exact h.move (by simp) _
  | eofHeard => exact ⟨h.pos, h.bufferSize, h.rest, by simp⟩
  | eofResend =>
    simp only [resendEofState]
    split <;> exact ⟨h.pos, h.bufferSize, h.rest, by simp⟩

end Sized

/-! ## A whole child -/

/-- Where a child stands. -/
def ProcessClient.pc : ProcessClient → ServerPc
  | .start _ => .next .filename
  | .handshake c => c.pc
  | .transfer σ => σ.pc

/-- What the `fread` of a step asks for, and what is left of the file. -/
def ProcessClient.read : ProcessClient → ServerEvent → Option (ℕ × Bytes)
  | .transfer σ, .run =>
    if σ.pc = .fill then σ.info.file.map fun rest => (σ.info.bufferSize.toNat, rest) else none
  | _, _ => none

/-- **A step without the errors of the data path** — its read fits `payload[MAXBUF]`, and has a size
if there is anything left to read; it writes past no array and takes no remainder by zero. -/
structure ErrorFree (x : Edge ProcessClient ServerEvent (List Send)) : Prop where
  fread : ∀ n rest, x.source.read x.event = some (n, rest) → n ≤ MAXBUF ∧ (n = 0 → rest = [])
  avoided : ∀ fault, x.target.pc = .aborted fault → fault.Avoided

/-- Once the data phase has begun only RRs and SREJs arrive, seven bytes each. -/
def AckStream : ProcessClient → ServerEvent → Prop
  | .transfer _, .receive _ d =>
    d.bytes.length = 7 ∧ (d.bytes.getD 6 0 = 5 ∨ d.bytes.getD 6 0 = 6)
  | _, _ => True

/-- **A request within the bounds of the server's arrays** — its name, a window, and a buffer size
that is zero for an empty file at most. -/
structure Received.InBounds (host : Host) (r : Received) (file : Bytes) : Prop where
  bytesRecv : r.bytesRecv ≤ 110
  window : 0 < (r.requestWindow host).toNat
  bufferSize : (r.requestBuffer host).toNat ≤ MAXBUF
  size : r.requestBuffer host = 0 → file = []

/-- What a child keeps of a request in bounds. -/
def ProcessClient.Sized (host : Host) (r : Received) (file : Bytes) : ProcessClient → Prop
  | .start r' => r' = r
  | .handshake c => (∀ fault, c.pc ≠ .aborted fault) ∧ c.info.file = some file
    ∧ c.info.windowSize = r.requestWindow host ∧ c.info.bufferSize = r.requestBuffer host
  | .transfer σ => σ.Sized (r.requestBuffer host) file

section Child

variable {host : Host} {fopen : CString → Option Bytes} {r : Received} {file : Bytes}
  {c c' : ProcessClient} {ev : ServerEvent} {sends : List Send}

theorem ProcessClient.Sized.avoided (h : c.Sized host r file) (fault : Fault)
    (hpc : c.pc = .aborted fault) : fault.Avoided := by
  cases c with
  | start => cases hpc
  | handshake c => exact absurd hpc (h.1 fault)
  | transfer σ => exact Server.Sized.avoided h fault hpc

/-- **A child keeps the sizes of its request in bounds.** -/
theorem ProcessClient.Sized.step (hr : r.InBounds host file) (h11 : 11 ≤ r.bytesRecv)
    (hopen : fopen r.requestName = some file) (h : c.Sized host r file)
    (hs : c.step host fopen ev = some (c', sends)) : c'.Sized host r file := by
  cases c with
  | start r' =>
    obtain rfl : r' = r := h
    cases ev with
    | run =>
      obtain ⟨rfl, -⟩ := by simpa [ProcessClient.step] using hs
      rw [Child.start_eq host h11 hopen, if_pos hr.bytesRecv]
      exact ⟨by simp, rfl, rfl, rfl⟩
    | quiet | receive stale d => simp [ProcessClient.step] at hs
  | handshake c =>
    obtain ⟨-, hfile, hwindow, hbuffer⟩ := h
    simp only [ProcessClient.step] at hs
    split at hs
    case _ | _ =>
      obtain ⟨rfl, -⟩ := by simpa using hs
      exact ⟨by simp [writeFileOkAckState], hfile, hwindow, hbuffer⟩
    case _ =>
      obtain ⟨rfl, -⟩ := by simpa using hs
      exact ⟨hwindow ▸ hr.window, hbuffer, ⟨file, hfile, id⟩, by simp [Server.start]⟩
    case _ => cases hs
  | transfer σ =>
    obtain ⟨⟨σ', sends'⟩, hstep, heq⟩ := Option.map_eq_some_iff.mp hs
    obtain ⟨rfl, -⟩ := by simpa using heq
    exact Server.Sized.step h hr.bufferSize (Server.step_cases hstep)

/-- Its reads are in bounds, too. -/
theorem ProcessClient.Sized.fread (hr : r.InBounds host file) (h : c.Sized host r file) {n : ℕ}
    {rest : Bytes} (hread : c.read ev = some (n, rest)) : n ≤ MAXBUF ∧ (n = 0 → rest = []) := by
  cases c with
  | start | handshake => cases hread
  | transfer σ =>
    obtain ⟨rest', hfile, hempty⟩ := Server.Sized.rest h
    cases ev with
    | quiet | receive => cases hread
    | run =>
      rw [ProcessClient.read, hfile] at hread
      split at hread
      case isTrue =>
        obtain ⟨rfl, rfl⟩ := by simpa using hread
        rw [Server.Sized.bufferSize h]
        exact ⟨hr.bufferSize, fun h0 => hempty (hr.size (UInt16.toNat_inj.mp h0))⟩
      case isFalse => cases hread

/-- **Some run reaches the data phase** of a request whose name fits. -/
theorem exists_run_transfer (host : Host) (h11 : 11 ≤ r.bytesRecv) (h110 : r.bytesRecv ≤ 110)
    (hopen : fopen r.requestName = some file) :
    ∃ es, Run (processClient host fopen) AckStream (.start r) es
      (.transfer (Server.start (r.opened host file))) := by
  have hstart := Child.start_eq host h11 hopen
  rw [if_pos h110] at hstart
  have hack : writeFileOkAckState ⟨.next .writeFileOkAck, r.opened host file, 0⟩
      (some (safeRecvfrom [] MAXBUF ⟨r.srcAddr, fileOkAckPDU host⟩))
        = ⟨.next .sendData, r.opened host file, 0⟩ := by
    have hflag : (safeRecvfrom [] MAXBUF ⟨r.srcAddr, fileOkAckPDU host⟩).flag = 34 :=
      flag_safeRecvfrom host 0 34 [] [] r.srcAddr (by decide)
    simp only [writeFileOkAckState, hflag, if_true]
    rfl
  have run₁ := Run.cons (M := processClient host fopen) (G := AckStream) .nil
    (show AckStream (.start r) .run from trivial) rfl
  rw [hstart] at run₁
  have run₂ := Run.cons run₁ (e := .receive [] ⟨r.srcAddr, fileOkAckPDU host⟩) trivial rfl
  rw [hack] at run₂
  exact ⟨_, Run.cons run₂ (e := .run) trivial rfl⟩

/-! ## Which requests are safe -/

/-- **The data path is free of errors** in every run on a request. -/
def ErrorFreeRuns (host : Host) (fopen : CString → Option Bytes) (r : Received) : Prop :=
  ∀ es c, Run (processClient host fopen) AckStream (.start r) es c → ∀ x ∈ es, ErrorFree x

theorem ErrorFreeRuns.edge (h : ErrorFreeRuns host fopen r)
    {es : List (Edge ProcessClient ServerEvent (List Send))}
    (run : Run (processClient host fopen) AckStream (.start r) es c) (hg : AckStream c ev)
    (hs : c.step host fopen ev = some (c', sends)) : ErrorFree ⟨c, ev, sends, c'⟩ :=
  h _ _ (run.cons hg hs) _ List.mem_cons_self

theorem isFull_start_iff (info : ServerInfo) :
    (Server.start info).window.isFull = true ↔ info.windowSize.toNat = 0 := by
  rw [CircularQueue.isFull, decide_eq_true_iff]
  exact Nat.cast_nonpos

/-- A longer name is written past the array of the name. -/
theorem ErrorFreeRuns.bytesRecv_le (h : ErrorFreeRuns host fopen r) (h11 : 11 ≤ r.bytesRecv)
    (hopen : fopen r.requestName = some file) : r.bytesRecv ≤ 110 := by
  by_contra h110
  have hedge := h.edge .nil (show AckStream (.start r) .run from trivial) rfl
  rw [Child.start_eq host h11 hopen, if_neg h110] at hedge
  exact (hedge.avoided .overflow rfl).1 rfl

/-- An empty window finds no slot for a number. -/
theorem waitOnAckState_of_zero {W : ℕ} (hW : W = 0) (q : CircularQueue W) (info : ServerInfo)
    {d : Received} (hflag : d.flag = 5) (hseq : d.seqNum host = 2) :
    waitOnAckState host q info (some d) = .error .divideByZero := by
  subst hW
  simp only [waitOnAckState, hflag, hseq, if_true]
  rfl

/-- A child with an empty window fails on the first RR that releases a packet. -/
theorem ErrorFreeRuns.window_pos (h : ErrorFreeRuns host fopen r) (h11 : 11 ≤ r.bytesRecv)
    (hopen : fopen r.requestName = some file) : 0 < (r.requestWindow host).toNat := by
  refine Nat.pos_of_ne_zero fun hzero => ?_
  obtain ⟨es, run⟩ := exists_run_transfer host h11 (h.bytesRecv_le h11 hopen) hopen
  have hfull := (isFull_start_iff (r.opened host file)).mpr hzero
  have hfault := waitOnAckState_of_zero hzero (Server.start (r.opened host file)).window
    (Server.start (r.opened host file)).info
    (flag_safeRecvfrom host 2 5 [] [] r.srcAddr le_rfl)
    (seqNum_safeRecvfrom host 2 5 [] [] r.srcAddr le_rfl)
  have hg : AckStream (.transfer (Server.start (r.opened host file)))
      (.receive [] ⟨r.srcAddr, createPDU host 2 5 []⟩) :=
    ⟨length_createPDU host 2 5 [], .inl (getD_createPDU host 2 5 [])⟩
  have hedge := h.edge run hg
    (congrArg (Option.map _) (Server.step_receive_fault (.inl ⟨rfl, hfull⟩) _ hfault))
  exact (hedge.avoided .divideByZero rfl).2 rfl

/-- The first read asks for the buffer size of the request. -/
theorem ErrorFreeRuns.bufferSize_le (h : ErrorFreeRuns host fopen r) (h11 : 11 ≤ r.bytesRecv)
    (hopen : fopen r.requestName = some file) :
    (r.requestBuffer host).toNat ≤ MAXBUF ∧ (r.requestBuffer host = 0 → file = []) := by
  obtain ⟨es, run⟩ := exists_run_transfer host h11 (h.bytesRecv_le h11 hopen) hopen
  have hroom : (Server.start (r.opened host file)).window.isFull = false := by
    rw [← Bool.not_eq_true, isFull_start_iff]
    exact (h.window_pos h11 hopen).ne'
  have hg : AckStream (.transfer (Server.start (r.opened host file))) .run := trivial
  have hedge := h.edge run hg (congrArg (Option.map _) (Server.step_run host rfl hroom))
  obtain ⟨hmax, hempty⟩ := hedge.fread (r.requestBuffer host).toNat file rfl
  exact ⟨hmax, fun h0 => hempty (UInt16.toNat_inj.mpr h0)⟩

/-- **When the data path is free of errors** — for a request of eleven bytes or more that spells the
name of a file that opens, in every run whose data phase hears RRs and SREJs only, exactly if the
request is in bounds. -/
theorem data_path_error_free_iff {host : Host} {fopen : CString → Option Bytes} {r : Received}
    {file : Bytes} (h11 : 11 ≤ r.bytesRecv) (hopen : fopen r.requestName = some file) :
    ErrorFreeRuns host fopen r ↔ r.InBounds host file := by
  constructor
  · intro h
    obtain ⟨hmax, hempty⟩ := h.bufferSize_le h11 hopen
    exact ⟨h.bytesRecv_le h11 hopen, h.window_pos h11 hopen, hmax, hempty⟩
  · intro hr es c run x hx
    obtain ⟨⟨es', before⟩, -, hstep⟩ := run.edge hx
    have hsource : x.source.Sized host r file := before.invariant (P := (·.Sized host r file)) rfl
      fun _ _ _ _ h _ hs => h.step hr h11 hopen hs
    exact ⟨fun n rest => hsource.fread hr, (hsource.step hr h11 hopen hstep).avoided⟩

/-- A request for a window of two and a buffer of one byte is in bounds. -/
theorem data_path_error_free_two : ErrorFreeRuns (.standard .little) (fun _ => some [65, 66])
    ⟨⟨1, 1⟩, createPDU (.standard .little) 0 8 [2, 0, 1, 0, 102], 12⟩ :=
  (data_path_error_free_iff (by decide) rfl).mpr
    ⟨by decide, by decide +kernel, by decide +kernel, fun h => absurd h (by decide +kernel)⟩

/-- **An ordinary command line asks for more than the array holds**: `rcopy` accepts a buffer size
of 1000, which the child reads as 59395. -/
theorem buffer_size_overflows :
    checkArgs (fun _ => true) (commandLine [53] [49, 48, 48, 48]) = some 9
    ∧ ¬ ∀ (host : Host) (fopen : CString → Option Bytes) (r : Received) (file : Bytes),
      r.flag = 8 → 11 ≤ r.bytesRecv → fopen r.requestName = some file →
        ErrorFreeRuns host fopen r := by
  refine ⟨by decide +kernel, fun h => ?_⟩
  have hsafe := h (.standard .little) (fun _ => some [65])
    (receivedRequest (.standard .little) (commandLine [53] [49, 48, 48, 48]) [] ⟨1, 1⟩) [65]
    (by decide +kernel) (by decide +kernel) rfl
  exact absurd (hsafe.bufferSize_le (by decide +kernel) rfl).1 (by decide +kernel)

end Child

end RemoteFileCopy
