import RemoteFileCopy.Setup.Request

/-!
# Setup/Handshake — `rcopy`, the accept loop and its children, up to the data phase

    rcopy ──── 8, the request ────▸ accept loop ──fork──▸ child
    rcopy ◂──── 9, file ok ────────────────────────────── child     filename_state
    rcopy ───── 34, file ok ack ────────────────────────▸ child     write_file_ok_ack_state

`rcopy` polls a second for an answer and then asks again, ten times, each time from a new socket;
every request that arrives forks a child with a socket of its own.  A child waits for its ack until
ten polls have come back empty.  The ack is sent once: after it `rcopy` blocks in `recvfrom`.

Every socket has an address of its own, and no address is used twice.  A datagram in flight arrives
or is lost; one that arrives where no socket is open is dropped.
-/

namespace RemoteFileCopy

open Transition

/-! ## What is run -/

/-- What a set-up is run with: the server's address, the files the server can read, the ones `rcopy`
can write, and the receive buffers it can allocate. -/
structure SetupConfig where
  host : Host
  argv : List CString
  serverAddr : SockAddr
  fopen : CString → Option Bytes
  creates : CString → Bool
  calloc : ℤ → Bool

/-! ## `rcopy` -/

/-- The states of `processFile`. -/
inductive ClientState
  | start
  | done
  | waitOnFileOk
  | waitOnData
  | processTransfer
  | sendEofAck
  deriving DecidableEq, Repr

/-- Where `rcopy` stands: about to run a state, at the poll of `wait_on_file_ok_state` with `count`
attempts behind it, or waiting in `process_transfer_state`. -/
inductive RcopyPc
  | next (state : ClientState)
  | polling (count : ℕ)
  | receiving
  deriving DecidableEq, Repr

/-- It is at the poll of `wait_on_file_ok_state`. -/
def RcopyPc.polls : RcopyPc → Bool
  | .polling _ => true
  | _ => false

/-- What happens to `processFile`: it runs up to its next poll, or a poll ends. -/
inductive RcopyEvent
  | run
  | poll (outcome : Option Received)

/-- The attempts of `wait_on_file_ok_state`. -/
def MAX_RETRIES : ℕ := 10

section Exchange

variable (cfg : SetupConfig)

/-- The filename request. -/
def filenameRequest : Send := ⟨cfg.serverAddr, filenamePDU cfg.host cfg.argv⟩

/-- The flag-34 PDU. -/
def fileOkAckPDU (host : Host) : Bytes := createPDU host 0 34 []

/-- **The loop of `processFile` up to `WAIT_ON_DATA`**, with `start_state` and
`wait_on_file_ok_state`. -/
def exchangeStep : RcopyPc → RcopyEvent → Option (RcopyPc × List Send)
  | .next .start, .run => some (.next .waitOnFileOk, [])
  | .next .waitOnFileOk, .run => some (.polling 0, [filenameRequest cfg])
  | .polling count, .poll none =>
    let count := count + 1
    if count < MAX_RETRIES then some (.polling count, [filenameRequest cfg])
    else some (.next .done, [])
  | .polling _, .poll (some r) =>
    if r.flag = 9 then
      if cfg.creates (arg cfg.argv 2) then
        some (.next .waitOnData, [⟨r.srcAddr, fileOkAckPDU cfg.host⟩])
      else some (.next .done, [])
    -- The count goes up here as well, and is lost on return.
    else some (.next .waitOnFileOk, [])
  | _, _ => none

end Exchange

/-- `rcopy`, with the sockets it has sent a request from, the latest first — the one it receives on,
since each is closed before the next is opened, and the descriptor is the same for all. -/
structure Rcopy where
  pc : RcopyPc
  sockets : List SockAddr
  /-- The source of the flag-9 reply it accepted. -/
  accepted : Option SockAddr
  deriving DecidableEq, Repr

/-- What an `rcopy` does next. -/
inductive RcopyAct
  /-- It runs up to its next wait, and a socket it opens gets address `a`. -/
  | run (a : SockAddr)
  /-- Its poll finds nothing, and a socket it opens then gets address `a`. -/
  | timeout (a : SockAddr)
  /-- A datagram arrives in an array that held `stale`. -/
  | receive (stale : Bytes) (d : Datagram)
  deriving DecidableEq, Repr

namespace Rcopy

/-- It moves on in the exchange; an attempt is made from a socket of its own. -/
def move (c : Rcopy) (a : SockAddr) (pc : RcopyPc) : Rcopy :=
  { c with pc := pc, sockets := if pc.polls then a :: c.sockets else c.sockets }

/-- **What the poll of `wait_on_file_ok_state` found** moves it on. -/
def hear (c : Rcopy) (a : SockAddr) (pc : RcopyPc) : Rcopy :=
  { c with pc := pc, accepted := if pc = .next .waitOnData then some a else c.accepted }

/-- **One step of an `rcopy`**, from its start to its receive loop. -/
def step (cfg : SetupConfig) (c : Rcopy) : RcopyAct → Option (Rcopy × List Send)
  | .run a =>
    if c.pc = .next .waitOnData then
      let ready := cfg.calloc (receiveWindowSize cfg.argv) && cfg.creates (arg cfg.argv 2)
      some ({ c with pc := if ready then .receiving else .next .done }, [])
    else (exchangeStep cfg c.pc .run).map fun t => (c.move a t.1, t.2)
  | .timeout a => (exchangeStep cfg c.pc (.poll none)).map fun t => (c.move a t.1, t.2)
  | .receive stale d =>
    (exchangeStep cfg c.pc (.poll (some (safeRecvfrom stale (MAXBUF + 7) d)))).map fun t =>
      (c.hear d.srcAddr t.1, t.2)

end Rcopy

/-! ## A child -/

/-- A child that has opened its socket.  `count` is that of `write_file_ok_ack_state`. -/
structure Child where
  pc : ServerPc
  info : ServerInfo
  count : ℕ
  deriving DecidableEq, Repr

/-- `ServerInfo info = {0}`, and the address of the client. -/
def ServerInfo.ofClient (clientAddr : SockAddr) : ServerInfo where
  clientAddr := clientAddr
  file := none
  windowSize := 0
  bufferSize := 0
  eofPacket := []
  eofSeq := 0
  eofResendCount := 0

/-- **A child runs `filename_state`** on the request it was forked for, and sends its reply. -/
def Child.start (host : Host) (fopen : CString → Option Bytes) (r : Received) :
    Child × List Send :=
  match filenameState host fopen r.buffer r.bytesRecv (.ofClient r.srcAddr) with
  | .ok (state, info, sends) => (⟨.next state, info, 0⟩, sends)
  | .error fault => (⟨.aborted fault, .ofClient r.srcAddr, 0⟩, [])

/-- **A turn of `write_file_ok_ack_state`**, given what its poll found. -/
def writeFileOkAckState (c : Child) (poll : Option Received) : Child :=
  match poll with
  | none =>
    let count := c.count + 1
    { c with pc := .next (if count < 10 then .writeFileOkAck else .done), count := count }
  | some r =>
    { c with
      pc := .next (if r.flag = 34 then .sendData else .writeFileOkAck)
      info := { c.info with clientAddr := r.srcAddr } }

/-! ## What an `rcopy` can do -/

/-- `rcopy` is still asking for its file. -/
def RcopyPc.Asks : RcopyPc → Prop
  | .next .start | .next .waitOnFileOk | .polling _ => True
  | _ => False

namespace Rcopy

variable {cfg : SetupConfig} {c : Rcopy} {act : RcopyAct}

/-- **Everything an `rcopy` can do** before its receive loop. -/
inductive StepCase (cfg : SetupConfig) (c : Rcopy) : RcopyAct → Rcopy × List Send → Prop
  /-- `start_state` is over. -/
  | started (hpc : c.pc = .next .start) (a : SockAddr) :
      StepCase cfg c (.run a) ({ c with pc := .next .waitOnFileOk }, [])
  /-- An attempt, from a socket of its own. -/
  | attempt (hasks : c.pc.Asks) (act : RcopyAct) (a : SockAddr)
      (hact : act = .run a ∨ act = .timeout a) (count : ℕ) :
      StepCase cfg c act
        ({ c with pc := .polling count, sockets := a :: c.sockets }, [filenameRequest cfg])
  /-- The attempts are used up. -/
  | gaveUp (hasks : c.pc.Asks) (a : SockAddr) :
      StepCase cfg c (.timeout a) ({ c with pc := .next .done }, [])
  /-- A flag 9 is accepted, and the ack goes out. -/
  | accepted (hasks : c.pc.Asks) {stale : Bytes} {d : Datagram}
      (hflag : (safeRecvfrom stale (MAXBUF + 7) d).flag = 9) :
      StepCase cfg c (.receive stale d)
        ({ c with pc := .next .waitOnData, accepted := some d.srcAddr },
          [⟨d.srcAddr, fileOkAckPDU cfg.host⟩])
  /-- Anything else starts it over, and a file it cannot create ends it. -/
  | refused (hasks : c.pc.Asks) (stale : Bytes) (d : Datagram) (pc : RcopyPc)
      (hpc : pc = .next .waitOnFileOk ∨ pc = .next .done) :
      StepCase cfg c (.receive stale d) ({ c with pc := pc }, [])
  /-- `wait_on_data_state` has its buffer and its file, or not. -/
  | entered (hpc : c.pc = .next .waitOnData) (a : SockAddr) (pc : RcopyPc)
      (hpc' : pc = .receiving ∨ pc = .next .done) :
      StepCase cfg c (.run a) ({ c with pc := pc }, [])

theorem stepCase_run {a : SockAddr} {r : Rcopy × List Send} (h : c.step cfg (.run a) = some r) :
    StepCase cfg c (.run a) r := by
  simp only [step] at h
  split at h
  case isTrue hpc =>
    obtain rfl := Option.some_inj.mp h
    refine .entered hpc a _ ?_
    split <;> simp
  case isFalse =>
    obtain ⟨⟨pc, sends⟩, hstep, rfl⟩ := Option.map_eq_some_iff.mp h
    cases hpc : c.pc with
    | receiving | polling => simp [exchangeStep, hpc] at hstep
    | next state =>
      cases state with
      | start =>
        obtain ⟨rfl, rfl⟩ : RcopyPc.next .waitOnFileOk = pc ∧ [] = sends := by
          simpa [exchangeStep, hpc] using hstep
        exact .started hpc a
      | waitOnFileOk =>
        obtain ⟨rfl, rfl⟩ : RcopyPc.polling 0 = pc ∧ [filenameRequest cfg] = sends := by
          simpa [exchangeStep, hpc] using hstep
        exact .attempt (by rw [hpc]; trivial) _ a (.inl rfl) 0
      | done | waitOnData | processTransfer | sendEofAck => simp [exchangeStep, hpc] at hstep

theorem stepCase_timeout {a : SockAddr} {r : Rcopy × List Send}
    (h : c.step cfg (.timeout a) = some r) : StepCase cfg c (.timeout a) r := by
  simp only [step] at h
  obtain ⟨⟨pc, sends⟩, hstep, rfl⟩ := Option.map_eq_some_iff.mp h
  cases hpc : c.pc with
  | receiving | next => simp [exchangeStep, hpc] at hstep
  | polling count =>
    have hasks : c.pc.Asks := by
      rw [hpc]
      trivial
    simp only [exchangeStep, hpc] at hstep
    split at hstep
    · obtain ⟨rfl, rfl⟩ := Prod.mk.inj (Option.some_inj.mp hstep)
      exact .attempt hasks _ a (.inr rfl) _
    · obtain ⟨rfl, rfl⟩ := Prod.mk.inj (Option.some_inj.mp hstep)
      exact .gaveUp hasks a

theorem stepCase_receive {stale : Bytes} {d : Datagram} {r : Rcopy × List Send}
    (h : c.step cfg (.receive stale d) = some r) : StepCase cfg c (.receive stale d) r := by
  simp only [step] at h
  obtain ⟨⟨pc, sends⟩, hstep, rfl⟩ := Option.map_eq_some_iff.mp h
  cases hpc : c.pc with
  | receiving | next => simp [exchangeStep, hpc] at hstep
  | polling count =>
    have hasks : c.pc.Asks := by
      rw [hpc]
      trivial
    simp only [exchangeStep, hpc] at hstep
    split at hstep
    case isTrue hflag =>
      split at hstep
      · obtain ⟨rfl, rfl⟩ := Prod.mk.inj (Option.some_inj.mp hstep)
        exact .accepted hasks hflag
      · obtain ⟨rfl, rfl⟩ := Prod.mk.inj (Option.some_inj.mp hstep)
        exact .refused hasks stale d _ (.inr rfl)
    case isFalse =>
      obtain ⟨rfl, rfl⟩ := Prod.mk.inj (Option.some_inj.mp hstep)
      exact .refused hasks stale d _ (.inl rfl)

/-- **The inversion lemma.** -/
theorem step_cases {r : Rcopy × List Send} (h : c.step cfg act = some r) :
    StepCase cfg c act r := by
  cases act with
  | run a => exact stepCase_run h
  | timeout a => exact stepCase_timeout h
  | receive stale d => exact stepCase_receive h

end Rcopy

/-! ## The composition -/

/-- A datagram on its way. -/
structure Flight where
  dest : SockAddr
  datagram : Datagram
  deriving DecidableEq, Repr

/-- What is sent from address `a`, on its way. -/
def sendFrom (a : SockAddr) (sends : List Send) : List Flight :=
  sends.map fun m => ⟨m.dest, a, m.pdu⟩

theorem mem_sendFrom {a : SockAddr} {sends : List Send} {f : Flight} :
    f ∈ sendFrom a sends ↔ ∃ m ∈ sends, f = ⟨m.dest, a, m.pdu⟩ := by
  simp only [sendFrom, List.mem_map, eq_comm]

/-- `rcopy`, the forked children that have yet to run, the running ones by the addresses of their
sockets, and what is in flight. -/
structure Setup where
  client : Rcopy
  forked : List Received
  children : SockAddr → Option Child
  inFlight : List Flight

/-- What happens next. -/
inductive SetupEvent
  /-- `rcopy` runs up to its next wait, and a socket it opens gets address `a`. -/
  | client (a : SockAddr)
  /-- The poll of `rcopy` finds nothing, and a socket it opens then gets address `a`. -/
  | clientTimeout (a : SockAddr)
  /-- Forked child `j` runs up to its first poll, on a socket with address `a`. -/
  | child (j : ℕ) (a : SockAddr)
  /-- A poll of the child at `a` finds nothing. -/
  | childTimeout (a : SockAddr)
  /-- Datagram `i` in flight arrives, in an array that held `stale`. -/
  | deliver (i : ℕ) (stale : Bytes)
  /-- Datagram `i` in flight is lost. -/
  | lose (i : ℕ)
  deriving DecidableEq, Repr

namespace Setup

variable (cfg : SetupConfig)

/-- An address no socket has had. -/
def Fresh (s : Setup) (a : SockAddr) : Prop :=
  a ≠ cfg.serverAddr ∧ a ∉ s.client.sockets ∧ (s.children a).isNone

instance (s : Setup) (a : SockAddr) : Decidable (s.Fresh cfg a) :=
  inferInstanceAs (Decidable (_ ∧ _ ∧ _))

/-- `rcopy` takes a step.  A socket it polls on after it is one that no process has had. -/
def rcopyStep (s : Setup) (act : RcopyAct) : Option Setup :=
  (s.client.step cfg act).bind fun t =>
    if t.1.pc.polls = true → ∀ a ∈ t.1.sockets.head?, s.Fresh cfg a then
      some { s with
        client := t.1
        inFlight := s.inFlight ++ t.1.sockets.head?.elim [] fun a => sendFrom a t.2 }
    else none

/-- The accept loop forks on flag 8, and ignores the rest. -/
def accept (s : Setup) (r : Received) : Setup :=
  if r.flag = 8 then { s with forked := s.forked ++ [r] } else s

/-- Forked child `j` runs up to its first poll, on a socket of its own. -/
def runChild (s : Setup) (j : ℕ) (a : SockAddr) : Option Setup :=
  (s.forked[j]?).bind fun r =>
    if s.Fresh cfg a then
      let (child, sends) := Child.start cfg.host cfg.fopen r
      some { s with
        forked := s.forked.eraseIdx j
        children := Function.update s.children a (some child)
        inFlight := s.inFlight ++ sendFrom a sends }
    else none

/-- The child at `a` polls in `write_file_ok_ack_state`. -/
def Waiting (s : Setup) (a : SockAddr) : Prop :=
  (s.children a).map Child.pc = some (.next .writeFileOkAck)

instance (s : Setup) (a : SockAddr) : Decidable (s.Waiting a) :=
  inferInstanceAs (Decidable (_ = _))

/-- The poll of the child at `a` is over. -/
def pollChild (s : Setup) (a : SockAddr) (poll : Option Received) : Setup :=
  { s with
    children := Function.update s.children a
      ((s.children a).map fun c => writeFileOkAckState c poll) }

/-- Datagram `i` is no longer in flight. -/
def without (s : Setup) (i : ℕ) : Setup := { s with inFlight := s.inFlight.eraseIdx i }

/-- A datagram arrives.  What comes for `rcopy` before it receives stays in flight; what comes while
it waits for data, and what comes for a child that does not poll for its ack, is not of the
set-up. -/
def deliver (s : Setup) (f : Flight) (stale : Bytes) : Option Setup :=
  if f.dest = cfg.serverAddr then some (s.accept (safeRecvfrom stale MAXBUF f.datagram))
  else if s.client.sockets.head? = some f.dest then
    match s.client.pc with
    | .polling _ => s.rcopyStep cfg (.receive stale f.datagram)
    | .next .waitOnData => none
    | _ => some s
  else if s.Waiting f.dest then
    some (s.pollChild f.dest (some (safeRecvfrom stale MAXBUF f.datagram)))
  else some s

/-- **One step of the set-up.** -/
def step (s : Setup) : SetupEvent → Option Setup
  | .client a => s.rcopyStep cfg (.run a)
  | .clientTimeout a => s.rcopyStep cfg (.timeout a)
  | .child j a => s.runChild cfg j a
  | .childTimeout a => if s.Waiting a then some (s.pollChild a none) else none
  | .deliver i stale =>
    (s.inFlight[i]?).bind fun f => (s.without i).deliver cfg f stale
  | .lose i => (s.inFlight[i]?).map fun _ => s.without i

/-- `rcopy` has started, and the server waits for requests. -/
def enter : Setup where
  client := ⟨.next .start, [], none⟩
  forked := []
  children := fun _ => none
  inFlight := []

/-- The set-up as a machine. -/
def machine : Machine Setup SetupEvent Unit where
  step s ev := (s.step cfg ev).map fun t => (t, ())

end Setup

end RemoteFileCopy
