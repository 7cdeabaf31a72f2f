import RemoteFileCopy.Library.Descriptors
import RemoteFileCopy.Resources.PollSet
import RemoteFileCopy.System.Processes

/-!
# Resources/RcopyDescriptors — the number `processFile` keeps names the last socket opened

    main          opens a socket, and keeps it
    processFile   opens a socket: socketNum
    start_state   opens a socket, and forgets it
    every attempt closes its socketNum, opens another in a variable of its own, and polls that
    WAIT_ON_DATA  receives on the socketNum of processFile

`wait_on_file_ok_state` gets `socketNum` by value, so the sockets it opens are not known to
`wait_on_data_state`, which goes on with the number it is passed.  That number is the right one,
because a number that is closed is the next to be assigned: at every poll and every `recvfrom` it is
that of the last attempt's socket.  Its poll set is that of this number alone, and tells the truth
unless something is wrong with descriptor 0: then no attempt times out.  So with its numbers `rcopy`
does what it does with the sockets themselves, exactly if that is not so (`rcopy_numbered_iff`), and
however often it retries it has no more than five descriptors besides those it was started with.
-/

namespace RemoteFileCopy

open Transition

/-- What a descriptor stands for: one the process was started with, a socket nothing has been sent
from, one that has an address, or a file. -/
inductive Handle
  | inherited
  | unbound
  | socket (a : SockAddr)
  | file
  deriving DecidableEq

/-- The address of the socket under a number, if there is one. -/
def boundTo (t : Descriptors Handle) (n : ℕ) : Option SockAddr :=
  match t.lookup n with
  | some (.socket a) => some a
  | _ => none

/-- **What goes out from the socket under a number.**  An error of `sendtoErr` is not looked at. -/
def sendtoErr (t : Descriptors Handle) (n : ℕ) (sends : List Send) : List Flight :=
  (boundTo t n).elim [] fun a => sendFrom a sends

theorem boundTo_eq {t : Descriptors Handle} {n : ℕ} {a : SockAddr}
    (h : t.lookup n = some (.socket a)) : boundTo t n = some a := by
  rw [boundTo, h]

theorem sendtoErr_eq {t : Descriptors Handle} {n : ℕ} {a : SockAddr}
    (h : t.lookup n = some (.socket a)) (sends : List Send) :
    sendtoErr t n sends = sendFrom a sends := by
  rw [sendtoErr, boundTo_eq h]
  rfl

/-- A socket is opened; what the resolver opens it closes. -/
def setupUdpClientToServer (t : Descriptors Handle) : ℕ × Descriptors Handle := t.assign .unbound

/-- What a process was started with, as a table. -/
def startedWith (fds : List Bool) : Descriptors Handle :=
  fds.map fun isOpen => if isOpen then some .inherited else none

/-- What `poll` finds of a descriptor; what a process is started with is in state `stdin`, and
`arrived` tells whether there is a datagram for its socket. -/
def Handle.status (stdin : Status) (arrived : Bool) : Option Handle → Status
  | none => ⟨false, true⟩
  | some .inherited => stdin
  | some .unbound => ⟨false, false⟩
  | some (.socket _) => ⟨arrived, false⟩
  | some .file => ⟨true, false⟩

/-- What a poll set tells of a table. -/
def polled (polls : PollSet) (stdin : Status) (arrived : Bool) (t : Descriptors Handle) :
    Except PollError ℤ :=
  polls.pollCall fun n => Handle.status stdin arrived (t.lookup n)

/-- **What the poll of one socket returns.** -/
theorem polled_only {polls : PollSet} {t : Descriptors Handle} {n : ℕ} {a : SockAddr}
    (hpolls : polls = (Watch.only n).concrete) (hlookup : t.lookup n = some (.socket a))
    (stdin : Status) (arrived : Bool) : polled polls stdin arrived t
      = .ok (if 0 < n ∧ (Handle.status stdin arrived (t.lookup 0)).broken = true then 0
        else if arrived = true then (n : ℤ) else -1) := by
  have hready : (Handle.status stdin arrived (t.lookup n)).ready = arrived := by
    rw [hlookup]
    exact Bool.false_or arrived
  rw [polled, hpolls, Watch.pollCall_only, hready]

/-- **An `rcopy` with its descriptors** — `socketNum` is that of `processFile`, `attempt` that of
`wait_on_file_ok_state`. -/
structure NumberedRcopy (W : ℕ) where
  pc : RcopyPc
  data : Client W
  table : Descriptors Handle
  socketNum : ℕ
  attempt : ℕ
  outFile : ℕ
  polls : PollSet

/-- What is seen of a step: the address of the socket that is read, and what is sent. -/
abbrev Traffic := Option SockAddr × List Flight

namespace NumberedRcopy

variable {W : ℕ}

/-- What `rcopy` has open before `processFile`. -/
def base (fds : List Bool) : Descriptors Handle := (setupUdpClientToServer (startedWith fds)).2

/-- `main`, and `processFile` up to its loop. -/
def enter (v : Invocation) (fds : List Bool) : NumberedRcopy v.slots :=
  let processFile := setupUdpClientToServer (base fds)
  ⟨.next .start, .enter _ v.recvAddr, processFile.2, processFile.1, 0, 0, .empty⟩

/-- **One pass of the loop of `wait_on_file_ok_state`**, up to its poll. -/
def tryFrom (cfg : SetupConfig) (c : NumberedRcopy W) (socketNum : ℕ) (a : SockAddr) (count : ℕ) :
    Except PollError (NumberedRcopy W × Traffic) := do
  let closed := if socketNum > 0 then c.table.release socketNum else c.table
  let opened := closed.assign (.socket a)
  let polls ← c.polls.setupPollSet.addToPollSet opened.1
  return ({ c with pc := .polling count, table := opened.2, attempt := opened.1, polls := polls },
    none, sendtoErr opened.2 opened.1 [filenameRequest cfg])

/-- The output file is opened. -/
def openOutput (c : NumberedRcopy W) : ℕ × Descriptors Handle := c.table.assign .file

/-- **What the poll of `wait_on_file_ok_state` found** is received on the socket of the attempt. -/
def reply (cfg : SetupConfig) (c : NumberedRcopy W) (r : Received) : NumberedRcopy W × Traffic :=
  let socket := boundTo c.table c.attempt
  if r.flag = 9 then
    if cfg.creates (arg cfg.argv 2) then
      ({ c with pc := .next .waitOnData, table := c.openOutput.2 }, socket,
        sendtoErr c.openOutput.2 c.attempt [⟨r.srcAddr, fileOkAckPDU cfg.host⟩])
    else ({ c with pc := .next .done, table := c.table.release c.attempt }, socket, [])
  else ({ c with pc := .next .waitOnFileOk, table := c.table.release c.attempt }, socket, [])

/-- **One step**, up to the next wait. -/
def step [NeZero W] (cfg : SetupConfig) (stdin : Status) (c : NumberedRcopy W) :
    RcopyAct → Option (NumberedRcopy W × Traffic)
  | .run a =>
    match c.pc with
    | .next .start =>
      some ({ c with pc := .next .waitOnFileOk, table := (setupUdpClientToServer c.table).2 },
        none, [])
    | .next .waitOnFileOk => (c.tryFrom cfg c.socketNum a 0).toOption
    | .next .waitOnData =>
      if cfg.calloc (receiveWindowSize cfg.argv) && cfg.creates (arg cfg.argv 2) then
        some ({ c with pc := .receiving, table := c.openOutput.2
                       outFile := c.openOutput.1 }, none, [])
      else some ({ c with pc := .next .done }, none, [])
    | _ => none
  | .timeout a =>
    match c.pc, polled c.polls stdin false c.table with
    | .polling count, .ok socketReady =>
      if socketReady = -1 then
        let c := { c with table := c.table.release c.attempt }
        if count + 1 < MAX_RETRIES then (c.tryFrom cfg c.attempt a (count + 1)).toOption
        else some ({ c with pc := .next .done }, none, [])
      -- it waits in `recvfrom`
      else none
    | _, _ => none
  | .receive stale d =>
    match c.pc with
    | .polling _ =>
      match polled c.polls stdin true c.table with
      | .ok socketReady =>
        if socketReady = -1 then none else some (c.reply cfg (safeRecvfrom stale (MAXBUF + 7) d))
      | .error _ => none
    | .receiving =>
      (c.data.step cfg.host stale d).map fun t =>
        -- `send_eof_ack_state` closes what the receive loop used
        let table := if t.1.pc = .done then (c.table.release c.outFile).release c.socketNum
          else c.table
        ({ c with data := t.1, table := table },
          boundTo c.table c.socketNum, sendtoErr c.table c.socketNum t.2)
    | _ => none

/-- It as a machine. -/
def machine [NeZero W] (cfg : SetupConfig) (stdin : Status) :
    Machine (NumberedRcopy W) RcopyAct Traffic where
  step := step cfg stdin

end NumberedRcopy

/-! ## With the sockets themselves -/

/-- The socket a step reads. -/
def RcopyAct.reads : RcopyAct → Option SockAddr → Option SockAddr
  | .receive _ _, socket => socket
  | _, _ => none

/-- **The `rcopy` of the whole**: it reads the socket it opened last, and sends from it. -/
def RcopyProcess.machine {W : ℕ} [NeZero W] (cfg : SetupConfig) :
    Machine (RcopyProcess W) RcopyAct Traffic where
  step p act := (p.step cfg act).map fun t => (t.1, act.reads p.sockets.head?,
    t.1.sockets.head?.elim [] fun a => sendFrom a t.2)

/-! ## They do the same -/

/-- It has a socket to read: at its poll, and from then on until it has sent its EOF ack. -/
def RcopyPc.Listens (data : ClientPc) : RcopyPc → Prop
  | .polling _ | .next .waitOnData => True
  | .receiving => data ≠ .done
  | _ => False

/-- What an `rcopy` has open at most, besides `socketNum` and what it had before `processFile`. -/
def RcopyPc.opened : RcopyPc → ℕ
  | .next .start => 0
  | .next .waitOnFileOk | .polling _ => 1
  | .next .waitOnData => 2
  | _ => 3

/-- **An `rcopy` with its numbers is at a state of one with its sockets** — `socketNum` names the
socket opened last wherever it is polled or read. -/
structure NumberedRcopy.Matches {W : ℕ} (fds : List Bool) (c : NumberedRcopy W)
    (p : RcopyProcess W) : Prop where
  pc : p.pc = c.pc
  data : p.data = c.data
  pos : 0 < c.socketNum
  holding : (base fds).Holding c.table c.socketNum c.pc.opened
  polls : ∃ w : Watch, c.polls = w.concrete ∧ w.bound ≤ c.socketNum + 1
  attempt : ∀ count, c.pc = .polling count →
    c.attempt = c.socketNum ∧ c.polls = (Watch.only c.socketNum).concrete
  socket : c.pc.Listens c.data.pc →
    ∃ a, p.sockets.head? = some a ∧ c.table.lookup c.socketNum = some (.socket a)
  outFile : c.pc = .receiving → c.socketNum ≤ c.outFile ∧ (base fds).lookup c.outFile = none

/-- Descriptor 0 is what the process was started with, and something is wrong with it. -/
def Deaf (fds : List Bool) (stdin : Status) : Prop :=
  fds.head? = some true ∧ stdin.broken = true

namespace NumberedRcopy

variable {W : ℕ} {fds : List Bool} {stdin : Status} {cfg : SetupConfig} {c : NumberedRcopy W}
  {p : RcopyProcess W}

@[simp] theorem elim_sendFrom_nil (socket : Option SockAddr) :
    (socket.elim [] fun a => sendFrom a []) = [] := by
  cases socket <;> rfl

/-- **At the start.** -/
theorem matches_enter (v : Invocation) (fds : List Bool) :
    (enter v fds).Matches fds (.enter v) where
  pc := rfl
  data := rfl
  pos := (Nat.zero_le _).trans_lt (Descriptors.assign_lt_assign (startedWith fds) .unbound .unbound)
  holding := .start (base fds) .unbound
  polls := ⟨.empty, rfl, Nat.zero_le _⟩
  attempt _ h := by cases h
  socket h := h.elim
  outFile h := by cases h

/-- **Between its waits** it has no socket to read, unless it is about to receive the file. -/
theorem Matches.of_next {state : ClientState} (hc : c.pc = .next state) (hp : p.pc = .next state)
    (hstate : state ≠ .waitOnData) (hdata : p.data = c.data) (hpos : 0 < c.socketNum)
    (hholding : (base fds).Holding c.table c.socketNum (RcopyPc.next state).opened)
    (hpolls : ∃ w : Watch, c.polls = w.concrete ∧ w.bound ≤ c.socketNum + 1) :
    c.Matches fds p where
  pc := hp.trans hc.symm
  data := hdata
  pos := hpos
  holding := hc ▸ hholding
  polls := hpolls
  attempt count h := by
    rw [hc] at h
    cases h
  socket h := by
    rw [hc] at h
    cases state with
    | waitOnData => exact absurd rfl hstate
    | start | waitOnFileOk | processTransfer | sendEofAck | done => exact h.elim
  outFile h := by
    rw [hc] at h
    cases h

/-- **An attempt** is made from a new socket under the old number, and polls that. -/
theorem matches_tryFrom (cfg : SetupConfig) (hdata : p.data = c.data) (hpos : 0 < c.socketNum)
    (hpolls : ∃ w : Watch, c.polls = w.concrete ∧ w.bound ≤ c.socketNum + 1)
    (h : (base fds).Holding c.table c.socketNum 1) (a : SockAddr) (count : ℕ) :
    ∃ c', c.tryFrom cfg c.socketNum a count = .ok (c', none, sendFrom a [filenameRequest cfg])
      ∧ c'.Matches fds (p.setUp (p.move a (.polling count))) := by
  obtain ⟨hfst, hlookup, hholding⟩ := h.reopen (.socket a)
  obtain ⟨w, hw, hbound⟩ := hpolls
  refine ⟨{ c with
    pc := .polling count
    table := ((c.table.release c.socketNum).assign (.socket a)).2
    attempt := c.socketNum
    polls := (Watch.only c.socketNum).concrete }, ?_, ?_⟩
  · simp only [tryFrom, if_pos hpos, hfst, hw, Watch.watch_only hbound, sendtoErr_eq hlookup]
    rfl
  · exact
      { pc := rfl
        data := hdata
        pos := hpos
        holding := hholding
        polls := ⟨_, rfl, (Watch.bound_only _).le⟩
        attempt := fun _ _ => ⟨rfl, rfl⟩
        socket := fun _ => ⟨a, rfl, hlookup⟩
        outFile := fun h => by cases h }

/-- It never has more than five. -/
theorem Matches.inUse_le (h : c.Matches fds p) :
    c.table.inUse ≤ (startedWith fds).inUse + 5 := by
  have hle := h.holding.inUse
  have hbase : (base fds).inUse = (startedWith fds).inUse + 1 := Descriptors.inUse_assign _ _
  have hrelease := Descriptors.inUse_release c.table c.socketNum
  have hopened : c.pc.opened ≤ 3 := by
    unfold RcopyPc.opened
    split <;> omega
  split at hrelease <;> omega

/-- What it was started with stays open. -/
theorem Matches.kept (h : c.Matches fds p) {n : ℕ} {x : Handle}
    (hx : (startedWith fds).lookup n = some x) : c.table.lookup n = some x :=
  (h.holding.kept n x (Descriptors.lookup_assign_of_some hx _)).2

/-- Descriptor 0 is what it was started with, or the socket of `main`. -/
theorem lookup_base_zero (fds : List Bool) :
    (base fds).lookup 0 = some (if fds.head? = some true then .inherited else .unbound) := by
  cases fds with
  | nil => rfl
  | cons isOpen fds => cases isOpen <;> rfl

/-- **What its poll returns.** -/
theorem Matches.polled_eq (h : c.Matches fds p) {count : ℕ} (hpc : c.pc = .polling count)
    (stdin : Status) (arrived : Bool) : ∃ socketReady,
      polled c.polls stdin arrived c.table = .ok socketReady
        ∧ (socketReady = -1 ↔ arrived = false ∧ ¬ Deaf fds stdin) := by
  obtain ⟨a, -, hlookup⟩ := h.socket (by rw [hpc]; trivial)
  have hzero : c.table.lookup 0 = _ := (h.holding.kept 0 _ (lookup_base_zero fds)).2
  have hbroken : 0 < c.socketNum ∧ (Handle.status stdin arrived (c.table.lookup 0)).broken = true
      ↔ Deaf fds stdin := by
    rw [and_iff_right h.pos, hzero, Deaf]
    split <;> simp_all [Handle.status]
  have hpolled := polled_only (h.attempt count hpc).2 hlookup stdin arrived
  by_cases hdeaf : Deaf fds stdin
  · rw [if_pos (hbroken.mpr hdeaf)] at hpolled
    exact ⟨0, hpolled, by simp [hdeaf]⟩
  · rw [if_neg fun hb => hdeaf (hbroken.mp hb)] at hpolled
    refine ⟨_, hpolled, ?_⟩
    cases arrived with
    | false => simp [hdeaf]
    | true =>
      simp only [if_true, Bool.true_eq_false, false_and, iff_false]
      omega

variable [NeZero W]

/-- What the two do with an act. -/
def Answers (fds : List Bool) (stdin : Status) (cfg : SetupConfig) (c : NumberedRcopy W)
    (p : RcopyProcess W) (act : RcopyAct) : Prop :=
  StepRel (Matches fds) (c.step cfg stdin act) ((RcopyProcess.machine cfg).step p act)

theorem Matches.run (h : c.Matches fds p) (a : SockAddr) :
    Answers fds stdin cfg c p (.run a) := by
  have hp := h.pc
  have hholding := h.holding
  cases hpc : c.pc with
  | polling | receiving =>
    rw [hpc] at hp
    simp [Answers, NumberedRcopy.step, RcopyProcess.machine, RcopyProcess.step, Rcopy.step, hpc, hp,
      exchangeStep]
  | next state =>
    rw [hpc] at hp hholding
    cases state with
    | done | processTransfer | sendEofAck =>
      simp [Answers, NumberedRcopy.step, RcopyProcess.machine, RcopyProcess.step, Rcopy.step, hpc,
        hp, exchangeStep]
    | start =>
      have hs : (RcopyProcess.machine cfg).step p (.run a)
          = some (p.setUp (p.move a (.next .waitOnFileOk)), none, []) := by
        simp [RcopyProcess.machine, RcopyProcess.step_start cfg hp, RcopyAct.reads]
      rw [Answers, hs, NumberedRcopy.step, hpc]
      exact .some ⟨.of_next rfl rfl (by simp) h.data h.pos (hholding.assign _) h.polls, rfl⟩
    | waitOnFileOk =>
      have hs : (RcopyProcess.machine cfg).step p (.run a)
          = some (p.setUp (p.move a (.polling 0)), none, sendFrom a [filenameRequest cfg]) := by
        simp [RcopyProcess.machine, RcopyProcess.step_waitOnFileOk cfg hp, RcopyAct.reads,
          RcopyProcess.setUp, Rcopy.move, RcopyPc.polls]
      obtain ⟨c', htry, hmatches⟩ := matches_tryFrom cfg h.data h.pos h.polls hholding a 0
      rw [Answers, hs, NumberedRcopy.step, hpc]
      simp only [htry, Except.toOption]
      exact .some ⟨hmatches, rfl⟩
    | waitOnData =>
      have hs : (RcopyProcess.machine cfg).step p (.run a)
          = some ({ p with pc := if cfg.calloc (receiveWindowSize cfg.argv)
              && cfg.creates (arg cfg.argv 2) then .receiving else .next .done }, none, []) := by
        simp [RcopyProcess.machine, RcopyProcess.step, Rcopy.step, RcopyProcess.setUp, hp,
          RcopyAct.reads]
      obtain ⟨b, hb, hlookup⟩ := h.socket (by rw [hpc]; trivial)
      rw [Answers, hs, NumberedRcopy.step, hpc]
      simp only
      split
      · exact .some ⟨⟨rfl, h.data, h.pos, hholding.assign _, h.polls, fun _ h => (by cases h),
          fun _ => ⟨b, hb, Descriptors.lookup_assign_of_some hlookup _⟩,
          fun _ => ⟨hholding.below.le_assign _, hholding.free_assign _⟩⟩, rfl⟩
      · exact .some ⟨.of_next rfl rfl (by simp) h.data h.pos (hholding.mono (Nat.le_succ _))
          h.polls, rfl⟩

/-- **A deaf one never times out**: it waits for a datagram instead. -/
theorem Matches.timeout_deaf (h : c.Matches fds p) (hdeaf : Deaf fds stdin) (a : SockAddr) :
    c.step cfg stdin (.timeout a) = none := by
  cases hpc : c.pc with
  | next | receiving => simp [NumberedRcopy.step, hpc]
  | polling count =>
    obtain ⟨socketReady, hpolled, hready⟩ := h.polled_eq hpc stdin false
    have hne : socketReady ≠ -1 := fun heq => (hready.mp heq).2 hdeaf
    simp only [NumberedRcopy.step, hpc, hpolled, if_neg hne]

theorem Matches.timeout (h : c.Matches fds p) (hears : ¬ Deaf fds stdin) (a : SockAddr) :
    Answers fds stdin cfg c p (.timeout a) := by
  have hp := h.pc
  have hholding := h.holding
  cases hpc : c.pc with
  | next | receiving =>
    rw [hpc] at hp
    simp [Answers, NumberedRcopy.step, RcopyProcess.machine, RcopyProcess.step, Rcopy.step, hpc, hp,
      exchangeStep]
  | polling count =>
    obtain ⟨socketReady, hpolled, hready⟩ := h.polled_eq hpc stdin false
    rw [hpc] at hp hholding
    have hclosed := hholding.release le_rfl hholding.free
    have hstep : c.step cfg stdin (.timeout a) =
        let c := { c with table := c.table.release c.socketNum }
        if count + 1 < MAX_RETRIES then (c.tryFrom cfg c.socketNum a (count + 1)).toOption
        else some ({ c with pc := .next .done }, none, []) := by
      simp only [NumberedRcopy.step, hpc, hpolled, if_pos (hready.mpr ⟨rfl, hears⟩),
        (h.attempt count hpc).1]
    rw [Answers]
    by_cases hlt : count + 1 < MAX_RETRIES
    case pos =>
      have hs : (RcopyProcess.machine cfg).step p (.timeout a)
          = some (p.setUp (p.move a (.polling (count + 1))), none,
              sendFrom a [filenameRequest cfg]) := by
        simp [RcopyProcess.machine, RcopyProcess.step, Rcopy.step, hp, exchangeStep,
          RcopyAct.reads, hlt, RcopyProcess.setUp, Rcopy.move, RcopyPc.polls]
      obtain ⟨c', htry, hmatches⟩ := matches_tryFrom cfg (p := p)
        (c := { c with table := c.table.release c.socketNum }) h.data h.pos h.polls hclosed a
        (count + 1)
      rw [hs, hstep, if_pos hlt]
      rw [show tryFrom cfg _ _ a (count + 1) = _ from htry]
      exact .some ⟨hmatches, rfl⟩
    case neg =>
      have hs : (RcopyProcess.machine cfg).step p (.timeout a)
          = some (p.setUp (p.move a (.next .done)), none, []) := by
        simp [RcopyProcess.machine, RcopyProcess.step, Rcopy.step, hp, exchangeStep,
          RcopyAct.reads, hlt]
      rw [hs, hstep, if_neg hlt]
      exact .some ⟨.of_next rfl rfl (by simp) h.data h.pos (hclosed.mono (Nat.le_add_right 1 2))
        h.polls, rfl⟩

/-- **A reply in the exchange**: the socket is kept, and the file is opened, or the socket is
closed. -/
theorem Matches.receive_polling (h : c.Matches fds p) {count : ℕ} (hpc : c.pc = .polling count)
    (stale : Bytes) (d : Datagram) : Answers fds stdin cfg c p (.receive stale d) := by
  have hp := h.pc
  have hholding := h.holding
  rw [hpc] at hp hholding
  obtain ⟨socketReady, hpolled, hready⟩ := h.polled_eq hpc stdin true
  have hne : socketReady ≠ -1 := fun heq => by cases (hready.mp heq).1
  obtain ⟨b, hb, hlookup⟩ := h.socket (by rw [hpc]; trivial)
  have hclosed := hholding.release le_rfl hholding.free
  have hs : (RcopyProcess.machine cfg).step p (.receive stale d)
      = (exchangeStep cfg (.polling count)
          (.poll (some (safeRecvfrom stale (MAXBUF + 7) d)))).map fun t =>
        (p.setUp (p.hear d.srcAddr t.1), some b, sendFrom b t.2) := by
    simp [RcopyProcess.machine, RcopyProcess.step, Rcopy.step, hp, RcopyAct.reads, hb,
      RcopyProcess.setUp, Rcopy.hear, Function.comp_def]
  rw [Answers, hs, NumberedRcopy.step, hpc]
  simp only [hpolled, if_neg hne, reply, (h.attempt count hpc).1, exchangeStep, boundTo_eq hlookup]
  split
  case isTrue hflag =>
    split
    case isTrue hcreates =>
      have hlookup' := Descriptors.lookup_assign_of_some hlookup .file
      refine .some ⟨⟨rfl, h.data, h.pos, hholding.assign _, h.polls, fun _ h => (by cases h),
        fun _ => ⟨b, hb, hlookup'⟩, fun h => by cases h⟩, ?_⟩
      simp only [openOutput, sendtoErr_eq hlookup']
    case isFalse =>
      exact .some ⟨.of_next rfl rfl (by simp) h.data h.pos
        (hclosed.mono (Nat.le_add_right 1 2)) h.polls, rfl⟩
  case isFalse =>
    exact .some ⟨.of_next rfl rfl (by simp) h.data h.pos hclosed h.polls, rfl⟩

/-- **A turn of the receive loop**; the last one closes the file and the socket. -/
theorem Matches.receive_receiving (h : c.Matches fds p) (hpc : c.pc = .receiving) (stale : Bytes)
    (d : Datagram) : Answers fds stdin cfg c p (.receive stale d) := by
  have hp := h.pc
  have hholding := h.holding
  rw [hpc] at hp hholding
  have hs : (RcopyProcess.machine cfg).step p (.receive stale d)
      = (c.data.step cfg.host stale d).map fun t => ({ p with data := t.1 }, p.sockets.head?,
          p.sockets.head?.elim [] fun a => sendFrom a t.2) := by
    simp [RcopyProcess.machine, RcopyProcess.step_receiving cfg hp, h.data, RcopyAct.reads,
      Function.comp_def]
  rw [Answers, hs, NumberedRcopy.step, hpc]
  cases hstep : c.data.step cfg.host stale d with
  | none => exact .none
  | some t =>
    obtain ⟨state, hstate⟩ := Client.receiving_of_step hstep
    obtain ⟨b, hb, hlookup⟩ := h.socket (by rw [hpc, hstate]; simp [RcopyPc.Listens])
    obtain ⟨hle, hfile⟩ := h.outFile hpc
    rw [hb]
    refine .some ⟨⟨hp, rfl, h.pos, ?_, h.polls, fun _ h => (by cases h), fun hlisten => ?_,
      fun _ => ⟨hle, hfile⟩⟩, ?_⟩
    · simp only
      split
      · exact (hholding.release hle hfile).release le_rfl hholding.free
      · exact hholding
    · simp only
      rw [if_neg hlisten]
      exact ⟨b, hb, hlookup⟩
    · simp only [boundTo_eq hlookup, sendtoErr_eq hlookup, Option.elim_some]

theorem Matches.receive (h : c.Matches fds p) (stale : Bytes) (d : Datagram) :
    Answers fds stdin cfg c p (.receive stale d) := by
  cases hpc : c.pc with
  | next =>
    have hp := h.pc
    rw [hpc] at hp
    simp [Answers, NumberedRcopy.step, RcopyProcess.machine, RcopyProcess.step, Rcopy.step, hpc, hp,
      exchangeStep]
  | polling count => exact h.receive_polling hpc stale d
  | receiving => exact h.receive_receiving hpc stale d

/-- **One that is not deaf** does what one with its sockets does. -/
theorem Matches.stepRel (h : c.Matches fds p) (hears : ¬ Deaf fds stdin) (act : RcopyAct) :
    Answers fds stdin cfg c p act := by
  cases act with
  | run a => exact h.run a
  | timeout a => exact h.timeout hears a
  | receive stale d => exact h.receive stale d

/-- **The step lemma**: deaf or not, what it does one with its sockets may do. -/
theorem Matches.step (h : c.Matches fds p) {act : RcopyAct} {c' : NumberedRcopy W} {o : Traffic}
    (hs : c.step cfg stdin act = some (c', o)) :
    ∃ p', (RcopyProcess.machine cfg).step p act = some (p', o) ∧ c'.Matches fds p' := by
  by_cases hears : Deaf fds stdin
  · cases act with
    | run a => exact (h.run a).exists_right hs
    | timeout a =>
      rw [h.timeout_deaf hears] at hs
      cases hs
    | receive stale d => exact (h.receive stale d).exists_right hs
  · exact (h.stepRel hears act).exists_right hs

end NumberedRcopy

/-- **An `rcopy` that times out** once. -/
theorem RcopyProcess.exists_run_timeout {W : ℕ} [NeZero W] (cfg : SetupConfig)
    {p : RcopyProcess W} (hp : p.pc = .next .start) (a : SockAddr) :
    ∃ es p' o tr, Run (RcopyProcess.machine cfg) (fun _ _ => True) p es p'
      ∧ trace es = (.timeout a, o) :: tr := by
  let request := sendFrom a [filenameRequest cfg]
  let asks := p.setUp (p.move a (.next .waitOnFileOk))
  let polls := asks.setUp (asks.move a (.polling 0))
  have h₁ : (RcopyProcess.machine cfg).step p (.run a) = some (asks, none, []) := by
    simp [RcopyProcess.machine, RcopyProcess.step, Rcopy.step, hp, exchangeStep, RcopyAct.reads,
      asks]
  have h₂ : (RcopyProcess.machine cfg).step asks (.run a) = some (polls, none, request) := by
    simp [RcopyProcess.machine, RcopyProcess.step, Rcopy.step, exchangeStep, RcopyAct.reads,
      RcopyProcess.setUp, Rcopy.move, RcopyPc.polls, asks, polls, request]
  have h₃ : (RcopyProcess.machine cfg).step polls (.timeout a)
      = some (polls.setUp (polls.move a (.polling 1)), none, request) := by
    simp [RcopyProcess.machine, RcopyProcess.step, Rcopy.step, exchangeStep, RcopyAct.reads,
      RcopyProcess.setUp, Rcopy.move, RcopyPc.polls, MAX_RETRIES, asks, polls, request]
  exact ⟨_, _, _, _, ((Run.nil.cons trivial h₁).cons trivial h₂).cons trivial h₃, rfl⟩

/-- **Exactly when an `rcopy` with its numbers does what one does with the sockets themselves**:
unless descriptor 0 is what it was started with, and something is wrong with it.  Even then it does
nothing else — it reads the same sockets and sends the same from them; and what it was started with
it leaves open, and besides that it never has more than five. -/
theorem rcopy_numbered_iff {ι : Type} (site : Site ι) (i : ι) (fds : List Bool) (stdin : Status) :
    ((∀ tr : List (RcopyAct × Traffic),
      (∃ es c, Run (NumberedRcopy.machine (site.setup i) stdin) (fun _ _ => True)
          (.enter (site.rcopy i) fds) es c ∧ trace es = tr)
        ↔ ∃ es p, Run (RcopyProcess.machine (site.setup i)) (fun _ _ => True)
          (.enter (site.rcopy i)) es p ∧ trace es = tr)
      ↔ ¬ (fds.head? = some true ∧ stdin.broken = true))
    ∧ ∀ es c, Run (NumberedRcopy.machine (site.setup i) stdin) (fun _ _ => True)
        (.enter (site.rcopy i) fds) es c →
      (∃ es' p, Run (RcopyProcess.machine (site.setup i)) (fun _ _ => True)
          (.enter (site.rcopy i)) es' p ∧ trace es' = trace es)
        ∧ (∀ n x, (startedWith fds).lookup n = some x → c.table.lookup n = some x)
        ∧ c.table.inUse ≤ (startedWith fds).inUse + 5 := by
  have henter := NumberedRcopy.matches_enter (site.rcopy i) fds
  have hmatch : ∀ es c, Run (NumberedRcopy.machine (site.setup i) stdin) (fun _ _ => True)
      (.enter (site.rcopy i) fds) es c → ∃ es' p, Run (RcopyProcess.machine (site.setup i))
        (fun _ _ => True) (.enter (site.rcopy i)) es' p ∧ c.Matches fds p
          ∧ trace es' = trace es := fun es c run =>
    run.exists_lockstep henter fun c p act c' o h _ hs => by
      obtain ⟨p', hp, h'⟩ := h.step hs
      exact ⟨p', trivial, hp, h'⟩
  refine ⟨⟨fun hall hdeaf => ?_, fun hears => ?_⟩, fun es c run => ?_⟩
  · obtain ⟨es, p, o, tr, run, htrace⟩ := RcopyProcess.exists_run_timeout (site.setup i)
      (p := .enter (site.rcopy i)) rfl (site.rcopy i).recvAddr
    obtain ⟨es', c, run', htrace'⟩ := (hall _).mpr ⟨es, p, run, rfl⟩
    obtain ⟨es₁, c₁, run₁, -, hstep⟩ := run'.exists_of_trace_cons (htrace'.trans htrace)
    obtain ⟨-, p₁, -, h₁, -⟩ := hmatch es₁ c₁ run₁
    cases (h₁.timeout_deaf hdeaf _).symm.trans hstep
  · exact exists_trace_iff (fun _ => True) henter fun c p act h => h.stepRel hears act
  · obtain ⟨es', p, run', h, htrace⟩ := hmatch es c run
    exact ⟨⟨es', p, run', htrace⟩, fun n x hx => h.kept hx, h.inUse_le⟩

end RemoteFileCopy
