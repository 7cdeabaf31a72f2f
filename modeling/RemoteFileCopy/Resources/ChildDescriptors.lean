import RemoteFileCopy.Resources.PollSet
import RemoteFileCopy.Resources.RcopyDescriptors
import RemoteFileCopy.Setup.Cleanup

/-!
# Resources/ChildDescriptors — a child has its socket under the number of the server's

    main             opens a socket: socketNum
    filename_state   closes socketNum, opens a socket: childSocket = socketNum
    processClient    closes childSocket, and returns into the loop of processServer
    processServer    receives on socketNum, which is closed: exits

The number comes back because it is the lowest that is free.  Two things rest on that.  A child that
is done does not become an accept loop (`child_never_accepts`); and since `send_data_state` and the
states after it take a poll for one that found something if it returned more than 0, a child hears
its acks only if descriptor 0 was open when the server was started, and nothing is wrong with it
(`child_numbered_iff`).
-/

namespace RemoteFileCopy

open Transition

/-- **A child with its descriptors** — `socketNum` is that of `processServer`. -/
structure NumberedChild where
  process : ProcessClient
  table : Descriptors Handle
  socketNum : ℕ
  childSocket : ℕ
  file : ℕ
  polls : PollSet

/-- The socket a step reads. -/
def ServerEvent.reads : ServerEvent → Option SockAddr → Option SockAddr
  | .receive _ _, socket => socket
  | _, _ => none

/-- There is a datagram to be found. -/
def ServerEvent.arrives : ServerEvent → Bool
  | .receive _ _ => true
  | _ => false

namespace NumberedChild

/-- `main`, and `processServer` up to the `fork`. -/
def enter (serverAddr : SockAddr) (fds : List Bool) (r : Received) : NumberedChild :=
  let main := (startedWith fds).assign (.socket serverAddr)
  ⟨.start r, main.2, main.1, 0, 0, .empty⟩

variable (host : Host) (fopen : CString → Option Bytes) (stdin : Status) (a : SockAddr)

/-- `setupPollSet(); addToPollSet(childSocket);` -/
def watch (c : NumberedChild) : Except PollError NumberedChild := do
  let polls ← c.polls.setupPollSet.addToPollSet c.childSocket
  return { c with polls := polls }

/-- **`filename_state`**. -/
def filenameState (c : NumberedChild) (r : Received) : NumberedChild :=
  let opened := (c.table.release c.socketNum).assign (.socket a)
  let child := (Child.start host fopen r).1
  -- there is no file where the name runs over its array, or cannot be opened
  let file := if child.info.file.isSome then opened.2.assign .file else (c.file, opened.2)
  { c with process := .handshake child, table := file.2, childSocket := opened.1, file := file.1 }

/-- `filename_state`, and `write_file_ok_ack_state` up to its loop. -/
def start (c : NumberedChild) (r : Received) : Except PollError (NumberedChild × Traffic) := do
  let t := Child.start host fopen r
  let c := c.filenameState host fopen a r
  let c ← if t.1.pc = .next .writeFileOkAck then c.watch else .ok c
  return (c, none, sendtoErr c.table c.childSocket t.2)

/-- The process goes on; what it receives it receives on `childSocket`. -/
def advance (c : NumberedChild) (ev : ServerEvent) : Option (NumberedChild × Traffic) :=
  (c.process.step host fopen ev).map fun t =>
    ({ c with process := t.1 }, ev.reads (boundTo c.table c.childSocket),
      sendtoErr c.table c.childSocket t.2)

/-- A poll that tells of something is followed by `recvfrom`, which waits until there is. -/
def receive (c : NumberedChild) (ev : ServerEvent) : Option (NumberedChild × Traffic) :=
  if ev.arrives then c.advance host fopen ev else none

/-- `wait_on_ack_state` polls once more, and returns if that tells of nothing. -/
def waitOnAck (c : NumberedChild) {W : ℕ} (σ : Server W) (ev : ServerEvent) :
    Option (NumberedChild × Traffic) :=
  match c.watch with
  | .error _ => none
  | .ok c =>
    match polled c.polls stdin ev.arrives c.table with
    | .error _ => none
    | .ok packetAckPoll =>
      if packetAckPoll ≤ 0 then
        let σ := if σ.pc = .fill then { σ with timeoutCount := 0 } else σ
        some ({ c with process := .transfer σ }, none, [])
      else c.receive host fopen ev

/-- **A poll**, with each caller's test of what `pollCall` returned. -/
def poll (c : NumberedChild) (ev : ServerEvent) : Option (NumberedChild × Traffic) :=
  match polled c.polls stdin ev.arrives c.table with
  | .error _ => none
  | .ok socketReady =>
    match c.process with
    | .start _ => none
    | .handshake _ =>
      if socketReady ≠ -1 then c.receive host fopen ev else c.advance host fopen .quiet
    | .transfer σ =>
      if socketReady > 0 then
        if σ.pc = .next .waitOnEofAck then c.receive host fopen ev
        else c.waitOnAck host fopen stdin σ ev
      else c.advance host fopen .quiet

/-- **One step**: `receive` is a poll while there is a datagram, `quiet` one while there is none. -/
def step (c : NumberedChild) : ServerEvent → Option (NumberedChild × Traffic)
  | .run =>
    match c.process with
    | .start r => (c.start host fopen a r).toOption
    | _ => c.advance host fopen .run
  | ev => if (c.process.step host fopen .quiet).isSome then c.poll host fopen stdin ev else none

/-- It as a machine. -/
def machine : Machine NumberedChild ServerEvent Traffic where
  step := step host fopen stdin a

/-- The end of `processClient`. -/
def leave (c : NumberedChild) : Descriptors Handle :=
  (c.table.release c.file).release c.childSocket

end NumberedChild

/-- **The child of the whole** at address `a`. -/
def ProcessClient.machine (host : Host) (fopen : CString → Option Bytes) (a : SockAddr) :
    Machine ProcessClient ServerEvent Traffic where
  step p ev := (p.step host fopen ev).map fun t => (t.1, ev.reads (some a), sendFrom a t.2)

/-! ## What a child of the whole does -/

namespace ProcessClient

variable {host : Host} {fopen : CString → Option Bytes} {p p' : ProcessClient} {ev : ServerEvent}
  {sends : List Send}

/-- Where a poll may find nothing it may find something. -/
theorem step_receive_isSome (p : ProcessClient) (stale : Bytes) (d : Datagram) :
    (p.step host fopen (.receive stale d)).isSome = (p.step host fopen .quiet).isSome := by
  cases p with
  | start r => rfl
  | handshake c =>
    simp only [step]
    split <;> simp_all
  | transfer σ =>
    simp only [step, Option.isSome_map]
    cases hpc : σ.pc with
    | fill => cases hfull : σ.window.isFull <;> simp [Server.step, hpc, hfull]
    | drain | aborted => simp [Server.step, hpc]
    | next state => cases state <;> simp [Server.step, hpc]

theorem not_start_of_step (h : p.step host fopen ev = some (p', sends)) (r : Received) :
    p' ≠ .start r := by
  rintro rfl
  cases p with
  | start r' => cases ev <;> simp [step] at h
  | handshake c =>
    simp only [step] at h
    split at h <;> simp at h
  | transfer σ => simp [step] at h

end ProcessClient

/-- **`filename_state` opens the file and goes on**, or is at its end without one. -/
theorem Child.start_cases (host : Host) (fopen : CString → Option Bytes) (r : Received) :
    ((Child.start host fopen r).1.info.file.isSome
        ∧ (Child.start host fopen r).1.pc = .next .writeFileOkAck)
      ∨ (Child.start host fopen r).1.info.file = none
        ∧ ∀ state, (Child.start host fopen r).1.pc = .next state → state = .done := by
  by_cases hopens : Opens fopen r
  · obtain ⟨name, file, hname, hopen⟩ := hopens
    simp only [Child.start, filenameState_eq_ok host fopen hname hopen]
    exact .inl ⟨rfl, trivial⟩
  · exact .inr (Child.start_of_not_opens host hopens)

/-! ## The numbers stay what they are -/

theorem lookup_startedWith {fds : List Bool} {n : ℕ} {x : Handle}
    (h : (startedWith fds).lookup n = some x) : x = .inherited := by
  rw [Descriptors.lookup, startedWith, List.getElem?_map] at h
  cases hn : fds[n]? with
  | none => simp [hn] at h
  | some isOpen => cases isOpen <;> simp_all

/-- **A child that has its file**: its socket, with address `a`, is under the number of the
server's, and it polls that. -/
structure NumberedChild.Serving (fds : List Bool) (a : SockAddr) (n : ℕ) (c : NumberedChild) :
    Prop where
  process : ∀ r, c.process ≠ .start r
  socketNum : c.socketNum = n
  childSocket : c.childSocket = n
  socket : c.table.lookup n = some (.socket a)
  holding : (startedWith fds).Holding c.table n 1
  polls : c.polls = (Watch.only n).concrete
  file : n ≤ c.file ∧ (startedWith fds).lookup c.file = none

/-- **The numbers of a child** of a server whose socket has number `n`. -/
inductive NumberedChild.Sound (fds : List Bool) (a : SockAddr) (n : ℕ) (c : NumberedChild) : Prop
  /-- It has been forked. -/
  | start {r : Received} (process : c.process = .start r) (socketNum : c.socketNum = n)
      (polls : c.polls = .empty) (holding : (startedWith fds).Holding c.table n 0)
  /-- It is at its end, without a file. -/
  | ended {k : Child} (process : c.process = .handshake k) (socketNum : c.socketNum = n)
      (childSocket : c.childSocket = n) (holding : (startedWith fds).Holding c.table n 0)
      (nofile : k.info.file = none) (final : ∀ state, k.pc = .next state → state = .done)
  | serving (h : c.Serving fds a n)

namespace NumberedChild

variable {host : Host} {fopen : CString → Option Bytes} {stdin : Status} {a : SockAddr}
  {fds : List Bool} {n : ℕ} {c c' : NumberedChild} {ev : ServerEvent} {o : Traffic}

theorem sound_enter (serverAddr a : SockAddr) (fds : List Bool) (r : Received) :
    (enter serverAddr fds r).Sound fds a (enter serverAddr fds r).socketNum :=
  .start rfl rfl rfl (.start _ _)

/-- What is polled is set up anew for the socket, and only that. -/
theorem watch_eq {c : NumberedChild} {w : Watch} (hpolls : c.polls = w.concrete)
    (hbound : w.bound ≤ c.childSocket + 1) :
    c.watch = .ok { c with polls := (Watch.only c.childSocket).concrete } := by
  rw [watch, hpolls, Watch.watch_only hbound]
  rfl

/-- **What is sent and received** goes through the socket. -/
theorem advance_eq (host : Host) (fopen : CString → Option Bytes)
    (hlookup : c.table.lookup c.childSocket = some (.socket a)) (ev : ServerEvent) :
    c.advance host fopen ev = ((ProcessClient.machine host fopen a).step c.process ev).map fun t =>
        ({ c with process := t.1 }, t.2) := by
  simp only [advance, ProcessClient.machine, Option.map_map, boundTo_eq hlookup,
    sendtoErr_eq hlookup, Function.comp_def]

theorem Serving.advance (h : c.Serving fds a n) (hs : c.advance host fopen ev = some (c', o)) :
    c'.Serving fds a n := by
  obtain ⟨⟨p, sends⟩, hstep, heq⟩ := Option.map_eq_some_iff.mp hs
  obtain ⟨rfl, -⟩ := Prod.mk.inj heq
  exact { h with process := ProcessClient.not_start_of_step hstep }

/-- A child at its end does nothing. -/
theorem advance_ended (host : Host) (fopen : CString → Option Bytes) {k : Child}
    (hp : c.process = .handshake k) (final : ∀ state, k.pc = .next state → state = .done)
    (ev : ServerEvent) : c.process.step host fopen ev = none := by
  rw [hp]
  simp only [ProcessClient.step]
  split
  case h_4 => rfl
  all_goals exact absurd (final _ ‹_›) (by simp)

/-- **`filename_state`** gets the number back. -/
theorem Sound.start_eq (host : Host) (fopen : CString → Option Bytes) (h : c.Sound fds a n)
    {r : Received} (hp : c.process = .start r) : ∃ c' : NumberedChild, c.start host fopen a r
        = .ok (c', none, sendFrom a (Child.start host fopen r).2)
      ∧ c'.process = .handshake (Child.start host fopen r).1 ∧ c'.Sound fds a n := by
  cases h with
  | ended process => rw [hp] at process; cases process
  | serving h => exact absurd hp (h.process r)
  | start process socketNum polls holding =>
    obtain rfl := socketNum
    obtain ⟨hfst, hlookup, hholding⟩ := holding.reopen (.socket a)
    let opened := ((c.table.release c.socketNum).assign (.socket a)).2
    let handshake := ProcessClient.handshake (Child.start host fopen r).1
    rcases Child.start_cases host fopen r with ⟨hfile, hpc⟩ | ⟨hfile, hpc⟩
    · let c' : NumberedChild := ⟨handshake, (opened.assign .file).2, c.socketNum, c.socketNum,
        (opened.assign .file).1, (Watch.only c.socketNum).concrete⟩
      have hc : c.filenameState host fopen a r = { c' with polls := c.polls } := by
        simp [NumberedChild.filenameState, hfst, hfile, c', opened, handshake]
      have hwatch : (c.filenameState host fopen a r).watch = .ok c' := by
        rw [hc]
        exact watch_eq (w := .empty) polls (Nat.zero_le _)
      have hlookup' : c'.table.lookup c.socketNum = some (.socket a) :=
        Descriptors.lookup_assign_of_some hlookup .file
      refine ⟨c', ?_, rfl, .serving ⟨fun _ => by simp [c', handshake], rfl, rfl, hlookup',
        hholding.assign .file, rfl, hholding.below.le_assign _, hholding.free_assign _⟩⟩
      simp only [NumberedChild.start, if_pos hpc, hwatch, bind, Except.bind, pure, Except.pure]
      rw [show c'.childSocket = c.socketNum from rfl, sendtoErr_eq hlookup']
    · let c' : NumberedChild := ⟨handshake, opened, c.socketNum, c.socketNum, c.file, c.polls⟩
      have hc : c.filenameState host fopen a r = c' := by
        simp [NumberedChild.filenameState, hfst, hfile, c', opened, handshake]
      have hnot : (Child.start host fopen r).1.pc ≠ .next .writeFileOkAck := fun h => by
        cases hpc _ h
      refine ⟨c', ?_, rfl, .ended rfl rfl rfl hholding hfile hpc⟩
      simp only [NumberedChild.start, if_neg hnot, hc, bind, Except.bind, pure, Except.pure]
      rw [show c'.childSocket = c.socketNum from rfl, sendtoErr_eq hlookup]

/-! ### Polls -/

/-- What `pollCall` returns to a child. -/
def told (stdin : Status) (n : ℕ) (arrived : Bool) : ℤ :=
  if 0 < n ∧ stdin.broken = true then 0 else if arrived = true then n else -1

theorem Serving.polled_eq (h : c.Serving fds a n) (hn : (startedWith fds).Below n)
    (arrived : Bool) : polled c.polls stdin arrived c.table = .ok (told stdin n arrived) := by
  have hzero : 0 < n → c.table.lookup 0 = some .inherited := fun hpos => by
    obtain ⟨x, hx⟩ := Option.isSome_iff_exists.mp (hn 0 hpos)
    rw [(h.holding.kept 0 x hx).2, lookup_startedWith hx]
  rw [polled_only h.polls h.socket, Except.ok.injEq, told]
  by_cases hpos : 0 < n
  · simp only [hzero hpos, Handle.status]
  · simp only [hpos, false_and, if_false]

/-- Setting it up anew leaves the poll set as it was. -/
theorem Serving.watch_self (h : c.Serving fds a n) : c.watch = .ok c := by
  obtain rfl := h.childSocket
  rw [watch_eq h.polls (Watch.bound_only _).le, ← h.polls]

/-- A poll tells the truth if the number is not 0, and nothing is wrong with descriptor 0. -/
theorem told_of_truthful (hstdin : stdin.broken = false) (arrived : Bool) :
    told stdin n arrived = if arrived = true then (n : ℤ) else -1 := by
  rw [told, if_neg (by simp [hstdin])]

/-- Otherwise what it tells is never more than 0. -/
theorem told_le_zero (h : ¬ (0 < n ∧ stdin.broken = false)) (arrived : Bool) :
    told stdin n arrived ≤ 0 := by
  rw [told]
  split
  case isTrue => exact le_rfl
  case isFalse hnot =>
    have hn : n = 0 := by
      by_contra hn
      have hpos := Nat.pos_of_ne_zero hn
      exact h ⟨hpos, Bool.not_eq_true _ ▸ fun hbroken => hnot ⟨hpos, hbroken⟩⟩
    split <;> omega

/-- A datagram is never taken for a timeout. -/
theorem told_ne_neg_one (stdin : Status) (n : ℕ) : told stdin n true ≠ -1 := by
  rw [told]
  split
  · omega
  · rw [if_pos rfl]
    omega

/-- Where no poll is, nothing is heard. -/
theorem advance_eq_none (hquiet : ¬ (c.process.step host fopen .quiet).isSome = true)
    (hev : ev ≠ .run) : c.advance host fopen ev = none := by
  have hnone : c.process.step host fopen ev = none := by
    cases ev with
    | run => exact absurd rfl hev
    | quiet => exact Option.not_isSome_iff_eq_none.mp hquiet
    | receive stale d =>
      rw [← ProcessClient.step_receive_isSome _ stale d] at hquiet
      exact Option.not_isSome_iff_eq_none.mp hquiet
  rw [advance, hnone, Option.map_none]

theorem step_of_ne_run (hev : ev ≠ .run) : c.step host fopen stdin a ev
    = if (c.process.step host fopen .quiet).isSome then c.poll host fopen stdin ev else none := by
  cases ev with
  | run => exact absurd rfl hev
  | quiet | receive => rfl

theorem Serving.step_run (h : c.Serving fds a n) :
    c.step host fopen stdin a .run = c.advance host fopen .run := by
  rw [step]
  split
  · exact absurd ‹_› (h.process _)
  · rfl

/-- **A child hears what arrives**, in its handshake whatever its polls tell of descriptor 0, and
in its transfer if they tell the truth. -/
theorem Serving.step_eq (h : c.Serving fds a n) (hn : (startedWith fds).Below n)
    (hears : (0 < n ∧ stdin.broken = false)
      ∨ (∃ k, c.process = .handshake k) ∧ ev ≠ .quiet) :
    c.step host fopen stdin a ev = c.advance host fopen ev := by
  by_cases hrun : ev = .run
  · rw [hrun, h.step_run]
  rw [step_of_ne_run hrun]
  split
  case isFalse hquiet => exact (advance_eq_none hquiet hrun).symm
  case isTrue =>
    rw [poll, h.polled_eq hn]
    cases ev with
    | run => exact absurd rfl hrun
    | quiet =>
      obtain ⟨hpos, hstdin⟩ := hears.resolve_right fun hnot => hnot.2 rfl
      have htold : told stdin n (ServerEvent.arrives .quiet) = -1 := told_of_truthful hstdin false
      cases hp : c.process with
      | start r => exact absurd hp (h.process r)
      | handshake k => simp only [htold, ne_eq, not_true_eq_false, if_false]
      | transfer σ => simp only [htold, if_neg (show ¬ (-1 : ℤ) > 0 by decide)]
    | receive stale d =>
      cases hp : c.process with
      | start r => exact absurd hp (h.process r)
      | handshake k =>
        have htold := told_ne_neg_one stdin n
        simp only [ServerEvent.arrives, htold, ne_eq, not_false_eq_true, if_true, receive]
      | transfer σ =>
        obtain ⟨hpos, hstdin⟩ := hears.resolve_right fun hnot => by
          obtain ⟨⟨k, hk⟩, -⟩ := hnot
          rw [hp] at hk
          cases hk
        have htold : told stdin n true = n := told_of_truthful hstdin true
        have hgt : (n : ℤ) > 0 := by omega
        have hle : ¬ (n : ℤ) ≤ 0 := by omega
        simp only [ServerEvent.arrives, htold, if_pos hgt, waitOnAck, h.watch_self, h.polled_eq hn,
          if_neg hle, receive, if_true, ite_self]

/-- **A child does not hear in its transfer** if they do not. -/
theorem Serving.step_deaf (h : c.Serving fds a n) (hn : (startedWith fds).Below n)
    (hdeaf : ¬ (0 < n ∧ stdin.broken = false)) {W : ℕ} {σ : Server W}
    (hp : c.process = .transfer σ) (hev : ev ≠ .run) :
    c.step host fopen stdin a ev = c.advance host fopen .quiet := by
  rw [step_of_ne_run hev]
  split
  case isFalse hquiet => exact (advance_eq_none hquiet (by simp)).symm
  case isTrue =>
    have hle := told_le_zero hdeaf ev.arrives
    rw [poll, h.polled_eq hn]
    simp only [hp, if_neg (show ¬ told stdin n ev.arrives > 0 by omega)]

/-- Whatever a poll tells, the child goes on as if it had heard or as if it had not. -/
theorem Serving.step_cases (h : c.Serving fds a n) (hn : (startedWith fds).Below n)
    (hs : c.step host fopen stdin a ev = some (c', o)) :
    c.advance host fopen ev = some (c', o) ∨ c.advance host fopen .quiet = some (c', o) := by
  by_cases hears : (0 < n ∧ stdin.broken = false)
    ∨ (∃ k, c.process = .handshake k) ∧ ev ≠ .quiet
  · exact .inl (h.step_eq hn hears ▸ hs)
  obtain ⟨hdeaf, hnot⟩ := not_or.mp hears
  cases hp : c.process with
  | start r => exact absurd hp (h.process r)
  | handshake k =>
    obtain rfl : ev = .quiet := by
      by_contra hev
      exact hnot ⟨⟨k, hp⟩, hev⟩
    rw [step_of_ne_run (by simp)] at hs
    split at hs
    case isFalse => cases hs
    case isTrue =>
      rw [poll, h.polled_eq hn, hp] at hs
      simp only at hs
      split at hs
      · cases hs
      · exact .inl hs
  | transfer σ =>
    by_cases hev : ev = .run
    · rw [hev, h.step_run] at hs
      exact .inl (hev ▸ hs)
    · exact .inr (h.step_deaf hn hdeaf hp hev ▸ hs)

/-- **The step lemma**: whatever the polls tell, the numbers stay what they are. -/
theorem Sound.step (h : c.Sound fds a n) (hn : (startedWith fds).Below n)
    (hs : c.step host fopen stdin a ev = some (c', o)) : c'.Sound fds a n := by
  cases h with
  | start process socketNum polls holding =>
    cases ev with
    | run =>
      obtain ⟨c₁, hstart, -, hsound⟩ := Sound.start_eq host fopen (a := a)
        (.start process socketNum polls holding) process
      simp only [NumberedChild.step, process, hstart, Except.toOption, Option.some.injEq,
        Prod.mk.injEq] at hs
      exact hs.1 ▸ hsound
    | quiet | receive => simp [NumberedChild.step, process, ProcessClient.step] at hs
  | ended process _ _ _ _ final =>
    have hnone := advance_ended host fopen process final
    cases ev with
    | run => simp [NumberedChild.step, process, NumberedChild.advance, process ▸ hnone .run] at hs
    | quiet | receive => simp [NumberedChild.step, hnone .quiet] at hs
  | serving h =>
    rcases h.step_cases hn hs with hs | hs
    · exact .serving (h.advance hs)
    · exact .serving (h.advance hs)

/-- **As long as it hears** a child does what one of the whole does. -/
theorem Sound.stepRel (host : Host) (fopen : CString → Option Bytes) (stdin : Status)
    (h : c.Sound fds a n) (hn : (startedWith fds).Below n)
    (hears : (0 < n ∧ stdin.broken = false)
      ∨ (∀ W (σ : Server W), c.process ≠ .transfer σ) ∧ ev ≠ .quiet) :
    StepRel (fun c p => c.Sound fds a n ∧ c.process = p) (c.step host fopen stdin a ev)
      ((ProcessClient.machine host fopen a).step c.process ev) := by
  cases h with
  | start process socketNum polls holding =>
    cases ev with
    | run =>
      obtain ⟨c₁, hstart, hprocess, hsound⟩ := Sound.start_eq host fopen (a := a)
        (.start process socketNum polls holding) process
      simp only [NumberedChild.step, process, hstart, Except.toOption, ProcessClient.machine,
        ProcessClient.step, Option.map_some, ServerEvent.reads]
      exact .some ⟨⟨hsound, hprocess⟩, rfl⟩
    | quiet | receive =>
      simp only [NumberedChild.step, process, ProcessClient.step, ProcessClient.machine,
        Option.isSome_none, Bool.false_eq_true, if_false, Option.map_none]
      exact .none
  | ended process _ _ _ _ final =>
    have hnone := advance_ended host fopen process final
    have hstep : c.step host fopen stdin a ev = none := by
      cases ev with
      | run => simp [NumberedChild.step, process, NumberedChild.advance, process ▸ hnone .run]
      | quiet | receive => simp [NumberedChild.step, hnone .quiet]
    have hmachine : (ProcessClient.machine host fopen a).step c.process ev = none := by
      simp only [ProcessClient.machine, hnone ev, Option.map_none]
    rw [hstep, hmachine]
    exact .none
  | serving h =>
    have hears' : (0 < n ∧ stdin.broken = false)
        ∨ (∃ k, c.process = .handshake k) ∧ ev ≠ .quiet := by
      refine hears.imp_right fun hquiet => ⟨?_, hquiet.2⟩
      cases hp : c.process with
      | start r => exact absurd hp (h.process r)
      | handshake k => exact ⟨k, rfl⟩
      | transfer σ => exact absurd hp (hquiet.1 _ σ)
    have hadvance := advance_eq host fopen (h.childSocket.symm ▸ h.socket) ev
    rw [h.step_eq hn hears', hadvance]
    cases hs : (ProcessClient.machine host fopen a).step c.process ev with
    | none => exact .none
    | some t =>
      rw [hs, Option.map_some] at hadvance
      exact .some ⟨⟨.serving (h.advance hadvance), rfl⟩, rfl⟩

end NumberedChild

/-! ## What follows -/

/-- **A child does not become an accept loop.**  Whenever it gets to the end of `processClient`,
there is nothing to receive from under the number that `processServer` goes on with; it has closed
nothing the server was started with, and needed no more than two descriptors besides. -/
theorem child_never_accepts (host : Host) (fopen : CString → Option Bytes) (stdin : Status)
    (serverAddr a : SockAddr) (fds : List Bool) (r : Received)
    {es : List (Edge NumberedChild ServerEvent Traffic)} {c : NumberedChild}
    (run : Run (NumberedChild.machine host fopen stdin a) (fun _ _ => True)
      (.enter serverAddr fds r) es c) (hfile : c.process.info.file.isSome) :
    boundTo c.leave c.socketNum = none
      ∧ (∀ m, (startedWith fds).lookup m = some .inherited → c.leave.lookup m = some .inherited)
      ∧ c.table.inUse ≤ (startedWith fds).inUse + 2 := by
  have hsound := run.invariant (NumberedChild.sound_enter serverAddr a fds r)
    fun c ev c' o h _ hs => h.step (Descriptors.below_assign _ _) hs
  cases hsound with
  | start process =>
    rw [process] at hfile
    cases hfile
  | ended process _ _ _ nofile =>
    rw [process] at hfile
    change _ = true at hfile
    rw [show (ProcessClient.handshake _).info.file = _ from nofile] at hfile
    cases hfile
  | serving h =>
    have hholding := h.holding.release h.file.1 h.file.2
    refine ⟨?_, fun m hm => ?_, ?_⟩
    · rw [boundTo, NumberedChild.leave, h.childSocket, h.socketNum,
        Descriptors.lookup_release_self]
    · have hkept := hholding.release le_rfl hholding.free
      rw [NumberedChild.leave, h.childSocket]
      exact (hkept.kept m _ hm).2
    · have hle := h.holding.inUse
      have hrelease := Descriptors.inUse_release c.table
        (NumberedChild.enter serverAddr fds r).socketNum
      split at hrelease <;> omega

/-- Descriptors 0, 1 and 2 were open, and the file is empty. -/
theorem child_never_accepts_three : ∃ es c,
    Run (NumberedChild.machine (.standard .big) (fun _ => some []) ⟨false, false⟩ ⟨1, 2⟩)
      (fun _ _ => True) (.enter ⟨1, 1⟩ [true, true, true] smallRequest) es c
      ∧ c.process.pc = .next .done ∧ boundTo c.leave 3 = none := by
  obtain ⟨es, c, run, h⟩ := exists_run_of_replay
    (M := NumberedChild.machine (.standard .big) (fun _ => some []) ⟨false, false⟩ ⟨1, 2⟩)
    (G := fun _ _ => True) (s := .enter ⟨1, 1⟩ [true, true, true] smallRequest)
    [.run, .receive [] ⟨⟨1, 1⟩, fileOkAckPDU (.standard .big)⟩, .run, .run,
      .receive [] ⟨⟨1, 1⟩, createPDU (.standard .big) 1 35 []⟩]
    (P := fun _ c => c.process.pc = .next .done ∧ c.socketNum = 3 ∧ c.process.info.file.isSome)
    (by decide +kernel)
  obtain ⟨hdone, hnum, hfile⟩ := of_decide_eq_true h
  exact ⟨es, c, run, hdone, hnum ▸ (child_never_accepts _ _ _ _ _ _ _ run hfile).1⟩

/-- The server's socket is under 0 exactly if that was free. -/
theorem socketNum_pos_iff (serverAddr : SockAddr) (fds : List Bool) (r : Received) :
    0 < (NumberedChild.enter serverAddr fds r).socketNum ↔ fds.head? = some true := by
  cases fds with
  | nil => simp [NumberedChild.enter, startedWith, Descriptors.assign]
  | cons isOpen fds =>
    cases isOpen <;> simp [NumberedChild.enter, startedWith, Descriptors.assign]

/-- A request for a file, with a window of no slots: the child polls as soon as it is told to go
on. -/
def noWindowRequest : Received := ⟨⟨1, 1⟩, [0, 0, 0, 0, 0, 0, 8, 0, 0, 0, 0, 102], 12⟩

/-- **A child that is told to go on** and has a full window. -/
theorem exists_run_noWindow (host : Host) (a : SockAddr) : ∃ es, ∃ W, ∃ σ : Server W,
    Run (ProcessClient.machine host (fun _ => some []) a)
        (fun p ev => (∀ W (σ : Server W), p ≠ .transfer σ) ∧ ev ≠ .quiet)
        (.start noWindowRequest) es (.transfer σ)
      ∧ σ.pc = .fill ∧ σ.window.isFull = true := by
  let machine := ProcessClient.machine host (fun _ => some []) a
  let k := (Child.start host (fun _ => some []) noWindowRequest).1
  let r := safeRecvfrom [] MAXBUF ⟨⟨1, 1⟩, fileOkAckPDU host⟩
  have hstart : filenameState host (fun _ => some []) noWindowRequest.buffer
      noWindowRequest.bytesRecv (.ofClient noWindowRequest.srcAddr) = _ :=
    filenameState_eq_ok host _ (r := noWindowRequest) rfl rfl
  have hk : k.pc = .next .writeFileOkAck ∧ k.info.windowSize = 0 := by
    simp only [k, Child.start, hstart, true_and]
    cases host.endian <;> rfl
  have hflag : r.flag = 34 := flag_safeRecvfrom _ _ _ _ _ _ (by rw [MAXBUF]; omega)
  have h₁ : machine.step (.start noWindowRequest) .run = some (.handshake k, none, _) := rfl
  have h₂ : machine.step (.handshake k) (.receive [] ⟨⟨1, 1⟩, fileOkAckPDU host⟩)
      = some (.handshake (writeFileOkAckState k (some r)), some a, []) := by
    simp [machine, ProcessClient.machine, ProcessClient.step, hk.1, ServerEvent.reads, sendFrom, r]
  have hk₂ : (writeFileOkAckState k (some r)).pc = .next .sendData
      ∧ (writeFileOkAckState k (some r)).info.windowSize = 0 := by
    simp [writeFileOkAckState, hflag, hk.2]
  have h₃ : machine.step (.handshake (writeFileOkAckState k (some r))) .run
      = some (.transfer (Server.start (writeFileOkAckState k (some r)).info), none, []) := by
    simp [machine, ProcessClient.machine, ProcessClient.step, hk₂.1, ServerEvent.reads, sendFrom]
  refine ⟨_, _, _, ((Run.nil.cons ?_ h₁).cons ?_ h₂).cons ?_ h₃, rfl, ?_⟩
  · simp
  · simp
  · simp
  · simp [Server.start, CircularQueue.isFull, CircularQueue.init, hk₂.2]

/-- **Exactly when the polls of a child tell the truth**: a child with its numbers does what one of
the whole does, whatever it was asked for and whatever there is to open, if and only if descriptor 0
was open when the server was started, and nothing is wrong with it. -/
theorem child_numbered_iff (host : Host) (stdin : Status) (serverAddr a : SockAddr)
    (fds : List Bool) :
    (∀ (fopen : CString → Option Bytes) (r : Received) (tr : List (ServerEvent × Traffic)),
      (∃ es c, Run (NumberedChild.machine host fopen stdin a) (fun _ _ => True)
          (.enter serverAddr fds r) es c ∧ trace es = tr)
        ↔ ∃ es p, Run (ProcessClient.machine host fopen a) (fun _ _ => True) (.start r) es p
          ∧ trace es = tr)
      ↔ fds.head? = some true ∧ stdin.broken = false := by
  constructor
  · intro hall
    by_contra hdeaf
    rw [← socketNum_pos_iff serverAddr fds noWindowRequest] at hdeaf
    obtain ⟨es, W, σ, run, hpc, hfull⟩ := exists_run_noWindow host a
    obtain ⟨es', c, run', hc, htrace⟩ := run.exists_lockstep
      (N := NumberedChild.machine host (fun _ => some []) stdin a) (H := fun _ _ => True)
      (R := fun p c => c.Sound fds a (NumberedChild.enter serverAddr fds noWindowRequest).socketNum
        ∧ c.process = p) ⟨NumberedChild.sound_enter serverAddr a fds noWindowRequest, rfl⟩
      fun p c ev p' o hc hg hs => by
        obtain ⟨hsound, rfl⟩ := hc
        obtain ⟨c', hstep, hc'⟩ := (hsound.stepRel _ _ stdin (Descriptors.below_assign _ _)
          (.inr hg)).exists_left hs
        exact ⟨c', trivial, hstep, hc'⟩
    -- an ack arrives, and the one reads it
    obtain ⟨p, sends, hstep⟩ : ∃ p sends, (ProcessClient.machine host (fun _ => some []) a).step
        (.transfer σ) (.receive [] ⟨⟨1, 1⟩, []⟩) = some (p, some a, sends) := by
      simp [ProcessClient.machine, ProcessClient.step, Server.step, hpc, hfull, ServerEvent.reads]
    obtain ⟨es₁, c₁, run₁, htrace₁⟩ := (hall (fun _ => some []) noWindowRequest
      ((_, some a, sends) :: trace es)).mpr
      ⟨_, _, (run.mono fun _ _ _ => trivial).cons trivial hstep, rfl⟩
    obtain ⟨es₂, c₂, run₂, htrace₂, hstep₂⟩ := run₁.exists_of_trace_cons htrace₁
    obtain rfl := run₂.eq_of_trace run' (htrace₂.trans htrace.symm)
    obtain ⟨hsound, hp⟩ := hc
    cases hsound with
    | start process => cases process.symm.trans hp
    | ended process => cases process.symm.trans hp
    | serving h =>
      have hs : c₂.step host (fun _ => some []) stdin a (.receive [] ⟨⟨1, 1⟩, []⟩)
          = some (c₁, some a, sends) := hstep₂
      rw [h.step_deaf (Descriptors.below_assign _ _) hdeaf hp (by simp)] at hs
      obtain ⟨t, -, heq⟩ := Option.map_eq_some_iff.mp hs
      simp [ServerEvent.reads] at heq
  · rintro ⟨hfds, hstdin⟩ fopen r tr
    exact exists_trace_iff (fun _ => True)
      (R := fun c p => c.Sound fds a (NumberedChild.enter serverAddr fds r).socketNum
        ∧ c.process = p) ⟨NumberedChild.sound_enter serverAddr a fds r, rfl⟩
      (fun c p ev h => h.2 ▸ h.1.stepRel _ _ _ (Descriptors.below_assign _ _)
        (.inl ⟨(socketNum_pos_iff serverAddr fds r).mpr hfds, hstdin⟩)) tr

end RemoteFileCopy
