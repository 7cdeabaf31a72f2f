import RemoteFileCopy.DataPhase.Uneven
import RemoteFileCopy.Setup.ProcessClient
import RemoteFileCopy.Setup.Retries

/-!
# System/World — any number of `rcopy`s, the server, its children and the network

    rcopy i ──── 8 ────▸ accept loop ──fork──▸ child
    rcopy i ◂──── 9 / 33 ────────────────────── child
    rcopy i ───── 34 ──────────────────────────▸ child
    rcopy i ◂──── 16 / 17 / 18 / 10 ─────────── child
    rcopy i ───── 5 / 6 / 35 ──────────────────▸ child

Every process from its start to its end, and one network for all of them.  A socket that opens gets
an address no other has had (`Fresh`); the network loses, delays, reorders and duplicates datagrams,
but delivers what was sent.  What comes for a socket that is closed can only be lost.

The parts are those of the set-up and of the data phase: `Rcopy.step` up to the receive loop,
`Client.step` in it, and `ProcessClient.step` for a child.  `World.StepCase` lists what a step of
the whole can be.
-/

namespace RemoteFileCopy

open Transition

/-! ## What is run -/

/-- **An `rcopy`** — a command line that `checkArgs` accepts, what its machine allows, and what
`recvAddr` happens to hold. -/
structure Invocation where
  argv : List CString
  creates : CString → Bool
  calloc : ℤ → Bool
  recvAddr : SockAddr
  accepted : ∃ rateOk port, checkArgs rateOk argv = some port

namespace Invocation

/-- The slots of its receive buffer. -/
def slots (v : Invocation) : ℕ := (receiveWindowSize v.argv).toNat

theorem coe_slots (v : Invocation) : (v.slots : ℤ) = atoi (arg v.argv 3) := by
  obtain ⟨rateOk, port, h⟩ := v.accepted
  have := (checkArgs_eq_some h).2.1
  rw [slots, receiveWindowSize]
  omega

instance (v : Invocation) : NeZero v.slots := ⟨by
  obtain ⟨rateOk, port, h⟩ := v.accepted
  have := (checkArgs_eq_some h).2.1
  have := v.coe_slots
  omega⟩

theorem strlen_le (v : Invocation) : (arg v.argv 1).strlen ≤ 100 := by
  obtain ⟨rateOk, port, h⟩ := v.accepted
  exact (checkArgs_eq_some h).1

end Invocation

/-- **A server and the `rcopy`s that ask it for files.** -/
structure Site (ι : Type) where
  host : Host
  serverAddr : SockAddr
  fopen : CString → Option Bytes
  rcopy : ι → Invocation

namespace Site

variable {ι : Type} (site : Site ι) (i : ι)

instance : NeZero (site.rcopy i).slots := inferInstance

/-- What the set-up of an `rcopy` is run with. -/
def setup : SetupConfig where
  host := site.host
  argv := (site.rcopy i).argv
  serverAddr := site.serverAddr
  fopen := site.fopen
  creates := (site.rcopy i).creates
  calloc := (site.rcopy i).calloc

/-- The window size the child of an `rcopy` ends up with. -/
def windowSize : UInt16 := networkSize site.host (site.rcopy i).argv 3

/-- The buffer size the child of an `rcopy` ends up with. -/
def bufferSize : UInt16 := networkSize site.host (site.rcopy i).argv 4

/-- The file an `rcopy` asks for; an empty one where it cannot be opened. -/
def source : Bytes := (site.fopen (arg (site.rcopy i).argv 1)).getD []

/-- The data phase between socket `p` of an `rcopy` and a child at `a`. -/
def config (p a : SockAddr) : Config where
  host := site.host
  source := site.source i
  windowSize := site.windowSize i
  bufferSize := site.bufferSize i
  clientAddr := p
  childAddr := a
  recvAddr := (site.rcopy i).recvAddr

end Site

/-! ## An `rcopy` -/

/-- A running `rcopy`, with its receive loop. -/
structure RcopyProcess (W : ℕ) extends Rcopy where
  data : Client W

namespace RcopyProcess

variable {W : ℕ}

/-- Its set-up has come to `c`. -/
def setUp (p : RcopyProcess W) (c : Rcopy) : RcopyProcess W := { p with toRcopy := c }

/-- **One step of an `rcopy`** — of its set-up, or of its receive loop when it has come to it. -/
def step [NeZero W] (cfg : SetupConfig) (p : RcopyProcess W) :
    RcopyAct → Option (RcopyProcess W × List Send)
  | .run a => (p.toRcopy.step cfg (.run a)).map fun t => (p.setUp t.1, t.2)
  | .timeout a => (p.toRcopy.step cfg (.timeout a)).map fun t => (p.setUp t.1, t.2)
  | .receive stale d =>
    if p.pc = .receiving then
      (p.data.step cfg.host stale d).map fun t => ({ p with data := t.1 }, t.2)
    else (p.toRcopy.step cfg (.receive stale d)).map fun t => (p.setUp t.1, t.2)

/-- An `rcopy` that has just been started. -/
def enter (v : Invocation) : RcopyProcess v.slots := ⟨⟨.next .start, [], none⟩, .enter _ v.recvAddr⟩

end RcopyProcess

/-! ## The whole -/

variable {ι : Type}

/-- **Every process and every datagram in flight.**  The children are known by the addresses of
their sockets; a forked child that has yet to open its own is still the request it was forked
for. -/
structure World (site : Site ι) where
  rcopy : (i : ι) → RcopyProcess (site.rcopy i).slots
  forked : List Received
  children : SockAddr → Option ProcessClient
  inFlight : List Flight

/-- The receiver of a datagram. -/
inductive Receiver (ι : Type)
  | acceptLoop
  | rcopy (i : ι)
  | child
  deriving DecidableEq, Repr

/-- What happens next. -/
inductive WorldEvent (ι : Type)
  /-- An `rcopy` runs up to its next wait; a socket it opens gets address `a`. -/
  | run (i : ι) (a : SockAddr)
  /-- The poll of an `rcopy` finds nothing; a socket it opens then gets address `a`. -/
  | timeout (i : ι) (a : SockAddr)
  /-- Forked child `j` opens its socket, with address `a`. -/
  | fork (j : ℕ) (a : SockAddr)
  /-- The child at `a` runs up to its next poll. -/
  | childRun (a : SockAddr)
  /-- A poll of the child at `a` finds nothing. -/
  | childQuiet (a : SockAddr)
  /-- Datagram `k` in flight arrives, in an array that held `stale`. -/
  | deliver (receiver : Receiver ι) (k : ℕ) (stale : Bytes)
  /-- Datagram `k` in flight is lost. -/
  | lose (k : ℕ)
  /-- Datagram `k` in flight is duplicated; the copy is the last in flight. -/
  | duplicate (k : ℕ)
  deriving DecidableEq, Repr

namespace World

variable {site : Site ι}

/-- An address no socket has had. -/
def Fresh (w : World site) (a : SockAddr) : Prop :=
  a ≠ site.serverAddr ∧ (∀ i, a ∉ (w.rcopy i).sockets) ∧ w.children a = none

instance [Fintype ι] (w : World site) (a : SockAddr) : Decidable (w.Fresh a) :=
  inferInstanceAs (Decidable (_ ∧ _ ∧ _))

/-- **Sockets get addresses of their own.** -/
def Opens (w : World site) : WorldEvent ι → Prop
  | .run _ a | .timeout _ a | .fork _ a => w.Fresh a
  | _ => True

instance [Fintype ι] (w : World site) : ∀ ev, Decidable (w.Opens ev)
  | .run _ a | .timeout _ a | .fork _ a => inferInstanceAs (Decidable (w.Fresh a))
  | .childRun _ | .childQuiet _ | .deliver .. | .lose _ | .duplicate _ =>
    inferInstanceAs (Decidable True)

variable [DecidableEq ι]

/-- Process `i` is `p` now, and has sent something. -/
def setRcopy (w : World site) (i : ι) (p : RcopyProcess (site.rcopy i).slots)
    (sends : List Send) : World site :=
  { w with
    rcopy := Function.update w.rcopy i p
    inFlight := w.inFlight ++ p.sockets.head?.elim [] fun a => sendFrom a sends }

/-- The child at `a` is `c` now, and has sent something. -/
def setChild (w : World site) (a : SockAddr) (c : ProcessClient) (sends : List Send) :
    World site :=
  { w with
    children := Function.update w.children a (some c)
    inFlight := w.inFlight ++ sendFrom a sends }

/-- An `rcopy` takes a step. -/
def rcopyStep (w : World site) (i : ι) (act : RcopyAct) : Option (World site × List Send) :=
  ((w.rcopy i).step (site.setup i) act).map fun t => (w.setRcopy i t.1 t.2, t.2)

/-- The child at `a` takes a step. -/
def childStep (w : World site) (a : SockAddr) (ev : ServerEvent) :
    Option (World site × List Send) :=
  (w.children a).bind fun c =>
    (c.step site.host site.fopen ev).map fun t => (w.setChild a t.1 t.2, t.2)

section Steps

variable {w w' : World site} {sends : List Send}

/-- What an `rcopy` does is what its process does. -/
theorem rcopyStep_eq_some {i : ι} {act : RcopyAct} (hs : w.rcopyStep i act = some (w', sends)) :
    ∃ q, (w.rcopy i).step (site.setup i) act = some (q, sends)
      ∧ w' = w.setRcopy i q sends := by
  obtain ⟨⟨q, sends'⟩, hstep, heq⟩ := Option.map_eq_some_iff.mp hs
  obtain ⟨rfl, rfl⟩ := Prod.mk.inj heq
  exact ⟨q, hstep, rfl⟩

omit [DecidableEq ι] in
/-- What a child does is what its process does. -/
theorem childStep_eq_some {a : SockAddr} {ev : ServerEvent}
    (hs : w.childStep a ev = some (w', sends)) :
    ∃ c c', w.children a = some c ∧ c.step site.host site.fopen ev = some (c', sends)
      ∧ w' = w.setChild a c' sends := by
  obtain ⟨c, hc, hs⟩ := Option.bind_eq_some_iff.mp hs
  obtain ⟨⟨c', sends'⟩, hstep, heq⟩ := Option.map_eq_some_iff.mp hs
  obtain ⟨rfl, rfl⟩ := Prod.mk.inj heq
  exact ⟨c, c', hc, hstep, rfl⟩

end Steps

/-- The accept loop forks on flag 8, and ignores the rest. -/
def accept (w : World site) (r : Received) : World site :=
  if r.flag = 8 then { w with forked := w.forked ++ [r] } else w

/-- Datagram `k` is no longer in flight. -/
def without (w : World site) (k : ℕ) : World site := { w with inFlight := w.inFlight.eraseIdx k }

/-- A datagram arrives. -/
def deliver (w : World site) (f : Flight) (stale : Bytes) :
    Receiver ι → Option (World site × List Send)
  | .acceptLoop =>
    if f.dest = site.serverAddr then some (w.accept (safeRecvfrom stale MAXBUF f.datagram), [])
    else none
  | .rcopy i =>
    if (w.rcopy i).sockets.head? = some f.dest then w.rcopyStep i (.receive stale f.datagram)
    else none
  | .child => w.childStep f.dest (.receive stale f.datagram)

/-- **One step of the whole.** -/
def step (w : World site) : WorldEvent ι → Option (World site × List Send)
  | .run i a => w.rcopyStep i (.run a)
  | .timeout i a => w.rcopyStep i (.timeout a)
  | .fork j a =>
    (w.forked[j]?).map fun r => ({ w with
      forked := w.forked.eraseIdx j
      children := Function.update w.children a (some (.start r)) }, [])
  | .childRun a => w.childStep a .run
  | .childQuiet a => w.childStep a .quiet
  | .deliver receiver k stale =>
    (w.inFlight[k]?).bind fun f => (w.without k).deliver f stale receiver
  | .lose k => (w.inFlight[k]?).map fun _ => (w.without k, [])
  | .duplicate k => (w.inFlight[k]?).map fun f => ({ w with inFlight := w.inFlight ++ [f] }, [])

/-- Every `rcopy` has started, and the server waits for requests. -/
def enter (site : Site ι) : World site where
  rcopy i := .enter (site.rcopy i)
  forked := []
  children := fun _ => none
  inFlight := []

/-- The whole as a machine. -/
def machine (site : Site ι) : Machine (World site) (WorldEvent ι) (List Send) where
  step := step

/-! ### What a step can be -/

/-- **Everything that can happen in one step.** -/
inductive StepCase (w : World site) : WorldEvent ι → World site × List Send → Prop
  | run (i : ι) (a : SockAddr) {r} (hs : w.rcopyStep i (.run a) = some r) :
      StepCase w (.run i a) r
  | timeout (i : ι) (a : SockAddr) {r} (hs : w.rcopyStep i (.timeout a) = some r) :
      StepCase w (.timeout i a) r
  | fork (j : ℕ) (a : SockAddr) {r : Received} (hr : w.forked[j]? = some r) :
      StepCase w (.fork j a) ({ w with
        forked := w.forked.eraseIdx j
        children := Function.update w.children a (some (.start r)) }, [])
  | childRun (a : SockAddr) {r} (hs : w.childStep a .run = some r) : StepCase w (.childRun a) r
  | childQuiet (a : SockAddr) {r} (hs : w.childStep a .quiet = some r) :
      StepCase w (.childQuiet a) r
  /-- The accept loop hears a datagram. -/
  | accept {k : ℕ} {stale : Bytes} {f : Flight} (hk : w.inFlight[k]? = some f)
      (hdest : f.dest = site.serverAddr) : StepCase w (.deliver .acceptLoop k stale)
        ((w.without k).accept (safeRecvfrom stale MAXBUF f.datagram), [])
  /-- An `rcopy` hears one. -/
  | hear (i : ι) {k : ℕ} {stale : Bytes} {f : Flight} {r} (hk : w.inFlight[k]? = some f)
      (hhead : (w.rcopy i).sockets.head? = some f.dest)
      (hs : (w.without k).rcopyStep i (.receive stale f.datagram) = some r) :
      StepCase w (.deliver (.rcopy i) k stale) r
  /-- A child hears one. -/
  | childHear {k : ℕ} {stale : Bytes} {f : Flight} {r} (hk : w.inFlight[k]? = some f)
      (hs : (w.without k).childStep f.dest (.receive stale f.datagram) = some r) :
      StepCase w (.deliver .child k stale) r
  | lose {k : ℕ} {f : Flight} (hk : w.inFlight[k]? = some f) :
      StepCase w (.lose k) (w.without k, [])
  | duplicate {k : ℕ} {f : Flight} (hk : w.inFlight[k]? = some f) :
      StepCase w (.duplicate k) ({ w with inFlight := w.inFlight ++ [f] }, [])

/-- **The inversion lemma.** -/
theorem step_cases {w : World site} {ev : WorldEvent ι} {r : World site × List Send}
    (h : w.step ev = some r) : StepCase w ev r := by
  cases ev with
  | run i a => exact .run i a h
  | timeout i a => exact .timeout i a h
  | childRun a => exact .childRun a h
  | childQuiet a => exact .childQuiet a h
  | fork j a =>
    obtain ⟨f, hf, rfl⟩ := Option.map_eq_some_iff.mp h
    exact .fork j a hf
  | lose k =>
    obtain ⟨f, hk, rfl⟩ := Option.map_eq_some_iff.mp h
    exact .lose hk
  | duplicate k =>
    obtain ⟨f, hk, rfl⟩ := Option.map_eq_some_iff.mp h
    exact .duplicate hk
  | deliver receiver k stale =>
    obtain ⟨f, hk, h⟩ := Option.bind_eq_some_iff.mp h
    cases receiver with
    | child => exact .childHear hk h
    | acceptLoop =>
      obtain ⟨hdest, heq⟩ := Option.ite_none_right_eq_some.mp h
      obtain rfl := Option.some_inj.mp heq
      exact .accept hk hdest
    | rcopy i =>
      obtain ⟨hhead, hs⟩ := Option.ite_none_right_eq_some.mp h
      exact .hear i hk hhead hs

end World

end RemoteFileCopy
