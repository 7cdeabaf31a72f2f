import RemoteFileCopy.Setup.Redirect
import RemoteFileCopy.System.World

/-!
# System/Processes — what one step of a child or of an `rcopy` does

`ProcessClient.step_wired` is what a child keeps of its request as long as it hears only the socket
it was asked from; `RcopyProcess.StepCase` lists what an `rcopy` can do, from its first attempt to
the end of its receive loop.
-/

namespace RemoteFileCopy

open Transition

/-! ## Children -/

/-- The child has had its ack. -/
def ProcessClient.Past : ProcessClient → Prop
  | .start _ => False
  | .handshake c => c.pc = .next .sendData
  | .transfer _ => True

/-- A reply of `filename_state`. -/
def HandshakePDU (d : Bytes) : Prop := 7 ≤ d.length ∧ (d.getD 6 0 = 9 ∨ d.getD 6 0 = 33)

theorem handshakePDU_createPDU (host : Host) (s : UInt32) {flag : UInt8}
    (hflag : flag = 9 ∨ flag = 33) (p : Bytes) : HandshakePDU (createPDU host s flag p) := by
  rw [HandshakePDU, getD_createPDU, length_createPDU]
  exact ⟨Nat.le_add_left _ _, hflag⟩

namespace Site

variable {ι : Type} (site : Site ι) (i : ι)

/-- What a child of `rcopy i` has when it waits for its ack. -/
def opened (p : SockAddr) : ServerInfo :=
  { ServerInfo.ofClient p with
    file := some (site.source i)
    windowSize := site.windowSize i
    bufferSize := site.bufferSize i }

/-- **What a child keeps of the request of `rcopy i`.** -/
def Serves : ProcessClient → Prop
  | .start r => ∃ stale, r = receivedRequest site.host (site.rcopy i).argv stale r.srcAddr
  | .handshake c => c.pc = .next .writeFileOkAck ∨ c.pc = .next .sendData →
      c.info = site.opened i c.info.clientAddr
  | .transfer _ => True

end Site

section Child

variable {ι : Type} {site : Site ι} {i : ι} {c c' : ProcessClient} {ev : ServerEvent}
  {sends : List Send}

/-- **A child on the request of `rcopy i`** opens its file, or comes to its end, and replies. -/
theorem Child.start_serves {r : Received} (h : site.Serves i (.start r)) :
    site.Serves i (.handshake (Child.start site.host site.fopen r).1)
      ∧ (Child.start site.host site.fopen r).1.pc ≠ .next .sendData
      ∧ ∀ m ∈ (Child.start site.host site.fopen r).2, HandshakePDU m.pdu := by
  obtain ⟨stale, hr⟩ := h
  rcases Nat.lt_or_ge 99 (arg (site.rcopy i).argv 1).strlen with hlong | hfits
  · have hover := requestedFilename_overflow site.host (site.rcopy i).argv stale r.srcAddr
      (le_antisymm (site.rcopy i).strlen_le hlong)
    rw [← hr] at hover
    have hstart : Child.start site.host site.fopen r
        = (⟨.aborted .overflow, .ofClient r.srcAddr, 0⟩, []) := by
      simp [Child.start, filenameState, hover, bind, Except.bind]
    rw [hstart]
    exact ⟨fun h => by simp at h, by simp, by simp⟩
  · have hstate := filenameState_receivedRequest site.host (site.rcopy i).argv stale r.srcAddr hfits
      site.fopen (.ofClient r.srcAddr)
    rw [← hr] at hstate
    cases hopen : site.fopen (arg (site.rcopy i).argv 1) with
    | none =>
      rw [hopen] at hstate
      simp only [Child.start, hstate]
      refine ⟨fun h => by simp at h, by simp, fun m hm => ?_⟩
      obtain rfl := List.mem_singleton.mp hm
      exact handshakePDU_createPDU _ _ (.inr rfl) _
    | some file =>
      rw [hopen] at hstate
      have hsource : site.source i = file := by rw [Site.source, hopen, Option.getD_some]
      simp only [Child.start, hstate]
      refine ⟨fun _ => ?_, by simp, fun m hm => ?_⟩
      · rw [Site.opened, hsource]
        rfl
      · obtain rfl := List.mem_singleton.mp hm
        exact handshakePDU_createPDU _ _ (.inl rfl) _

/-- A turn of the handshake keeps everything but the address. -/
theorem writeFileOkAckState_info (k : Child) (poll : Option Received)
    (hsrc : ∀ r ∈ poll, r.srcAddr = k.info.clientAddr) :
    (writeFileOkAckState k poll).info = k.info := by
  cases poll with
  | none => rfl
  | some r =>
    have := hsrc r rfl
    simp only [writeFileOkAckState, this]

theorem Server.StepCase.clientAddr {W : ℕ} {host : Host} {σ : Server W} {r : Server W × List Send}
    (h : StepCase host σ ev r) (hsrc : ev.heard σ.info.clientAddr = σ.info.clientAddr) :
    r.1.info.clientAddr = σ.info.clientAddr := by
  cases h with
  | read =>
    exact Server.settle_rule (Q := fun r => r.1.info.clientAddr = _) <|
      sendNext_rule (fun _ => rfl) (fun _ _ _ => rfl) rfl fun _ _ _ =>
        .of_cases (fun _ _ => rfl) fun _ _ => rfl
  | timeout =>
    exact Server.settle_rule (Q := fun r => r.1.info.clientAddr = _) <|
      resendOldest_rule rfl fun _ _ => .of_cases (fun _ _ => rfl) fun _ _ => rfl
  | acked | eofHeard => exact hsrc
  | ackFault | drained | eofQuiet => rfl
  | eofResend =>
    simp only [resendEofState]
    split <;> rfl

/-- **What a step of a child does**, if it hears only the socket it answers: it goes on answering
it, keeps its request, sends data only after its ack, and gets past its handshake only by a
datagram. -/
theorem ProcessClient.step_wired (hs : c.step site.host site.fopen ev = some (c', sends))
    (hsrc : ∀ stale d, ev = .receive stale d → d.srcAddr = c.clientAddr)
    (hserves : site.Serves i c) :
    c'.clientAddr = c.clientAddr ∧ site.Serves i c'
      ∧ (c'.Past → c.Past ∨ ∃ stale d, ev = .receive stale d)
      ∧ ∀ m ∈ sends, m.dest = c.clientAddr ∧ (HandshakePDU m.pdu ∨ c.Past) := by
  have hheard : ev.heard c.clientAddr = c.clientAddr := by
    cases ev with
    | run | quiet => rfl
    | receive stale d => exact hsrc stale d rfl
  have hdest := (ProcessClient.step_addressed hs).1
  rw [hheard] at hdest
  cases c with
  | start r =>
    cases ev with
    | quiet | receive => cases hs
    | run =>
      obtain ⟨rfl, rfl⟩ := Prod.mk.inj (Option.some_inj.mp hs)
      obtain ⟨hserves', hpc, hpdu⟩ := Child.start_serves hserves
      exact ⟨(Child.start_addressed r).1, hserves', fun h => absurd h hpc,
        fun m hm => ⟨hdest m hm, .inl (hpdu m hm)⟩⟩
  | handshake k =>
    simp only [ProcessClient.step] at hs
    split at hs
    case _ hpc =>
      obtain ⟨rfl, rfl⟩ := Prod.mk.inj (Option.some_inj.mp hs)
      refine ⟨rfl, fun _ => hserves (.inl hpc), fun h => absurd h ?_, by simp⟩
      simp only [ProcessClient.Past, writeFileOkAckState]
      split <;> simp
    case _ stale d hpc =>
      obtain ⟨rfl, rfl⟩ := Prod.mk.inj (Option.some_inj.mp hs)
      have hinfo := writeFileOkAckState_info k (some (safeRecvfrom stale MAXBUF d)) fun r hr => by
        obtain rfl := Option.some_inj.mp hr
        exact hsrc stale d rfl
      refine ⟨by simp only [ProcessClient.clientAddr, hinfo], fun _ => ?_,
        fun _ => .inr ⟨stale, d, rfl⟩, by simp⟩
      rw [hinfo]
      exact hserves (.inl hpc)
    case _ hpc =>
      obtain ⟨rfl, rfl⟩ := Prod.mk.inj (Option.some_inj.mp hs)
      exact ⟨rfl, trivial, fun _ => .inl hpc, by simp⟩
    case _ => cases hs
  | transfer σ =>
    obtain ⟨⟨σ', sends'⟩, hstep, heq⟩ := Option.map_eq_some_iff.mp hs
    obtain ⟨rfl, rfl⟩ := Prod.mk.inj heq
    exact ⟨(Server.step_cases hstep).clientAddr hheard, trivial, fun _ => .inl trivial,
      fun m hm => ⟨hdest m hm, .inr trivial⟩⟩

end Child

/-! ## An `rcopy` -/

namespace RcopyProcess

variable {W : ℕ} [NeZero W] {cfg : SetupConfig} {p : RcopyProcess W} {act : RcopyAct}

/-- **Everything an `rcopy` can do.** -/
inductive StepCase (cfg : SetupConfig) (p : RcopyProcess W) :
    RcopyAct → RcopyProcess W × List Send → Prop
  /-- `start_state` is over. -/
  | started (hpc : p.pc = .next .start) (a : SockAddr) :
      StepCase cfg p (.run a) ({ p with pc := .next .waitOnFileOk }, [])
  /-- An attempt, from a socket of its own. -/
  | attempt (hasks : p.pc.Asks) (act : RcopyAct) (a : SockAddr)
      (hact : act = .run a ∨ act = .timeout a) (count : ℕ) :
      StepCase cfg p act
        ({ p with pc := .polling count, sockets := a :: p.sockets }, [filenameRequest cfg])
  /-- The attempts are used up. -/
  | gaveUp (hasks : p.pc.Asks) (a : SockAddr) :
      StepCase cfg p (.timeout a) ({ p with pc := .next .done }, [])
  /-- A flag 9 is accepted, and the ack goes out. -/
  | accepted (hasks : p.pc.Asks) {stale : Bytes} {d : Datagram}
      (hflag : (safeRecvfrom stale (MAXBUF + 7) d).flag = 9) :
      StepCase cfg p (.receive stale d)
        ({ p with pc := .next .waitOnData, accepted := some d.srcAddr },
          [⟨d.srcAddr, fileOkAckPDU cfg.host⟩])
  /-- Anything else starts it over, and a file it cannot create ends it. -/
  | refused (hasks : p.pc.Asks) (stale : Bytes) (d : Datagram) (pc : RcopyPc)
      (hpc : pc = .next .waitOnFileOk ∨ pc = .next .done) :
      StepCase cfg p (.receive stale d) ({ p with pc := pc }, [])
  /-- `wait_on_data_state` has its buffer and its file, or not. -/
  | entered (hpc : p.pc = .next .waitOnData) (a : SockAddr) (pc : RcopyPc)
      (hpc' : pc = .receiving ∨ pc = .next .done) :
      StepCase cfg p (.run a) ({ p with pc := pc }, [])
  /-- A turn of the receive loop. -/
  | turn (hpc : p.pc = .receiving) {stale : Bytes} {d : Datagram} (c : Client W)
      (sends : List Send) (hstep : p.data.step cfg.host stale d = some (c, sends)) :
      StepCase cfg p (.receive stale d) ({ p with data := c }, sends)

/-- Where it has not come to its receive loop, it does what its set-up does. -/
theorem stepCase_of_rcopy {r : Rcopy × List Send} (h : p.toRcopy.step cfg act = some r) :
    StepCase cfg p act (p.setUp r.1, r.2) := by
  cases Rcopy.step_cases h with
  | started hpc a => exact .started hpc a
  | attempt hasks _ a hact count => exact .attempt hasks _ a hact count
  | gaveUp hasks a => exact .gaveUp hasks a
  | accepted hasks hflag => exact .accepted hasks hflag
  | refused hasks stale d pc hpc => exact .refused hasks stale d pc hpc
  | entered hpc a pc hpc' => exact .entered hpc a pc hpc'

/-- **The inversion lemma.** -/
theorem step_cases {r : RcopyProcess W × List Send} (h : p.step cfg act = some r) :
    StepCase cfg p act r := by
  cases act with
  | run a | timeout a =>
    obtain ⟨t, hstep, rfl⟩ := Option.map_eq_some_iff.mp h
    exact stepCase_of_rcopy hstep
  | receive stale d =>
    simp only [step] at h
    split at h
    case isTrue hpc =>
      obtain ⟨⟨c, sends⟩, hstep, rfl⟩ := Option.map_eq_some_iff.mp h
      exact .turn hpc c sends hstep
    case isFalse =>
      obtain ⟨t, hstep, rfl⟩ := Option.map_eq_some_iff.mp h
      exact stepCase_of_rcopy hstep

/-! ### Its steps, from where it stands -/

variable (cfg) {a : SockAddr} {stale : Bytes} {d : Datagram}

theorem step_start (hpc : p.pc = .next .start) :
    p.step cfg (.run a) = some (p.setUp (p.move a (.next .waitOnFileOk)), []) := by
  simp [step, Rcopy.step, hpc, exchangeStep]

theorem step_waitOnFileOk (hpc : p.pc = .next .waitOnFileOk) :
    p.step cfg (.run a) = some (p.setUp (p.move a (.polling 0)), [filenameRequest cfg]) := by
  simp [step, Rcopy.step, hpc, exchangeStep]

theorem step_waitOnData (hpc : p.pc = .next .waitOnData)
    (hcalloc : cfg.calloc (receiveWindowSize cfg.argv) = true)
    (hcreates : cfg.creates (arg cfg.argv 2) = true) :
    p.step cfg (.run a) = some ({ p with pc := .receiving }, []) := by
  simp [step, Rcopy.step, setUp, hpc, hcalloc, hcreates]

/-- A flag 9 is accepted. -/
theorem step_ok {count : ℕ} (hpc : p.pc = .polling count)
    (hcreates : cfg.creates (arg cfg.argv 2) = true)
    (hflag : (safeRecvfrom stale (MAXBUF + 7) d).flag = 9) : p.step cfg (.receive stale d)
      = some (p.setUp (p.hear d.srcAddr (.next .waitOnData)),
        [⟨d.srcAddr, fileOkAckPDU cfg.host⟩]) := by
  simp only [step, Rcopy.step, hpc, exchangeStep, hcreates, hflag, reduceCtorEq, if_false, if_true,
    Option.map_some]
  rfl

theorem step_receiving (hpc : p.pc = .receiving) : p.step cfg (.receive stale d)
    = (p.data.step cfg.host stale d).map fun t => ({ p with data := t.1 }, t.2) := by
  rw [step, if_pos hpc]

end RcopyProcess

end RemoteFileCopy
