import RemoteFileCopy.DataPhase.Alike
import RemoteFileCopy.System.Prompt
import RemoteFileCopy.System.Restriction

/-!
# System/Stages — how far an `rcopy` has come on a prompt network

    asking ▸ requested ▸ forked ▸ started ▸ replied ▸ acked ▸ ready ▸ transfer

Every stage says what is in flight for this `rcopy`, so only one thing can happen to it next — up to
the transfer, where `rcopy` may still be on its way to its receive loop, and where the phases of
`DataPhase/LossFree` take over.  The number of a stage bounds what is still to come.

What happens to the others changes nothing for it (`Stage.congr`).
-/

namespace RemoteFileCopy

open Transition

namespace World

variable {ι : Type} {site : Site ι}

/-! ## Where an `rcopy` and its child are -/

/-- **Socket `p` has nobody to answer it yet**: what it has asked, and who has been forked for
it. -/
structure Unserved (w : World site) (i : ι) (p : SockAddr) (requests : List Bytes)
    (forked : List Received) : Prop where
  sockets : (w.rcopy i).sockets = [p]
  alone : ∀ b d, w.children b = some d → d.clientAddr ≠ p
  forked : w.forked.filter (fun r => r.srcAddr = p) = forked
  requests : w.channel p site.serverAddr = requests

/-- **Socket `p` has one child, at `a`**, and these datagrams are on their way between them; nothing
else is, to or from `p`. -/
structure Serving (w : World site) (i : ι) (p a : SockAddr) (c : ProcessClient)
    (toClient toServer : List Bytes) : Prop where
  sockets : (w.rcopy i).sockets = [p]
  child : w.children a = some c
  addr : c.clientAddr = p
  only : ∀ b d, w.children b = some d → d.clientAddr = p → b = a
  forked : w.forked.filter (fun r => r.srcAddr = p) = []
  requests : w.channel p site.serverAddr = []
  toClient : w.channel a p = toClient
  toServer : w.channel p a = toServer

/-! ### What the others change -/

section Congr

variable {w w' : World site} {i : ι} {p a : SockAddr}

theorem rcopy_of_only (h : w'.only i = w.only i) : w'.rcopy i = w.rcopy i :=
  congrFun (congrArg World.rcopy h) ()

theorem children_of_only (h : w'.only i = w.only i) {c : ProcessClient}
    (hc : c.clientAddr ∈ (w.rcopy i).sockets) : w'.children a = some c ↔ w.children a = some c := by
  have hfilter := congrFun (congrArg World.children h) a
  simp only [only, rcopy_of_only h] at hfilter
  have hiff : ∀ o : Option ProcessClient, o = some c
      ↔ (o.filter fun c => c.clientAddr ∈ (w.rcopy i).sockets) = some c := fun o => by
    rw [Option.filter_eq_some_iff, and_iff_left (decide_eq_true hc)]
  rw [hiff (w'.children a), hfilter, ← hiff]

theorem forked_of_only (h : w'.only i = w.only i) (hp : p ∈ (w.rcopy i).sockets) :
    w'.forked.filter (fun r => r.srcAddr = p) = w.forked.filter fun r => r.srcAddr = p := by
  have hfilter := congrArg World.forked h
  simp only [only, rcopy_of_only h] at hfilter
  have hnarrow : ∀ l : List Received, l.filter (fun r => r.srcAddr = p)
      = (l.filter fun r => r.srcAddr ∈ (w.rcopy i).sockets).filter fun r => r.srcAddr = p := by
    intro l
    rw [List.filter_filter]
    refine List.filter_congr fun r _ => ?_
    by_cases hr : r.srcAddr = p <;> simp [hr, hp]
  rw [hnarrow, hfilter, ← hnarrow]

theorem channel_of_only (h : w'.only i = w.only i) (hp : p ∈ (w.rcopy i).sockets)
    {src dest : SockAddr} (hon : src = p ∨ dest = p) :
    w'.channel src dest = w.channel src dest := by
  have hfilter := congrArg World.inFlight h
  simp only [only, rcopy_of_only h] at hfilter
  have hnarrow : ∀ l : List Flight, l.filter (Flight.IsOn src dest)
      = (l.filter (Flight.Meets (w.rcopy i).sockets)).filter (Flight.IsOn src dest) := by
    intro l
    rw [List.filter_filter]
    refine List.filter_congr fun f _ => ?_
    by_cases hf : f.IsOn src dest
    · have : f.Meets (w.rcopy i).sockets :=
        hon.imp (fun h => hf.1.trans h ▸ hp) fun h => hf.2.trans h ▸ hp
      simp [hf, this]
    · simp [hf]
  rw [World.channel, World.channel, hnarrow, hfilter, ← hnarrow]

theorem Unserved.congr {requests : List Bytes} {forked : List Received}
    (h : w.Unserved i p requests forked) (hs : w'.only i = w.only i) :
    w'.Unserved i p requests forked := by
  have hp : p ∈ (w.rcopy i).sockets := h.sockets ▸ List.mem_singleton_self p
  refine ⟨rcopy_of_only hs ▸ h.sockets, fun b d hd haddr => ?_,
    (forked_of_only hs hp).trans h.forked, (channel_of_only hs hp (.inl rfl)).trans h.requests⟩
  exact h.alone b d ((children_of_only hs (haddr ▸ hp)).mp hd) haddr

theorem Serving.congr {c : ProcessClient} {toClient toServer : List Bytes}
    (h : w.Serving i p a c toClient toServer) (hs : w'.only i = w.only i) :
    w'.Serving i p a c toClient toServer := by
  have hp : p ∈ (w.rcopy i).sockets := h.sockets ▸ List.mem_singleton_self p
  refine ⟨rcopy_of_only hs ▸ h.sockets, (children_of_only hs (h.addr ▸ hp)).mpr h.child, h.addr,
    fun b d hd haddr => h.only b d ((children_of_only hs (haddr ▸ hp)).mp hd) haddr,
    (forked_of_only hs hp).trans h.forked, (channel_of_only hs hp (.inl rfl)).trans h.requests,
    (channel_of_only hs hp (.inr rfl)).trans h.toClient,
    (channel_of_only hs hp (.inl rfl)).trans h.toServer⟩

end Congr

/-! ## The stages -/

section Stage

variable (site) (i : ι)

/-- The child of `rcopy i` when it waits for its ack. -/
def waiting (p : SockAddr) : ProcessClient :=
  .handshake ⟨.next .writeFileOkAck, site.opened i p, 0⟩

/-- The flag-9 reply to `rcopy i`. -/
def okPDU : Bytes := createPDU site.host 0 9 (arg (site.rcopy i).argv 1).bytes

/-- What a transfer of `rcopy i` starts with still to do. -/
def load : ℕ := 5 * numChunks (site.bufferSize i).toNat (site.source i) + 45

/-- **`rcopy i` has accepted the child at `a`**, and has heard of the transfer what the client of
`s` has; it is in its receive loop, or a step away from it. -/
structure Receives (w : World site) (a : SockAddr) (s : DataPhase (site.windowSize i).toNat)
    (n : ℕ) : Prop where
  accepted : (w.rcopy i).accepted = some a
  alike : Alike s.client (w.rcopy i).data
  pc : (w.rcopy i).pc = .next .waitOnData ∧ n = 1 ∨ (w.rcopy i).pc = .receiving ∧ n = 0

variable {site i} in
theorem Receives.congr {w w' : World site} {a : SockAddr}
    {s : DataPhase (site.windowSize i).toNat} {n : ℕ} (h : Receives site i w a s n)
    (hr : w'.rcopy i = w.rcopy i) : Receives site i w' a s n :=
  ⟨hr ▸ h.accepted, hr ▸ h.alike, hr ▸ h.pc⟩

variable [NeZero (site.windowSize i).toNat]

/-- **How far `rcopy i` has come**, with at most so many steps to go. -/
inductive Stage (w : World site) : ℕ → Prop
  | asking (n : ℕ) (hsockets : (w.rcopy i).sockets = [])
      (hpc : (w.rcopy i).pc = .next .start ∧ n = 1 ∨ (w.rcopy i).pc = .next .waitOnFileOk ∧ n = 0) :
      Stage w (load site i + 8 + n)
  | requested (p : SockAddr) (hpc : (w.rcopy i).pc = .polling 0)
      (h : w.Unserved i p [filenamePDU site.host (site.rcopy i).argv] []) :
      Stage w (load site i + 7)
  | forked (p : SockAddr) (r : Received) (hpc : (w.rcopy i).pc = .polling 0)
      (h : w.Unserved i p [] [r]) : Stage w (load site i + 6)
  | started (p a : SockAddr) (r : Received) (hpc : (w.rcopy i).pc = .polling 0)
      (h : w.Serving i p a (.start r) [] []) : Stage w (load site i + 5)
  | replied (p a : SockAddr) (hpc : (w.rcopy i).pc = .polling 0)
      (h : w.Serving i p a (waiting site i p) [okPDU site i] []) : Stage w (load site i + 4)
  | acked (p a : SockAddr) (n : ℕ)
      (hr : Receives site i w a (.enter _ (site.config i p a)) n)
      (h : w.Serving i p a (waiting site i p) [] [fileOkAckPDU site.host]) :
      Stage w (load site i + 2 + n)
  | ready (p a : SockAddr) (n : ℕ)
      (hr : Receives site i w a (.enter _ (site.config i p a)) n)
      (h : w.Serving i p a (.handshake ⟨.next .sendData, site.opened i p, 0⟩) [] []) :
      Stage w (load site i + 1 + n)
  | transfer (p a : SockAddr) (s : DataPhase (site.windowSize i).toNat) (n : ℕ)
      (hs : Phased (site.config i p a) s) (hr : Receives site i w a s n)
      (h : w.Serving i p a (.transfer s.server) s.toClient s.toServer) :
      Stage w (pending (site.config i p a) s + n)

variable {site i}

theorem stage_enter : Stage site i (enter site) (load site i + 8 + 1) :=
  .asking 1 rfl (.inl ⟨rfl, rfl⟩)

/-- **What happens to the others** changes no stage. -/
theorem Stage.congr {w w' : World site} {n : ℕ} (h : Stage site i w n)
    (hs : w'.only i = w.only i) :
    Stage site i w' n := by
  cases h with
  | asking n hsockets hpc => exact .asking n (rcopy_of_only hs ▸ hsockets) (rcopy_of_only hs ▸ hpc)
  | requested p hpc h => exact .requested p (rcopy_of_only hs ▸ hpc) (h.congr hs)
  | forked p r hpc h => exact .forked p r (rcopy_of_only hs ▸ hpc) (h.congr hs)
  | started p a r hpc h => exact .started p a r (rcopy_of_only hs ▸ hpc) (h.congr hs)
  | replied p a hpc h => exact .replied p a (rcopy_of_only hs ▸ hpc) (h.congr hs)
  | acked p a n hr h => exact .acked p a n (hr.congr (rcopy_of_only hs)) (h.congr hs)
  | ready p a n hr h => exact .ready p a n (hr.congr (rcopy_of_only hs)) (h.congr hs)
  | transfer p a s n hp hr h =>
    exact .transfer p a s n hp (hr.congr (rcopy_of_only hs)) (h.congr hs)

end Stage

end World

end RemoteFileCopy
