import RemoteFileCopy.System.World
import RemoteFileCopy.Wire.ByteOrder

/-!
# System/MixedHosts — every `rcopy` on a host of its own

    server and children   on the host of the site
    rcopy i               on a host with byte order  order i

What an `rcopy` sends has the same bytes on either host, and what it reads it reads in the order of
the network; so it does not show which host it runs on, and the whole does what it does when all run
on the host of the server (`mixed_run_iff`).  The order that does show is the server's: its
`filename_state` keeps both sizes as they were on the wire, and its `wait_on_eof_ack_state` compares
a checksum in the order of the network with one in its own.
-/

namespace RemoteFileCopy

open Transition

/-! ## What an `rcopy` sends and reads -/

section Rcopy

variable {W : ℕ} [NeZero W]

/-- **A turn of the receive loop** on either host. -/
theorem processTransferState_standard (e : Endian) (state : TransferState) (info : ReceiveInfo W)
    (r : Received) : processTransferState (.standard e) state info r
      = processTransferState (.standard .big) state info r := by
  simp only [processTransferState, seqNum_standard e, sendEofAckState, sendRr, sendSrej, rrPDU,
    srejPDU, controlPDU_standard e, createPDU_standard e _ _ (p := []) (Nat.zero_le _)]

theorem Client.step_standard (e : Endian) (c : Client W) (stale : Bytes) (d : Datagram) :
    c.step (.standard e) stale d = c.step (.standard .big) stale d := by
  simp only [Client.step, processTransferState_standard e]

/-- **The request**, with a name that fits. -/
theorem filenamePDU_standard (e : Endian) {argv : List CString}
    (hname : (arg argv 1).strlen ≤ 100) :
    filenamePDU (.standard e) argv = filenamePDU (.standard .big) argv := by
  have hpayload : filenamePayload (.standard e) argv = filenamePayload (.standard .big) argv := by
    simp only [filenamePayload, networkSize, Host.endian_standard, storeU16_htons]
  have hlen : (filenamePayload (.standard .big) argv).length ≤ MAXBUF := by
    rw [CString.strlen] at hname
    rw [MAXBUF]
    simp only [filenamePayload, List.length_append, length_storeU16]
    omega
  rw [filenamePDU, hpayload, createPDU_standard e _ _ hlen, filenamePDU]

/-- **The exchange** on either host. -/
theorem exchangeStep_standard {cfg : SetupConfig} (hname : (arg cfg.argv 1).strlen ≤ 100)
    (e : Endian) (pc : RcopyPc) (ev : RcopyEvent) :
    exchangeStep { cfg with host := .standard e } pc ev
      = exchangeStep { cfg with host := .standard .big } pc ev := by
  unfold exchangeStep
  simp only [filenameRequest, filenamePDU_standard e hname, fileOkAckPDU,
    createPDU_standard e _ _ (p := []) (Nat.zero_le _)]

/-- **An `rcopy` does not show which host it runs on.** -/
theorem RcopyProcess.step_standard {cfg : SetupConfig} (hname : (arg cfg.argv 1).strlen ≤ 100)
    (e : Endian) (p : RcopyProcess W) (act : RcopyAct) :
    p.step { cfg with host := .standard e } act
      = p.step { cfg with host := .standard .big } act := by
  cases act <;>
    simp only [RcopyProcess.step, Rcopy.step, exchangeStep_standard hname e, Client.step_standard e]

end Rcopy

/-! ## The whole -/

/-- The site with a server of this byte order. -/
def Site.onHost {ι : Type} (site : Site ι) (e : Endian) : Site ι :=
  { site with host := .standard e }

/-- What `rcopy i` is set up with on a host of its own. -/
def Site.setupOn {ι : Type} (site : Site ι) (e : Endian) (i : ι) : SetupConfig :=
  { site.setup i with host := .standard e }

namespace World

variable {ι : Type} {site : Site ι} [DecidableEq ι] (order : ι → Endian)

/-- An `rcopy` takes a step on its own host. -/
def rcopyStepOn (w : World site) (i : ι) (act : RcopyAct) : Option (World site × List Send) :=
  ((w.rcopy i).step (site.setupOn (order i) i) act).map fun t => (w.setRcopy i t.1 t.2, t.2)

/-- A datagram arrives. -/
def deliverOn (w : World site) (f : Flight) (stale : Bytes) :
    Receiver ι → Option (World site × List Send)
  | .rcopy i =>
    if (w.rcopy i).sockets.head? = some f.dest then
      w.rcopyStepOn order i (.receive stale f.datagram)
    else none
  | receiver => w.deliver f stale receiver

/-- **One step of the whole**, with every `rcopy` on its own host. -/
def stepOn (w : World site) : WorldEvent ι → Option (World site × List Send)
  | .run i a => w.rcopyStepOn order i (.run a)
  | .timeout i a => w.rcopyStepOn order i (.timeout a)
  | .deliver receiver k stale =>
    (w.inFlight[k]?).bind fun f => (w.without k).deliverOn order f stale receiver
  | ev => w.step ev

/-- The whole as a machine. -/
def machineOn (site : Site ι) (order : ι → Endian) :
    Machine (World site) (WorldEvent ι) (List Send) where
  step := stepOn order

variable (site) (e : Endian)

theorem rcopyStepOn_eq (w : World (site.onHost e)) (i : ι) (act : RcopyAct) :
    w.rcopyStepOn order i act = w.rcopyStep i act := by
  have hname : (arg (site.setup i).argv 1).strlen ≤ 100 := (site.rcopy i).strlen_le
  have hown := RcopyProcess.step_standard hname (order i) (w.rcopy i) act
  have hsite := RcopyProcess.step_standard hname e (w.rcopy i) act
  exact congrArg _ (hown.trans hsite.symm)

theorem deliverOn_eq (w : World (site.onHost e)) (f : Flight) (stale : Bytes)
    (receiver : Receiver ι) : w.deliverOn order f stale receiver = w.deliver f stale receiver := by
  cases receiver with
  | acceptLoop | child => rfl
  | rcopy i => simp only [deliverOn, deliver, rcopyStepOn_eq]

theorem stepOn_eq (w : World (site.onHost e)) (ev : WorldEvent ι) :
    w.stepOn order ev = w.step ev := by
  cases ev with
  | run | timeout => simp only [stepOn, step, rcopyStepOn_eq]
  | deliver => simp only [stepOn, step, deliverOn_eq]
  | fork | childRun | childQuiet | lose | duplicate => rfl

/-- **The byte order of an `rcopy`'s host does not show**: whatever the hosts of the `rcopy`s, and
over any kind of network, the whole has exactly the runs it has when all of them run on the host of
the server. -/
theorem mixed_run_iff (G : World (site.onHost e) → WorldEvent ι → Prop)
    (es : List (Edge (World (site.onHost e)) (WorldEvent ι) (List Send)))
    (w : World (site.onHost e)) :
    Run (machineOn (site.onHost e) order) G (enter (site.onHost e)) es w
      ↔ Run (machine (site.onHost e)) G (enter (site.onHost e)) es w := by
  have hmachine : machineOn (site.onHost e) order = machine (site.onHost e) :=
    congrArg Machine.mk (funext fun w => funext fun ev => stepOn_eq site order e w ev)
  rw [hmachine]

end World

end RemoteFileCopy
