import RemoteFileCopy.Setup.Handshake

/-!
# Setup/ProcessClient — the whole life of a child

`processClient` runs `filename_state` on the request it was forked for, waits in
`write_file_ok_ack_state`, and initialises a window of the size that `filename_state` left it before
it enters `send_data_state`.  `ProcessClient` is that composition, polls and receptions being the
events of the data phase.
-/

namespace RemoteFileCopy

open Transition

/-- **Where a child stands**: it has yet to run `filename_state`, or is up to `SEND_DATA`, or has
initialised its window. -/
inductive ProcessClient
  | start (r : Received)
  | handshake (c : Child)
  | transfer {W : ℕ} (σ : Server W)

variable (host : Host) (fopen : CString → Option Bytes)

/-- The child on entry to `send_data_state`, its window just initialised. -/
def Server.start (info : ServerInfo) : Server info.windowSize.toNat where
  pc := .fill
  window := .init info.windowSize.toNat
  info := { info with eofResendCount := 0 }
  sequenceNum := 1
  timeoutCount := 0

/-- **One step of a child.** -/
def ProcessClient.step : ProcessClient → ServerEvent → Option (ProcessClient × List Send)
  | .start r, .run => some (.handshake (Child.start host fopen r).1, (Child.start host fopen r).2)
  | .start _, _ => none
  | .handshake c, ev =>
    match c.pc, ev with
    | .next .writeFileOkAck, .quiet => some (.handshake (writeFileOkAckState c none), [])
    | .next .writeFileOkAck, .receive stale d =>
      some (.handshake (writeFileOkAckState c (some (safeRecvfrom stale MAXBUF d))), [])
    | .next .sendData, .run => some (.transfer (Server.start c.info), [])
    | _, _ => none
  | .transfer σ, ev => (σ.step host ev).map fun t => (.transfer t.1, t.2)

/-- A child as a machine. -/
def processClient : Machine ProcessClient ServerEvent (List Send) where
  step := ProcessClient.step host fopen

/-- A child that goes on has been sent an ack of its file. -/
theorem filenameState_eq_ok {r : Received} {info : ServerInfo} {name : CString}
    (hname : requestedFilename r.buffer r.bytesRecv = .ok name) {file : Bytes}
    (hopen : fopen name = some file) :
    filenameState host fopen r.buffer r.bytesRecv info = .ok (.writeFileOkAck,
      { info with
        file := some file
        windowSize := loadU16 host.endian r.buffer 7
        bufferSize := loadU16 host.endian r.buffer 9 },
      [⟨info.clientAddr, createPDU host 0 9 name.bytes⟩]) := by
  simp only [filenameState, hname, hopen, bind, Except.bind, pure, Except.pure]

end RemoteFileCopy
