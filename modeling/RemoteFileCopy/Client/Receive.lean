import RemoteFileCopy.Queue.CircularQueue
import RemoteFileCopy.Library.Transition

/-!
# Client/Receive — the receive loop of `rcopy`

`process_transfer_state` handles one datagram a turn, in one of three states: `IN_ORDER` while
nothing is missing, `OUT_OF_ORDER` from the first gap until the missing packet comes, and `FLUSH`
for the turn after that, which writes out what was buffered and drops the packet that started it.

The reorder buffer keeps a payload in the slot of its sequence number modulo the window size, and
no sequence number with it.
-/

namespace RemoteFileCopy

open CircularQueue (slot)

/-- One slot of the reorder buffer: the first `packetLen` bytes of its array. -/
structure PacketEntry where
  packet : Bytes
  valid : Bool
  deriving DecidableEq, Repr

/-- `TRANSFER_STATE`. -/
inductive TransferState
  | inOrder
  | outOfOrder
  | flush
  deriving DecidableEq, Repr

/-- The receiver, for a buffer of `W` slots.  `outFile` is what has been written to it. -/
structure ReceiveInfo (W : ℕ) where
  buffer : Fin W → PacketEntry
  expected : UInt32
  highest : UInt32
  outFile : Bytes
  serverAddr : SockAddr
  eofSeq : UInt32

variable {W : ℕ} (host : Host)

/-! ## What it sends -/

/-- `send_rr`. -/
def sendRr (info : ReceiveInfo W) (next : UInt32) : Send := ⟨info.serverAddr, rrPDU host next⟩

/-- `send_srej`. -/
def sendSrej (info : ReceiveInfo W) (missingSeq : UInt32) : Send :=
  ⟨info.serverAddr, srejPDU host missingSeq⟩

/-- `send_eof_ack_state`: what it sends before it closes the file and the socket. -/
def sendEofAckState (info : ReceiveInfo W) (eofSequence : UInt32) : Send :=
  ⟨info.serverAddr, createPDU host eofSequence 35 []⟩

/-! ## The reorder buffer -/

section Buffer

variable [NeZero W]

/-- `buffer_packet`.  The length is only used, and only a negative one faults, where the slot is
free. -/
def bufferPacket (info : ReceiveInfo W) (seq : UInt32) (data : Except Fault Bytes) :
    Except Fault (ReceiveInfo W) :=
  let index := slot W seq.toNat
  if (info.buffer index).valid then .ok info
  else do
    let data ← data
    return { info with buffer := Function.update info.buffer index ⟨data, true⟩ }

/-- `&info->buffer[info->expected % info->windowSize]`. -/
def ReceiveInfo.entry (info : ReceiveInfo W) : PacketEntry :=
  info.buffer (slot W info.expected.toNat)

/-- The condition of the flush loop. -/
def ReceiveInfo.canFlush (info : ReceiveInfo W) : Bool :=
  info.expected ≤ info.highest && info.entry.valid

/-- One turn of the flush loop. -/
def ReceiveInfo.flushOne (info : ReceiveInfo W) : ReceiveInfo W :=
  { info with
    outFile := info.outFile ++ info.entry.packet
    buffer := Function.update info.buffer (slot W info.expected.toNat)
      { info.entry with valid := false }
    expected := info.expected + 1 }

/-- At most `n` turns of the flush loop. -/
def ReceiveInfo.flushLoop : ℕ → ReceiveInfo W → ReceiveInfo W
  | 0, info => info
  | n + 1, info => if info.canFlush then flushLoop n info.flushOne else info

/-- **The flush loop** of the `FLUSH` state and of the EOF handler.  Every turn clears a slot, so
`W` turns are enough (`canFlush_flush`). -/
def ReceiveInfo.flush (info : ReceiveInfo W) : ReceiveInfo W := info.flushLoop W

/-! ## One turn of the receive loop -/

/-- The flags of a data packet: sent first, answering a SREJ, resent on a timeout. -/
def IsDataFlag (flag : UInt8) : Prop := flag = 16 ∨ flag = 17 ∨ flag = 18

instance (flag : UInt8) : Decidable (IsDataFlag flag) := inferInstanceAs (Decidable (_ ∨ _ ∨ _))

/-- **One turn of `process_transfer_state`**, with no next state where it returns `DONE`. -/
def processTransferState (state : TransferState) (info : ReceiveInfo W) (r : Received) :
    Except Fault (Option TransferState × ReceiveInfo W × List Send) :=
  let info := { info with serverAddr := r.srcAddr }
  let seqNum := r.seqNum host
  let flag := r.flag
  if flag = 10 then
    let info := { info with eofSeq := seqNum }.flush
    .ok (none, info, [sendEofAckState host info seqNum])
  else if IsDataFlag flag then
    match state with
    | .inOrder =>
      if seqNum = info.expected then do
        let payload ← r.payload
        let info := { info with
          outFile := info.outFile ++ payload
          expected := info.expected + 1
          highest := seqNum }
        return (some .inOrder, info, [sendRr host info info.expected])
      else if seqNum > info.expected then do
        let info ← bufferPacket info seqNum r.payload
        let info := { info with
          highest := if seqNum > info.highest then seqNum else info.highest }
        return (some .outOfOrder, info, [sendSrej host info info.expected])
      else .ok (some .inOrder, info, [])
    | .outOfOrder =>
      if seqNum = info.expected then do
        let payload ← r.payload
        let info := { info with
          outFile := info.outFile ++ payload
          expected := info.expected + 1 }
        return (some .flush, info, [sendRr host info info.expected])
      else if seqNum > info.expected then do
        let info ← bufferPacket info seqNum r.payload
        let info := { info with
          highest := if seqNum > info.highest then seqNum else info.highest }
        return (some .outOfOrder, info, [])
      else .ok (some .outOfOrder, info, [])
    | .flush =>
      let info := info.flush
      if info.expected ≤ info.highest then
        if !info.entry.valid then
          .ok (some .outOfOrder, info, [sendSrej host info info.expected])
        else .ok (some .flush, info, [])
      else .ok (some .inOrder, info, [sendRr host info info.expected])
  else .ok (some state, info, [])

/-! ## The machine -/

/-- Where `rcopy` stands in the data phase. -/
inductive ClientPc
  | receiving (state : TransferState)
  | done
  | aborted (fault : Fault)
  deriving DecidableEq, Repr

/-- The client in the data phase. -/
structure Client (W : ℕ) where
  pc : ClientPc
  info : ReceiveInfo W

/-- **One step of the client** — it blocks in `recvfrom` on an array of `MAXBUF + 7` bytes until a
datagram comes. -/
def Client.step (c : Client W) (stale : Bytes) (d : Datagram) :
    Option (Client W × List Send) :=
  match c.pc with
  | .receiving state =>
    match processTransferState host state c.info (safeRecvfrom stale (MAXBUF + 7) d) with
    | .ok (some state, info, sends) => some (⟨.receiving state, info⟩, sends)
    | .ok (none, info, sends) => some (⟨.done, info⟩, sends)
    | .error fault => some ({ c with pc := .aborted fault }, [])
  | _ => none

/-- The client as `wait_on_data_state` sets it up: `recvAddr` is never assigned, so the first server
address is whatever was in it. -/
def Client.enter (W : ℕ) (recvAddr : SockAddr) : Client W where
  pc := .receiving .inOrder
  info :=
    { buffer := fun _ => ⟨[], false⟩
      expected := 1
      highest := 0
      outFile := []
      serverAddr := recvAddr
      eofSeq := 0 }

/-- A datagram that arrives in an array that held `stale`. -/
structure Arrival where
  stale : Bytes
  datagram : Datagram
  deriving DecidableEq, Repr

/-- What the receive loop gets of it. -/
def Arrival.received (a : Arrival) : Received := safeRecvfrom a.stale (MAXBUF + 7) a.datagram

/-- The client alone, as a machine. -/
def clientMachine (W : ℕ) [NeZero W] (host : Host) :
    Transition.Machine (Client W) Arrival (List Send) where
  step c a := c.step host a.stale a.datagram

end Buffer

end RemoteFileCopy
