import RemoteFileCopy.Queue.CircularQueue
import RemoteFileCopy.Library.Transition

/-!
# Server/SendData — the data phase of the server child

`send_data_state` and the states after it, as a machine that stops where the code polls.

    fill ──run──▸ drain ──quiet──▸ fill       the window has room: read, insert, send, drain acks
    fill ──quiet──▸ fill / DONE               the window is full: a timeout resends
    fill ──run──▸ WAIT_ON_EOF_ACK             the file is at its end: send the EOF
    WAIT_ON_EOF_ACK ──quiet──▸ RESEND_EOF ──run──▸ WAIT_ON_EOF_ACK / DONE

A `receive` is a poll that found a datagram, with the contents the receive array had before; a
`quiet` is a poll that found none.  Where the source runs into undefined behaviour the machine
stops at `aborted`.  Allocations succeed.
-/

namespace RemoteFileCopy

/-- The states of `processClient`. -/
inductive ServerState
  | start
  | filename
  | writeFileOkAck
  | sendData
  | waitOnAck
  | waitOnEofAck
  | resendEof
  | done
  deriving DecidableEq, Repr

/-- What the states of `processClient` share.  `file` is `NULL`, or what is left to read. -/
structure ServerInfo where
  clientAddr : SockAddr
  file : Option Bytes
  windowSize : UInt16
  bufferSize : UInt16
  eofPacket : Bytes
  eofSeq : UInt32
  eofResendCount : ℕ
  deriving DecidableEq, Repr

/-- Where the child stands: at a loop head of `send_data_state` or in the drain loop inside it, or
in `processClient` about to run a state. -/
inductive ServerPc
  | fill
  | drain
  | next (state : ServerState)
  | aborted (fault : Fault)
  deriving DecidableEq, Repr

/-- The child, with the locals of `send_data_state`. -/
structure Server (W : ℕ) where
  pc : ServerPc
  window : CircularQueue W
  info : ServerInfo
  sequenceNum : UInt32
  timeoutCount : ℕ

variable {W : ℕ} (host : Host)

/-! ## The state functions -/

/-- A PDU with a new flag around the payload of a stored packet: `entry->packet + 7` for
`entry->packetLen - 7` bytes. -/
def QueueEntry.rebuild (entry : QueueEntry) (sequenceNumber : UInt32) (flag : UInt8) :
    Except Fault Bytes :=
  match entry.packet with
  | none => .error .nullPacket
  | some packet =>
    if entry.packetLen < 7 then .error .negativeLength
    else .ok (createPDU host sequenceNumber flag ((packet.drop 7).take (entry.packetLen - 7)))

/-- **`wait_on_ack_state`**, given what its poll found. -/
def waitOnAckState (window : CircularQueue W) (info : ServerInfo) (poll : Option Received) :
    Except Fault (ServerState × CircularQueue W × ServerInfo × List Send) :=
  match poll with
  | none => .ok (.sendData, window, info, [])
  | some r => do
    let info := { info with clientAddr := r.srcAddr }
    let flag := r.flag
    let ackSequence := r.seqNum host
    if flag = 5 then
      let window ← window.removeUpTo (ackSequence.toNat - 1)
      return (.sendData, window, info, [])
    else if flag = 6 then
      match ← window.get ackSequence with
      | some i =>
        let srejPDU ← (window.entries i).rebuild host ackSequence 17
        return (.sendData, window, info, [⟨info.clientAddr, srejPDU⟩])
      | none => return (.sendData, window, info, [])
    else return (.sendData, window, info, [])

/-- **The body of the fill loop**, up to the drain of acks — or, where the read comes back empty,
the end of `send_data_state`. -/
def sendNext (σ : Server W) : Except Fault (Server W × List Send) :=
  match σ.info.file with
  | none => .error .nullFile
  | some rest =>
    let payload := rest.take σ.info.bufferSize.toNat
    if payload.length > MAXBUF then .error .overflow
    else if payload.length = 0 then
      let eofPDU := createPDU host σ.sequenceNum 10 []
      .ok ({ σ with
          pc := .next .waitOnEofAck
          info := { σ.info with eofPacket := eofPDU, eofSeq := σ.sequenceNum } },
        [⟨σ.info.clientAddr, eofPDU⟩])
    else do
      let pduToSend := createPDU host σ.sequenceNum 16 payload
      let (window, _) ← σ.window.insert true σ.sequenceNum pduToSend
      return ({ σ with
          pc := .drain
          window := window
          info := { σ.info with file := some (rest.drop σ.info.bufferSize.toNat) }
          sequenceNum := σ.sequenceNum + 1 },
        [⟨σ.info.clientAddr, pduToSend⟩])

/-- **A timeout on a full window**: resend the first valid entry of the array, give up at the
tenth. -/
def resendOldest (σ : Server W) : Except Fault (Server W × List Send) := do
  let sends ← match σ.window.firstValid with
    | none => pure []
    | some i =>
      let entry := σ.window.entries i
      let resentSeq := ntohl host.endian (loadU32 host.endian (entry.packet.getD []))
      let timeoutPDU ← entry.rebuild host resentSeq 18
      pure [⟨σ.info.clientAddr, timeoutPDU⟩]
  let timeoutCount := σ.timeoutCount + 1
  return ({ σ with
      pc := if timeoutCount ≥ 10 then .next .done else .fill
      timeoutCount := timeoutCount }, sends)

/-- **`wait_on_eof_ack_state`**, given what its poll found. -/
def waitOnEofAckState (info : ServerInfo) (poll : Option Received) : ServerState × ServerInfo :=
  match poll with
  | none => (.resendEof, info)
  | some r =>
    let info := { info with clientAddr := r.srcAddr }
    let flag := r.flag
    let eofSequence := r.seqNum host
    let recvChecksum := ntohs host.endian (loadU16 host.endian r.buffer 4)
    let tempBuf := (writeAt (r.buffer.take r.bytesRecv) 4 [0, 0]).take r.bytesRecv
    let calcChecksum := host.inCksum tempBuf
    if flag = 35 ∧ eofSequence = info.eofSeq ∧ recvChecksum = calcChecksum then (.done, info)
    else (.waitOnEofAck, info)

/-- **`resend_eof_state`**. -/
def resendEofState (info : ServerInfo) : ServerState × ServerInfo × List Send :=
  if info.eofResendCount ≥ 10 then (.done, info, [])
  else (.waitOnEofAck, { info with eofResendCount := info.eofResendCount + 1 },
    [⟨info.clientAddr, info.eofPacket⟩])

/-! ## The machine -/

/-- What happens to the child next. -/
inductive ServerEvent
  /-- It runs up to its next poll. -/
  | run
  /-- Its poll finds nothing. -/
  | quiet
  /-- Its poll finds a datagram, and the receive array held `stale` before. -/
  | receive (stale : Bytes) (d : Datagram)
  deriving DecidableEq, Repr

/-- A step that runs into undefined behaviour aborts the child where it stood. -/
def Server.settle (σ : Server W) :
    Except Fault (Server W × List Send) → Server W × List Send
  | .ok r => r
  | .error fault => ({ σ with pc := .aborted fault }, [])

/-- An ack received inside `send_data_state`, whose array takes seven bytes. -/
def Server.receiveAck (σ : Server W) (stale : Bytes) (d : Datagram) :
    Except Fault (Server W × List Send) := do
  let (_, window, info, sends) ← waitOnAckState host σ.window σ.info (safeRecvfrom stale 7 d)
  return ({ σ with window := window, info := info }, sends)

/-- **One step of the child.** -/
def Server.step (σ : Server W) : ServerEvent → Option (Server W × List Send)
  | .run =>
    match σ.pc with
    | .fill => if σ.window.isFull then none else some (σ.settle (sendNext host σ))
    | .next .resendEof =>
      let (state, info, sends) := resendEofState σ.info
      some ({ σ with pc := .next state, info := info }, sends)
    | _ => none
  | .quiet =>
    match σ.pc with
    | .fill => if σ.window.isFull then some (σ.settle (resendOldest host σ)) else none
    | .drain => some ({ σ with pc := .fill, timeoutCount := 0 }, [])
    | .next .waitOnEofAck =>
      let (state, info) := waitOnEofAckState host σ.info none
      some ({ σ with pc := .next state, info := info }, [])
    | _ => none
  | .receive stale d =>
    match σ.pc with
    | .fill =>
      if σ.window.isFull then
        some (σ.settle (do
          let (σ, sends) ← σ.receiveAck host stale d
          return ({ σ with timeoutCount := 0 }, sends)))
      else none
    | .drain => some (σ.settle (σ.receiveAck host stale d))
    | .next .waitOnEofAck =>
      let (state, info) := waitOnEofAckState host σ.info (safeRecvfrom stale MAXBUF d)
      some ({ σ with pc := .next state, info := info }, [])
    | _ => none

/-- The child on entry to `send_data_state`, its window just initialised. -/
def Server.enter (W : ℕ) (clientAddr : SockAddr) (source : Bytes) (windowSize bufferSize : UInt16) :
    Server W where
  pc := .fill
  window := .init W
  info :=
    { clientAddr := clientAddr
      file := some source
      windowSize := windowSize
      bufferSize := bufferSize
      eofPacket := []
      eofSeq := 0
      eofResendCount := 0 }
  sequenceNum := 1
  timeoutCount := 0

/-- The child alone, as a machine. -/
def serverMachine (W : ℕ) (host : Host) :
    Transition.Machine (Server W) ServerEvent (List Send) where
  step := Server.step host

end RemoteFileCopy
