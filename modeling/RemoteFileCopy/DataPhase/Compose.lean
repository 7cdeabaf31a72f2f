import RemoteFileCopy.Client.Receive
import RemoteFileCopy.Server.SendData
import RemoteFileCopy.Wire.Checksum

/-!
# DataPhase/Compose — the two programs and the network between them

    ServerInfo.clientAddr                                 ReceiveInfo.serverAddr
        server child ──── toClient ────▸ rcopy
        server child ◂──── toServer ──── rcopy

What a program sends goes to the back of its channel, if it is addressed to the other one.  The
network delivers, loses or duplicates any datagram in a channel, and may deliver other bytes in its
place; a guard on the runs says how bad it is.

    Unaltered   may lose, delay, duplicate and reorder
    Noisy       may also flip one bit
    Fifo        delivers everything in order, and polls time out only when nothing is in flight
-/

namespace RemoteFileCopy

open Transition

/-- What a data phase starts from: the host's conventions, the file, what the request asked for, the
two sockets, and the address the client has not filled in yet. -/
structure Config where
  host : Host
  source : Bytes
  windowSize : UInt16
  bufferSize : UInt16
  clientAddr : SockAddr
  childAddr : SockAddr
  recvAddr : SockAddr

/-- The bytes of one read. -/
abbrev Config.b (cfg : Config) : ℕ := cfg.bufferSize.toNat

/-- The two programs and what is in flight between them, oldest first. -/
structure DataPhase (W : ℕ) where
  server : Server W
  client : Client W
  toClient : List Bytes
  toServer : List Bytes

/-- The receiver of a datagram. -/
inductive Side
  | server
  | client
  deriving DecidableEq, Repr

/-- What happens next. -/
inductive NetEvent
  /-- The child runs up to its next poll. -/
  | run
  /-- A poll of the child finds nothing. -/
  | quiet
  /-- Datagram `i` in flight to a side arrives as `bytes`, in an array that held `stale`. -/
  | deliver (side : Side) (i : ℕ) (stale bytes : Bytes)
  /-- Datagram `i` in flight to a side is lost. -/
  | lose (side : Side) (i : ℕ)
  /-- Datagram `i` in flight to a side is duplicated; the copy is the last in flight. -/
  | duplicate (side : Side) (i : ℕ)
  deriving DecidableEq, Repr

namespace DataPhase

variable {W : ℕ}

/-- What is in flight to a side. -/
def inFlight (s : DataPhase W) : Side → List Bytes
  | .server => s.toServer
  | .client => s.toClient

/-- Change what is in flight to a side. -/
def setInFlight (s : DataPhase W) (side : Side) (ds : List Bytes) : DataPhase W :=
  match side with
  | .server => { s with toServer := ds }
  | .client => { s with toClient := ds }

/-- The PDUs of the sends addressed to `a`. -/
def arriving (a : SockAddr) (sends : List Send) : List Bytes :=
  (sends.filter fun m => m.dest = a).map Send.pdu

@[simp] theorem arriving_nil (a : SockAddr) : arriving a [] = [] := rfl

@[simp] theorem arriving_self (a : SockAddr) (pdu : Bytes) : arriving a [⟨a, pdu⟩] = [pdu] := by
  simp [arriving]

/-- The child takes a step. -/
def serverStep (cfg : Config) (s : DataPhase W) (ev : ServerEvent) :
    Option (DataPhase W × List Send) :=
  (s.server.step cfg.host ev).map fun r =>
    ({ s with server := r.1, toClient := s.toClient ++ arriving cfg.clientAddr r.2 }, r.2)

/-- The client takes in a datagram. -/
def clientStep [NeZero W] (cfg : Config) (s : DataPhase W) (stale bytes : Bytes) :
    Option (DataPhase W × List Send) :=
  (s.client.step cfg.host stale ⟨cfg.childAddr, bytes⟩).map fun r =>
    ({ s with client := r.1, toServer := s.toServer ++ arriving cfg.childAddr r.2 }, r.2)

/-- **One step of the composed system.** -/
def step [NeZero W] (cfg : Config) (s : DataPhase W) : NetEvent → Option (DataPhase W × List Send)
  | .run => s.serverStep cfg .run
  | .quiet => s.serverStep cfg .quiet
  | .deliver side i stale bytes =>
      if i < (s.inFlight side).length then
        let s := s.setInFlight side ((s.inFlight side).eraseIdx i)
        match side with
        | .server => s.serverStep cfg (.receive stale ⟨cfg.clientAddr, bytes⟩)
        | .client => s.clientStep cfg stale bytes
      else none
  | .lose side i =>
      if i < (s.inFlight side).length then
        some (s.setInFlight side ((s.inFlight side).eraseIdx i), [])
      else none
  | .duplicate side i =>
      ((s.inFlight side)[i]?).map fun d => (s.setInFlight side (s.inFlight side ++ [d]), [])

/-- The oldest datagram in flight to the client arrives. -/
theorem step_deliver_client [NeZero W] (cfg : Config) {s : DataPhase W} {d : Bytes}
    {rest : List Bytes} (hd : s.toClient = d :: rest) (stale bytes : Bytes) :
    s.step cfg (.deliver .client 0 stale bytes)
      = clientStep cfg { s with toClient := rest } stale bytes := by
  simp [step, inFlight, setInFlight, hd]

/-- The oldest datagram in flight to the server arrives. -/
theorem step_deliver_server [NeZero W] (cfg : Config) {s : DataPhase W} {d : Bytes}
    {rest : List Bytes} (hd : s.toServer = d :: rest) (stale bytes : Bytes) :
    s.step cfg (.deliver .server 0 stale bytes)
      = serverStep cfg { s with toServer := rest } (.receive stale ⟨cfg.clientAddr, bytes⟩) := by
  simp [step, inFlight, setInFlight, hd]

/-- A step of the child is a step of the whole. -/
theorem serverStep_of_step (cfg : Config) {s : DataPhase W} {σ : Server W} {ev : ServerEvent}
    {sends : List Send} (h : s.server.step cfg.host ev = some (σ, sends)) :
    s.serverStep cfg ev = some ({ s with
      server := σ, toClient := s.toClient ++ arriving cfg.clientAddr sends }, sends) := by
  rw [serverStep, h, Option.map_some]

/-- A turn of the client is a step of the whole. -/
theorem clientStep_of_step [NeZero W] (cfg : Config) {s : DataPhase W} {c : Client W}
    {stale bytes : Bytes} {sends : List Send}
    (h : s.client.step cfg.host stale ⟨cfg.childAddr, bytes⟩ = some (c, sends)) :
    s.clientStep cfg stale bytes = some ({ s with
      client := c, toServer := s.toServer ++ arriving cfg.childAddr sends }, sends) := by
  rw [clientStep, h, Option.map_some]

/-- **What a step of the child does to the whole.** -/
theorem serverStep_eq_some {cfg : Config} {s s' : DataPhase W} {ev : ServerEvent}
    {sends : List Send} (h : s.serverStep cfg ev = some (s', sends)) :
    ∃ σ, s.server.step cfg.host ev = some (σ, sends)
      ∧ s' = { s with server := σ, toClient := s.toClient ++ arriving cfg.clientAddr sends } := by
  obtain ⟨⟨σ, sends'⟩, hstep, heq⟩ := Option.map_eq_some_iff.mp h
  obtain ⟨rfl, rfl⟩ := Prod.mk.inj heq
  exact ⟨σ, hstep, rfl⟩

/-- **What a turn of the client does to the whole.** -/
theorem clientStep_eq_some [NeZero W] {cfg : Config} {s s' : DataPhase W} {stale bytes : Bytes}
    {sends : List Send} (h : s.clientStep cfg stale bytes = some (s', sends)) :
    ∃ c, s.client.step cfg.host stale ⟨cfg.childAddr, bytes⟩ = some (c, sends)
      ∧ s' = { s with client := c, toServer := s.toServer ++ arriving cfg.childAddr sends } := by
  obtain ⟨⟨c, sends'⟩, hstep, heq⟩ := Option.map_eq_some_iff.mp h
  obtain ⟨rfl, rfl⟩ := Prod.mk.inj heq
  exact ⟨c, hstep, rfl⟩

/-- The child's own step determines what happens to the whole. -/
theorem eq_of_serverStep {cfg : Config} {s s' : DataPhase W} {σ : Server W} {ev : ServerEvent}
    {sends sends' : List Send} (h : s.serverStep cfg ev = some (s', sends))
    (hstep : s.server.step cfg.host ev = some (σ, sends')) :
    s' = { s with server := σ, toClient := s.toClient ++ arriving cfg.clientAddr sends' }
      ∧ sends = sends' := by
  obtain ⟨τ, hτ, rfl⟩ := serverStep_eq_some h
  obtain ⟨rfl, rfl⟩ := Prod.mk.inj (Option.some.inj (hstep.symm.trans hτ))
  exact ⟨rfl, rfl⟩

/-- The client's own turn determines what happens to the whole. -/
theorem eq_of_clientStep [NeZero W] {cfg : Config} {s s' : DataPhase W} {c : Client W}
    {stale bytes : Bytes} {sends sends' : List Send}
    (h : s.clientStep cfg stale bytes = some (s', sends))
    (hstep : s.client.step cfg.host stale ⟨cfg.childAddr, bytes⟩ = some (c, sends')) :
    s' = { s with client := c, toServer := s.toServer ++ arriving cfg.childAddr sends' }
      ∧ sends = sends' := by
  obtain ⟨d, hd, rfl⟩ := clientStep_eq_some h
  obtain ⟨rfl, rfl⟩ := Prod.mk.inj (Option.some.inj (hstep.symm.trans hd))
  exact ⟨rfl, rfl⟩

/-- **A step of the whole leaves the child as it is, or is one of its own.** -/
theorem server_of_step [NeZero W] {cfg : Config} {s s' : DataPhase W} {ev : NetEvent}
    {sends : List Send} (h : s.step cfg ev = some (s', sends)) :
    s'.server = s.server ∨ ∃ ev sends, s.server.step cfg.host ev = some (s'.server, sends) := by
  cases ev with
  | run | quiet =>
    obtain ⟨σ, hstep, rfl⟩ := serverStep_eq_some h
    exact .inr ⟨_, _, hstep⟩
  | deliver side i stale bytes =>
    simp only [step] at h
    split at h
    case isFalse => cases h
    cases side with
    | server =>
      obtain ⟨σ, hstep, rfl⟩ := serverStep_eq_some h
      exact .inr ⟨_, _, hstep⟩
    | client =>
      obtain ⟨c, -, rfl⟩ := clientStep_eq_some h
      exact .inl rfl
  | lose side i =>
    simp only [step] at h
    split at h
    case isFalse => cases h
    obtain ⟨rfl, -⟩ := Prod.mk.inj (Option.some.inj h)
    cases side <;> exact .inl rfl
  | duplicate side i =>
    obtain ⟨d, -, heq⟩ := Option.map_eq_some_iff.mp h
    obtain ⟨rfl, -⟩ := Prod.mk.inj heq
    cases side <;> exact .inl rfl

/-- The data phase as the set-up leaves it. -/
def enter (W : ℕ) [NeZero W] (cfg : Config) : DataPhase W where
  server := Server.enter W cfg.clientAddr cfg.source cfg.windowSize cfg.bufferSize
  client := Client.enter W cfg.recvAddr
  toClient := []
  toServer := []

/-- The composed system as a machine. -/
def machine (W : ℕ) [NeZero W] (cfg : Config) :
    Machine (DataPhase W) NetEvent (List Send) where
  step := step cfg

/-! ## Networks -/

/-- The client still takes datagrams in. -/
def Receiving (s : DataPhase W) : Prop :=
  match s.client.pc with
  | .receiving _ => True
  | _ => False

instance (s : DataPhase W) : Decidable s.Receiving :=
  match h : s.client.pc with
  | .receiving _ => .isTrue (by simp [Receiving, h])
  | .done => .isFalse (by simp [Receiving, h])
  | .aborted _ => .isFalse (by simp [Receiving, h])

/-- **A network that does not alter datagrams.** -/
def Unaltered (s : DataPhase W) : NetEvent → Prop
  | .deliver side i _ bytes => (s.inFlight side)[i]? = some bytes
  | _ => True

/-- **A network that flips at most one bit of a datagram.** -/
def Noisy (s : DataPhase W) : NetEvent → Prop
  | .deliver side i _ bytes => ∃ d, (s.inFlight side)[i]? = some d
      ∧ (bytes = d ∨ ∃ j < 8 * d.length, bytes = flipBit j d)
  | _ => True

/-- **A network of FIFO channels** that lose nothing but what comes for a client that has ended; a
poll that waits times out only when nothing is in flight. -/
def Fifo (s : DataPhase W) : NetEvent → Prop
  | .run => True
  | .quiet => s.server.pc = .drain ∨ s.toClient = [] ∧ s.toServer = []
  | .deliver side i _ bytes => i = 0 ∧ (s.inFlight side)[i]? = some bytes
  | .lose side i => side = .client ∧ i = 0 ∧ ¬ s.Receiving
  | .duplicate _ _ => False

/-- What arrives over a FIFO channel is the oldest datagram in it. -/
theorem Fifo.oldest {s : DataPhase W} {side : Side} {i : ℕ} {stale bytes : Bytes}
    (h : s.Fifo (.deliver side i stale bytes)) :
    i = 0 ∧ ∃ rest, s.inFlight side = bytes :: rest := by
  obtain ⟨rfl, hd⟩ := h
  exact ⟨rfl, List.head?_eq_some_iff.mp (List.head?_eq_getElem? ▸ hd)⟩

instance (s : DataPhase W) : (ev : NetEvent) → Decidable (Unaltered s ev)
  | .deliver _ _ _ _ => inferInstanceAs (Decidable (_ = _))
  | .run | .quiet | .lose _ _ | .duplicate _ _ => .isTrue trivial

instance (s : DataPhase W) : (ev : NetEvent) → Decidable (Noisy s ev)
  | .deliver side i _ bytes =>
    match h : (s.inFlight side)[i]? with
    | none => .isFalse (by simp [Noisy, h])
    | some d => decidable_of_iff (bytes = d ∨ ∃ j < 8 * d.length, bytes = flipBit j d)
        (by simp [Noisy, h])
  | .run | .quiet | .lose _ _ | .duplicate _ _ => .isTrue trivial

instance (s : DataPhase W) : (ev : NetEvent) → Decidable (Fifo s ev)
  | .run => .isTrue trivial
  | .quiet => inferInstanceAs (Decidable (_ ∨ _ ∧ _))
  | .deliver _ _ _ _ => inferInstanceAs (Decidable (_ ∧ _))
  | .lose _ _ => inferInstanceAs (Decidable (_ ∧ _ ∧ ¬ _))
  | .duplicate _ _ => .isFalse id

end DataPhase

end RemoteFileCopy
