import RemoteFileCopy.Client.Turn
import RemoteFileCopy.Server.Window
import RemoteFileCopy.Setup.ProcessClient

/-!
# Setup/Redirect — where the two sides send

    the request ──▸ ServerInfo.clientAddr ───▸ every sendtoErr of the child
    recvAddr ─────▸ ReceiveInfo.serverAddr ──▸ every sendtoErr of process_transfer_state
                          ▴
    any datagram ──── recvfrom

Each side keeps the address of its peer in one field, and every receive after that has this field
for its output argument.  So the next PDU goes to whoever was heard last (`dest_eq_lastSource`), and
the peer is sent everything exactly if it was the one heard last whenever something is sent
(`sends_to_peer_iff`).
-/

namespace RemoteFileCopy

open Transition

/-! ## The child -/

/-- The address an event leaves the child sending to, if it was sending to `a`. -/
@[simp] def ServerEvent.heard : ServerEvent → SockAddr → SockAddr
  | .receive _ d, _ => d.srcAddr
  | _, a => a

/-- The address the child sends to next. -/
def ProcessClient.clientAddr : ProcessClient → SockAddr
  | .start r => r.srcAddr
  | .handshake c => c.info.clientAddr
  | .transfer σ => σ.info.clientAddr

/-- **Where the datagram a child received last came from**; before the first one, its request. -/
def lastSource (requester : SockAddr) :
    List (Edge ProcessClient ServerEvent (List Send)) → SockAddr :=
  register ServerEvent.heard requester

section Server

variable {W : ℕ} {host : Host} {fopen : CString → Option Bytes} {σ : Server W} {a : SockAddr}

/-- What was sent went to `a`, and so will what is sent next, if anything is. -/
def Server.Addressed (a : SockAddr) (r : Server W × List Send) : Prop :=
  (∀ m ∈ r.2, m.dest = a) ∧ (r.1.info.clientAddr = a ∨ ∃ fault, r.1.pc = .aborted fault)

/-- **A step of the data phase sends to whoever was heard last.** -/
theorem Server.StepCase.addressed {ev : ServerEvent} {r : Server W × List Send}
    (h : StepCase host σ ev r) : Server.Addressed (ev.heard σ.info.clientAddr) r := by
  have haborted (fault : Fault) :
      Server.Addressed σ.info.clientAddr ({ σ with pc := .aborted fault }, []) :=
    ⟨by simp, .inr ⟨fault, rfl⟩⟩
  cases h with
  | read =>
    exact Server.settle_rule <| sendNext_rule (fun _ => haborted _) (fun _ _ _ => haborted _)
      ⟨by simp, .inl rfl⟩ fun _ _ _ =>
        .of_cases (fun _ _ => haborted _) fun _ _ => ⟨by simp, .inl rfl⟩
  | timeout =>
    exact Server.settle_rule <| resendOldest_rule ⟨by simp, .inl rfl⟩ fun _ _ =>
      .of_cases (fun _ _ => haborted _) fun _ _ => ⟨by simp, .inl rfl⟩
  | acked hl hack => exact ⟨((waitOnAckState_some _ _ _).of_ok hack).2, .inl rfl⟩
  | ackFault hl => exact ⟨by simp, .inr ⟨_, rfl⟩⟩
  | drained | eofQuiet | eofHeard => exact ⟨by simp, .inl rfl⟩
  | eofResend =>
    simp only [resendEofState]
    split <;> exact ⟨by simp, .inl rfl⟩

theorem filenameState_addressed {buffer : Bytes} {n : ℕ} {info info' : ServerInfo}
    {state : ServerState} {sends : List Send}
    (h : filenameState host fopen buffer n info = .ok (state, info', sends)) :
    info'.clientAddr = info.clientAddr ∧ ∀ m ∈ sends, m.dest = info.clientAddr := by
  obtain ⟨name, -, h⟩ := bind_eq_ok.mp h
  split at h
  case _ =>
    obtain ⟨-, rfl, rfl⟩ := by simpa using Except.ok.inj h
    exact ⟨rfl, by simp⟩
  case _ file hopen =>
    obtain ⟨-, rfl, rfl⟩ := by simpa using Except.ok.inj h
    exact ⟨rfl, by simp⟩

/-- The answer to a request goes to the requester. -/
theorem Child.start_addressed (r : Received) :
    (Child.start host fopen r).1.info.clientAddr = r.srcAddr
      ∧ ∀ m ∈ (Child.start host fopen r).2, m.dest = r.srcAddr := by
  rw [Child.start]
  split
  case _ state info sends h => exact filenameState_addressed h
  case _ fault h => exact ⟨rfl, by simp⟩

/-- **A step of a child sends to whoever was heard last**, and so does the next. -/
theorem ProcessClient.step_addressed {c c' : ProcessClient} {ev : ServerEvent} {sends : List Send}
    (h : c.step host fopen ev = some (c', sends)) :
    (∀ m ∈ sends, m.dest = ev.heard c.clientAddr)
      ∧ (c'.clientAddr = ev.heard c.clientAddr ∨ ∀ ev', c'.step host fopen ev' = none) := by
  cases c with
  | start r =>
    cases ev with
    | run =>
      obtain ⟨rfl, rfl⟩ := by simpa [ProcessClient.step] using h
      exact ⟨(Child.start_addressed r).2, .inl (Child.start_addressed r).1⟩
    | quiet | receive stale d => simp [ProcessClient.step] at h
  | handshake c =>
    simp only [ProcessClient.step] at h
    split at h
    case _ | _ | _ =>
      obtain ⟨rfl, rfl⟩ := by simpa using h
      exact ⟨by simp, .inl rfl⟩
    case _ => cases h
  | transfer σ =>
    obtain ⟨⟨σ', sends'⟩, hstep, heq⟩ := Option.map_eq_some_iff.mp h
    obtain ⟨rfl, rfl⟩ := by simpa using heq
    obtain ⟨hdest, haddr | ⟨fault, hpc⟩⟩ := (Server.step_cases hstep).addressed
    · exact ⟨hdest, .inl haddr⟩
    · exact ⟨hdest, .inr fun ev' => by rw [ProcessClient.step, Server.step_of_aborted hpc]; rfl⟩

/-- **What a child sends goes to whoever was heard last.** -/
theorem dest_eq_lastSource {G : ProcessClient → ServerEvent → Prop} {r : Received}
    {es : List (Edge ProcessClient ServerEvent (List Send))} {c : ProcessClient}
    (run : Run (processClient host fopen) G (.start r) es c)
    {x : Edge ProcessClient ServerEvent (List Send)}
    {earlier : List (Edge ProcessClient ServerEvent (List Send))} (hx : x :: earlier <:+ es) :
    ∀ m ∈ x.output, m.dest = lastSource r.srcAddr (x :: earlier) := by
  obtain ⟨before, hstep⟩ := run.suffix hx
  have haddr : x.source.clientAddr = lastSource r.srcAddr earlier := by
    rcases before.register ServerEvent.heard ProcessClient.clientAddr
      fun _ _ _ _ hs => (ProcessClient.step_addressed hs).2 with haddr | hstuck
    · exact haddr
    · rw [hstuck] at hstep
      cases hstep
  have hdest := (ProcessClient.step_addressed hstep).1
  rwa [haddr] at hdest

/-- If only the requester was heard, it was heard last. -/
theorem lastSource_eq {es : List (Edge ProcessClient ServerEvent (List Send))}
    (h : ∀ x ∈ es, ∀ stale d, x.event = .receive stale d → d.srcAddr = a) :
    lastSource a es = a := by
  induction es with
  | nil => rfl
  | cons x es ih =>
    obtain ⟨hx, hes⟩ := List.forall_mem_cons.mp h
    change x.event.heard (lastSource a es) = a
    rw [ih hes]
    cases hev : x.event with
    | run | quiet => rfl
    | receive stale d => exact hx stale d hev

end Server

/-! ## The client -/

section Client

variable {W : ℕ} [NeZero W] {host : Host}

theorem serverAddr_bufferPacket {info info' : ReceiveInfo W} {seq : UInt32}
    {data : Except Fault Bytes} (h : bufferPacket info seq data = .ok info') :
    info'.serverAddr = info.serverAddr := by
  rw [bufferPacket] at h
  split at h
  case isTrue =>
    obtain rfl := Except.ok.inj h
    rfl
  case isFalse =>
    obtain ⟨p, -, h⟩ := bind_eq_ok.mp h
    obtain rfl := Except.ok.inj h
    rfl

/-- An in-order or out-of-order turn with a data packet answers that packet. -/
theorem processTransferState_dest_of_data {state : TransferState} {info : ReceiveInfo W}
    {r : Received} {x : Option TransferState × ReceiveInfo W × List Send} (hstate : state ≠ .flush)
    (hdata : IsDataFlag r.flag) (h : processTransferState host state info r = .ok x) :
    ∀ m ∈ x.2.2, m.dest = r.srcAddr := by
  cases state with
  | flush => exact absurd rfl hstate
  | inOrder | outOfOrder =>
    simp only [processTransferState, if_neg hdata.ne_eof, if_pos hdata] at h
    split at h
    case isTrue =>
      obtain ⟨p, -, h⟩ := bind_eq_ok.mp h
      obtain rfl := Except.ok.inj h
      simp [sendRr]
    case isFalse =>
      split at h
      case isTrue =>
        obtain ⟨info', hbuffer, h⟩ := bind_eq_ok.mp h
        obtain rfl := Except.ok.inj h
        simp [sendSrej, serverAddr_bufferPacket hbuffer]
      case isFalse =>
        obtain rfl := Except.ok.inj h
        simp

/-- **A turn answers the datagram it is about.** -/
theorem processTransferState_dest {state : TransferState} {info : ReceiveInfo W} {r : Received}
    {x : Option TransferState × ReceiveInfo W × List Send}
    (h : processTransferState host state info r = .ok x) : ∀ m ∈ x.2.2, m.dest = r.srcAddr := by
  by_cases heof : r.flag = 10
  · rw [turn_eof host state heof] at h
    obtain rfl := Except.ok.inj h
    simp
  by_cases hdata : IsDataFlag r.flag
  · by_cases hstate : state = .flush
    · subst hstate
      rcases turn_flush_cases host info hdata with ⟨-, -, hturn⟩ | ⟨-, hturn⟩ <;>
        · rw [hturn] at h
          obtain rfl := Except.ok.inj h
          simp
    · exact processTransferState_dest_of_data hstate hdata h
  · rw [turn_other host state hdata heof] at h
    obtain rfl := Except.ok.inj h
    simp

/-- **What the client sends goes to whoever was heard last.** -/
theorem Client.step_dest {c c' : Client W} {a : Arrival} {sends : List Send}
    (h : (clientMachine W host).step c a = some (c', sends)) :
    ∀ m ∈ sends, m.dest = a.datagram.srcAddr := by
  simp only [clientMachine, Client.step] at h
  split at h
  case _ state hpc =>
    split at h
    case _ hturn | _ hturn =>
      obtain ⟨-, rfl⟩ := by simpa using h
      exact processTransferState_dest hturn
    case _ =>
      obtain ⟨-, rfl⟩ := by simpa using h
      simp
  case _ => cases h

end Client

/-! ## Whose peer is redirected -/

/-- Everything an edge sends goes to `a`. -/
def SendsTo {S E : Type} (a : SockAddr) (x : Edge S E (List Send)) : Prop :=
  ∀ m ∈ x.output, m.dest = a

instance {S E : Type} (a : SockAddr) (x : Edge S E (List Send)) : Decidable (SendsTo a x) :=
  inferInstanceAs (Decidable (∀ m ∈ x.output, m.dest = a))

/-- Where everything an edge sends goes to `b`, it goes to `a` if nothing is sent or `b` is `a`. -/
theorem sendsTo_iff {S E : Type} {a b : SockAddr} {x : Edge S E (List Send)}
    (h : SendsTo b x) : SendsTo a x ↔ (x.output ≠ [] → b = a) := by
  constructor
  · intro ha hne
    obtain ⟨m, hm⟩ := List.exists_mem_of_ne_nil _ hne
    exact (h m hm).symm.trans (ha m hm)
  · intro hb m hm
    exact (h m hm).trans (hb (List.ne_nil_of_mem hm))

/-- **When a child sends everything to its requester.** -/
theorem sendsTo_requester_iff {host : Host} {fopen : CString → Option Bytes} {r : Received}
    {G : ProcessClient → ServerEvent → Prop}
    {es : List (Edge ProcessClient ServerEvent (List Send))} {c : ProcessClient}
    (run : Run (processClient host fopen) G (.start r) es c) :
    (∀ x ∈ es, SendsTo r.srcAddr x) ↔ ∀ x earlier, x :: earlier <:+ es →
      x.output ≠ [] → lastSource r.srcAddr (x :: earlier) = r.srcAddr := by
  constructor
  · intro h x earlier hx
    exact (sendsTo_iff (dest_eq_lastSource run hx)).mp (h x (hx.subset List.mem_cons_self))
  · intro h x hx
    obtain ⟨later, earlier, rfl⟩ := List.append_of_mem hx
    have hsuffix : x :: earlier <:+ later ++ x :: earlier := ⟨later, rfl⟩
    exact (sendsTo_iff (dest_eq_lastSource run hsuffix)).mpr (h x earlier hsuffix)

/-- **When a client sends everything to one address.** -/
theorem sendsTo_server_iff {W : ℕ} [NeZero W] {host : Host} {c₀ c : Client W}
    {G : Client W → Arrival → Prop} {peer : SockAddr}
    {es : List (Edge (Client W) Arrival (List Send))}
    (run : Run (clientMachine W host) G c₀ es c) :
    (∀ x ∈ es, SendsTo peer x) ↔ ∀ x ∈ es, x.output ≠ [] → x.event.datagram.srcAddr = peer :=
  forall₂_congr fun _ hx => sendsTo_iff (Client.step_dest (run.edge hx).2.2)

/-- **When nothing is redirected.**  In every run of a child everything goes to the requester
exactly if, whenever something is sent, the datagram received last came from there; and in every
run of the client everything goes to `peer` exactly if every datagram it answers came from there.
It is enough that every datagram received did. -/
theorem sends_to_peer_iff (host : Host) :
    (∀ (fopen : CString → Option Bytes) (r : Received)
        (es : List (Edge ProcessClient ServerEvent (List Send))) (c : ProcessClient),
      Run (processClient host fopen) (fun _ _ => True) (.start r) es c →
        ((∀ x ∈ es, SendsTo r.srcAddr x) ↔ ∀ x earlier, x :: earlier <:+ es →
          x.output ≠ [] → lastSource r.srcAddr (x :: earlier) = r.srcAddr)
        ∧ ((∀ x ∈ es, ∀ stale d, x.event = .receive stale d → d.srcAddr = r.srcAddr) →
          ∀ x ∈ es, SendsTo r.srcAddr x))
    ∧ ∀ (W : ℕ) [NeZero W] (recvAddr peer : SockAddr)
        (es : List (Edge (Client W) Arrival (List Send))) (c : Client W),
      Run (clientMachine W host) (fun _ _ => True) (Client.enter W recvAddr) es c →
        ((∀ x ∈ es, SendsTo peer x) ↔
          ∀ x ∈ es, x.output ≠ [] → x.event.datagram.srcAddr = peer)
        ∧ ((∀ x ∈ es, x.event.datagram.srcAddr = peer) → ∀ x ∈ es, SendsTo peer x) := by
  refine ⟨fun fopen r es c run => ⟨sendsTo_requester_iff run, fun h => ?_⟩,
    fun W _ recvAddr peer es c run => ⟨sendsTo_server_iff run, fun h => ?_⟩⟩
  · refine (sendsTo_requester_iff run).mpr fun x earlier hx _ => lastSource_eq fun y hy => ?_
    exact h y (hx.subset hy)
  · exact (sendsTo_server_iff run).mpr fun x hx _ => h x hx

/-- A request for a window of two and a buffer of one byte, from port 1. -/
def sampleRequest : Received where
  srcAddr := ⟨1, 1⟩
  buffer := createPDU (.standard .little) 0 8 [2, 0, 1, 0, 102]
  bytesRecv := 12

/-- A child that hears only the requester sends its four PDUs there, and a client that hears only
port 9 answers there. -/
theorem sends_to_peer_four :
    (∃ es c, Run (processClient (.standard .little) fun _ => some [65, 66]) (fun _ _ => True)
        (.start sampleRequest) es c
      ∧ (es.flatMap Edge.output).length = 4 ∧ ∀ x ∈ es, SendsTo ⟨1, 1⟩ x)
    ∧ ∃ es c, Run (clientMachine 2 (.standard .little)) (fun _ _ => True)
        (Client.enter 2 ⟨0, 0⟩) es c
      ∧ (es.flatMap Edge.output).length = 2 ∧ ∀ x ∈ es, SendsTo ⟨9, 9⟩ x := by
  constructor
  · obtain ⟨es, c, run, hes⟩ := exists_run_of_replay
      (M := processClient (.standard .little) fun _ => some [65, 66]) (G := fun _ _ => True)
      (s := .start sampleRequest)
      [.run, .receive [] ⟨⟨1, 1⟩, fileOkAckPDU (.standard .little)⟩, .run, .run, .quiet, .run,
        .receive [] ⟨⟨1, 1⟩, rrPDU (.standard .little) 3⟩, .quiet, .run]
      (P := fun es _ => decide ((es.flatMap Edge.output).length = 4
        ∧ ∀ x ∈ es, x.event.heard ⟨1, 1⟩ = ⟨1, 1⟩)) (by decide +kernel)
    obtain ⟨hlen, hsource⟩ := of_decide_eq_true hes
    refine ⟨es, c, run, hlen, ((sends_to_peer_iff _).1 _ _ es c run).2 fun x hx stale d hev => ?_⟩
    have := hsource x hx
    rwa [hev] at this
  · obtain ⟨es, c, run, hes⟩ := exists_run_of_replay
      (M := clientMachine 2 (.standard .little)) (G := fun _ _ => True)
      (s := Client.enter 2 ⟨0, 0⟩)
      [⟨[], ⟨⟨9, 9⟩, createPDU (.standard .little) 1 16 [65]⟩⟩,
        ⟨[], ⟨⟨9, 9⟩, createPDU (.standard .little) 2 10 []⟩⟩]
      (P := fun es _ => decide ((es.flatMap Edge.output).length = 2
        ∧ ∀ x ∈ es, x.event.datagram.srcAddr = ⟨9, 9⟩)) (by decide +kernel)
    obtain ⟨hlen, hsource⟩ := of_decide_eq_true hes
    exact ⟨es, c, run, hlen, ((sends_to_peer_iff _).2 2 _ _ es c run).2 hsource⟩

/-- **One datagram from a stranger redirects the file**: the child ignores what it carries, and
sends the next packet to where it came from. -/
theorem stray_datagram_redirects : ¬ ∀ (es : List (Edge ProcessClient ServerEvent (List Send)))
    (c : ProcessClient), Run (processClient (.standard .little) fun _ => some [65, 66])
      (fun _ _ => True) (.start sampleRequest) es c → ∀ x ∈ es, SendsTo ⟨1, 1⟩ x := by
  intro h
  obtain ⟨es, c, run, hes⟩ := exists_run_of_replay
    (M := processClient (.standard .little) fun _ => some [65, 66]) (G := fun _ _ => True)
    (s := .start sampleRequest)
    [.run, .receive [] ⟨⟨1, 1⟩, fileOkAckPDU (.standard .little)⟩, .run, .run,
      .receive [] ⟨⟨6, 6⟩, []⟩, .quiet, .run]
    (P := fun es _ => decide (¬ ∀ x ∈ es, SendsTo ⟨1, 1⟩ x)) (by decide +kernel)
  exact of_decide_eq_true hes (h es c run)

end RemoteFileCopy
