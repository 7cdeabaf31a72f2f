import RemoteFileCopy.System.Links

/-!
# System/Safety — every copy is a prefix, as long as the windows agree

The size of a child's window is the 16 bits it read from the request, and the size of the receive
buffer the number on the command line.  A child may have one slot more than its `rcopy`, and the
output is a prefix of the file whatever the network does and whoever else asks for files
(`World.prefix_of_run`).  A child with no slot at all, which a window size of 65536 asks for, sends
nothing (`Mute`).
-/

namespace RemoteFileCopy

open Transition

variable {V W : ℕ} {cfg : Config}

/-! ## A reply of the handshake -/

/-- A client ignores a reply of the handshake. -/
theorem HandshakePDU.harmless {d : Bytes} (h : HandshakePDU d) :
    7 ≤ d.length ∧ ¬ IsDataFlag (d.getD 6 0) ∧ d.getD 6 0 ≠ 10 := by
  obtain ⟨hlen, hflag | hflag⟩ := h
  all_goals
    rw [hflag]
    exact ⟨hlen, by decide, by decide⟩

/-- A child that sends data takes the ack of the file for no RR and no SREJ. -/
theorem fileOkAckPDU_harmless (host : Host) : 7 ≤ (fileOkAckPDU host).length
    ∧ (fileOkAckPDU host).getD 6 0 ≠ 5 ∧ (fileOkAckPDU host).getD 6 0 ≠ 6 := by
  rw [fileOkAckPDU, getD_createPDU, length_createPDU]
  exact ⟨by simp, by decide, by decide⟩

/-! ## A child with a window -/

/-- **Up to one slot more than the client has** is what a link keeps. -/
def Uneven.link [NeZero V] [NeZero W] (hVW : V ≤ W + 1)
    (hK : numChunks cfg.b cfg.source < 4294967295) : LinkInvariant cfg V W where
  holds σ c toClient toServer := ∃ w, Uneven cfg σ c toClient toServer w
  enter hc hs := ⟨_, Uneven.enter (fun d hd => (hc d hd).harmless) fun d hd =>
    hs d hd ▸ fileOkAckPDU_harmless cfg.host⟩
  mono := fun ⟨w, h⟩ hc hs => ⟨w, { h with
    toClient := fun d hd => (hc d hd).elim (h.toClient d) fun hd => .inr hd.harmless
    toServer := fun d hd => h.toServer d (hs d hd) }⟩
  serverStep := fun ⟨_, h⟩ hs hheard => (h.serverStep hK hs hheard).1
  clientStep := fun ⟨w, h⟩ hd hs => ⟨w, (h.clientStep hVW hK hd hs).1⟩

/-! ## A child without one -/

/-- **A child with no slot**: it never has room to read, and has nothing to resend. -/
structure Mute (σ : Server 0) (c : Client W) (toClient : Bytes → Prop) : Prop where
  full : σ.window.isFull = true
  pc : σ.pc ≠ .next .waitOnEofAck ∧ σ.pc ≠ .next .resendEof
  out : c.info.outFile = []
  running : ∀ fault, c.pc ≠ .aborted fault
  toClient : ∀ d, toClient d → HandshakePDU d

namespace Mute

variable {σ σ' : Server 0} {c c' : Client W} {toClient : Bytes → Prop} {ev : ServerEvent}
  {sends : List Send} {host : Host}

/-- An ack faults, or changes nothing. -/
theorem waitOnAckState_eq {q : CircularQueue 0} {info : ServerInfo} {r : Received}
    {x : ServerState × CircularQueue 0 × ServerInfo × List Send}
    (h : waitOnAckState host q info (some r) = .ok x) : x.2.1 = q ∧ x.2.2.2 = [] := by
  simp only [waitOnAckState] at h
  split at h
  case isTrue =>
    cases hn : (r.seqNum host).toNat - 1 with
    | zero =>
      simp only [hn, CircularQueue.removeUpTo, bind, Except.bind] at h
      obtain rfl := Except.ok.inj h
      exact ⟨rfl, rfl⟩
    | succ k =>
      simp only [hn, CircularQueue.removeUpTo, CircularQueue.remove, CircularQueue.index,
        bind, Except.bind] at h
      cases hk : q.removeUpTo k <;> simp [hk] at h
  case isFalse =>
    split at h
    case isTrue => simp [CircularQueue.get, CircularQueue.index, bind, Except.bind] at h
    case isFalse =>
      obtain rfl := Except.ok.inj h
      exact ⟨rfl, rfl⟩

theorem serverStep (h : Mute σ c toClient) (hs : σ.step host ev = some (σ', sends)) :
    Mute σ' c toClient ∧ sends = [] := by
  have hstep := Server.step_cases hs
  generalize hr : (σ', sends) = r at hstep
  cases hstep with
  | read hpc hroom => exact absurd (h.full.symm.trans hroom) (by simp)
  | timeout hpc hfull =>
    have hnone : σ.window.firstValid = none := rfl
    simp only [resendOldest, hnone, bind, Except.bind, pure, Except.pure, Server.settle] at hr
    obtain ⟨rfl, rfl⟩ := Prod.mk.inj hr
    refine ⟨⟨h.full, ?_, h.out, h.running, h.toClient⟩, rfl⟩
    simp only
    split <;> simp
  | drained hpc =>
    obtain ⟨rfl, rfl⟩ := Prod.mk.inj hr
    exact ⟨⟨h.full, by simp, h.out, h.running, h.toClient⟩, rfl⟩
  | @acked hl stale d q sends' hack =>
    obtain ⟨rfl, rfl⟩ := Prod.mk.inj hr
    obtain ⟨hq, hsends⟩ := waitOnAckState_eq hack
    obtain rfl : q = σ.window := hq
    refine ⟨⟨h.full, ?_, h.out, h.running, h.toClient⟩, hsends⟩
    rcases hl with ⟨hpc, -⟩ | hpc <;> simp [Server.heard, hpc]
  | ackFault =>
    obtain ⟨rfl, rfl⟩ := Prod.mk.inj hr
    exact ⟨⟨h.full, by simp, h.out, h.running, h.toClient⟩, rfl⟩
  | eofQuiet hpc => exact absurd hpc h.pc.1
  | eofHeard hpc => exact absurd hpc h.pc.1
  | eofResend hpc => exact absurd hpc h.pc.2

theorem clientStep [NeZero W] (h : Mute σ c toClient) {stale : Bytes} {d : Datagram}
    (hd : toClient d.bytes) (hs : c.step host stale d = some (c', sends)) : Mute σ c' toClient := by
  obtain ⟨hlen, hdata, heof⟩ := (h.toClient _ hd).harmless
  obtain ⟨state, hpc⟩ := Client.receiving_of_step hs
  obtain ⟨rfl, -⟩ := Prod.mk.inj (Option.some_inj.mp
    ((Client.step_other host hpc hlen hdata heof stale d.srcAddr).symm.trans hs))
  exact ⟨h.full, h.pc, h.out, by simp, h.toClient⟩

end Mute

/-- **A child with no slot** is silent for as long as it lives. -/
def Mute.link [NeZero W] (cfg : Config) : LinkInvariant cfg 0 W where
  holds σ c toClient _ := Mute σ c toClient
  enter hc _ := ⟨rfl, by simp [Server.enter], rfl, by simp [Client.enter], hc⟩
  mono h hc _ := { h with toClient := fun d hd => (hc d hd).elim (h.toClient d) id }
  serverStep h hs _ := by
    obtain ⟨h', rfl⟩ := h.serverStep hs
    exact { h' with toClient := fun d hd => h'.toClient d (by simpa using hd) }
  clientStep h hd hs := h.clientStep hd hs

/-! ## Any child -/

variable [NeZero W]

/-- **What every link keeps** whose child has at most one slot more than its client. -/
def transferLink (hVW : V ≤ W + 1) (hK : numChunks cfg.b cfg.source < 4294967295) :
    LinkInvariant cfg V W :=
  match V with
  | 0 => Mute.link cfg
  | _ + 1 => Uneven.link hVW hK

/-- What the client of such a link has written, and what may come for it. -/
theorem transferLink_sound (hVW : V ≤ W + 1) (hK : numChunks cfg.b cfg.source < 4294967295)
    {σ : Server V} {c : Client W} {toClient toServer : Bytes → Prop}
    (h : (transferLink hVW hK).holds σ c toClient toServer) :
    c.info.outFile <+: cfg.source ∧ (∀ fault, c.pc ≠ .aborted fault)
      ∧ ∀ d, toClient d → IsDataFlag (d.getD 6 0) → ∃ n flag s,
        d = createPDU cfg.host n flag (chunk cfg.b cfg.source s) := by
  cases V with
  | zero =>
    have h : Mute σ c toClient := h
    exact ⟨h.out ▸ List.nil_prefix, h.running,
      fun d hd hflag => absurd hflag (h.toClient d hd).harmless.2.1⟩
  | succ n =>
    obtain ⟨w, h⟩ := h
    refine ⟨h.outFile_prefix, h.client.running, fun d hd hflag => ?_⟩
    rcases h.toClient d hd with ⟨hdata | ⟨n, -, -⟩, -⟩ | ⟨-, hnone, -⟩
    · exact ⟨_, _, _, rfl⟩
    · rw [getD_createPDU] at hflag
      exact absurd hflag (by decide)
    · exact absurd hflag hnone

namespace World

variable {ι : Type} [DecidableEq ι] {site : Site ι} {w : World site} {i : ι}

/-- What holds of an `rcopy` whose child has at most one slot more. -/
theorem prefix_of_run (hVW : (site.windowSize i).toNat ≤ (site.rcopy i).slots + 1)
    (hK : numChunks (site.bufferSize i).toNat (site.source i) < 4294967295)
    {es : List (Edge (World site) (WorldEvent ι) (List Send))}
    (run : Run (machine site) Opens (enter site) es w) :
    (w.rcopy i).data.info.outFile <+: site.source i := by
  let L : LinkInvariants site i := fun p a => transferLink hVW hK
  have hlinked := linked_of_run L run
  cases ha : (w.rcopy i).accepted with
  | none =>
    rw [(wired_of_run run).data i ha]
    exact List.nil_prefix
  | some a =>
    obtain ⟨p, c, σ, -, -, -, -, hholds⟩ := hlinked a ha
    exact (transferLink_sound hVW hK hholds).1

/-- Two `rcopy`s that ask a big-endian server for files of two bytes, with windows of two slots and
buffers of one byte. -/
def twoCopies : Site (Fin 2) where
  host := .standard .big
  serverAddr := ⟨1, 9⟩
  fopen := fun name => some (if name.bytes = [102] then [65, 66] else [67, 68])
  rcopy j :=
    { argv := [[114], if j = 0 then [102] else [103], [116], [50], [49], [48], [104], [57]].map
        .ofBuffer
      creates := fun _ => true
      calloc := fun _ => true
      recvAddr := ⟨0, 0⟩
      accepted := ⟨fun _ => true, 9, by revert j; decide +kernel⟩ }

end World

end RemoteFileCopy
