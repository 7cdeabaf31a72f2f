import RemoteFileCopy.DataPhase.LossFree
import RemoteFileCopy.DataPhase.Recovery
import RemoteFileCopy.Server.Cumulative

/-!
# DataPhase/Wraparound — acknowledgement at the two ends of the sequence space

The client's `expected` wraps, and so does the server's `sequenceNum`; the loop an RR runs counts up
from `1` to below the RR's number.

    packet      RR       the loop calls CircularQueue_remove for
    s           s + 1    1 … s
    2^32 - 1    0        nothing
    0           1        nothing

So every number but two is taken out of the window by its own RR, and a loss-free run keeps sending
exactly if its file ends before the last number (`acknowledgement_iff`).
-/

namespace RemoteFileCopy

open CircularQueue (slot)
open Transition

variable {W : ℕ} [NeZero W]

/-! ## One packet -/

/-- **The window stores a number**: the entry in its slot is valid and carries it. -/
def CircularQueue.Stores (q : CircularQueue W) (s : UInt32) : Prop :=
  (q.entries (slot W s.toNat)).valid = true ∧ (q.entries (slot W s.toNat)).sequenceNum = s

instance (q : CircularQueue W) (s : UInt32) : Decidable (q.Stores s) :=
  inferInstanceAs (Decidable (_ ∧ _))

/-- **The packet's RR takes it out of the window**: `process_transfer_state` answers the packet with
one PDU, and `wait_on_ack_state` on that PDU leaves a window that does not store its number. -/
def RemovedByRr (host : Host) (q : CircularQueue W) (info : ServerInfo) (c : ReceiveInfo W)
    (r : Received) (stale : Bytes) (a : SockAddr) : Prop :=
  ∃ state c' rr q', processTransferState host .inOrder c r = .ok (state, c', [⟨r.srcAddr, rr⟩])
    ∧ waitOnAckState host q info (some (safeRecvfrom stale 7 ⟨a, rr⟩))
      = .ok (.sendData, q', { info with clientAddr := a }, [])
    ∧ ¬ q'.Stores (r.seqNum host)

/-- **The RR numbered `n`** is one pass over the slots. -/
theorem waitOnAckState_rrPDU (host : Host) (q : CircularQueue W) (info : ServerInfo) (n : UInt32)
    (stale : Bytes) (a : SockAddr) :
    waitOnAckState host q info (some (safeRecvfrom stale 7 ⟨a, rrPDU host n⟩))
      = .ok (.sendData, q.sweep (n.toNat - 1), { info with clientAddr := a }, []) := by
  have hflag : (safeRecvfrom stale 7 ⟨a, rrPDU host n⟩).flag = 5 :=
    flag_controlPDU host n 5 stale a le_rfl
  have hseq : (safeRecvfrom stale 7 ⟨a, rrPDU host n⟩).seqNum host = n :=
    seqNum_controlPDU host n 5 stale a le_rfl
  rw [waitOnAckState_sweep q info hflag, hseq]
  rfl

/-- **An RR that has wrapped** releases nothing. -/
theorem Server.step_rr_zero {σ : Server W} (host : Host) (hl : σ.Listening) (stale : Bytes)
    (a : SockAddr) :
    σ.step host (.receive stale ⟨a, rrPDU host 0⟩) = some (σ.heard a σ.window, []) := by
  have hack := waitOnAckState_rrPDU host σ.window σ.info 0 stale a
  rw [(σ.window.sweep_eq_self_iff ((0 : UInt32).toNat - 1)).mpr σ.window.not_due_zero] at hack
  exact Server.step_receive hl σ.window [] hack

/-- **The pass of the RR for `s`** takes `s` out, unless the RR's number has wrapped to `0`, or `s`
is below the first number of the loop. -/
theorem stores_sweep_iff {q : CircularQueue W} {s : UInt32} (hs : q.Stores s) :
    ¬ (q.sweep ((s + 1).toNat - 1)).Stores s ↔ s ≠ 0 ∧ s ≠ 4294967295 := by
  have hlt := s.toNat_lt
  have hstores : (q.sweep ((s + 1).toNat - 1)).Stores s
      ↔ ¬ (1 ≤ s.toNat ∧ s.toNat ≤ (s + 1).toNat - 1) := by
    simp only [CircularQueue.Stores, CircularQueue.valid_sweep_iff,
      CircularQueue.sequenceNum_sweep, CircularQueue.Due, hs.1, hs.2, CircularQueue.val_slot,
      true_and, and_true]
  rw [hstores, not_not, UInt32.toNat_add, UInt32.toNat_one, Ne, Ne, ← UInt32.toNat_inj,
    ← UInt32.toNat_inj]
  change _ ↔ ¬ s.toNat = 0 ∧ ¬ s.toNat = 4294967295
  omega

/-- **Which packets their RR takes out.** -/
theorem removedByRr_iff {host : Host} {q : CircularQueue W} {c : ReceiveInfo W} {r : Received}
    {p : Bytes} (hflag : IsDataFlag r.flag) (hexp : r.seqNum host = c.expected)
    (hp : r.payload = .ok p) (hs : q.Stores (r.seqNum host)) (info : ServerInfo) (stale : Bytes)
    (a : SockAddr) :
    RemovedByRr host q info c r stale a
      ↔ r.seqNum host ≠ 0 ∧ r.seqNum host ≠ 4294967295 := by
  have hturn := turn_inOrder_eq host hflag hexp hp
  rw [← stores_sweep_iff hs, hexp]
  constructor
  · rintro ⟨state, c', rr, q', hturn', hack, hgone⟩
    obtain ⟨-, -, rfl⟩ : _ ∧ _ ∧ rrPDU host (c.expected + 1) = rr := by
      simpa using hturn.symm.trans hturn'
    rw [waitOnAckState_rrPDU] at hack
    obtain ⟨rfl⟩ : q.sweep ((c.expected + 1).toNat - 1) = q' := by simpa using hack
    rwa [hexp] at hgone
  · intro hgone
    exact ⟨_, _, _, _, hturn, waitOnAckState_rrPDU host q info _ stale a, by rwa [hexp]⟩

/-! ## Loss-free runs -/

/-- The child is in `send_data_state`. -/
def Server.Sending (σ : Server W) : Prop := σ.pc = .fill ∨ σ.pc = .drain

/-- The states of the loss-free runs. -/
def LossFree (cfg : Config) (s : DataPhase W) : Prop :=
  Reachable (DataPhase.machine W cfg) DataPhase.Fifo (DataPhase.enter W cfg) s

/-- **Sending never stops for good** in a loss-free run — whenever the child has processed all it
was sent the window is empty, and a full window does not stay full. -/
structure KeepsSending (W : ℕ) [NeZero W] (cfg : Config) : Prop where
  empties : ∀ s : DataPhase W, LossFree cfg s → s.server.Sending →
    s.toClient = [] → s.toServer = [] → s.server.window.isEmpty = true
  reopens : ∀ s : DataPhase W, LossFree cfg s → s.server.Sending →
    s.server.window.isFull = true →
    Inevitably (DataPhase.machine W cfg) (fun s ev => s.Fifo ev ∧ s.server.window.isFull = true)
      (fun s => s.server.window.isFull = false) s

variable {cfg : Config} {s s' : DataPhase W} {w : SlidingWindow W} {sends : List Send}
  {ev : NetEvent}

omit [NeZero W] in
/-- The child does not come back to `send_data_state`. -/
theorem Server.sending_of_step {host : Host} {σ : Server W} {ev : ServerEvent}
    {r : Server W × List Send} (hs : σ.step host ev = some r) (h : r.1.Sending) : σ.Sending := by
  cases Server.step_cases hs with
  | read hpc | timeout hpc => exact .inl hpc
  | drained hpc => exact .inr hpc
  | acked hl | ackFault hl => exact hl.imp And.left id
  | eofQuiet | eofHeard | eofResend => simp [Server.Sending] at h

/-- **The number of the next packet is not the last there is**, in a short file, or in one whose
first read overflows the array. -/
theorem Flowing.next_lt (h : Flowing cfg s w)
    (hfile : numChunks cfg.b cfg.source < 4294967295 ∨ MAXBUF < cfg.b)
    (hmore : w.next ≤ numChunks cfg.b cfg.source) : w.next < 4294967295 := by
  rcases hfile with hK | hbig
  · exact hmore.trans_lt hK
  · by_contra hno
    have hfits := h.server.short 1 le_rfl (by omega)
    have := numChunks_le_one (hfits.trans_lt hbig)
    omega

/-- **A step while packets flow**: they flow on, or the child leaves `send_data_state`, whose window
was not full. -/
theorem Flowing.step (h : Flowing cfg s w)
    (hlast : w.next ≤ numChunks cfg.b cfg.source → w.next < 4294967295) (hg : s.Fifo ev)
    (hs : s.step cfg ev = some (s', sends)) :
    ((∃ w', Flowing cfg s' w') ∨ s.server.window.isFull = false ∧ ¬ s'.server.Sending)
      ∧ pending cfg s' < pending cfg s := by
  cases ev with
  | run =>
    obtain ⟨hor, hlt⟩ := h.run_cases hlast hs
    refine ⟨?_, hlt⟩
    rcases hor with ⟨hroom, h', -⟩ | h'
    · exact .inl ⟨_, h'⟩
    · obtain ⟨σ', hstep, rfl⟩ := DataPhase.serverStep_eq_some hs
      refine .inr ⟨?_, ?_⟩
      · by_contra hfull
        rcases h.sending with hpc | hpc <;> simp [Server.step, hpc, hfull] at hstep
      · have hleft : σ'.pc = .next .waitOnEofAck ∨ σ'.pc = .aborted .overflow :=
          h'.imp Ending.waiting And.left
        rcases hleft with hpc | hpc <;> simp [Server.Sending, hpc]
  | quiet =>
    obtain ⟨h', hlt⟩ := h.quiet hg hs
    exact ⟨.inl ⟨_, h'⟩, hlt⟩
  | deliver side i stale bytes =>
    obtain ⟨rfl, rest, hd⟩ := hg.oldest
    cases side with
    | server =>
      rw [DataPhase.step_deliver_server cfg hd] at hs
      obtain ⟨h', hlt⟩ := h.deliver_server hd hs
      exact ⟨.inl ⟨_, h'⟩, hlt⟩
    | client =>
      rw [DataPhase.step_deliver_client cfg hd] at hs
      obtain ⟨h', hlt⟩ := h.deliver_client hd hs
      exact ⟨.inl ⟨_, h'⟩, hlt⟩
  | lose side i => exact absurd (by simp [DataPhase.Receiving, h.inOrder]) hg.2.2
  | duplicate side i => exact hg.elim

/-- **With nothing in flight the window is empty.** -/
theorem Flowing.base_eq_next (h : Flowing cfg s w) (hc : s.toClient = []) (hs : s.toServer = []) :
    w.base = w.next := by
  have hexp := h.toClient.symm.trans hc
  have hbase := h.toServer.symm.trans hs
  rw [packets, span_eq_nil_iff] at hexp
  rw [rrs, span_eq_nil_iff] at hbase
  exact le_antisymm w.base_le (hexp.trans (Nat.le_of_succ_le_succ hbase))

/-- **While packets flow a full window opens again.** -/
theorem Flowing.reopens (h : Flowing cfg s w)
    (hfile : numChunks cfg.b cfg.source < 4294967295 ∨ MAXBUF < cfg.b) :
    Inevitably (DataPhase.machine W cfg) (fun s ev => s.Fifo ev ∧ s.server.window.isFull = true)
      (fun s => s.server.window.isFull = false) s := by
  refine .of_measure (P := fun s => ∃ w, Flowing cfg s w) (pending cfg) ?_ ?_ ⟨w, h⟩
  · rintro s ev t o ⟨w, h⟩ ⟨hg, hfull⟩ hs
    obtain ⟨h' | ⟨hroom, -⟩, hlt⟩ := h.step (h.next_lt hfile) hg hs
    · exact ⟨h', hlt⟩
    · simp [hroom] at hfull
  · rintro s ⟨w, h⟩ hstuck
    by_contra hfull
    rw [Bool.not_eq_false] at hfull
    exact h.not_full_of_stuck (fun ev hg => hstuck ev ⟨hg, hfull⟩)
      (h.server.holds.isFull_iff.mp hfull)

/-- **Where the last number is not reached** packets flow as long as the child sends. -/
theorem LossFree.flowing (h : LossFree cfg s)
    (hfile : numChunks cfg.b cfg.source < 4294967295 ∨ MAXBUF < cfg.b)
    (hsending : s.server.Sending) : ∃ w, Flowing cfg s w := by
  obtain ⟨es, run⟩ := h
  refine (run.invariant (P := fun s => (∃ w, Flowing cfg s w) ∨ ¬ s.server.Sending)
    (.inl ⟨_, .enter⟩) fun s ev t o h hg hs => ?_).resolve_right (not_not_intro hsending)
  rcases h with ⟨w, h⟩ | h
  · exact (h.step (h.next_lt hfile) hg hs).1.imp_right And.right
  · right
    rcases DataPhase.server_of_step hs with heq | ⟨ev', sends, hstep⟩
    · rwa [heq]
    · exact fun ht => h (Server.sending_of_step hstep ht)

/-! ## The run that reaches the last number

Every packet is acknowledged before the next is read. -/

namespace LossFree

variable (h : LossFree cfg s)

include h

/-- A loss-free run goes on. -/
theorem step (ev : NetEvent) (hg : s.Fifo ev) (hs : s.step cfg ev = some (s', sends)) :
    LossFree cfg s' :=
  h.elim fun _ run => ⟨_, run.cons hg hs⟩

/-- The next datagram reaches the client. -/
theorem deliver_client {d : Bytes} {rest : List Bytes} (hd : s.toClient = d :: rest)
    {stale : Bytes} {c : Client W}
    (hstep : s.client.step cfg.host stale ⟨cfg.childAddr, d⟩ = some (c, sends)) :
    LossFree cfg { s with
      client := c, toClient := rest
      toServer := s.toServer ++ DataPhase.arriving cfg.childAddr sends } :=
  h.step (.deliver .client 0 stale d) ⟨rfl, by simp [DataPhase.inFlight, hd]⟩
    ((DataPhase.step_deliver_client cfg hd stale d).trans
      (DataPhase.clientStep_of_step cfg (s := { s with toClient := rest }) hstep))

/-- The next datagram reaches the child. -/
theorem deliver_server {d : Bytes} {rest : List Bytes} (hd : s.toServer = d :: rest)
    {stale : Bytes} {σ : Server W}
    (hstep : s.server.step cfg.host (.receive stale ⟨cfg.clientAddr, d⟩) = some (σ, sends)) :
    LossFree cfg { s with
      server := σ, toClient := s.toClient ++ DataPhase.arriving cfg.clientAddr sends
      toServer := rest } :=
  h.step (.deliver .server 0 stale d) ⟨rfl, by simp [DataPhase.inFlight, hd]⟩
    ((DataPhase.step_deliver_server cfg hd stale d).trans
      (DataPhase.serverStep_of_step cfg (s := { s with toServer := rest }) hstep))

end LossFree

/-- **Between two packets**: nothing is in flight and packet `k` is next. -/
structure Idle (cfg : Config) (s : DataPhase W) (k : ℕ) : Prop where
  reached : LossFree cfg s
  flowing : Flowing cfg s (.empty k)
  fill : s.server.pc = .fill

namespace Idle

variable {k : ℕ}

theorem expected_eq (h : Idle cfg s k) : s.expected = k :=
  le_antisymm h.flowing.le_next h.flowing.base_le

theorem toClient (h : Idle cfg s k) : s.toClient = [] := by
  rw [h.flowing.toClient, packets, span_eq_nil_iff, h.expected_eq]
  exact le_rfl

theorem toServer (h : Idle cfg s k) : s.toServer = [] := by
  rw [h.flowing.toServer, rrs, span_eq_nil_iff, h.expected_eq]
  exact le_rfl

theorem not_full : ¬ (SlidingWindow.empty k : SlidingWindow W).Full := by
  have := Nat.pos_of_neZero W
  simp only [SlidingWindow.Full, SlidingWindow.next_empty, SlidingWindow.base_empty]
  omega

/-- **The packet goes out**, and into the window. -/
theorem takes_run (h : Idle cfg s k) (hb : cfg.b ≤ MAXBUF)
    (hmore : k ≤ numChunks cfg.b cfg.source) :
    ∃ σ, s.serverStep cfg .run = some ({ s with
          server := σ, toClient := [dataPDU cfg.host cfg.b cfg.source k] },
        [⟨cfg.clientAddr, dataPDU cfg.host cfg.b cfg.source k⟩])
      ∧ σ.pc = .drain
      ∧ σ.window.Holds ((SlidingWindow.empty k).push not_full)
        (dataPDU cfg.host cfg.b cfg.source) := by
  obtain ⟨q, hstep, hq⟩ := h.flowing.server.step_sent not_full h.fill hmore
    ((length_chunk_le _ _ _).trans hb)
  have hs := DataPhase.serverStep_of_step cfg hstep
  rw [h.flowing.addr, h.toClient, List.nil_append, DataPhase.arriving_self] at hs
  exact ⟨_, hs, rfl, hq⟩

/-- **One round**: the packet, its RR, and the end of the drain loop. -/
theorem exists_round (h : Idle cfg s k) (hb : cfg.b ≤ MAXBUF) (hk : k < 4294967295)
    (hmore : k ≤ numChunks cfg.b cfg.source) : ∃ s' : DataPhase W, Idle cfg s' (k + 1) := by
  obtain ⟨σ, hs₁, hdrain, -⟩ := h.takes_run hb hmore
  obtain ⟨⟨_, h₁, -⟩ | h₁ | ⟨h₁, -⟩, -⟩ := h.flowing.run_cases (fun _ => hk) hs₁
  · obtain ⟨ev₂, s₂, _, hg₂, hs₂, h₂, hexp, hsame⟩ :=
      h₁.client_takes (h.expected_eq.trans_lt k.lt_succ_self)
    have hdrain₂ : s₂.server.pc = .drain := by rw [hsame, hdrain]
    have hexp₂ : s₂.expected = k + 1 := hexp.trans (congrArg (· + 1) h.expected_eq)
    obtain ⟨ev₃, s₃, _, hg₃, hs₃, h₃, hpc⟩ := h₂.server_takes (.inr hdrain₂)
      (k.lt_succ_self.trans_eq hexp₂.symm)
    have hdrain₃ := hpc.trans hdrain₂
    have hquiet : s₃.server.step cfg.host .quiet
        = some ({ s₃.server with pc := .fill, timeoutCount := 0 }, []) := by
      simp [Server.step, hdrain₃]
    have hs₄ := DataPhase.serverStep_of_step cfg hquiet
    have h₄ := (h₃.quiet (.inl hdrain₃) hs₄).1
    have hnext : ((SlidingWindow.empty k : SlidingWindow W).push not_full).release (k + 1)
        = .empty (k + 1) := by ext <;> simp
    have hr₁ := h.reached.step .run trivial hs₁
    have hr₃ := (hr₁.step ev₂ hg₂ hs₂).step ev₃ hg₃ hs₃
    exact ⟨_, hr₃.step .quiet (.inl hdrain₃) hs₄, hnext ▸ h₄, rfl⟩
  · exact absurd (hdrain.symm.trans h₁.waiting) (by simp)
  · exact absurd (hdrain.symm.trans h₁) (by simp)

/-- **The last number wraps**: its packet is sent and acknowledged, and stays in the window. -/
theorem exists_wrap (h : Idle cfg s k) (hb : cfg.b ≤ MAXBUF) (hlast : k = 4294967295)
    (hmore : k ≤ numChunks cfg.b cfg.source) :
    ∃ s' : DataPhase W, LossFree cfg s' ∧ s'.server.Sending
      ∧ (s'.toClient = [] ∧ s'.toServer = []) ∧ s'.server.window.isEmpty = false := by
  obtain ⟨σ, hs₁, hdrain, hq⟩ := h.takes_run hb hmore
  have hval : (UInt32.ofNat k).toNat = k :=
    UInt32.toNat_ofNat_of_lt' (hlast.trans_lt (Nat.lt_succ_self _))
  have hexp : s.client.info.expected = UInt32.ofNat k :=
    UInt32.toNat_inj.mp (h.expected_eq.trans hval.symm)
  have hwrap : UInt32.ofNat k + 1 = 0 := by
    rw [← UInt32.toNat_inj, UInt32.toNat_add, hval, hlast]
    rfl
  obtain ⟨c, hwrite⟩ := Client.step_expected h.flowing.inOrder (by simp)
    (show IsDataFlag 16 by decide) ((length_chunk_le cfg.b cfg.source k).trans hb) hexp cfg.host []
    cfg.childAddr
  rw [hwrap] at hwrite
  have hr₂ := (h.reached.step .run trivial hs₁).deliver_client rfl hwrite
  rw [h.toServer, List.nil_append, DataPhase.arriving_self] at hr₂
  have hack := Server.step_rr_zero cfg.host (.inr hdrain) [] cfg.clientAddr
  have hcount := hq.count
  refine ⟨_, hr₂.deliver_server rfl hack, .inr hdrain, ⟨rfl, rfl⟩, ?_⟩
  simp [CircularQueue.isEmpty, Server.heard, hcount]

end Idle

/-- **Every number up to the last is reached**, in a file that has as many chunks. -/
theorem exists_idle (hb : cfg.b ≤ MAXBUF) {k : ℕ} (hpos : 1 ≤ k) (hk : k ≤ 4294967295)
    (hmore : k ≤ numChunks cfg.b cfg.source + 1) : ∃ s : DataPhase W, Idle cfg s k := by
  induction k, hpos using Nat.le_induction with
  | base => exact ⟨_, ⟨_, .nil⟩, .enter, rfl⟩
  | succ k hpos ih =>
    obtain ⟨s, h⟩ := ih (by omega) (by omega)
    exact h.exists_round hb (by omega) (by omega)

/-! ## The whole sequence space -/

/-- **Which files never stop the child for good**: those that end before the last number, and those
that abort it with their first read. -/
theorem keepsSending_iff : KeepsSending W cfg
    ↔ numChunks cfg.b cfg.source < 4294967295 ∨ MAXBUF < cfg.b := by
  constructor
  · intro h
    by_contra hno
    obtain ⟨hK, hb⟩ := not_or.mp hno
    rw [not_lt] at hK hb
    obtain ⟨s, hidle⟩ := exists_idle (W := W) hb (k := 4294967295) (by omega) le_rfl (by omega)
    obtain ⟨s', hr, hsending, ⟨hc, hs⟩, hkept⟩ := hidle.exists_wrap hb rfl hK
    rw [h.empties s' hr hsending hc hs] at hkept
    cases hkept
  · intro hfile
    constructor
    · intro s hr hsending hc hs
      obtain ⟨w, h⟩ := hr.flowing hfile hsending
      have hcount := h.server.holds.count
      rw [h.base_eq_next hc hs] at hcount
      simpa [CircularQueue.isEmpty] using hcount
    · intro s hr hsending _
      obtain ⟨w, h⟩ := hr.flowing hfile hsending
      exact h.reopens hfile

/-- **Exactly how far acknowledgement works.**  The RR of a packet takes it out of any window that
stores it, for every number but `0` and the last one; so a loss-free run keeps sending, whatever the
window size, exactly if the file ends before the last number — or no packet is ever sent. -/
theorem acknowledgement_iff (cfg : Config) :
    (∀ (W : ℕ) [NeZero W] (q : CircularQueue W) (info : ServerInfo) (c : ReceiveInfo W)
      (r : Received) (p stale : Bytes) (a : SockAddr), IsDataFlag r.flag →
      r.seqNum cfg.host = c.expected → r.payload = .ok p → q.Stores (r.seqNum cfg.host) →
        (RemovedByRr cfg.host q info c r stale a
          ↔ r.seqNum cfg.host ≠ 0 ∧ r.seqNum cfg.host ≠ 4294967295))
      ∧ ∀ (W : ℕ) [NeZero W], KeepsSending W cfg
        ↔ numChunks cfg.b cfg.source < 4294967295 ∨ MAXBUF < cfg.b :=
  ⟨fun _ _ _ info _ _ _ stale a hflag hexp hp hs => removedByRr_iff hflag hexp hp hs info stale a,
    fun _ _ => keepsSending_iff⟩

/-- A file of exactly as many bytes as there are numbers but `0`, read one at a time. -/
theorem not_keepsSending_of_length {source : Bytes} (h : source.length = 4294967295) :
    ¬ KeepsSending 1 { twoChunks with source := source } := by
  rw [keepsSending_iff, numChunks]
  change ¬ ((source.length + 1 - 1) / 1 < 4294967295 ∨ 1400 < 1)
  omega

/-- **The last number is not released**: its RR is numbered `0`, in a window of one and in a run
over a file of that many bytes. -/
theorem last_packet_not_released :
    (∃ (q : CircularQueue 1) (info : ServerInfo) (c : ReceiveInfo 1) (r : Received),
      IsDataFlag r.flag ∧ r.seqNum (.standard .little) = c.expected ∧ r.payload = .ok [65]
        ∧ q.Stores (r.seqNum (.standard .little))
        ∧ ¬ RemovedByRr (.standard .little) q info c r [] ⟨1, 1⟩)
      ∧ ∃ source : Bytes, source.length = 4294967295
        ∧ ¬ KeepsSending 1 { twoChunks with source := source } := by
  constructor
  · set r := safeRecvfrom [] (MAXBUF + 7)
      ⟨⟨1, 1⟩, createPDU (.standard .little) 4294967295 16 [65]⟩ with hr
    have hseq : r.seqNum (.standard .little) = 4294967295 := by simp [hr]
    have hflag : IsDataFlag r.flag := by simp [hr, IsDataFlag]
    have hp : r.payload = .ok [65] := payload_safeRecvfrom _ _ _ _ _ _ (by decide)
    let q : CircularQueue 1 := ⟨fun _ => ⟨some [65], 1, 4294967295, true⟩, 1⟩
    have hs : q.Stores (r.seqNum (.standard .little)) := hseq ▸ ⟨rfl, rfl⟩
    refine ⟨q, ⟨⟨1, 1⟩, none, 1, 1, [], 0, 0⟩,
      { (Client.enter 1 ⟨1, 1⟩).info with expected := 4294967295 }, r, hflag, hseq, hp, hs, ?_⟩
    rw [removedByRr_iff hflag hseq hp hs]
    exact fun h => h.2 hseq
  · exact ⟨List.replicate 4294967295 65, List.length_replicate,
      not_keepsSending_of_length List.length_replicate⟩

end RemoteFileCopy
