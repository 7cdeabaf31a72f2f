import RemoteFileCopy.Client.Receive
import RemoteFileCopy.Server.Contiguous

/-!
# Server/Relabel — which SREJs the child answers with the wrong packet

`CircularQueue_get` returns a slot as soon as it is valid, or not recorded under the number asked
for; its sibling `CircularQueue_remove` wants both.  So a SREJ for a number whose slot stores
another one is answered with that other packet under the number asked for, and a SREJ that meets a
free slot of another number copies out of `NULL`.  Nothing else goes wrong: a run sends right data
PDUs throughout exactly when every SREJ it processes meets its own number (`namesItsChunk_iff`).
-/

namespace RemoteFileCopy

open CircularQueue (slot)
open Transition

variable {W : ℕ} [NeZero W] (host : Host) (b : ℕ) (src : Bytes)

/-- **A data PDU carries the chunk its sequence number names.** -/
def NamesItsChunk (pdu : Bytes) : Prop :=
  IsDataFlag (pdu.getD 6 0) →
    1 ≤ (ntohl host.endian (loadU32 host.endian pdu)).toNat
      ∧ (ntohl host.endian (loadU32 host.endian pdu)).toNat ≤ numChunks b src
      ∧ pdu.drop 7 = chunk b src (ntohl host.endian (loadU32 host.endian pdu)).toNat

instance (pdu : Bytes) : Decidable (NamesItsChunk host b src pdu) :=
  inferInstanceAs (Decidable (_ → _))

/-- What a step must not do: send a data PDU with the wrong chunk, or build one from a slot without
a packet. -/
structure RightStep (x : Edge (Server W) ServerEvent (List Send)) : Prop where
  sends : ∀ m ∈ x.output, NamesItsChunk host b src m.pdu
  packet : x.target.pc ≠ .aborted .nullPacket
  length : x.target.pc ≠ .aborted .negativeLength

/-- **A SREJ meets its own number**: the slot it points to records that number — or stores a packet
of the same bytes under another. -/
def SrejMeets (σ : Server W) : ServerEvent → Prop
  | .receive stale d =>
      let r := safeRecvfrom stale 7 d
      let entry := σ.window.entries (slot W (r.seqNum host).toNat)
      σ.Listening → r.flag = 6 → entry.sequenceNum = r.seqNum host
        ∨ entry.valid = true ∧ 1 ≤ (r.seqNum host).toNat
          ∧ (r.seqNum host).toNat ≤ numChunks b src
          ∧ chunk b src entry.sequenceNum.toNat = chunk b src (r.seqNum host).toNat
  | _ => True

variable {host b src} {σ σ' : Server W} {w w' : SlidingWindow W} {ev : ServerEvent}
  {sends : List Send}

theorem namesItsChunk_createPDU {n : UInt32} {f : UInt8} {p : Bytes} :
    NamesItsChunk host b src (createPDU host n f p) ↔
      (IsDataFlag f → 1 ≤ n.toNat ∧ n.toNat ≤ numChunks b src ∧ p = chunk b src n.toNat) := by
  rw [NamesItsChunk, loadU32_createPDU, getD_createPDU, drop_createPDU]

/-- **The PDU of a member is right** under any flag. -/
theorem Server.Inv.namesItsChunk (h : Server.Inv host b src σ w) {s : ℕ} (hs : s ∈ w)
    (f : UInt8) :
    NamesItsChunk host b src (createPDU host (UInt32.ofNat s) f (chunk b src s)) := by
  refine namesItsChunk_createPDU.mpr fun _ => ?_
  have hbounds := SlidingWindow.mem_iff.mp hs
  have := h.pos
  have := h.le_numChunks
  rw [CircularQueue.toNat_ofNat_of_mem h.holds hs]
  exact ⟨by omega, by omega, rfl⟩

/-- An EOF is no data PDU. -/
theorem namesItsChunk_eof (n : UInt32) : NamesItsChunk host b src (createPDU host n 10 []) :=
  namesItsChunk_createPDU.mpr fun h => absurd h (by decide)

/-- **A SREJ whose slot stores `s` meets its number** exactly when the answer, the chunk of `s`
under the number asked for, is right. -/
theorem Server.Inv.srejMeets_iff (hi : Server.Inv host b src σ w) (hl : σ.Listening)
    {stale : Bytes} {d : Datagram} (hflag : (safeRecvfrom stale 7 d).flag = 6) {s : ℕ} (hs : s ∈ w)
    (hslot : slot W s = slot W ((safeRecvfrom stale 7 d).seqNum host).toNat) :
    SrejMeets host b src σ (.receive stale d) ↔ NamesItsChunk host b src
      (createPDU host ((safeRecvfrom stale 7 d).seqNum host) 17 (chunk b src s)) := by
  set n := (safeRecvfrom stale 7 d).seqNum host with hn
  have hentry := hi.holds.stored s hs
  have hval := CircularQueue.toNat_ofNat_of_mem hi.holds hs
  have hbounds := SlidingWindow.mem_iff.mp hs
  have := hi.pos
  have := hi.le_numChunks
  have hmeets : SrejMeets host b src σ (.receive stale d) ↔ (UInt32.ofNat s = n
      ∨ 1 ≤ n.toNat ∧ n.toNat ≤ numChunks b src ∧ chunk b src s = chunk b src n.toNat) := by
    simp [SrejMeets, hl, hflag, ← hn, ← hslot, hentry, hval]
  rw [hmeets, namesItsChunk_createPDU, forall_prop_of_true (by decide)]
  refine or_iff_right_of_imp fun heq => ?_
  rw [← heq, hval]
  exact ⟨by omega, by omega, rfl⟩

/-- **One step is right exactly when its SREJ meets its number**, if it takes one in. -/
theorem Effect.rightStep_iff (h : Effect host b src σ w ev σ' w' sends)
    (hi : Server.Inv host b src σ w) (hi' : Server.Inv host b src σ' w') :
    RightStep host b src ⟨σ, ev, sends, σ'⟩ ↔ SrejMeets host b src σ ev := by
  cases h with
  | sent q hpc hroom hmore =>
    have hnext : NamesItsChunk host b src (dataPDU host b src w.next) :=
      hi'.namesItsChunk (SlidingWindow.mem_push.mpr (.inr rfl)) 16
    exact iff_of_true ⟨by simpa using hnext, by simp, by simp⟩ trivial
  | eof => exact iff_of_true ⟨by simpa using namesItsChunk_eof _, by simp, by simp⟩ trivial
  | resent s hpc hfull hs hslot =>
    refine iff_of_true ⟨by simpa using hi.namesItsChunk hs 18, ?_, ?_⟩ trivial <;>
      · dsimp only
        split <;> simp
  | eofResent hpc hcount =>
    have hpdu := (hi.eof (.inr hpc)).2.2
    exact iff_of_true ⟨by simpa [hpdu] using namesItsChunk_eof _, by simp, by simp⟩ trivial
  | overflow | drained | eofQuiet | gaveUp =>
    exact iff_of_true ⟨by simp, by simp, by simp⟩ trivial
  | released q hl hflag =>
    refine iff_of_true ⟨by simp, hl.pc_ne_aborted _, hl.pc_ne_aborted _⟩ fun _ hsrej => ?_
    exact absurd (hflag.symm.trans hsrej) (by decide)
  | ignored hl hflag =>
    exact iff_of_true ⟨by simp, hl.pc_ne_aborted _, hl.pc_ne_aborted _⟩
      fun _ hsrej => absurd hsrej hflag.2
  | refused hl hflag hfree hseq =>
    exact iff_of_true ⟨by simp, hl.pc_ne_aborted _, hl.pc_ne_aborted _⟩ fun _ _ => .inl hseq
  | eofHeard state hpc hstate =>
    refine iff_of_true ⟨by simp, by simp, by simp⟩ fun hl _ => ?_
    rcases hl with ⟨hpc', -⟩ | hpc' <;> simp [hpc] at hpc'
  | faulted hl hflag hfree hseq =>
    refine iff_of_false (fun hr => hr.packet rfl) fun hm => ?_
    rcases hm hl hflag with heq | ⟨hv, -⟩
    · exact hseq heq
    · rw [hfree] at hv
      cases hv
  | @answered s hl stale d hflag hs hslot =>
    rw [hi.srejMeets_iff hl hflag hs hslot]
    constructor
    · intro hr
      exact hr.sends _ (List.mem_singleton.mpr rfl)
    · intro hpdu
      exact ⟨by simpa using hpdu, hl.pc_ne_aborted _, hl.pc_ne_aborted _⟩

/-! ## Whole runs -/

section Run

variable {a : SockAddr} {windowSize bufferSize : UInt16} {es : List (Edge (Server W) ServerEvent
  (List Send))}

/-- **A run sends right data PDUs throughout** — every PDU with a data flag carries the chunk its
number names, and none is built without a packet — **exactly when every SREJ it processes meets its
own number.** -/
theorem namesItsChunk_iff (hK : numChunks bufferSize.toNat src < 4294967295)
    (run : Run (serverMachine W host) (fun _ _ => True)
      (Server.enter W a src windowSize bufferSize) es σ) :
    (∀ x ∈ es, RightStep host bufferSize.toNat src x)
      ↔ ∀ x ∈ es, SrejMeets host bufferSize.toNat src x.source x.event := by
  refine forall₂_congr fun x hx => ?_
  obtain ⟨⟨es', run'⟩, -, hstep⟩ := run.edge hx
  obtain ⟨w, hi, -⟩ := Server.run_inv hK run'
  obtain ⟨w', he, hi'⟩ := hi.step hK hstep
  exact he.rightStep_iff hi hi'

/-- A run with a SREJ for the packet in the window: the condition holds of it, and so do its
PDUs. -/
theorem namesItsChunk_iff_two :
    ∃ (es : List (Edge (Server 2) ServerEvent (List Send))) (σ : Server 2), es.length = 3
      ∧ Run (serverMachine 2 (.standard .little)) (fun _ _ => True)
          (Server.enter 2 ⟨1, 1⟩ [65, 66] 2 1) es σ
      ∧ ((∀ x ∈ es, RightStep (.standard .little) 1 [65, 66] x)
        ↔ ∀ x ∈ es, SrejMeets (.standard .little) 1 [65, 66] x.source x.event) := by
  obtain ⟨es, σ, run, h⟩ := exists_run_of_replay (M := serverMachine 2 (.standard .little))
    (G := fun _ _ => True) (s := Server.enter 2 ⟨1, 1⟩ [65, 66] 2 1)
    [.run, .receive [] ⟨⟨1, 1⟩, srejPDU (.standard .little) 1⟩, .quiet]
    (P := fun es _ => es.length = 3) (by decide +kernel)
  exact ⟨es, σ, of_decide_eq_true h, run, namesItsChunk_iff (by decide) run⟩

/-- **A stale SREJ relabels**: on a window of one, after the RR that released packet 1, a SREJ for 1
is answered with the bytes of chunk 2 under the number 1. -/
theorem stale_srej_relabels :
    ∃ (es : List (Edge (Server 1) ServerEvent (List Send))) (σ : Server 1),
      Run (serverMachine 1 (.standard .little)) (fun _ _ => True)
          (Server.enter 1 ⟨1, 1⟩ [65, 66] 1 1) es σ
        ∧ ¬ ∀ x ∈ es, ∀ m ∈ x.output, NamesItsChunk (.standard .little) 1 [65, 66] m.pdu := by
  obtain ⟨es, σ, run, h⟩ := exists_run_of_replay (M := serverMachine 1 (.standard .little))
    (G := fun _ _ => True) (s := Server.enter 1 ⟨1, 1⟩ [65, 66] 1 1)
    [.run, .quiet, .receive [] ⟨⟨1, 1⟩, rrPDU (.standard .little) 2⟩, .run, .quiet,
      .receive [] ⟨⟨1, 1⟩, srejPDU (.standard .little) 1⟩]
    (P := fun es _ => ¬ ∀ x ∈ es, ∀ m ∈ x.output,
      NamesItsChunk (.standard .little) 1 [65, 66] m.pdu) (by decide +kernel)
  exact ⟨es, σ, run, of_decide_eq_true h⟩

end Run

end RemoteFileCopy
