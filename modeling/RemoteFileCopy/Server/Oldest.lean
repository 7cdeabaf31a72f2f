import RemoteFileCopy.Queue.Represents
import RemoteFileCopy.Server.Contiguous

/-!
# Server/Oldest — which packet a timeout resends

The child touches its window in two ways only: `send_data_state` inserts a PDU of its own, and an
RR removes numbers.  `Server.Keeps.step` is that as a rule for properties of the queue, with no
bound on the numbers, so it also speaks of files long enough for `sequenceNum` to wrap around.

A timeout finds every slot in use and therefore resends `entries[0]`, whatever its age
(`resends_oldest_iff`).
-/

namespace RemoteFileCopy

open CircularQueue (slot slot_eq_iff Represents Table)
open Transition

variable {W : ℕ} {host : Host} {σ σ' : Server W} {ev : ServerEvent} {sends : List Send}

/-! ## What a step does to the window -/

section Window

/-- **A property of the queue that the child's own calls keep**: the insert of a PDU it has just
built, and the removal of any number. -/
structure Server.Keeps (host : Host) (P : CircularQueue W → Prop) : Prop where
  insert : ∀ {q q' s payload ok}, P q →
    q.insert true s (createPDU host s 16 payload) = .ok (q', ok) → P q'
  remove : ∀ {q q' s ok}, P q → q.remove s = .ok (q', ok) → P q'

variable {P : CircularQueue W → Prop}

theorem Server.Keeps.removeUpTo (hP : Server.Keeps host P) {q : CircularQueue W} (hq : P q)
    (k : ℕ) : Outcome (fun _ => True) P (q.removeUpTo k) := by
  induction k with
  | zero => exact hq
  | succ k ih =>
    refine ih.bind fun q' hq' => ?_
    have hremove : Outcome (fun _ => True) (fun x => P x.1) (q'.remove (UInt32.ofNat (k + 1))) :=
      .of_cases (fun _ _ => trivial) fun _ hx => hP.remove hq' hx
    exact hremove.bind fun _ hx => hx

/-- **What the child's calls keep, its steps keep.** -/
theorem Server.Keeps.step (hP : Server.Keeps host P) (hq : P σ.window)
    (h : σ.step host ev = some (σ', sends)) : P σ'.window := by
  suffices hall : ∀ r, Server.StepCase host σ ev r → P r.1.window from hall _ (Server.step_cases h)
  intro r hr
  cases hr with
  | read =>
    refine Server.settle_rule (Q := fun r => P r.1.window) ?_
    exact sendNext_rule (fun _ => hq) (fun _ _ _ => hq) hq fun _ _ _ =>
      .of_cases (fun _ _ => hq) fun _ hx => hP.insert hq hx
  | timeout =>
    refine Server.settle_rule (Q := fun r => P r.1.window) ?_
    exact resendOldest_rule hq fun _ _ => .of_cases (fun _ _ => hq) fun _ _ => hq
  | acked hl hack =>
    refine Outcome.of_ok (P := fun _ => True) (Q := fun x => P x.2.1) ?_ hack
    exact waitOnAckState_rule (hP.removeUpTo hq _)
      (.of_cases (fun _ _ => trivial) fun _ _ => trivial)
      (fun _ => .of_cases (fun _ _ => trivial) fun _ _ => hq) hq
  | drained | ackFault | eofQuiet | eofHeard | eofResend => exact hq

end Window

/-! ## The PDUs in the window -/

section Stocked

variable [NeZero W]

/-- **The window stores PDUs under their own numbers.** -/
def Stocked (host : Host) (q : CircularQueue W) : Prop :=
  ∃ t : Table W, Represents q t
    ∧ ∀ s p, t.lookup s = some p → ∃ payload, p = createPDU host s 16 payload

theorem stocked_init : Stocked host (.init W) :=
  ⟨.empty, Represents.init, fun s p h => by cases h⟩

/-- A PDU goes in under its own number. -/
theorem Stocked.insert {q q' : CircularQueue W} {s : UInt32} {payload : Bytes} {ok : Bool}
    (hq : Stocked host q)
    (h : q.insert true s (createPDU host s 16 payload) = .ok (q', ok)) : Stocked host q' := by
  obtain ⟨t, ht, hstock⟩ := hq
  by_cases hfree : t.Free s
  · obtain ⟨q₁, hq₁, hrep, -⟩ := ht.insert hfree (createPDU host s 16 payload)
    obtain rfl : q₁ = q' := congrArg Prod.fst (Except.ok.inj (hq₁.symm.trans h))
    refine ⟨_, hrep, fun s' p' hs' => ?_⟩
    rw [DirectMapped.lookup_insert hfree] at hs'
    rcases eq_or_ne s' s with rfl | hne
    · rw [Function.update_self, Option.some_inj] at hs'
      exact ⟨payload, hs'.symm⟩
    · rw [Function.update_of_ne hne] at hs'
      exact hstock s' p' hs'
  · have hsame : q.insert true s (createPDU host s 16 payload) = .ok (q, false) :=
      ht.insert_refused (fun hok => hfree hok.2) _
    obtain rfl : q = q' := congrArg Prod.fst (Except.ok.inj (hsame.symm.trans h))
    exact ⟨t, ht, hstock⟩

/-- What is left was there before. -/
theorem Stocked.remove {q q' : CircularQueue W} {s : UInt32} {ok : Bool} (hq : Stocked host q)
    (h : q.remove s = .ok (q', ok)) : Stocked host q' := by
  obtain ⟨t, ht, hstock⟩ := hq
  have hremove := ht.remove s
  cases hs : t.lookup s with
  | some p =>
    simp only [hs] at hremove
    obtain rfl : _ = q' := congrArg Prod.fst (Except.ok.inj (hremove.1.symm.trans h))
    refine ⟨_, hremove.2, fun s' p' hs' => ?_⟩
    rw [DirectMapped.lookup_vacate hs] at hs'
    rcases eq_or_ne s' s with rfl | hne
    · rw [Function.update_self] at hs'
      cases hs'
    · rw [Function.update_of_ne hne] at hs'
      exact hstock s' p' hs'
  | none =>
    simp only [hs] at hremove
    obtain rfl : q = q' := congrArg Prod.fst (Except.ok.inj (hremove.symm.trans h))
    exact ⟨t, ht, hstock⟩

/-- The child's calls keep the window stocked. -/
theorem keeps_stocked : Server.Keeps (W := W) host (Stocked host) where
  insert hq h := hq.insert h
  remove hq h := hq.remove h

/-- **The window is stocked in every reachable state.** -/
theorem stocked_of_reachable {G : Server W → ServerEvent → Prop} {a : SockAddr} {src : Bytes}
    {windowSize bufferSize : UInt16}
    (h : Reachable (serverMachine W host) G (Server.enter W a src windowSize bufferSize) σ) :
    Stocked host σ.window := by
  obtain ⟨es, run⟩ := h
  exact run.invariant stocked_init fun _ _ _ _ hq _ hstep => keeps_stocked.step hq hstep

/-- In a full stocked window every entry is a PDU under its own number. -/
theorem Stocked.entry_of_full {q : CircularQueue W} (hq : Stocked host q)
    (hfull : q.isFull = true) (i : Fin W) : ∃ payload, q.entries i
      = ⟨some (createPDU host (q.entries i).sequenceNum 16 payload),
        (createPDU host (q.entries i).sequenceNum 16 payload).length,
        (q.entries i).sequenceNum, true⟩ := by
  obtain ⟨t, ht, hstock⟩ := hq
  obtain ⟨s, p, hcell⟩ := ht.valid_iff.mp (ht.isFull_iff.mp hfull i)
  have hlookup : t.lookup s = some p := by
    rw [DirectMapped.lookup_eq_some_iff, t.slot_eq hcell, hcell]
  obtain ⟨payload, rfl⟩ := hstock s p hlookup
  exact ⟨payload, by rw [ht.stored hcell]⟩

end Stocked

/-! ## A timeout on a full window -/

section Timeout

variable [NeZero W]

/-- **A timeout resends the oldest packet** — one PDU with flag 18, under the smallest number in
the window. -/
def ResendsOldest (host : Host) (σ : Server W) : Prop :=
  ∃ σ' dest s payload, σ.step host .quiet = some (σ', [⟨dest, createPDU host s 18 payload⟩])
    ∧ IsLeast {n | ∃ i, (σ.window.entries i).valid = true
      ∧ (σ.window.entries i).sequenceNum = n} s

/-- **A timeout resends `entries[0]`** under its own number. -/
theorem step_quiet_of_full (hstock : Stocked host σ.window) (hpc : σ.pc = .fill)
    (hfull : σ.window.isFull = true) : ∃ σ' payload,
      σ.step host .quiet = some (σ', [⟨σ.info.clientAddr,
        createPDU host (σ.window.entries (slot W 0)).sequenceNum 18 payload⟩]) := by
  obtain ⟨payload, hentry⟩ := hstock.entry_of_full hfull (slot W 0)
  have hfirst : σ.window.firstValid = some (slot W 0) :=
    CircularQueue.firstValid_of_full fun i => by
      obtain ⟨_, hi⟩ := hstock.entry_of_full hfull i
      rw [hi]
  have hstep : σ.step host .quiet = some (σ.settle (resendOldest host σ)) := by
    simp only [Server.step, hpc, hfull, if_true]
  rw [resendOldest_eq host hfirst hentry] at hstep
  exact ⟨_, payload, hstep⟩

/-- The oldest packet is resent exactly if it is the one in `entries[0]`. -/
theorem resendsOldest_iff_of_full (hstock : Stocked host σ.window) (hpc : σ.pc = .fill)
    (hfull : σ.window.isFull = true) : ResendsOldest host σ
      ↔ ∀ i, (σ.window.entries (slot W 0)).sequenceNum ≤ (σ.window.entries i).sequenceNum := by
  have hvalid : ∀ i, (σ.window.entries i).valid = true := fun i => by
    obtain ⟨_, hi⟩ := hstock.entry_of_full hfull i
    rw [hi]
  obtain ⟨σ', payload, hstep⟩ := step_quiet_of_full hstock hpc hfull
  constructor
  · rintro ⟨σ'', dest, s, payload', hstep', -, hleast⟩
    have hpdu := hstep.symm.trans hstep'
    simp only [Option.some_inj, Prod.mk.injEq, List.cons.injEq, Send.mk.injEq, and_true] at hpdu
    have hseq := congrArg (fun m => ntohl host.endian (loadU32 host.endian m)) hpdu.2.2
    simp only [loadU32_createPDU] at hseq
    rw [hseq]
    exact fun i => hleast ⟨i, hvalid i, rfl⟩
  · intro hle
    refine ⟨σ', _, _, payload, hstep, ⟨_, hvalid _, rfl⟩, ?_⟩
    rintro _ ⟨i, -, rfl⟩
    exact hle i

/-- While numbers do not wrap, `entries[0]` is the oldest exactly if the window starts at a multiple
of its size. -/
theorem first_le_iff {q : CircularQueue W} {w : SlidingWindow W} {f : ℕ → Bytes}
    (hq : q.Holds w f) (hfull : w.Full) :
    (∀ i, (q.entries (slot W 0)).sequenceNum ≤ (q.entries i).sequenceNum) ↔ w.next % W = 0 := by
  have hW := Nat.pos_of_neZero W
  have hnext : w.next = w.base + W := hfull
  have hbase : w.next % W = w.base % W := by rw [hnext, Nat.add_mod_right]
  have hmem : w.base ∈ w := SlidingWindow.mem_iff.mpr ⟨le_rfl, by omega⟩
  have hentry : ∀ s ∈ w, (q.entries (slot W s)).sequenceNum.toNat = s := fun s hs => by
    rw [hq.stored s hs]
    exact CircularQueue.toNat_ofNat_of_mem hq hs
  obtain ⟨s₀, hs₀, hmod⟩ := SlidingWindow.exists_mem_of_full hW hfull hW
  have hfirst : slot W 0 = slot W s₀ := by rw [slot_eq_iff, hmod, Nat.zero_mod]
  rw [hfirst, hbase]
  constructor
  · intro hle
    have := UInt32.le_iff_toNat_le.mp (hle (slot W w.base))
    rw [hentry s₀ hs₀, hentry _ hmem] at this
    rw [← hmod, le_antisymm (SlidingWindow.mem_iff.mp hs₀).1 this]
  · intro hzero i
    obtain rfl := SlidingWindow.eq_of_mod_eq hs₀ hmem (hmod.trans hzero.symm)
    obtain ⟨s, hs, hsi⟩ := SlidingWindow.exists_mem_of_full hW hfull i.isLt
    obtain rfl : slot W s = i := Fin.ext hsi
    rw [UInt32.le_iff_toNat_le, hentry _ hmem, hentry s hs]
    exact (SlidingWindow.mem_iff.mp hs).1

variable {es : List (Edge (Server W) ServerEvent (List Send))} {a : SockAddr} {src : Bytes}
  {windowSize bufferSize : UInt16}

/-- **When a timeout resends the oldest packet** — in any full window a run reaches, exactly if
`entries[0]` has the smallest number; and in a file short enough for the numbers not to wrap around,
exactly if `sequenceNum` is a multiple of the window size. -/
theorem resends_oldest_iff
    (run : Run (serverMachine W host) (fun _ _ => True)
      (Server.enter W a src windowSize bufferSize) es σ)
    (hpc : σ.pc = .fill) (hfull : σ.window.isFull = true) :
    (ResendsOldest host σ
        ↔ ∀ i, (σ.window.entries (slot W 0)).sequenceNum ≤ (σ.window.entries i).sequenceNum)
      ∧ (numChunks bufferSize.toNat src < 4294967295 →
          (ResendsOldest host σ ↔ σ.sequenceNum.toNat % W = 0)) := by
  have hiff := resendsOldest_iff_of_full (stocked_of_reachable ⟨_, run⟩) hpc hfull
  refine ⟨hiff, fun hK => ?_⟩
  obtain ⟨w, hw, -⟩ := Server.run_inv hK run
  rw [hiff, first_le_iff hw.holds (hw.holds.isFull_iff.mp hfull), hw.next]

/-- Packets `2` and `3` on a window of two: the timeout resends `2`. -/
theorem resends_oldest_rotated : ∃ σ : Server 2, σ.window.isFull = true ∧ σ.sequenceNum = 4
    ∧ ResendsOldest (.standard .little) σ := by
  obtain ⟨es, σ, run, h⟩ := exists_run_of_replay (M := serverMachine 2 (.standard .little))
    (G := fun _ _ => True) (s := Server.enter 2 ⟨1, 1⟩ [65, 66, 67] 2 1)
    [.run, .quiet, .run, .quiet, .receive [] ⟨⟨1, 1⟩, rrPDU (.standard .little) 2⟩, .run, .quiet]
    (P := fun _ σ => σ.pc = .fill ∧ σ.window.isFull = true ∧ σ.sequenceNum = 4) (by decide +kernel)
  obtain ⟨hpc, hfull, hseq⟩ := of_decide_eq_true h
  exact ⟨σ, hfull, hseq,
    ((resends_oldest_iff run hpc hfull).2 (by decide)).mpr (by rw [hseq]; rfl)⟩

/-- Packets `1` and `2` on a window of two: the first timeout resends `2`. -/
theorem timeout_resends_newest : ¬ ∀ (W : ℕ) [NeZero W] (host : Host)
    (es : List (Edge (Server W) ServerEvent (List Send))) (σ : Server W) (a : SockAddr)
    (src : Bytes) (windowSize bufferSize : UInt16),
    Run (serverMachine W host) (fun _ _ => True)
      (Server.enter W a src windowSize bufferSize) es σ →
    σ.pc = .fill → σ.window.isFull = true → ResendsOldest host σ := by
  intro hclaim
  obtain ⟨es, σ, run, h⟩ := exists_run_of_replay (M := serverMachine 2 (.standard .little))
    (G := fun _ _ => True) (s := Server.enter 2 ⟨1, 1⟩ [65, 66] 2 1) [.run, .quiet, .run, .quiet]
    (P := fun _ σ => σ.pc = .fill ∧ σ.window.isFull = true
      ∧ ¬ (σ.window.entries 0).sequenceNum ≤ (σ.window.entries 1).sequenceNum) (by decide +kernel)
  obtain ⟨hpc, hfull, hlt⟩ := of_decide_eq_true h
  have holdest := hclaim 2 _ es σ _ _ _ _ run hpc hfull
  exact hlt ((resendsOldest_iff_of_full (stocked_of_reachable ⟨es, run⟩) hpc hfull).mp holdest 1)

end Timeout

end RemoteFileCopy
