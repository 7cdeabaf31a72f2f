import RemoteFileCopy.Queue.Release
import RemoteFileCopy.Server.SendData

/-!
# Server/Cumulative — RRs are cumulative

    RR n    ──▸    the slots with 1 ≤ sequenceNum < n are cleared

On a window whose entries stand in the slots of their numbers the loop an RR runs clears what is
below the RR's number, wherever it stands (`removeUpTo_eq_release`).  So a second RR adds what is
below the larger of the two numbers, and neither order nor repetition matters
(`rr_loop_is_cumulative`).
-/

namespace RemoteFileCopy

/-! ## One entry -/

/-- **An entry an RR `n` acknowledges**: valid, with a number from `1` up to `n`, without `n`. -/
def QueueEntry.Acknowledged (n : UInt32) (entry : QueueEntry) : Prop :=
  entry.valid = true ∧ 1 ≤ entry.sequenceNum ∧ entry.sequenceNum < n

instance (n : UInt32) : DecidablePred (QueueEntry.Acknowledged n) :=
  fun _ => inferInstanceAs (Decidable (_ ∧ _ ∧ _))

/-- What a pass makes of an entry. -/
def QueueEntry.release (n : UInt32) (entry : QueueEntry) : QueueEntry :=
  if entry.Acknowledged n then { entry with packet := none, valid := false } else entry

section Entry

variable {entry : QueueEntry} {m n : UInt32}

theorem QueueEntry.release_of (h : entry.Acknowledged n) :
    entry.release n = { entry with packet := none, valid := false } := if_pos h

theorem QueueEntry.release_of_not (h : ¬ entry.Acknowledged n) : entry.release n = entry :=
  if_neg h

theorem QueueEntry.valid_release_iff :
    (entry.release n).valid = true ↔ entry.valid = true ∧ ¬ entry.Acknowledged n := by
  by_cases h : entry.Acknowledged n
  · simp [release_of h, h]
  · simp [release_of_not h, h]

@[simp] theorem QueueEntry.sequenceNum_release :
    (entry.release n).sequenceNum = entry.sequenceNum := by
  rw [release]
  split <;> rfl

/-- What is not valid is not acknowledged. -/
theorem QueueEntry.release_of_not_valid (h : entry.valid = false) : entry.release n = entry :=
  release_of_not fun hn => by simp [hn.1] at h

/-- A smaller RR acknowledges less. -/
theorem QueueEntry.Acknowledged.mono (h : entry.Acknowledged m) (hle : m ≤ n) :
    entry.Acknowledged n :=
  ⟨h.1, h.2.1, UInt32.lt_of_lt_of_le h.2.2 hle⟩

/-- **The larger RR decides**, first or second. -/
theorem QueueEntry.release_release (hle : m ≤ n) :
    (entry.release m).release n = entry.release n
      ∧ (entry.release n).release m = entry.release n := by
  by_cases hn : entry.Acknowledged n
  · have hfree : (entry.release n).valid = false := by rw [release_of hn]
    refine ⟨?_, release_of_not_valid hfree⟩
    by_cases hm : entry.Acknowledged m
    · rw [release_of hm, release_of hn, release_of_not_valid rfl]
    · rw [release_of_not hm]
  · have hm : ¬ entry.Acknowledged m := fun hm => hn (hm.mono hle)
    rw [release_of_not hm, release_of_not hn]
    exact ⟨rfl, release_of_not hm⟩

end Entry

/-! ## One pass -/

namespace CircularQueue

variable {W : ℕ}

/-- **The representation invariant** — every valid entry in the slot of its number, and the counter
exact. -/
structure WellFormed (q : CircularQueue W) : Prop where
  indexed : ∀ i, (q.entries i).valid = true → (q.entries i).sequenceNum.toNat % W = i
  count : q.ValidCount = (Finset.univ.filter fun i => (q.entries i).valid = true).card

/-- **One pass over the slots**, invalidating what an RR `n` acknowledges. -/
def release (q : CircularQueue W) (n : UInt32) : CircularQueue W where
  entries i := (q.entries i).release n
  ValidCount := q.ValidCount - (Finset.univ.filter fun i => (q.entries i).Acknowledged n).card

namespace WellFormed

variable {q q' : CircularQueue W} {m n : UInt32}

/-- **A pass keeps the invariant.** -/
theorem release (h : q.WellFormed) (n : UInt32) : (q.release n).WellFormed where
  indexed i hv := by
    rw [CircularQueue.release, QueueEntry.sequenceNum_release]
    exact h.indexed i (QueueEntry.valid_release_iff.mp hv).1
  count := by
    have hsplit := Finset.card_filter_add_card_filter_not
      (s := Finset.univ.filter fun i => (q.entries i).valid = true)
      fun i => (q.entries i).Acknowledged n
    have hacked : (Finset.univ.filter fun i => (q.entries i).valid = true).filter
        (fun i => (q.entries i).Acknowledged n)
        = Finset.univ.filter fun i => (q.entries i).Acknowledged n := by
      rw [Finset.filter_filter]
      exact Finset.filter_congr fun i _ => and_iff_right_of_imp And.left
    have hkept : (Finset.univ.filter fun i => (q.entries i).valid = true).filter
        (fun i => ¬ (q.entries i).Acknowledged n)
        = Finset.univ.filter fun i => ((q.release n).entries i).valid = true := by
      rw [Finset.filter_filter]
      exact Finset.filter_congr fun i _ => QueueEntry.valid_release_iff.symm
    rw [hacked, hkept] at hsplit
    have hcount := h.count
    change q.ValidCount - _ = _
    omega

/-- A well-formed queue is determined by its entries. -/
theorem ext (h : q.WellFormed) (h' : q'.WellFormed) (heq : q.entries = q'.entries) : q = q' :=
  CircularQueue.ext heq (by rw [h.count, h'.count, heq])

/-- **Two passes are one**, up to the larger number. -/
theorem release_release (h : q.WellFormed) (hle : m ≤ n) :
    (q.release m).release n = q.release n ∧ (q.release n).release m = q.release n :=
  ⟨((h.release m).release n).ext (h.release n)
      (funext fun _ => (QueueEntry.release_release hle).1),
    ((h.release n).release m).ext (h.release n)
      (funext fun _ => (QueueEntry.release_release hle).2)⟩

/-- What a pass up to `n` has cleared, passes up to no more leave as it is. -/
theorem foldl_release_of_eq (h : q.WellFormed) (heq : q.release n = q) {ns : List UInt32}
    (hns : ∀ m ∈ ns, m ≤ n) : ns.foldl CircularQueue.release q = q := by
  induction ns with
  | nil => rfl
  | cons m ns ih =>
    obtain ⟨hm, hns⟩ := List.forall_mem_cons.mp hns
    have hsame : q.release m = q := by
      have := (h.release_release hm).2
      rwa [heq] at this
    rw [List.foldl_cons, hsame, ih hns]

/-- **Many passes are the one up to the largest number.** -/
theorem foldl_release (h : q.WellFormed) {ns : List UInt32} (hn : n ∈ ns) (hns : ∀ m ∈ ns, m ≤ n) :
    ns.foldl CircularQueue.release q = q.release n := by
  induction ns generalizing q with
  | nil => cases hn
  | cons m ns ih =>
    obtain ⟨hm, hrest⟩ := List.forall_mem_cons.mp hns
    rw [List.foldl_cons]
    rcases List.mem_cons.mp hn with rfl | hn
    · exact (h.release n).foldl_release_of_eq (h.release_release hm).1 hrest
    · rw [ih (h.release m) hn hrest, (h.release_release hm).1]

variable [NeZero W]

omit [NeZero W] in
/-- What is due is what is acknowledged, as every number is in its slot. -/
theorem sweep_eq_release (h : q.WellFormed) (n : UInt32) :
    q.sweep (n.toNat - 1) = q.release n := by
  have hdue : ∀ i, q.Due (n.toNat - 1) i ↔ (q.entries i).Acknowledged n := fun i => by
    simp only [Due, QueueEntry.Acknowledged, UInt32.le_iff_toNat_le, UInt32.lt_iff_toNat_lt,
      UInt32.toNat_one]
    constructor
    · rintro ⟨hv, hpos, hle, -⟩
      exact ⟨hv, hpos, by omega⟩
    · rintro ⟨hv, hpos, hlt⟩
      exact ⟨hv, hpos, by omega, h.indexed i hv⟩
  simp only [sweep, CircularQueue.release, QueueEntry.release, hdue]

/-- **The loop of an RR is the pass**, wherever the numbers stand. -/
theorem removeUpTo_eq_release (h : q.WellFormed) (n : UInt32) :
    q.removeUpTo (n.toNat - 1) = .ok (q.release n) := by
  have hlt := n.toNat_lt
  rw [q.removeUpTo_eq_sweep (by omega), h.sweep_eq_release]

end WellFormed

end CircularQueue

/-! ## Many RRs -/

section Acks

variable {W : ℕ} (host : Host)

/-- **`wait_on_ack_state` for one datagram after another**, up to the window and what it knows of
the client. -/
def waitOnAcks (window : CircularQueue W) (info : ServerInfo) :
    List Received → Except Fault (CircularQueue W × ServerInfo)
  | [] => .ok (window, info)
  | r :: rs => do
    let (_, window, info, _) ← waitOnAckState host window info (some r)
    waitOnAcks window info rs

variable [NeZero W] {host} {q : CircularQueue W} {r : Received}

/-- **One RR is one pass over the slots**, for any contents of the window. -/
theorem waitOnAckState_sweep (q : CircularQueue W) (info : ServerInfo) (hrr : r.flag = 5) :
    waitOnAckState host q info (some r) = .ok (.sendData, q.sweep ((r.seqNum host).toNat - 1),
      { info with clientAddr := r.srcAddr }, []) := by
  have hlt := (r.seqNum host).toNat_lt
  have hloop := q.removeUpTo_eq_sweep (k := (r.seqNum host).toNat - 1) (by omega)
  simp only [waitOnAckState, if_pos hrr, hloop]
  rfl

/-- **One RR is one release.** -/
theorem waitOnAckState_rr (h : q.WellFormed) (info : ServerInfo) (hrr : r.flag = 5) :
    waitOnAckState host q info (some r)
      = .ok (.sendData, q.release (r.seqNum host), { info with clientAddr := r.srcAddr }, []) := by
  rw [waitOnAckState_sweep q info hrr, h.sweep_eq_release]

/-- **One RR after another is one pass after another.** -/
theorem waitOnAcks_rrs (h : q.WellFormed) (info : ServerInfo) {rs : List Received}
    (hrs : ∀ r ∈ rs, r.flag = 5) : (waitOnAcks host q info rs).map Prod.fst
      = .ok ((rs.map fun r => r.seqNum host).foldl CircularQueue.release q) := by
  induction rs generalizing q info with
  | nil => rfl
  | cons r rs ih =>
    obtain ⟨hrr, hrs⟩ := List.forall_mem_cons.mp hrs
    have hcons : waitOnAcks host q info (r :: rs)
        = waitOnAcks host (q.release (r.seqNum host)) { info with clientAddr := r.srcAddr } rs := by
      rw [waitOnAcks, waitOnAckState_rr h info hrr]
      rfl
    rw [hcons, ih (h.release _) _ hrs, List.map_cons, List.foldl_cons]

/-- **The RR loop is a cumulative release.**  It is one pass over the slots that invalidates the
valid entries from `1` up to the RR's number; so any RRs, in any order and as often as they come,
leave the window that the one with the largest number leaves. -/
theorem rr_loop_is_cumulative (h : q.WellFormed) (info : ServerInfo) :
    (∀ n : UInt32, q.removeUpTo (n.toNat - 1) = .ok (q.release n))
      ∧ ∀ (rs : List Received) (r : Received), (∀ r' ∈ rs, r'.flag = 5) → r.flag = 5 →
        IsGreatest {n | ∃ r' ∈ rs, r'.seqNum host = n} (r.seqNum host) →
        (waitOnAcks host q info rs).map Prod.fst = (waitOnAcks host q info [r]).map Prod.fst := by
  refine ⟨h.removeUpTo_eq_release, fun rs r hrs hr hmax => ?_⟩
  rw [waitOnAcks_rrs h info hrs, waitOnAcks_rrs h info (List.forall_mem_singleton.mpr hr),
    h.foldl_release (List.mem_map.mpr hmax.1) (List.forall_mem_map.mpr fun r' hr' =>
      hmax.2 ⟨r', hr', rfl⟩)]
  rfl

/-- A window of two with packets 4 and 5: RR 5, then RR 6, then RR 5 again, are RR 6. -/
theorem rr_loop_is_cumulative_two :
    let q : CircularQueue 2 := ⟨fun i => ⟨some [65], 1, if i = 0 then 4 else 5, true⟩, 2⟩
    let info : ServerInfo := ⟨⟨1, 1⟩, none, 2, 1, [], 0, 0⟩
    let rr (n : UInt32) : Received := safeRecvfrom [] 7 ⟨⟨1, 1⟩, rrPDU (.standard .little) n⟩
    (waitOnAcks (.standard .little) q info [rr 5, rr 6, rr 5]).map Prod.fst
      = (waitOnAcks (.standard .little) q info [rr 6]).map Prod.fst := by
  intro q info rr
  have hflag (n : UInt32) : (rr n).flag = 5 := flag_controlPDU _ n 5 _ _ le_rfl
  have hseq (n : UInt32) : (rr n).seqNum (.standard .little) = n :=
    seqNum_controlPDU _ n 5 _ _ le_rfl
  have hq : q.WellFormed := ⟨by decide, by decide⟩
  refine (rr_loop_is_cumulative hq info).2 _ _ ?_ (hflag 6) ?_
  · simp [hflag]
  · constructor
    · exact ⟨rr 6, by simp, rfl⟩
    · rintro n ⟨r, hr, rfl⟩
      rw [hseq]
      simp only [List.mem_cons, List.not_mem_nil, or_false] at hr
      rcases hr with rfl | rfl | rfl <;> rw [hseq] <;> decide

end Acks

end RemoteFileCopy
