import RemoteFileCopy.Setup.DataPath

/-!
# Setup/Cleanup — what a child acquires and what it releases

    filename_state ── fopen      SEND_DATA ── CircularQueue_init
    DONE ── CircularQueue_free, if windowSize > 0;  fclose, always

`filename_state` sets `windowSize` before it opens the file, and the window is only initialised in
`SEND_DATA`; so `windowSize > 0` does not tell whether there is a window, and nothing tells whether
there is a file.  The two sides balance exactly where the file opens and the child gets as far as
`SEND_DATA` for a window that has slots, or not so far for one that has none
(`cleanup_balanced_iff`).
-/

namespace RemoteFileCopy

open Transition

/-! ## The ledger -/

/-- What is acquired and released in `processClient`: the window and the file. -/
inductive ResourceOp
  | init
  | free
  | fopen
  | fclose
  deriving DecidableEq, Repr

/-- What a step acquires: the file in `filename_state`, the window on entry to `SEND_DATA`. -/
def acquires (x : Edge ProcessClient ServerEvent (List Send)) : List ResourceOp :=
  match x.source, x.target with
  | .start _, .handshake c => if c.info.file.isSome then [.fopen] else []
  | .handshake _, .transfer _ => [.init]
  | _, _ => []

/-- What the child knows. -/
def ProcessClient.info : ProcessClient → ServerInfo
  | .start r => .ofClient r.srcAddr
  | .handshake c => c.info
  | .transfer σ => σ.info

/-- **The end of `processClient`**, once the state is `DONE`. -/
def cleanup (info : ServerInfo) : List ResourceOp :=
  if info.windowSize > 0 then [.free, .fclose] else [.fclose]

/-- What a run acquires, and what `processClient` releases after it. -/
def operations (es : List (Edge ProcessClient ServerEvent (List Send))) (c : ProcessClient) :
    List ResourceOp :=
  es.reverse.flatMap acquires ++ cleanup c.info

/-- **A child releases what it acquired** — the window is freed as often as it was initialised, and
that is once at most; a file is closed only if one was opened. -/
structure Balanced (ops : List ResourceOp) : Prop where
  freed : ops.count .free = ops.count .init
  once : ops.count .init ≤ 1
  closed : .fclose ∈ ops → .fopen ∈ ops

instance (ops : List ResourceOp) : Decidable (Balanced ops) :=
  decidable_of_iff (ops.count .free = ops.count .init ∧ ops.count .init ≤ 1
    ∧ (.fclose ∈ ops → .fopen ∈ ops))
    ⟨fun h => ⟨h.1, h.2.1, h.2.2⟩, fun h => ⟨h.freed, h.once, h.closed⟩⟩

/-- The file a request names can be opened. -/
def Opens (fopen : CString → Option Bytes) (r : Received) : Prop :=
  ∃ name file, requestedFilename r.buffer r.bytesRecv = .ok name ∧ fopen name = some file

/-- An ack of the file arrives in `write_file_ok_ack_state`. -/
def FileAcked (x : Edge ProcessClient ServerEvent (List Send)) : Prop :=
  match x.source, x.event with
  | .handshake _, .receive stale d => (safeRecvfrom stale MAXBUF d).flag = 34
  | _, _ => False

instance : DecidablePred FileAcked
  | ⟨.handshake _, .receive _ _, _, _⟩ => inferInstanceAs (Decidable (_ = _))
  | ⟨.handshake _, .run, _, _⟩ | ⟨.handshake _, .quiet, _, _⟩ | ⟨.start _, _, _, _⟩
  | ⟨.transfer _, _, _, _⟩ => inferInstanceAs (Decidable False)

/-! ## The invariant -/

section Ledger

variable {host : Host} {fopen : CString → Option Bytes} {r : Received}
  {es : List (Edge ProcessClient ServerEvent (List Send))} {c : ProcessClient}

/-- The window size of a request stays what it is. -/
theorem Server.StepCase.windowSize_eq {W : ℕ} {σ : Server W} {ev : ServerEvent}
    {t : Server W × List Send} (h : StepCase host σ ev t) :
    t.1.info.windowSize = σ.info.windowSize := by
  cases h with
  | read =>
    exact Server.settle_rule (Q := fun t => t.1.info.windowSize = σ.info.windowSize)
      (sendNext_rule (fun _ => rfl) (fun _ _ _ => rfl) rfl fun _ _ _ =>
        .of_cases (fun _ _ => rfl) fun _ _ => rfl)
  | timeout =>
    exact Server.settle_rule (Q := fun t => t.1.info.windowSize = σ.info.windowSize)
      (resendOldest_rule rfl fun _ _ => .of_cases (fun _ _ => rfl) fun _ _ => rfl)
  | eofResend =>
    simp only [resendEofState]
    split <;> rfl
  | acked | ackFault | drained | eofQuiet | eofHeard => rfl

/-- **What a child holds** on a request for a file that opens: the file from the start, and a window
once it was told to go on. -/
def Holding (host : Host) (r : Received) (ops : List ResourceOp) (acked : Prop) :
    ProcessClient → Prop
  | .start r' => r' = r ∧ ops = [] ∧ ¬ acked
  | .handshake c => ops = [.fopen] ∧ c.info.windowSize = r.requestWindow host
    ∧ (acked ↔ c.pc = .next .sendData)
  | .transfer σ => ops = [.fopen, .init] ∧ σ.info.windowSize = r.requestWindow host ∧ acked

/-- **The step lemma.** -/
theorem Holding.step (hopens : Opens fopen r) {ops : List ResourceOp} {acked : Prop}
    {x : Edge ProcessClient ServerEvent (List Send)} (h : Holding host r ops acked x.source)
    (hs : x.source.step host fopen x.event = some (x.target, x.output)) :
    Holding host r (ops ++ acquires x) (FileAcked x ∨ acked) x.target := by
  obtain ⟨source, ev, sends, target⟩ := x
  dsimp only at h hs ⊢
  cases source with
  | start r' =>
    obtain ⟨rfl, rfl, hacked⟩ := h
    cases ev with
    | run =>
      obtain ⟨name, file, hname, hopen⟩ := hopens
      obtain ⟨rfl, -⟩ := by simpa [ProcessClient.step] using hs
      simp only [acquires, Child.start, filenameState_eq_ok host fopen hname hopen]
      exact ⟨rfl, rfl, by simpa [FileAcked] using hacked⟩
    | quiet | receive stale d => simp [ProcessClient.step] at hs
  | handshake c =>
    obtain ⟨rfl, hwindow, hacked⟩ := h
    simp only [ProcessClient.step] at hs
    split at hs
    case h_1 hpc =>
      obtain ⟨rfl, -⟩ := by simpa using hs
      refine ⟨rfl, hwindow, ?_⟩
      have hnot : ¬ acked := by rw [hacked, hpc]; simp
      simp only [FileAcked, hnot, or_self, writeFileOkAckState, false_iff, ServerPc.next.injEq]
      split <;> simp
    case h_2 stale d hpc =>
      obtain ⟨rfl, -⟩ := by simpa using hs
      refine ⟨rfl, hwindow, ?_⟩
      have hnot : ¬ acked := by rw [hacked, hpc]; simp
      simp only [FileAcked, hnot, or_false, writeFileOkAckState, ServerPc.next.injEq]
      split <;> simp_all
    case h_3 hpc =>
      obtain ⟨rfl, -⟩ := by simpa using hs
      exact ⟨rfl, hwindow, .inr (hacked.mpr hpc)⟩
    case h_4 => cases hs
  | transfer σ =>
    obtain ⟨rfl, hwindow, hacked⟩ := h
    obtain ⟨⟨σ', sends'⟩, hstep, heq⟩ := Option.map_eq_some_iff.mp hs
    obtain ⟨rfl, -⟩ := by simpa using heq
    exact ⟨rfl, (Server.step_cases hstep).windowSize_eq.trans hwindow, .inr hacked⟩

/-- **The run lemma.** -/
theorem holding_of_run (hopens : Opens fopen r)
    (run : Run (processClient host fopen) (fun _ _ => True) (.start r) es c) :
    Holding host r (es.reverse.flatMap acquires) (∃ x ∈ es, FileAcked x) c := by
  induction run with
  | nil => exact ⟨rfl, rfl, by simp⟩
  | @cons es s t ev sends _ _ hs ih =>
    have h := ih.step (x := ⟨s, ev, sends, t⟩) hopens hs
    rw [List.reverse_cons, List.flatMap_append, List.flatMap_singleton]
    simpa only [List.exists_mem_cons_iff] using h

/-- **A child whose file does not open** ends at once, without a file. -/
theorem Child.start_of_not_opens (host : Host) (hopens : ¬ Opens fopen r) :
    (Child.start host fopen r).1.info.file = none
      ∧ ∀ state, (Child.start host fopen r).1.pc = .next state → state = .done := by
  rw [Child.start, filenameState]
  cases hname : requestedFilename r.buffer r.bytesRecv with
  | error fault => exact ⟨rfl, by simp [bind, Except.bind]⟩
  | ok name =>
    simp only [bind, Except.bind]
    cases hopen : fopen name with
    | none => exact ⟨rfl, fun state hstate => (ServerPc.next.inj hstate).symm⟩
    | some file => exact absurd ⟨name, file, hname, hopen⟩ hopens

/-- It has acquired nothing. -/
theorem acquires_nil_of_not_opens (hopens : ¬ Opens fopen r)
    (run : Run (processClient host fopen) (fun _ _ => True) (.start r) es c) :
    es.reverse.flatMap acquires = [] := by
  have hend : (es = [] ∧ c = .start r) ∨ (es.reverse.flatMap acquires = []
      ∧ ∃ child : Child, c = .handshake child
        ∧ ∀ state, child.pc = .next state → state = .done) := by
    induction run with
    | nil => exact .inl ⟨rfl, rfl⟩
    | @cons es s t ev sends _ _ hs ih =>
      obtain ⟨hfile, hpc⟩ := Child.start_of_not_opens host hopens
      rcases ih with ⟨rfl, rfl⟩ | ⟨hnil, child, rfl, hchild⟩
      · cases ev with
        | run =>
          obtain ⟨rfl, -⟩ := Prod.mk.inj (Option.some_inj.mp hs)
          exact .inr ⟨by simp [acquires, hfile], _, rfl, hpc⟩
        | quiet | receive stale d => cases hs
      · simp only [processClient, ProcessClient.step] at hs
        split at hs
        case h_1 heq | h_2 heq | h_3 heq => cases hchild _ heq
        case h_4 => cases hs
  rcases hend with ⟨rfl, -⟩ | ⟨hnil, -⟩
  · rfl
  · exact hnil

/-! ## When the two sides balance -/

theorem cleanup_eq (info : ServerInfo) :
    cleanup info = if info.windowSize = 0 then [.fclose] else [.free, .fclose] := by
  rw [cleanup, if_congr UInt16.pos_iff_ne_zero rfl rfl, ite_not]

/-- **A child releases what it acquired exactly if** its file opens and it is told to go on, or not,
as its window has slots or has none. -/
theorem cleanup_balanced_iff
    (run : Run (processClient host fopen) (fun _ _ => True) (.start r) es c)
    (hdone : c.pc = .next .done) :
    Balanced (operations es c)
      ↔ Opens fopen r ∧ ((∃ x ∈ es, FileAcked x) ↔ r.requestWindow host ≠ 0) := by
  by_cases hopens : Opens fopen r
  · rw [and_iff_right hopens]
    have h := holding_of_run hopens run
    cases c with
    | start r' => cases hdone
    | handshake child =>
      obtain ⟨hops, hwindow, hacked⟩ := h
      change (ProcessClient.handshake child).info.windowSize = _ at hwindow
      have hnot : ¬ ∃ x ∈ es, FileAcked x := by rw [hacked, show child.pc = _ from hdone]; simp
      rw [iff_false_left hnot, not_not, operations, hops, cleanup_eq, hwindow]
      split
      case isTrue hzero => exact iff_of_true (by decide) hzero
      case isFalse hpos => exact iff_of_false (by decide) hpos
    | transfer σ =>
      obtain ⟨hops, hwindow, hacked⟩ := h
      change (ProcessClient.transfer σ).info.windowSize = _ at hwindow
      rw [iff_true_left hacked, operations, hops, cleanup_eq, hwindow]
      split
      case isTrue hzero => exact iff_of_false (by decide) (not_not_intro hzero)
      case isFalse hpos => exact iff_of_true (by decide) hpos
  · refine iff_of_false (fun hbalanced => ?_) fun h => hopens h.1
    have hnil := acquires_nil_of_not_opens hopens run
    rw [operations, hnil, List.nil_append, cleanup_eq] at hbalanced
    exact absurd hbalanced (by split <;> decide)

end Ledger

/-- A request for the file `f`, with a window of two and a buffer of one byte. -/
def smallRequest : Received :=
  ⟨⟨1, 1⟩, createPDU (.standard .big) 0 8 [0, 2, 0, 1, 102], 12⟩

/-- An empty file: the ack of the file, and then that of the EOF. -/
theorem cleanup_balanced_empty : ∃ es c,
    Run (processClient (.standard .big) fun _ => some []) (fun _ _ => True) (.start smallRequest)
      es c ∧ Balanced (operations es c) := by
  obtain ⟨es, c, run, h⟩ := exists_run_of_replay
    (M := processClient (.standard .big) fun _ => some []) (G := fun _ _ => True)
    (s := .start smallRequest)
    [.run, .receive [] ⟨⟨1, 1⟩, fileOkAckPDU (.standard .big)⟩, .run, .run,
      .receive [] ⟨⟨1, 1⟩, createPDU (.standard .big) 1 35 []⟩]
    (P := fun es c => c.pc = .next .done ∧ ∃ x ∈ es, FileAcked x) (by decide +kernel)
  obtain ⟨hdone, hacked⟩ := of_decide_eq_true h
  refine ⟨es, c, run, (cleanup_balanced_iff run hdone).mpr ⟨⟨_, _, rfl, rfl⟩, ?_⟩⟩
  exact iff_of_true hacked (by decide +kernel)

/-- **A file that does not open**: a window that was never initialised is freed, and `NULL` is
closed. -/
theorem unopened_file_released : ¬ ∀ (host : Host) (fopen : CString → Option Bytes) (r : Received)
    (es : List (Edge ProcessClient ServerEvent (List Send))) (c : ProcessClient),
    Run (processClient host fopen) (fun _ _ => True) (.start r) es c → c.pc = .next .done →
      Balanced (operations es c) := by
  intro h
  obtain ⟨es, c, run, hend⟩ := exists_run_of_replay
    (M := processClient (.standard .big) fun _ => none) (G := fun _ _ => True)
    (s := .start smallRequest) [.run]
    (P := fun es c => c.pc = .next .done ∧ operations es c = [.free, .fclose]) (by decide +kernel)
  obtain ⟨hdone, hops⟩ := of_decide_eq_true hend
  have hbalanced := h _ _ _ _ _ run hdone
  rw [hops] at hbalanced
  exact absurd hbalanced (by decide)

end RemoteFileCopy
