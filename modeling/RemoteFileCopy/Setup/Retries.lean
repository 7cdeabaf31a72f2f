import Mathlib.Data.Seq.Basic
import RemoteFileCopy.Setup.Handshake

/-!
# Setup/Retries — how often `rcopy` asks for its file

    WAIT_ON_FILE_OK ──request──▸ poll ──nothing──▸ count++, request ▸ … ▸ DONE at MAX_RETRIES
           ▴                      │ │
           └────── any other ─────┘ └──── 9 ────▸ WAIT_ON_DATA

A reply other than flag 9 counts as an attempt, too, but then `wait_on_file_ok_state` returns
`WAIT_ON_FILE_OK`, and the state loop enters it with a count of zero.  So the error reply of
`filename_state` is answered with another request, and `MAX_RETRIES` bounds the requests only of
those exchanges in which nothing else arrives for as long (`requests_bounded_iff`).
-/

namespace RemoteFileCopy

open Transition Stream'

/-! ## The exchange -/

/-- What a poll brought. -/
def RcopyEvent.outcome : RcopyEvent → Option (Option Received)
  | .run => none
  | .poll outcome => some outcome

variable (cfg : SetupConfig)

/-- The exchange as a machine. -/
def exchange : Machine RcopyPc RcopyEvent (List Send) where
  step := exchangeStep cfg

/-! ## Outcomes and requests -/

/-- The outcomes of the polls so far, the latest first. -/
def heard (es : List (Edge RcopyPc RcopyEvent (List Send))) : List (Option Received) :=
  es.filterMap fun x => x.event.outcome

/-- The requests sent so far. -/
def requests (es : List (Edge RcopyPc RcopyEvent (List Send))) : ℕ :=
  (es.flatMap Edge.output).countP fun m => m.pdu.getD 6 0 = 8

/-- A poll that did not find an ok. -/
def notOk (outcome : Option Received) : Bool := outcome.all fun r => r.flag ≠ 9

/-- **The exchange of a name is bounded**: however far it goes with the outcomes of a stream, there
are no more than `MAX_RETRIES` requests, and a flag 33 leads to `DONE`. -/
def ExchangeBounded (outcomes : Seq (Option Received)) : Prop :=
  ∀ es pc, Run (exchange cfg) (fun _ _ => True) (.next .start) es pc →
    outcomes.take (heard es).length = (heard es).reverse →
      requests es ≤ MAX_RETRIES
        ∧ ∀ x ∈ es, ∀ r, x.event = .poll (some r) → r.flag = 33 → x.target = .next .done

/-- What the first `MAX_RETRIES` polls of a stream bring before an ok. -/
def beforeOk (outcomes : Seq (Option Received)) : List (Option Received) :=
  (outcomes.take MAX_RETRIES).takeWhile notOk

/-- **The stream keeps the exchange bounded**: an ok, or the end of the stream, comes within
`MAX_RETRIES` polls and before any flag 33 — or that many polls find nothing at all. -/
def OkOrSilent (outcomes : Seq (Option Received)) : Prop :=
  (beforeOk outcomes).length < MAX_RETRIES ∧ (∀ r, some r ∈ beforeOk outcomes → r.flag ≠ 33)
    ∨ beforeOk outcomes = List.replicate MAX_RETRIES none

/-! ## The invariant -/

/-- **Where the exchange stands** after some outcomes: none of them was an ok, the count is that of
the timeouts since the last reply, and as long as nothing arrives it does not reach
`MAX_RETRIES`. -/
structure Asking (os : List (Option Received)) (count : ℕ) : Prop where
  noOk : ∀ o ∈ os, notOk o = true
  count : count = (os.takeWhile Option.isNone).length
  asked : ¬ List.replicate MAX_RETRIES none <:+ os

/-- What `rcopy` has heard and sent at each point of the exchange. -/
def Exchanged (os : List (Option Received)) (n : ℕ) : RcopyPc → Prop
  | .next .start => os = [] ∧ n = 0
  | .next .waitOnFileOk => n = os.length ∧ Asking os 0
  | .polling count => n = os.length + 1 ∧ count < MAX_RETRIES ∧ Asking os count
  | _ => True

section Invariant

variable {cfg} {os : List (Option Received)} {count : ℕ}
  {es : List (Edge RcopyPc RcopyEvent (List Send))} {pc : RcopyPc}

theorem Asking.nil : Asking [] 0 := ⟨by simp, rfl, by simp [MAX_RETRIES]⟩

/-- A reply starts the count over. -/
theorem Asking.reply (h : Asking os count) {r : Received} (hr : r.flag ≠ 9) :
    Asking (some r :: os) 0 := by
  refine ⟨List.forall_mem_cons.mpr ⟨by simpa [notOk] using hr, h.noOk⟩, rfl, ?_⟩
  rw [List.suffix_cons_iff, not_or]
  refine ⟨fun heq => ?_, h.asked⟩
  have hmem : some r ∈ List.replicate MAX_RETRIES none := heq ▸ List.mem_cons_self
  cases List.eq_of_mem_replicate hmem

/-- A timeout adds to it, and the last one comes when it is full. -/
theorem Asking.timeout (h : Asking os count) (hlt : count + 1 < MAX_RETRIES) :
    Asking (none :: os) (count + 1) := by
  refine ⟨List.forall_mem_cons.mpr ⟨rfl, h.noOk⟩, by simp [h.count], ?_⟩
  rw [List.suffix_cons_iff, not_or]
  refine ⟨fun heq => ?_, h.asked⟩
  have hos : os = List.replicate (MAX_RETRIES - 1) none := (List.cons.inj heq).2.symm
  have hcount := h.count
  rw [hos] at hcount
  simp [MAX_RETRIES] at hcount hlt
  omega

theorem requests_cons (x : Edge RcopyPc RcopyEvent (List Send)) :
    requests (x :: es) = x.output.countP (fun m => m.pdu.getD 6 0 = 8) + requests es := by
  rw [requests, List.flatMap_cons, List.countP_append, requests]

@[simp] theorem countP_filenameRequest :
    [filenameRequest cfg].countP (fun m => m.pdu.getD 6 0 = 8) = 1 := by
  simp only [filenameRequest, filenamePDU, List.countP_singleton, getD_createPDU, decide_true,
    if_true]

@[simp] theorem countP_fileOkAck (a : SockAddr) :
    [Send.mk a (fileOkAckPDU cfg.host)].countP (fun m => m.pdu.getD 6 0 = 8) = 0 := by
  rw [List.countP_singleton, fileOkAckPDU, getD_createPDU]
  rfl

/-- **The step lemma.** -/
theorem Exchanged.step {ev : RcopyEvent} {pc' : RcopyPc} {sends : List Send} {n : ℕ}
    (h : Exchanged os n pc) (hs : exchangeStep cfg pc ev = some (pc', sends)) :
    Exchanged (ev.outcome.toList ++ os)
      (sends.countP (fun m => m.pdu.getD 6 0 = 8) + n) pc' := by
  rw [exchangeStep.eq_def] at hs
  split at hs
  case h_1 =>
    obtain ⟨rfl, rfl⟩ := h
    obtain ⟨rfl, rfl⟩ := by simpa using hs
    exact ⟨rfl, .nil⟩
  case h_2 =>
    obtain ⟨rfl, hasking⟩ := h
    obtain ⟨rfl, rfl⟩ := by simpa using hs
    rw [countP_filenameRequest]
    exact ⟨Nat.add_comm _ _, by decide, hasking⟩
  case h_3 count =>
    obtain ⟨rfl, -, hasking⟩ := h
    dsimp only at hs
    split at hs
    case isTrue hlt =>
      obtain ⟨rfl, rfl⟩ := by simpa using hs
      rw [countP_filenameRequest]
      exact ⟨Nat.add_comm _ _, hlt, hasking.timeout hlt⟩
    case isFalse =>
      obtain ⟨rfl, rfl⟩ := by simpa using hs
      trivial
  case h_4 count r =>
    obtain ⟨rfl, -, hasking⟩ := h
    split at hs
    · split at hs <;>
      · obtain ⟨rfl, rfl⟩ := by simpa using hs
        trivial
    case isFalse hr =>
      obtain ⟨rfl, rfl⟩ := by simpa using hs
      exact ⟨Nat.zero_add _, hasking.reply hr⟩
  case h_5 => cases hs

/-- **The run lemma.** -/
theorem exchanged_of_run (run : Run (exchange cfg) (fun _ _ => True) (.next .start) es pc) :
    Exchanged (heard es) (requests es) pc := by
  induction run with
  | nil => exact ⟨rfl, rfl⟩
  | @cons es s t ev sends _ _ hs ih =>
    have h := ih.step hs
    rw [requests_cons]
    cases ev <;> exact h

/-! ## Streams that bound the exchange -/

variable {outcomes : Seq (Option Received)}

/-- Either way the entries left are those of the sequence that come before both bounds. -/
theorem take_take_seq {α : Type*} (s : Seq α) (m n : ℕ) :
    (s.take m).take n = s.take (min n m) := by
  refine List.ext_getElem? fun k => ?_
  rw [List.getElem?_take, Seq.getElem?_take, Seq.getElem?_take, ← ite_and,
    if_congr lt_min_iff.symm rfl rfl]

/-- Outcomes without an ok are found in the part of the stream before one. -/
theorem Asking.take_prefix (h : Asking os count) (hos : outcomes.take os.length = os.reverse) :
    os.reverse.take MAX_RETRIES <+: beforeOk outcomes := by
  have hall : ∀ o ∈ os.reverse.take MAX_RETRIES, notOk o = true := fun o ho =>
    h.noOk o (List.mem_reverse.mp (List.mem_of_mem_take ho))
  have hpre : os.reverse.take MAX_RETRIES <+: outcomes.take MAX_RETRIES := by
    rw [← hos, take_take_seq, Nat.min_comm, ← take_take_seq]
    exact List.take_prefix _ _
  obtain ⟨rest, hrest⟩ := hpre
  rw [beforeOk, ← hrest, List.takeWhile_append_of_pos hall]
  exact List.prefix_append _ _

theorem length_beforeOk_le : (beforeOk outcomes).length ≤ MAX_RETRIES :=
  (List.takeWhile_prefix _).length_le.trans Seq.length_take_le

/-- **As long as `rcopy` asks** on such a stream, it has asked fewer than `MAX_RETRIES` times. -/
theorem OkOrSilent.length_lt (hs : OkOrSilent outcomes) (h : Asking os count)
    (hos : outcomes.take os.length = os.reverse) : os.length < MAX_RETRIES := by
  by_contra hge
  have hpre := h.take_prefix hos
  have hlen : (os.reverse.take MAX_RETRIES).length = MAX_RETRIES := by
    rw [List.length_take, List.length_reverse]
    omega
  have heq := hpre.eq_of_length_le (by rw [hlen]; exact length_beforeOk_le)
  rcases hs with ⟨hlt, -⟩ | hnone
  · rw [← heq, hlen] at hlt
    omega
  · refine h.asked (List.reverse_prefix.mp ?_)
    rw [List.reverse_replicate, ← hnone, ← heq]
    exact List.take_prefix _ _

/-- Its replies are among those before an ok, and none of them is an error. -/
theorem OkOrSilent.flag_ne (hs : OkOrSilent outcomes) (h : Asking os count)
    (hos : outcomes.take os.length = os.reverse) {r : Received} (hr : some r ∈ os) :
    r.flag ≠ 33 := by
  have hlt := hs.length_lt h hos
  have hpre := h.take_prefix hos
  rw [List.take_of_length_le (by rw [List.length_reverse]; omega)] at hpre
  have hmem : some r ∈ beforeOk outcomes := hpre.subset (List.mem_reverse.mpr hr)
  rcases hs with ⟨-, hflag⟩ | hnone
  · exact hflag r hmem
  · rw [hnone] at hmem
    cases List.eq_of_mem_replicate hmem

/-- What was heard up to an earlier edge came from the same stream. -/
theorem take_of_suffix {os os' : List (Option Received)} (h : os <:+ os')
    (hos : outcomes.take os'.length = os'.reverse) : outcomes.take os.length = os.reverse := by
  have hlen := h.length_le
  have hpre : os.reverse <+: os'.reverse := List.reverse_prefix.mpr h
  rw [← hos, List.prefix_iff_eq_take, take_take_seq, List.length_reverse, Nat.min_eq_left hlen]
    at hpre
  exact hpre.symm

/-- **One more step of a bounded exchange**: a request is followed by a poll, and a reply that is no
ok is no error either. -/
theorem OkOrSilent.step (hs : OkOrSilent outcomes) {ev : RcopyEvent} {pc' : RcopyPc}
    {sends : List Send} {n : ℕ} (h : Exchanged os n pc) (hn : n ≤ MAX_RETRIES)
    (hstep : exchangeStep cfg pc ev = some (pc', sends))
    (hos : outcomes.take (ev.outcome.toList ++ os).length = (ev.outcome.toList ++ os).reverse) :
    sends.countP (fun m => m.pdu.getD 6 0 = 8) + n ≤ MAX_RETRIES
      ∧ ∀ r, ev = .poll (some r) → r.flag = 33 → pc' = .next .done := by
  have h' := h.step hstep
  rw [exchangeStep.eq_def] at hstep
  split at hstep
  case h_1 =>
    obtain ⟨rfl, rfl⟩ := by simpa using hstep
    exact ⟨by simpa using hn, by simp⟩
  case h_2 =>
    obtain ⟨rfl, rfl⟩ := by simpa using hstep
    obtain ⟨heq, -, hasking⟩ := h'
    exact ⟨heq ▸ hs.length_lt hasking hos, by simp⟩
  case h_3 =>
    dsimp only at hstep
    split at hstep <;> obtain ⟨rfl, rfl⟩ := by simpa using hstep
    · obtain ⟨heq, -, hasking⟩ := h'
      exact ⟨heq ▸ hs.length_lt hasking hos, by simp⟩
    · exact ⟨by simpa using hn, by simp⟩
  case h_4 count r =>
    split at hstep
    case isTrue hr =>
      have h33 (r' : Received) (heq : RcopyEvent.poll (some r) = .poll (some r'))
          (hflag : r'.flag = 33) : pc' = .next .done := by
        obtain rfl : r = r' := by simpa using heq
        rw [hr] at hflag
        cases hflag
      refine ⟨?_, h33⟩
      split at hstep <;> obtain ⟨rfl, rfl⟩ := by simpa using hstep
      · rwa [countP_fileOkAck, Nat.zero_add]
      · simpa using hn
    case isFalse hr =>
      obtain ⟨rfl, rfl⟩ := by simpa using hstep
      obtain ⟨-, hasking⟩ := h'
      refine ⟨by simpa using hn, fun r' heq hflag => absurd hflag ?_⟩
      obtain rfl : r = r' := by simpa using heq
      exact hs.flag_ne hasking hos List.mem_cons_self
  case h_5 => cases hstep

/-- **Such a stream bounds the exchange.** -/
theorem OkOrSilent.bounded (hs : OkOrSilent outcomes) : ExchangeBounded cfg outcomes := by
  intro es pc run hos
  induction run with
  | nil => exact ⟨Nat.zero_le _, by simp⟩
  | @cons es s t ev sends run _ hstep ih =>
    have hheard : heard (⟨s, ev, sends, t⟩ :: es) = ev.outcome.toList ++ heard es := by
      cases ev <;> rfl
    rw [hheard] at hos
    obtain ⟨hle, h33⟩ := ih (take_of_suffix (List.suffix_append _ _) hos)
    obtain ⟨hle', h33'⟩ := hs.step (exchanged_of_run run) hle hstep hos
    rw [requests_cons]
    exact ⟨hle', List.forall_mem_cons.mpr ⟨h33', h33⟩⟩

/-! ## Streams that do not -/

/-- **Some run hears any replies without an ok**, unless they are timeouts up to `DONE`. -/
theorem exists_run_polling (cfg : SetupConfig) (hok : ∀ o ∈ os, notOk o = true)
    (hlen : os.length ≤ MAX_RETRIES) (hne : os ≠ List.replicate MAX_RETRIES none) :
    ∃ es count, Run (exchange cfg) (fun _ _ => True) (.next .start) es (.polling count)
      ∧ heard es = os := by
  have hask : (exchange cfg).step (.next .waitOnFileOk) .run
    = some (.polling 0, [filenameRequest cfg]) := rfl
  induction os with
  | nil =>
    have hstart : (exchange cfg).step (.next .start) .run = some (.next .waitOnFileOk, []) := rfl
    exact ⟨_, 0, (Run.cons .nil trivial hstart).cons trivial hask, rfl⟩
  | cons o os ih =>
    have hmax : MAX_RETRIES = 10 := rfl
    rw [List.length_cons] at hlen
    obtain ⟨ho, hok⟩ := List.forall_mem_cons.mp hok
    obtain ⟨es, count, run, rfl⟩ := ih hok (by omega) fun heq => by simp [heq] at hlen
    cases o with
    | none =>
      have hlt : count + 1 < MAX_RETRIES := by
        obtain ⟨-, hlt, -, hcount, -⟩ := exchanged_of_run run
        by_contra hge
        -- Only nine timeouts and nothing else bring the count to nine.
        have hself := (List.takeWhile_prefix Option.isNone (l := heard es)).eq_of_length_le
          (by omega)
        rw [hself] at hcount
        have hnone := List.takeWhile_eq_self_iff.mp hself
        refine hne (List.eq_replicate_iff.mpr ⟨by rw [List.length_cons]; omega, ?_⟩)
        exact List.forall_mem_cons.mpr ⟨rfl, fun o ho => Option.isNone_iff_eq_none.mp (hnone o ho)⟩
      have hstep : (exchange cfg).step (.polling count) (.poll none)
        = some (.polling (count + 1), [filenameRequest cfg]) := if_pos hlt
      exact ⟨_, _, run.cons trivial hstep, rfl⟩
    | some r =>
      have hr : r.flag ≠ 9 := by simpa [notOk] using ho
      have hstep : (exchange cfg).step (.polling count) (.poll (some r))
        = some (.next .waitOnFileOk, []) := if_neg hr
      exact ⟨_, 0, (run.cons trivial hstep).cons trivial hask, rfl⟩

/-- A reply that is no ok starts `wait_on_file_ok_state` over, whatever it is. -/
theorem exchangeStep_reply {r : Received} {pc' : RcopyPc} {sends : List Send} (hr : r.flag ≠ 9)
    (h : exchangeStep cfg pc (.poll (some r)) = some (pc', sends)) :
    pc' = .next .waitOnFileOk := by
  cases pc with
  | next state => cases state <;> cases h
  | receiving => cases h
  | polling count =>
    have heq : exchangeStep cfg (.polling count) (.poll (some r))
      = some (.next .waitOnFileOk, []) := if_neg hr
    rw [heq] at h
    exact (congrArg Prod.fst (Option.some_inj.mp h)).symm

/-- **A bounded exchange has such a stream.** -/
theorem ExchangeBounded.okOrSilent (h : ExchangeBounded cfg outcomes) : OkOrSilent outcomes := by
  by_cases hnone : beforeOk outcomes = List.replicate MAX_RETRIES none
  · exact .inr hnone
  have hle : (beforeOk outcomes).length ≤ MAX_RETRIES := length_beforeOk_le
  have htake : outcomes.take (beforeOk outcomes).length = beforeOk outcomes := by
    have hpre := List.prefix_iff_eq_take.mp
      (List.takeWhile_prefix notOk (l := outcomes.take MAX_RETRIES))
    rw [take_take_seq] at hpre
    change beforeOk outcomes = outcomes.take (min (beforeOk outcomes).length _) at hpre
    rw [Nat.min_eq_left hle] at hpre
    exact hpre.symm
  have hok (o : Option Received) (ho : o ∈ (beforeOk outcomes).reverse) : notOk o = true :=
    List.mem_takeWhile_imp (List.mem_reverse.mp ho)
  have hne : (beforeOk outcomes).reverse ≠ List.replicate MAX_RETRIES none := fun heq =>
    hnone (by rw [← List.reverse_reverse (beforeOk outcomes), heq, List.reverse_replicate])
  obtain ⟨es, count, run, hheard⟩ := exists_run_polling cfg hok (by rwa [List.length_reverse]) hne
  obtain ⟨hcount, h33⟩ := h es _ run (by rw [hheard, List.length_reverse, List.reverse_reverse,
    htake])
  obtain ⟨hrequests, -⟩ := exchanged_of_run run
  rw [hheard, List.length_reverse] at hrequests
  refine .inl ⟨by omega, fun r hr hflag => ?_⟩
  rw [← List.mem_reverse, ← hheard] at hr
  obtain ⟨⟨s, ev, sends, t⟩, hx, hev⟩ := List.mem_filterMap.mp hr
  obtain rfl : ev = .poll (some r) := by
    cases ev with
    | run => cases hev
    | poll outcome => exact congrArg RcopyEvent.poll (Option.some_inj.mp hev)
  obtain rfl : t = .next .done := h33 _ hx r rfl hflag
  have hstep := (run.edge hx).2.2
  cases exchangeStep_reply (by rw [hflag]; decide) hstep

end Invariant

/-! ## When the exchange is bounded -/

/-- **The exchange of a name is bounded exactly if** an ok, or the end of the outcomes, comes within
ten polls and before any error reply, or the first ten polls find nothing. -/
theorem requests_bounded_iff (cfg : SetupConfig) (outcomes : Seq (Option Received)) :
    ExchangeBounded cfg outcomes ↔ OkOrSilent outcomes :=
  ⟨ExchangeBounded.okOrSilent, OkOrSilent.bounded⟩

/-- `rcopy f t 2 5 0 h 9`, with a server that cannot open `f`. -/
def unknownFile : SetupConfig where
  host := .standard .little
  argv := commandLine [50] [53]
  serverAddr := ⟨1, 9⟩
  fopen := fun _ => none
  creates := fun _ => true
  calloc := fun _ => true

/-- The reply of `filename_state` to its request. -/
def errorReply : Received :=
  safeRecvfrom [] (MAXBUF + 7) ⟨⟨1, 2⟩, createPDU (.standard .little) 0 33 [102]⟩

/-- **Ten error replies are answered with an eleventh request**, and `rcopy` still waits. -/
theorem error_replies_exceed_retries :
    (filenameState unknownFile.host unknownFile.fopen
        (receivedRequest unknownFile.host unknownFile.argv [] ⟨1, 1⟩).buffer
        (receivedRequest unknownFile.host unknownFile.argv [] ⟨1, 1⟩).bytesRecv
        (.ofClient ⟨1, 1⟩)).map (fun x => x.2.2)
      = .ok [⟨⟨1, 1⟩, createPDU (.standard .little) 0 33 [102]⟩]
    ∧ ¬ ∀ (cfg : SetupConfig) (outcomes : Seq (Option Received)),
      ExchangeBounded cfg outcomes := by
  have hflag : errorReply.flag = 33 := flag_safeRecvfrom _ _ _ _ _ _ (by decide)
  refine ⟨by decide +kernel, fun h => ?_⟩
  have hok : ∀ o ∈ List.replicate 10 (some errorReply), notOk o = true := by
    intro o ho
    rw [List.eq_of_mem_replicate ho]
    simp [notOk, hflag]
  obtain ⟨es, count, run, hheard⟩ := exists_run_polling unknownFile hok le_rfl
    (by simp [MAX_RETRIES])
  obtain ⟨hrequests, -⟩ := exchanged_of_run run
  have hbound := (h unknownFile (Seq.ofList (heard es).reverse) es _ run (by rw [hheard]; rfl)).1
  rw [hrequests, hheard] at hbound
  exact absurd hbound (by decide)

end RemoteFileCopy
