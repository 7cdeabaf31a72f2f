import RemoteFileCopy.Library.Channel
import RemoteFileCopy.System.Wiring

/-!
# System/Restriction — one `rcopy` among many is one alone

    World site ──── only i ────▸ World (site.only i)

What the whole has for one `rcopy` — itself, the children that answer its sockets, the requests
forked for it and the datagrams to and from it — is a whole of its own.  A step of the others does
not change it, and a step of its own is a step there (`Wired.step_only`): so every run of any number
of `rcopy`s is, for each of them, a run of that one alone, and every run alone is one among others
(`World.exists_run_only`, `World.exists_run_among`).
-/

namespace RemoteFileCopy

open Transition

/-- The same server, and one `rcopy`. -/
@[reducible] def Site.only {ι : Type} (site : Site ι) (i : ι) : Site Unit where
  host := site.host
  serverAddr := site.serverAddr
  fopen := site.fopen
  rcopy _ := site.rcopy i

/-- The datagram is on its way to or from one of these addresses. -/
def Flight.Meets (ps : List SockAddr) (f : Flight) : Prop := f.datagram.srcAddr ∈ ps ∨ f.dest ∈ ps

instance (ps : List SockAddr) : DecidablePred (Flight.Meets ps) := fun _ =>
  inferInstanceAs (Decidable (_ ∨ _))

namespace World

variable {ι : Type} {site : Site ι} {w w' : World site} {i j : ι} {a p : SockAddr}
  {sends : List Send}

/-! ## What belongs to an `rcopy` -/

/-- **What the whole has for one `rcopy`.** -/
def only (w : World site) (i : ι) : World (site.only i) where
  rcopy _ := w.rcopy i
  forked := w.forked.filter fun r => r.srcAddr ∈ (w.rcopy i).sockets
  children a := (w.children a).filter fun c => c.clientAddr ∈ (w.rcopy i).sockets
  inFlight := w.inFlight.filter (Flight.Meets (w.rcopy i).sockets)

theorem only_eq_of {v : World (site.only i)} (ps : List SockAddr) (hr : w.rcopy i = v.rcopy ())
    (hps : (v.rcopy ()).sockets = ps)
    (hforked : (w.forked.filter fun r => r.srcAddr ∈ ps) = v.forked)
    (hchildren : ∀ a, ((w.children a).filter fun c => c.clientAddr ∈ ps) = v.children a)
    (hflight : w.inFlight.filter (Flight.Meets ps) = v.inFlight) : w.only i = v := by
  obtain rfl := hps
  simp only [← hr] at hforked hchildren hflight
  obtain ⟨rcopy, forked, children, inFlight⟩ := v
  obtain rfl : (fun _ => w.rcopy i) = rcopy := funext fun _ => hr
  obtain rfl := hforked
  obtain rfl := hflight
  obtain rfl : (fun a => _) = children := funext hchildren
  rfl

theorem only_enter (site : Site ι) (i : ι) : (enter site).only i = enter (site.only i) :=
  only_eq_of [] rfl rfl rfl (fun _ => rfl) rfl

theorem Fresh.only (h : w.Fresh a) : (w.only i).Fresh a :=
  ⟨h.1, fun _ => h.2.1 i, by simp [World.only, h.2.2]⟩

/-- **A datagram in flight belongs to one `rcopy`**, its other end being the server's or a
child's. -/
theorem Wired.exists_owner (h : w.Wired) {f : Flight} (hf : f ∈ w.inFlight) :
    ∃ i, f.Meets (w.rcopy i).sockets ∧ ∀ j, f.Meets (w.rcopy j).sockets → j = i := by
  have socket : ∀ {x : SockAddr} {i : ι}, x ∈ (w.rcopy i).sockets → ∀ j,
      x ∈ (w.rcopy j).sockets → j = i := fun hx => (h.socket _ _ hx).2.2
  have child : ∀ {x : SockAddr} {c : ProcessClient} {j : ι}, w.children x = some c →
      x ∉ (w.rcopy j).sockets := fun hc hx => h.ne_of_child hx hc rfl
  cases h.flight f hf with
  | request i hsrc hdest =>
    exact ⟨i, .inl hsrc, fun j hj => hj.elim (socket hsrc j)
      fun hd => absurd hdest (h.socket j _ hd).1⟩
  | reply c hc hdest =>
    obtain ⟨-, i, hi, -⟩ := h.child _ c hc
    rw [← hdest] at hi
    exact ⟨i, .inr hi, fun j hj => hj.elim (fun hs => absurd hs (child hc)) (socket hi j)⟩
  | answer k c haccepted hc hsrc =>
    obtain ⟨-, i, hi, -⟩ := h.child _ c hc
    rw [← hsrc] at hi
    exact ⟨i, .inl hi, fun j hj => hj.elim (socket hi j) fun hd => absurd hd (child hc)⟩

/-- What belongs to one belongs to no other. -/
theorem Wired.not_meets (h : w.Wired) {f : Flight} (hf : f ∈ w.inFlight)
    (hi : f.Meets (w.rcopy i).sockets) (hj : j ≠ i) : ¬ f.Meets (w.rcopy j).sockets := by
  obtain ⟨k, -, hk⟩ := h.exists_owner hf
  exact fun hjf => hj ((hk j hjf).trans (hk i hi).symm)

/-- Nobody has anything to do with a fresh address. -/
theorem Wired.untouched (hw : w.Wired) (ha : w.Fresh a) :
    (∀ b c, w.children b = some c → c.clientAddr ≠ a) ∧ (∀ r ∈ w.forked, r.srcAddr ≠ a)
      ∧ ∀ f ∈ w.inFlight, f.datagram.srcAddr ≠ a ∧ f.dest ≠ a := by
  obtain ⟨hserver, hsockets, hnone⟩ := ha
  have hchild : ∀ b c, w.children b = some c → c.clientAddr ≠ a ∧ b ≠ a := by
    intro b c hc
    obtain ⟨-, j, hj, -⟩ := hw.child b c hc
    refine ⟨fun heq => hsockets j (heq ▸ hj), fun heq => ?_⟩
    rw [heq, hnone] at hc
    cases hc
  refine ⟨fun b c hc => (hchild b c hc).1, fun r hr heq => ?_, fun f hf => ?_⟩
  · obtain ⟨j, hj, -⟩ := hw.forked r hr
    exact hsockets j (heq ▸ hj)
  · cases hw.flight f hf with
    | request j hsrc hdest =>
      exact ⟨fun heq => hsockets j (heq ▸ hsrc), fun heq => hserver (heq.symm.trans hdest)⟩
    | reply c hc hdest => exact ⟨(hchild _ c hc).2, hdest ▸ (hchild _ c hc).1⟩
    | answer j c _ hc hsrc => exact ⟨hsrc ▸ (hchild _ c hc).1, (hchild _ c hc).2⟩

/-! ## What the others do -/

/-- What the others send is not for this one. -/
theorem filter_append_of_not {fs gs : List Flight} {ps : List SockAddr}
    (h : ∀ g ∈ gs, ¬ g.Meets ps) :
    (fs ++ gs).filter (Flight.Meets ps) = fs.filter (Flight.Meets ps) := by
  rw [List.filter_append, List.append_right_eq_self, List.filter_eq_nil_iff]
  exact fun g hg hmeets => h g hg (of_decide_eq_true hmeets)

theorem only_setRcopy_of_ne [DecidableEq ι] (hj : j ≠ i)
    {q : RcopyProcess (site.rcopy j).slots} (hw' : (w.setRcopy j q sends).Wired) :
    (w.setRcopy j q sends).only i = w.only i := by
  have hi : (w.setRcopy j q sends).rcopy i = w.rcopy i := rcopy_setRcopy_of_ne hj.symm
  have hself : (w.setRcopy j q sends).rcopy j = q := rcopy_setRcopy_self
  refine only_eq_of (w.rcopy i).sockets hi rfl rfl (fun _ => rfl)
    (filter_append_of_not fun f hf => ?_)
  have hmeets : f.Meets ((w.setRcopy j q sends).rcopy j).sockets := by
    rw [hself]
    cases hq : q.sockets.head? with
    | none => simp [hq] at hf
    | some b =>
      rw [hq] at hf
      obtain ⟨m, -, rfl⟩ := mem_sendFrom.mp hf
      exact .inl (List.mem_of_mem_head? hq)
  have hnot := hw'.not_meets (List.mem_append_right _ hf) hmeets hj.symm
  rwa [hi] at hnot

theorem only_setChild_of_not_mem (hw : w.Wired) {c c' : ProcessClient}
    (hchild : w.children a = some c) (hother : c.clientAddr ∉ (w.rcopy i).sockets)
    (haddr : c'.clientAddr = c.clientAddr) (hsends : ∀ m ∈ sends, m.dest = c.clientAddr) :
    (w.setChild a c' sends).only i = w.only i := by
  refine only_eq_of (w.rcopy i).sockets rfl rfl rfl (fun b => ?_)
    (filter_append_of_not fun f hf hmeets => ?_)
  · have hnone : ∀ d : ProcessClient, d.clientAddr = c.clientAddr →
        (some d).filter (fun c => decide (c.clientAddr ∈ (w.rcopy i).sockets)) = none := by
      intro d hd
      rw [Option.filter_some_neg]
      exact decide_eq_false (hd ▸ hother)
    simp only [World.setChild, World.only, Function.update_apply]
    split
    case isFalse => rfl
    case isTrue hb => rw [hb, hchild, hnone _ haddr, hnone _ rfl]
  · obtain ⟨m, hm, rfl⟩ := mem_sendFrom.mp hf
    rcases hmeets with hmem | hmem
    · exact hw.ne_of_child hmem hchild rfl
    · exact hother (hsends m hm ▸ hmem)

theorem only_without_of_not {k : ℕ} {f : Flight} (hk : w.inFlight[k]? = some f)
    (hf : ¬ f.Meets (w.rcopy i).sockets) : (w.without k).only i = w.only i :=
  only_eq_of (w.rcopy i).sockets rfl rfl rfl (fun _ => rfl) (Channel.filter_eraseIdx_of_not hk hf)

theorem only_accept_of_not_mem {r : Received} (hr : r.srcAddr ∉ (w.rcopy i).sockets) :
    (w.accept r).only i = w.only i := by
  rw [World.accept]
  split
  case isFalse => rfl
  case isTrue =>
    refine only_eq_of (w.rcopy i).sockets rfl rfl ?_ (fun _ => rfl) rfl
    change List.filter _ (w.forked ++ [r]) = List.filter _ w.forked
    rw [List.filter_append, List.append_right_eq_self, List.filter_eq_nil_iff]
    simpa [only] using hr

theorem only_fork_of_not_mem {k : ℕ} {r : Received} (hk : w.forked[k]? = some r)
    (hr : r.srcAddr ∉ (w.rcopy i).sockets) (hnone : w.children a = none) :
    only { w with
      forked := w.forked.eraseIdx k
      children := Function.update w.children a (some (.start r)) } i = w.only i := by
  refine only_eq_of (w.rcopy i).sockets rfl rfl (Channel.filter_eraseIdx_of_not hk hr)
    (fun b => ?_) rfl
  simp only [World.only, Function.update_apply]
  split
  case isFalse => rfl
  case isTrue hb =>
    rw [hb, hnone, Option.filter_none, Option.filter_some_neg]
    exact decide_eq_false hr

/-! ## What it does itself -/

/-- What is sent from one of its sockets is its own. -/
theorem filter_sendFrom {fs : List Flight} {ps : List SockAddr} {b : SockAddr}
    (hb : b ∈ ps) : (fs ++ sendFrom b sends).filter (Flight.Meets ps)
      = fs.filter (Flight.Meets ps) ++ sendFrom b sends := by
  rw [List.filter_append, List.append_cancel_left_eq, List.filter_eq_self]
  intro f hf
  obtain ⟨m, -, rfl⟩ := mem_sendFrom.mp hf
  exact decide_eq_true (.inl hb)

theorem only_setRcopy [DecidableEq ι] (hw : w.Wired) {q : RcopyProcess (site.rcopy i).slots}
    (hsockets : q.sockets = (w.rcopy i).sockets
      ∨ ∃ a, w.Fresh a ∧ q.sockets = a :: (w.rcopy i).sockets) :
    (w.setRcopy i q sends).only i = (w.only i).setRcopy () q sends := by
  have hself : (w.setRcopy i q sends).rcopy i = q := rcopy_setRcopy_self
  have hself' : ((w.only i).setRcopy () q sends).rcopy () = q := by
    simp only [World.setRcopy, Function.update_self]
  -- a socket that has just been opened adds nothing to what there is
  have mem : ∀ {x : SockAddr}, (∀ a, w.Fresh a → x ≠ a) →
      (x ∈ q.sockets ↔ x ∈ (w.rcopy i).sockets) := by
    intro x hx
    rcases hsockets with hq | ⟨a, ha, hq⟩
    · rw [hq]
    · rw [hq, List.mem_cons, or_iff_right (hx a ha)]
  refine only_eq_of q.sockets (hself.trans hself'.symm) (by rw [hself']) ?_ (fun b => ?_) ?_
  · refine List.filter_congr fun r hr => decide_eq_decide.mpr (mem fun a ha heq => ?_)
    exact (hw.untouched ha).2.1 r hr heq
  · change Option.filter _ (w.children b) = Option.filter _ (w.children b)
    cases hc : w.children b with
    | none => rfl
    | some c =>
      have := mem fun a ha heq => (hw.untouched ha).1 b c hc heq
      simp only [Option.filter_some, this]
  · have hold : w.inFlight.filter (Flight.Meets q.sockets) = (w.only i).inFlight := by
      refine List.filter_congr fun f hf => decide_eq_decide.mpr (or_congr ?_ ?_)
      · exact mem fun a ha heq => ((hw.untouched ha).2.2 f hf).1 heq
      · exact mem fun a ha heq => ((hw.untouched ha).2.2 f hf).2 heq
    change List.filter _ (w.inFlight ++ _) = (w.only i).inFlight ++ _
    cases hq : q.sockets.head? with
    | none => simp only [Option.elim_none, List.append_nil, hold]
    | some b =>
      simp only [Option.elim_some]
      rw [filter_sendFrom (List.mem_of_mem_head? hq), hold]

theorem only_setChild {c c' : ProcessClient} (hmem : c.clientAddr ∈ (w.rcopy i).sockets)
    (haddr : c'.clientAddr = c.clientAddr) (hsends : ∀ m ∈ sends, m.dest = c.clientAddr) :
    (w.setChild a c' sends).only i = (w.only i).setChild a c' sends := by
  refine only_eq_of (w.rcopy i).sockets rfl rfl rfl (fun b => ?_) ?_
  · simp only [World.setChild, Function.update_apply]
    split
    case isFalse => rfl
    case isTrue =>
      rw [Option.filter_some_pos]
      exact decide_eq_true (haddr ▸ hmem)
  · change List.filter _ (w.inFlight ++ _) = (w.only i).inFlight ++ _
    rw [List.filter_append]
    congr 1
    rw [List.filter_eq_self]
    intro f hf
    obtain ⟨m, hm, rfl⟩ := mem_sendFrom.mp hf
    exact decide_eq_true (.inr (hsends m hm ▸ hmem))

theorem exists_only_without {k : ℕ} {f : Flight} (hk : w.inFlight[k]? = some f)
    (hf : f.Meets (w.rcopy i).sockets) :
    ∃ l, (w.only i).inFlight[l]? = some f ∧ (w.without k).only i = (w.only i).without l := by
  obtain ⟨l, hl, herase⟩ := Channel.exists_filter_eraseIdx hk hf
  exact ⟨l, hl, only_eq_of (w.rcopy i).sockets rfl rfl rfl (fun _ => rfl) herase⟩

theorem only_accept {r : Received} (hr : r.srcAddr ∈ (w.rcopy i).sockets) :
    (w.accept r).only i = (w.only i).accept r := by
  rw [World.accept, World.accept]
  split
  case isFalse => rfl
  case isTrue =>
    refine only_eq_of (w.rcopy i).sockets rfl rfl ?_ (fun _ => rfl) rfl
    change List.filter _ (w.forked ++ [r]) = List.filter _ w.forked ++ [r]
    rw [List.filter_append]
    congr 1
    simpa using hr

theorem exists_only_fork {k : ℕ} {r : Received} (hk : w.forked[k]? = some r)
    (hr : r.srcAddr ∈ (w.rcopy i).sockets) :
    ∃ l, (w.only i).forked[l]? = some r ∧ only { w with
      forked := w.forked.eraseIdx k
      children := Function.update w.children a (some (.start r)) } i = { w.only i with
      forked := (w.only i).forked.eraseIdx l
      children := Function.update (w.only i).children a (some (.start r)) } := by
  obtain ⟨l, hl, herase⟩ := Channel.exists_filter_eraseIdx
    (P := fun r : Received => r.srcAddr ∈ (w.rcopy i).sockets) hk hr
  refine ⟨l, hl, only_eq_of (w.rcopy i).sockets rfl rfl herase (fun b => ?_) rfl⟩
  simp only [Function.update_apply]
  split
  case isFalse => rfl
  case isTrue =>
    rw [Option.filter_some_pos]
    exact decide_eq_true hr

/-! ## One step -/

section Step

variable [DecidableEq ι]

/-- Nothing has changed for `rcopy i`, or it has taken this step. -/
def StepsAlone (w w' : World site) (i : ι) (sends : List Send) : Prop :=
  w'.only i = w.only i
    ∨ ∃ ev, (w.only i).Opens ev ∧ (w.only i).step ev = some (w'.only i, sends)

theorem only_rcopyStep_of_ne (hij : i ≠ j) (hw' : w'.Wired) {act : RcopyAct}
    (hs : w.rcopyStep j act = some (w', sends)) : w'.only i = w.only i := by
  obtain ⟨q, -, rfl⟩ := rcopyStep_eq_some hs
  exact only_setRcopy_of_ne hij.symm hw'

theorem only_rcopyStep (hw : w.Wired) {act : RcopyAct} (hs : w.rcopyStep i act = some (w', sends))
    (hfresh : ∀ b, act = .run b ∨ act = .timeout b → w.Fresh b) :
    (w.only i).rcopyStep () act = some (w'.only i, sends) := by
  obtain ⟨q, hstep, rfl⟩ := rcopyStep_eq_some hs
  have hsockets : q.sockets = (w.rcopy i).sockets
      ∨ ∃ b, w.Fresh b ∧ q.sockets = b :: (w.rcopy i).sockets := by
    cases RcopyProcess.step_cases hstep with
    | attempt hasks act b hact => exact .inr ⟨b, hfresh b hact, rfl⟩
    | started | gaveUp | accepted | refused | entered | turn => exact .inl rfl
  rw [only_setRcopy hw hsockets]
  exact Option.map_eq_some_iff.mpr ⟨(q, sends), hstep, rfl⟩

omit [DecidableEq ι] in
theorem only_childStep (hw : w.Wired) {ev : ServerEvent} (hs : w.childStep a ev = some (w', sends))
    {c : ProcessClient} (hchild : w.children a = some c)
    (hsrc : ∀ stale d, ev = .receive stale d → d.srcAddr = c.clientAddr) (i : ι) :
    (c.clientAddr ∉ (w.rcopy i).sockets → w'.only i = w.only i)
      ∧ (c.clientAddr ∈ (w.rcopy i).sockets →
        (w.only i).childStep a ev = some (w'.only i, sends)) := by
  obtain ⟨d, c', hd, hstep, rfl⟩ := childStep_eq_some hs
  obtain rfl := Option.some_inj.mp (hchild.symm.trans hd)
  obtain ⟨-, j, -, hserves, -⟩ := hw.child a c hchild
  obtain ⟨haddr, -, -, hsends⟩ := ProcessClient.step_wired hstep hsrc hserves
  have hdest : ∀ m ∈ sends, m.dest = c.clientAddr := fun m hm => (hsends m hm).1
  refine ⟨fun hmem => only_setChild_of_not_mem hw hchild hmem haddr hdest, fun hmem => ?_⟩
  have hchild' : (w.only i).children a = some c := by
    change (w.children a).filter _ = some c
    rw [hchild, Option.filter_some_pos]
    exact decide_eq_true hmem
  rw [World.childStep, hchild', Option.bind_some, only_setChild hmem haddr hdest]
  exact Option.map_eq_some_iff.mpr ⟨(c', sends), hstep, rfl⟩

omit [DecidableEq ι] in
/-- Where it is alone, the same datagram is delivered. -/
theorem StepsAlone.of_deliver (receiver : Receiver Unit) (stale : Bytes) {f : Flight} {l : ℕ}
    (hl : (w.only i).inFlight[l]? = some f)
    (hs : ((w.only i).without l).deliver f stale receiver = some (w'.only i, sends)) :
    StepsAlone w w' i sends := by
  refine .inr ⟨.deliver receiver l stale, trivial, ?_⟩
  simp only [World.step, hl, Option.bind_some, hs]

section Deliver

variable {k : ℕ} {f : Flight} {stale : Bytes} (hw : w.Wired) (hk : w.inFlight[k]? = some f)
include hw hk

omit [DecidableEq ι] in
/-- **What the accept loop hears** is from one `rcopy`. -/
theorem only_accepted (hdest : f.dest = site.serverAddr) (i : ι) :
    StepsAlone w ((w.without k).accept (safeRecvfrom stale MAXBUF f.datagram)) i [] := by
  by_cases hsrc : f.datagram.srcAddr ∈ (w.rcopy i).sockets
  · obtain ⟨l, hl, hwithout⟩ := exists_only_without (i := i) hk (.inl hsrc)
    refine .of_deliver .acceptLoop stale hl ?_
    rw [World.deliver, if_pos hdest, only_accept (w := w.without k) hsrc, hwithout]
  · have hnot : ¬ f.Meets (w.rcopy i).sockets := by
      rintro (h | h)
      · exact hsrc h
      · exact (hw.socket i _ h).1 hdest
    exact .inl ((only_accept_of_not_mem (w := w.without k) hsrc).trans
      (only_without_of_not hk hnot))

/-- **What an `rcopy` hears** is for it alone. -/
theorem only_heard (hw' : w'.Wired) (hhead : (w.rcopy j).sockets.head? = some f.dest)
    (hs : (w.without k).rcopyStep j (.receive stale f.datagram) = some (w', sends)) (i : ι) :
    StepsAlone w w' i sends := by
  have hmeets : f.Meets (w.rcopy j).sockets := .inr (List.mem_of_mem_head? hhead)
  rcases eq_or_ne i j with rfl | hij
  · obtain ⟨l, hl, hwithout⟩ := exists_only_without hk hmeets
    refine .of_deliver (.rcopy ()) stale hl ?_
    have hown := only_rcopyStep (hw.without k) hs (by simp)
    rw [World.deliver, ← hwithout]
    exact (if_pos hhead).trans hown
  · exact .inl ((only_rcopyStep_of_ne hij hw' hs).trans
      (only_without_of_not hk (hw.not_meets (List.mem_of_getElem? hk) hmeets hij)))

omit [DecidableEq ι] in
/-- **What a child hears** is from its `rcopy`. -/
theorem only_childHeard
    (hs : (w.without k).childStep f.dest (.receive stale f.datagram) = some (w', sends)) (i : ι) :
    StepsAlone w w' i sends := by
  obtain ⟨c, -, hchild, -⟩ := childStep_eq_some hs
  have hsrc := (hw.heard_by_child (List.mem_of_getElem? hk) hchild).1
  obtain ⟨hother, hown⟩ := only_childStep (hw.without k) hs hchild
    (fun _ _ hev => by cases hev; exact hsrc) i
  by_cases hmem : c.clientAddr ∈ (w.rcopy i).sockets
  · obtain ⟨l, hl, hwithout⟩ := exists_only_without (i := i) hk (.inl (hsrc ▸ hmem))
    refine .of_deliver .child stale hl ?_
    rw [World.deliver, ← hwithout]
    exact hown hmem
  · refine .inl ((hother hmem).trans (only_without_of_not hk ?_))
    rintro (h | h)
    · exact hmem (hsrc ▸ h)
    · exact hw.ne_of_child h hchild rfl

end Deliver

/-- **A step of the whole is one of an `rcopy` alone**, or nothing to it. -/
theorem Wired.step_only (hw : w.Wired) {ev : WorldEvent ι} (hopens : w.Opens ev)
    (hs : w.step ev = some (w', sends)) (i : ι) : StepsAlone w w' i sends := by
  have hw' : w'.Wired := hw.step hopens hs
  cases step_cases hs with
  | run j b hs =>
    rcases eq_or_ne i j with rfl | hij
    · refine .inr ⟨.run () b, Fresh.only hopens, only_rcopyStep hw hs fun c hc => ?_⟩
      obtain rfl : b = c := by simpa using hc
      exact hopens
    · exact .inl (only_rcopyStep_of_ne hij hw' hs)
  | timeout j b hs =>
    rcases eq_or_ne i j with rfl | hij
    · refine .inr ⟨.timeout () b, Fresh.only hopens, only_rcopyStep hw hs fun c hc => ?_⟩
      obtain rfl : b = c := by simpa using hc
      exact hopens
    · exact .inl (only_rcopyStep_of_ne hij hw' hs)
  | @fork k b r hr =>
    by_cases hmem : r.srcAddr ∈ (w.rcopy i).sockets
    · obtain ⟨l, hl, hfork⟩ := exists_only_fork (i := i) (a := b) hr hmem
      refine .inr ⟨.fork l b, Fresh.only hopens, ?_⟩
      rw [World.step, hl, Option.map_some, hfork]
    · exact .inl (only_fork_of_not_mem hr hmem hopens.2.2)
  | childRun b hs =>
    obtain ⟨c, -, hchild, -⟩ := childStep_eq_some hs
    obtain ⟨hother, hown⟩ := only_childStep hw hs hchild (by simp) i
    by_cases hmem : c.clientAddr ∈ (w.rcopy i).sockets
    · exact .inr ⟨.childRun b, trivial, hown hmem⟩
    · exact .inl (hother hmem)
  | childQuiet b hs =>
    obtain ⟨c, -, hchild, -⟩ := childStep_eq_some hs
    obtain ⟨hother, hown⟩ := only_childStep hw hs hchild (by simp) i
    by_cases hmem : c.clientAddr ∈ (w.rcopy i).sockets
    · exact .inr ⟨.childQuiet b, trivial, hown hmem⟩
    · exact .inl (hother hmem)
  | accept hk hdest => exact only_accepted hw hk hdest i
  | hear j hk hhead hs => exact only_heard hw hk hw' hhead hs i
  | childHear hk hs => exact only_childHeard hw hk hs i
  | @lose k f hk =>
    by_cases hf : f.Meets (w.rcopy i).sockets
    · obtain ⟨l, hl, hwithout⟩ := exists_only_without hk hf
      refine .inr ⟨.lose l, trivial, ?_⟩
      rw [World.step, hl, Option.map_some, hwithout]
    · exact .inl (only_without_of_not hk hf)
  | @duplicate k f hk =>
    by_cases hf : f.Meets (w.rcopy i).sockets
    · obtain ⟨l, hl, -⟩ := exists_only_without hk hf
      refine .inr ⟨.duplicate l, trivial, ?_⟩
      have honly : only { w with inFlight := w.inFlight ++ [f] } i
          = { w.only i with inFlight := (w.only i).inFlight ++ [f] } := by
        refine only_eq_of (w.rcopy i).sockets rfl rfl rfl (fun _ => rfl) ?_
        rw [List.filter_append, List.filter_cons_of_pos (by simpa using hf)]
        rfl
      rw [World.step, hl, Option.map_some, honly]
    · refine .inl (only_eq_of (w.rcopy i).sockets rfl rfl rfl (fun _ => rfl)
        (filter_append_of_not ?_))
      simpa using hf

/-! ## Whole runs -/

/-- **Among others an `rcopy` runs as if it were alone**: its own part of a run is a run, and what
is sent there was sent in the same order. -/
theorem exists_run_only {es : List (Edge (World site) (WorldEvent ι) (List Send))}
    (run : Run (machine site) Opens (enter site) es w) (i : ι) :
    ∃ es', Run (machine (site.only i)) Opens (enter (site.only i)) es' (w.only i)
      ∧ (es'.map Edge.output).Sublist (es.map Edge.output) := by
  induction run with
  | nil => exact ⟨[], only_enter site i ▸ .nil, .slnil⟩
  | @cons es w w' ev sends run hopens hs ih =>
    obtain ⟨es', run', hsub⟩ := ih
    rcases (wired_of_run run).step_only hopens hs i with h | ⟨ev', hopens', hs'⟩
    · exact ⟨es', h ▸ run', hsub.cons _⟩
    · exact ⟨_, run'.cons hopens' hs', hsub.cons_cons _⟩

end Step

/-! ## Among others that wait -/

section Among

variable [DecidableEq ι] (site) (i)

/-- **The whole where the others have yet to start.** -/
def among (v : World (site.only i)) : World site where
  rcopy := Function.update (enter site).rcopy i (v.rcopy ())
  forked := v.forked
  children := v.children
  inFlight := v.inFlight

variable {site i} {v v' : World (site.only i)}

theorem rcopy_among (v : World (site.only i)) : (among site i v).rcopy i = v.rcopy () :=
  Function.update_self _ _ _

theorem rcopy_among_of_ne (v : World (site.only i)) (hj : j ≠ i) :
    (among site i v).rcopy j = .enter (site.rcopy j) :=
  Function.update_of_ne hj _ _

theorem Fresh.among (h : v.Fresh a) : (World.among site i v).Fresh a := by
  refine ⟨h.1, fun j => ?_, h.2.2⟩
  rcases eq_or_ne j i with rfl | hj
  · rw [rcopy_among]
    exact h.2.1 ()
  · rw [rcopy_among_of_ne v hj]
    exact List.not_mem_nil

theorem rcopyStep_among {act : RcopyAct} (hs : v.rcopyStep () act = some (v', sends)) :
    (among site i v).rcopyStep i act = some (among site i v', sends) := by
  obtain ⟨q, hstep, rfl⟩ := rcopyStep_eq_some hs
  refine Option.map_eq_some_iff.mpr ⟨(q, sends), by rw [rcopy_among]; exact hstep, ?_⟩
  simp only [setRcopy, among, Function.update_idem, Function.update_self]

theorem childStep_among {ev : ServerEvent} (hs : v.childStep a ev = some (v', sends)) :
    (among site i v).childStep a ev = some (among site i v', sends) := by
  obtain ⟨c, c', hchild, hstep, rfl⟩ := childStep_eq_some hs
  exact Option.bind_eq_some_iff.mpr
    ⟨c, hchild, Option.map_eq_some_iff.mpr ⟨(c', sends), hstep, rfl⟩⟩

/-- **A step alone is one among others.** -/
theorem step_among {ev : WorldEvent Unit} (hopens : v.Opens ev)
    (hs : v.step ev = some (v', sends)) : ∃ ev', (among site i v).Opens ev'
      ∧ (among site i v).step ev' = some (among site i v', sends) := by
  cases step_cases hs with
  | run _ b hs => exact ⟨.run i b, Fresh.among hopens, rcopyStep_among hs⟩
  | timeout _ b hs => exact ⟨.timeout i b, Fresh.among hopens, rcopyStep_among hs⟩
  | @fork k b r hr =>
    exact ⟨.fork k b, Fresh.among hopens, Option.map_eq_some_iff.mpr ⟨r, hr, rfl⟩⟩
  | childRun b hs => exact ⟨.childRun b, trivial, childStep_among hs⟩
  | childQuiet b hs => exact ⟨.childQuiet b, trivial, childStep_among hs⟩
  | @accept k stale f hk hdest =>
    refine ⟨.deliver .acceptLoop k stale, trivial, Option.bind_eq_some_iff.mpr ⟨f, hk, ?_⟩⟩
    refine (if_pos hdest).trans ?_
    simp only [World.accept]
    split <;> rfl
  | @hear _ k stale f _ hk hhead hs =>
    refine ⟨.deliver (.rcopy i) k stale, trivial, Option.bind_eq_some_iff.mpr ⟨f, hk, ?_⟩⟩
    refine (if_pos ?_).trans (rcopyStep_among hs)
    have hsame : ((among site i v).without k).rcopy i = v.rcopy () := rcopy_among v
    rw [hsame]
    exact hhead
  | @childHear k stale f _ hk hs =>
    exact ⟨.deliver .child k stale, trivial,
      Option.bind_eq_some_iff.mpr ⟨f, hk, childStep_among hs⟩⟩
  | @lose k f hk => exact ⟨.lose k, trivial, Option.map_eq_some_iff.mpr ⟨f, hk, rfl⟩⟩
  | @duplicate k f hk =>
    exact ⟨.duplicate k, trivial, Option.map_eq_some_iff.mpr ⟨f, hk, rfl⟩⟩

theorem among_enter : among site i (enter (site.only i)) = enter site := by
  simp only [among, enter, World.mk.injEq, and_true]
  exact Function.update_eq_self i _

theorem exists_run_among {es : List (Edge (World (site.only i)) (WorldEvent Unit) (List Send))}
    (run : Run (machine (site.only i)) Opens (enter (site.only i)) es v) :
    ∃ es', Run (machine site) Opens (enter site) es' (among site i v) := by
  induction run with
  | nil => exact ⟨[], (among_enter : among site i _ = _) ▸ .nil⟩
  | cons _ hopens hs ih =>
    obtain ⟨es', run'⟩ := ih
    obtain ⟨ev', hopens', hs'⟩ := step_among hopens hs
    exact ⟨_, run'.cons hopens' hs'⟩

/-- Where there is nobody else, everything is for the one there is. -/
theorem only_among (hv : v.Wired) : (among site i v).only i = v := by
  have hsockets : ∀ {p : SockAddr} {u : Unit}, p ∈ (v.rcopy u).sockets → p ∈ (v.rcopy ()).sockets :=
    fun h => h
  refine only_eq_of (v.rcopy ()).sockets (rcopy_among v) rfl ?_ (fun b => ?_) ?_
  · refine List.filter_eq_self.mpr fun r hr => ?_
    obtain ⟨u, hu, -⟩ := hv.forked r hr
    exact decide_eq_true (hsockets hu)
  · change (v.children b).filter _ = v.children b
    cases hc : v.children b with
    | none => rfl
    | some c =>
      obtain ⟨-, u, hu, -⟩ := hv.child b c hc
      rw [Option.filter_some_pos]
      exact decide_eq_true (hsockets hu)
  · refine List.filter_eq_self.mpr fun f hf => ?_
    obtain ⟨u, hu, -⟩ := hv.exists_owner hf
    exact decide_eq_true hu

/-- **What an `rcopy` can come to among others is what it can come to alone** — it, the children
that answer it and all that is in flight between them. -/
theorem reachable_only_iff (site : Site ι) (i : ι) (v : World (site.only i)) :
    (∃ w, Reachable (machine site) Opens (enter site) w ∧ w.only i = v)
      ↔ Reachable (machine (site.only i)) Opens (enter (site.only i)) v := by
  constructor
  · rintro ⟨w, ⟨es, run⟩, rfl⟩
    obtain ⟨es', run', -⟩ := exists_run_only run i
    exact ⟨es', run'⟩
  · rintro ⟨es, run⟩
    obtain ⟨es', run'⟩ := exists_run_among run
    exact ⟨_, ⟨es', run'⟩, only_among (wired_of_run run)⟩

end Among

end World

end RemoteFileCopy
