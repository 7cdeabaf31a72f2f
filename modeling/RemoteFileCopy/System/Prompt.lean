import RemoteFileCopy.Library.Channel
import RemoteFileCopy.System.Links

/-!
# System/Prompt — a network that loses nothing and is never late

Between any two addresses the datagrams arrive in the order they were sent in, and none is lost but
what comes for an `rcopy` that has ended.  No poll of an `rcopy` times out, and a poll of a child
that waits times out only when nothing is on its way to it or from it (`World.Prompt`).

What is in flight from one address to another is a channel (`World.channel`).
-/

namespace RemoteFileCopy

open Transition
open Channel (Oldest)

/-- The child is in the drain loop, whose polls do not wait. -/
def ProcessClient.draining : ProcessClient → Bool
  | .transfer σ => σ.pc = .drain
  | _ => false

/-- The `rcopy` has ended, or has acknowledged the EOF. -/
def RcopyProcess.Ended {W : ℕ} (p : RcopyProcess W) : Prop :=
  p.pc = .next .done ∨ p.data.pc = .done

instance {W : ℕ} (p : RcopyProcess W) : Decidable p.Ended := inferInstanceAs (Decidable (_ ∨ _))

/-- The datagram is on its way from one address to another. -/
def Flight.IsOn (src dest : SockAddr) (f : Flight) : Prop :=
  f.datagram.srcAddr = src ∧ f.dest = dest

instance (src dest : SockAddr) : DecidablePred (Flight.IsOn src dest) := fun _ =>
  inferInstanceAs (Decidable (_ ∧ _))

namespace World

variable {ι : Type} {site : Site ι} {w : World site} {src dest : SockAddr} {k : ℕ} {f : Flight}

/-! ## The guard -/

/-- Datagram `k` in flight is the oldest between its two addresses. -/
def OldestAt (w : World site) (k : ℕ) : Prop :=
  ∀ f ∈ w.inFlight[k]?, ∀ j < k, ∀ g ∈ w.inFlight[j]?, ¬ g.IsOn f.datagram.srcAddr f.dest

/-- **A network of FIFO channels** that loses nothing but what comes for an `rcopy` that has ended,
and in which no poll that waits times out while there is something to wait for. -/
def Prompt (w : World site) : WorldEvent ι → Prop
  | .run _ a | .fork _ a => w.Fresh a
  | .timeout _ _ => False
  | .childRun _ => True
  | .childQuiet a => (w.children a).any ProcessClient.draining
      ∨ ∀ f ∈ w.inFlight, f.datagram.srcAddr ≠ a ∧ f.dest ≠ a
  | .deliver _ k _ => w.OldestAt k
  | .lose k => w.OldestAt k ∧ ∃ i, (w.inFlight[k]?).map Flight.dest = (w.rcopy i).sockets.head?
      ∧ (w.rcopy i).Ended
  | .duplicate _ => False

theorem Prompt.opens {ev : WorldEvent ι} (h : w.Prompt ev) : w.Opens ev := by
  cases ev with
  | run | fork => exact h
  | timeout => exact h.elim
  | childRun | childQuiet | deliver | lose | duplicate => trivial

instance (w : World site) (k : ℕ) : Decidable (w.OldestAt k) :=
  inferInstanceAs (Decidable (∀ f ∈ w.inFlight[k]?, ∀ j < k, ∀ g ∈ w.inFlight[j]?,
    ¬ g.IsOn f.datagram.srcAddr f.dest))

instance [Fintype ι] (w : World site) : ∀ ev, Decidable (w.Prompt ev)
  | .run _ a | .fork _ a => inferInstanceAs (Decidable (w.Fresh a))
  | .timeout _ _ | .duplicate _ => inferInstanceAs (Decidable False)
  | .childRun _ => inferInstanceAs (Decidable True)
  | .childQuiet _ => inferInstanceAs (Decidable (_ ∨ _))
  | .deliver _ k _ => inferInstanceAs (Decidable (w.OldestAt k))
  | .lose _ => inferInstanceAs (Decidable (_ ∧ _))

/-! ## Channels -/

/-- **What is in flight from one address to another**, the oldest first. -/
def channel (w : World site) (src dest : SockAddr) : List Bytes :=
  (w.inFlight.filter (Flight.IsOn src dest)).map fun f => f.datagram.bytes

theorem oldest_of_oldestAt (h : w.OldestAt k) (hk : w.inFlight[k]? = some f) :
    Oldest (Flight.IsOn f.datagram.srcAddr f.dest) w.inFlight k f :=
  ⟨hk, ⟨rfl, rfl⟩, fun j hj g hg => h f hk j hj g hg⟩

/-- **The oldest datagram leaves its channel.** -/
theorem channel_without (h : w.OldestAt k) (hk : w.inFlight[k]? = some f) :
    w.channel f.datagram.srcAddr f.dest
      = f.datagram.bytes :: (w.without k).channel f.datagram.srcAddr f.dest := by
  rw [channel, (oldest_of_oldestAt h hk).filter_eq, List.map_cons]
  rfl

/-- It leaves no other. -/
theorem channel_without_of_not (hk : w.inFlight[k]? = some f) (hf : ¬ f.IsOn src dest) :
    (w.without k).channel src dest = w.channel src dest := by
  rw [channel, channel]
  exact congrArg _ (Channel.filter_eraseIdx_of_not hk hf)

/-- The head of a channel is a datagram in flight that may be delivered. -/
theorem exists_oldestAt {d : Bytes} {rest : List Bytes} (h : w.channel src dest = d :: rest) :
    ∃ k, w.inFlight[k]? = some ⟨dest, ⟨src, d⟩⟩ ∧ w.OldestAt k := by
  obtain ⟨f, fs, hfilter, rfl, -⟩ := List.map_eq_cons_iff.mp h
  obtain ⟨k, hget, ⟨rfl, rfl⟩, hfirst⟩ := Channel.exists_oldest hfilter
  refine ⟨k, hget, fun g hg j hj y hy => ?_⟩
  obtain rfl : f = g := by simpa [hget] using hg
  exact hfirst j hj y hy

/-- What is sent goes to the back of its channel. -/
theorem channel_send (fs : List Flight) (a : SockAddr) (sends : List Send) :
    channel { w with inFlight := fs ++ sendFrom a sends } src dest
      = channel { w with inFlight := fs } src dest
        ++ if src = a then DataPhase.arriving dest sends else [] := by
  simp only [channel, List.filter_append, List.map_append, List.append_cancel_left_eq]
  split
  case isTrue h =>
    subst h
    simp [sendFrom, DataPhase.arriving, List.filter_map, Function.comp_def, Flight.IsOn]
  case isFalse h =>
    rw [List.map_eq_nil_iff, List.filter_eq_nil_iff]
    intro f hf hon
    obtain ⟨m, -, rfl⟩ := mem_sendFrom.mp hf
    exact h (of_decide_eq_true hon).1.symm

end World

end RemoteFileCopy
