import RemoteFileCopy.Library.Heap
import RemoteFileCopy.Queue.Laws

/-!
# Resources/QueueHeap — the queue with its pointers

    CircularQueue_init     calloc: the entries
    CircularQueue_insert   malloc: a copy of the packet
    CircularQueue_remove   free, and NULL
    CircularQueue_clear    free, and NULL, of every valid entry
    CircularQueue_free     clear, and free: the entries

An entry that is not valid has no packet, because whatever takes the mark away also frees; so
`CircularQueue_clear`, which frees the valid ones alone, leaves nothing behind, and `malloc` never
overwrites a pointer that is still needed.  Where `malloc` puts a block is settled by the call that
asks for it, and may depend on anything; all that is known of the address is that nothing is there
(`HeapQueue.Fresh`).  After any calls, with allocations that fail or not, the queue is the one with
its packets in it, and `CircularQueue_free` leaves the heap as it was (`queue_on_heap`).
-/

namespace RemoteFileCopy

open Transition

/-- What the queue allocates; the entries themselves are kept beside the heap. -/
inductive Block
  | entries
  | packet (bytes : Bytes)
  deriving DecidableEq, Repr

/-- A slot: `packet` is `NULL` or points to a block. -/
structure HeapEntry where
  packet : Option ℕ
  packetLen : ℕ
  sequenceNum : UInt32
  valid : Bool
  deriving DecidableEq, Repr

/-- **The queue on a heap** — `array` is the pointer `entries`. -/
structure HeapQueue (W : ℕ) where
  heap : Heap Block
  array : ℕ
  entries : Fin W → HeapEntry
  ValidCount : ℤ

namespace HeapQueue

variable {W : ℕ}

/-- `CircularQueue_init`, with the entries at `array`. -/
def init (W : ℕ) (heap : Heap Block) (array : ℕ) : HeapQueue W where
  heap := heap.insert array .entries
  array := array
  entries := fun _ => ⟨none, 0, 0, false⟩
  ValidCount := 0

/-- `CircularQueue_is_full`. -/
def isFull (q : HeapQueue W) : Bool := (W : ℤ) ≤ q.ValidCount

/-- `CircularQueue_insert`, and what its `malloc` returns: `NULL` or an address. -/
def insert (malloc : Option ℕ) (q : HeapQueue W) (sequenceNum : UInt32) (packet : Bytes) :
    Option (HeapQueue W × Bool) :=
  if q.isFull then some (q, false)
  else do
    let index ← (CircularQueue.index W sequenceNum).toOption
    let entry := q.entries index
    if entry.valid then return (q, false)
    match malloc with
    | none =>
      return ({ q with entries := Function.update q.entries index { entry with packet := none } },
        false)
    | some address =>
      return ({ q with
          heap := q.heap.insert address (.packet packet)
          entries := Function.update q.entries index
            ⟨some address, packet.length, sequenceNum, true⟩
          ValidCount := q.ValidCount + 1 }, true)

/-- `free`, `NULL`, and not valid. -/
def vacate (q : HeapQueue W) (i : Fin W) : Option (HeapQueue W) :=
  (Heap.free q.heap (q.entries i).packet).map fun heap => { q with
    heap := heap
    entries := Function.update q.entries i { q.entries i with packet := none, valid := false } }

/-- `CircularQueue_remove`. -/
def remove (q : HeapQueue W) (sequenceNum : UInt32) : Option (HeapQueue W × Bool) := do
  let index ← (CircularQueue.index W sequenceNum).toOption
  let entry := q.entries index
  if !entry.valid || entry.sequenceNum != sequenceNum then return (q, false)
  let q ← q.vacate index
  return ({ q with ValidCount := q.ValidCount - 1 }, true)

/-- One turn of the loop of `CircularQueue_clear`. -/
def clearOne (q : HeapQueue W) (i : Fin W) : Option (HeapQueue W) :=
  if (q.entries i).valid then q.vacate i else some q

/-- `CircularQueue_clear`. -/
def clear (q : HeapQueue W) : Option (HeapQueue W) :=
  ((List.finRange W).foldlM clearOne q).map fun q => { q with ValidCount := 0 }

/-- **`CircularQueue_free`**, and the heap it leaves. -/
def free (q : HeapQueue W) : Option (Heap Block) :=
  q.clear.bind fun q => Heap.free q.heap (some q.array)

/-- A call that may change the queue, with what its `malloc` returns. -/
inductive Call
  | insert (malloc : Option ℕ) (sequenceNum : UInt32) (packet : Bytes)
  | remove (sequenceNum : UInt32)
  | clear
  deriving DecidableEq, Repr

/-- The call as one of a queue without pointers. -/
def Call.plain : Call → CircularQueue.Call
  | .insert malloc s p => .insert malloc.isSome s p
  | .remove s => .remove s
  | .clear => .clear

/-- The queue after a call, and whether the call returned `0`. -/
def Call.run (q : HeapQueue W) : Call → Option (HeapQueue W × Bool)
  | .insert malloc s p => q.insert malloc s p
  | .remove s => q.remove s
  | .clear => q.clear.map fun q => (q, true)

/-- The queue on a heap as a machine. -/
def machine (W : ℕ) : Machine (HeapQueue W) Call Bool where
  step q call := call.run q

/-- **`malloc` returns what is not allocated**, if anything. -/
def Fresh (q : HeapQueue W) : Call → Prop
  | .insert (some address) _ _ => q.heap.lookup address = none
  | _ => True

instance (q : HeapQueue W) : ∀ call, Decidable (q.Fresh call)
  | .insert (some _) _ _ => inferInstanceAs (Decidable (_ = _))
  | .insert none _ _ | .remove _ | .clear => .isTrue trivial

/-- Any call can be made, wherever there is room. -/
theorem exists_fresh (q : HeapQueue W) (c : CircularQueue.Call) :
    ∃ call : Call, call.plain = c ∧ q.Fresh call := by
  cases c with
  | insert mallocOk s p =>
    cases mallocOk with
    | false => exact ⟨.insert none s p, rfl, trivial⟩
    | true =>
      obtain ⟨address, hunused⟩ := Heap.exists_unused q.heap
      exact ⟨.insert (some address) s p, rfl, hunused⟩
  | remove s => exact ⟨.remove s, rfl, trivial⟩
  | clear => exact ⟨.clear, rfl, trivial⟩

/-! ## The queue it stands for -/

/-- The packet under a pointer. -/
def packetAt (heap : Heap Block) (packet : Option ℕ) : Option Bytes :=
  match packet.bind fun address => heap.lookup address with
  | some (.packet bytes) => some bytes
  | _ => none

/-- **The queue with its packets in it.** -/
def value (q : HeapQueue W) : CircularQueue W where
  entries i := ⟨packetAt q.heap (q.entries i).packet, (q.entries i).packetLen,
    (q.entries i).sequenceNum, (q.entries i).valid⟩
  ValidCount := q.ValidCount

/-- It, when these are the packets. -/
def valueOf (q : HeapQueue W) (packets : Fin W → Bytes) : CircularQueue W where
  entries i := ⟨(q.entries i).packet.map fun _ => packets i, (q.entries i).packetLen,
    (q.entries i).sequenceNum, (q.entries i).valid⟩
  ValidCount := q.ValidCount

/-- What it owns: the array, and a packet for each slot with a pointer. -/
def own (q : HeapQueue W) (packets : Fin W → Bytes) : Option (Fin W) → Option (ℕ × Block)
  | none => some (q.array, .entries)
  | some i => (q.entries i).packet.map fun address => (address, .packet (packets i))

/-- **Its pointers are its own**, and there is none in a slot that is not valid. -/
structure Sound (heap : Heap Block) (q : HeapQueue W) (packets : Fin W → Bytes) : Prop where
  freed : ∀ i, (q.entries i).valid = false → (q.entries i).packet = none
  owns : Heap.Owns heap q.heap (q.own packets)

variable {heap : Heap Block} {q q' : HeapQueue W} {packets packets' : Fin W → Bytes} {i : Fin W}

/-- A slot that is written changes what is owned there alone. -/
theorem own_update {e : HeapEntry} (hentries : q'.entries = Function.update q.entries i e)
    (harray : q'.array = q.array) (hpackets : ∀ j, j ≠ i → packets' j = packets j) :
    q'.own packets' = Function.update (q.own packets) (some i)
      (e.packet.map fun address => (address, .packet (packets' i))) := by
  funext k
  cases k with
  | none => simp [own, harray]
  | some j =>
    by_cases hj : j = i
    · subst hj
      simp [own, hentries]
    · have hne : some j ≠ some i := fun h => hj (Option.some_inj.mp h)
      simp only [own, hentries, Function.update_of_ne hj, Function.update_of_ne hne, hpackets j hj]

/-- … and it stands for one that is written there. -/
theorem valueOf_update {e : HeapEntry} (hentries : q'.entries = Function.update q.entries i e)
    (hpackets : ∀ j, j ≠ i → packets' j = packets j) :
    (q'.valueOf packets').entries = Function.update (q.valueOf packets).entries i
      ⟨e.packet.map fun _ => packets' i, e.packetLen, e.sequenceNum, e.valid⟩ := by
  funext j
  by_cases hj : j = i
  · subst hj
    simp [valueOf, hentries]
  · simp only [valueOf, hentries, Function.update_of_ne hj, hpackets j hj]

/-- What it stands for, by what it owns. -/
theorem Sound.value_eq (h : q.Sound heap packets) : q.value = q.valueOf packets := by
  have hpacket : ∀ i, packetAt q.heap (q.entries i).packet
      = (q.entries i).packet.map fun _ => packets i := fun i => by
    cases hp : (q.entries i).packet with
    | none => rfl
    | some address =>
      have hown : q.own packets (some i) = some (address, .packet (packets i)) := by
        rw [own, hp, Option.map_some]
      simp only [packetAt, Option.bind_some, h.owns.load hown, Option.map_some]
  simp only [value, valueOf, hpacket]

theorem sound_init (W : ℕ) {array : ℕ} (harray : heap.lookup array = none) :
    (init W heap array).Sound heap fun _ => [] := by
  have hown : (init W heap array).own (fun _ => [])
      = Function.update (fun _ => none) none (some (array, .entries)) := by
    funext k
    cases k <;> rfl
  refine ⟨fun _ _ => rfl, ?_⟩
  rw [hown]
  exact (Heap.Owns.start heap).alloc rfl harray .entries

/-- **A slot is emptied**, and what was there is freed. -/
theorem Sound.vacate (h : q.Sound heap packets) (i : Fin W) :
    ∃ q', q.vacate i = some q' ∧ q'.Sound heap packets ∧ q'.ValidCount = q.ValidCount
      ∧ q'.entries
        = Function.update q.entries i { q.entries i with packet := none, valid := false } := by
  let entry : HeapEntry := { q.entries i with packet := none, valid := false }
  let emptied := Function.update q.entries i entry
  have hfreed : ∀ j, (emptied j).valid = false → (emptied j).packet = none := fun j hj => by
    by_cases hji : j = i
    · subst hji
      simp [emptied, entry]
    · simp only [emptied, Function.update_of_ne hji] at hj ⊢
      exact h.freed j hj
  cases hp : (q.entries i).packet with
  | none =>
    let q' : HeapQueue W := { q with entries := emptied }
    have hown : q'.own packets = Function.update (q.own packets) (some i) none :=
      own_update (e := entry) rfl rfl fun _ _ => rfl
    have hnone : q.own packets (some i) = none := by rw [own, hp, Option.map_none]
    refine ⟨q', ?_, ⟨hfreed, ?_⟩, rfl, rfl⟩
    · simp [HeapQueue.vacate, hp, Heap.free, q', emptied, entry]
    · rw [hown, ← hnone, Function.update_eq_self]
      exact h.owns
  | some address =>
    let q' : HeapQueue W := { q with heap := q.heap.erase address, entries := emptied }
    have hown : q'.own packets = Function.update (q.own packets) (some i) none :=
      own_update (e := entry) rfl rfl fun _ _ => rfl
    have hsome : q.own packets (some i) = some (address, .packet (packets i)) := by
      rw [own, hp, Option.map_some]
    obtain ⟨hfree, howns⟩ := h.owns.free hsome
    refine ⟨q', ?_, ⟨hfreed, ?_⟩, rfl, rfl⟩
    · simp [HeapQueue.vacate, hp, hfree, q', emptied, entry]
    · rw [hown]
      exact howns

/-! ## Calls -/

/-- **The queue stands for one without pointers.** -/
def Stands (heap : Heap Block) (q : HeapQueue W) (v : CircularQueue W) : Prop :=
  ∃ packets, q.Sound heap packets ∧ v = q.valueOf packets

/-- **A packet is copied** into a slot that is free. -/
theorem Sound.store (h : q.Sound heap packets) (hfree : (q.entries i).valid = false)
    (s : UInt32) (p : Bytes) {n : ℤ} (address : ℕ) (hunused : q.heap.lookup address = none) :
    Stands heap
      { q with
        heap := q.heap.insert address (.packet p)
        entries := Function.update q.entries i ⟨some address, p.length, s, true⟩
        ValidCount := n }
      { entries := Function.update (q.valueOf packets).entries i ⟨some p, p.length, s, true⟩
        ValidCount := n } := by
  let entry : HeapEntry := ⟨some address, p.length, s, true⟩
  let q' : HeapQueue W := { q with
    heap := q.heap.insert address (.packet p)
    entries := Function.update q.entries i entry
    ValidCount := n }
  let packets' := Function.update packets i p
  have hpackets : ∀ j, j ≠ i → packets' j = packets j := fun j hj => Function.update_of_ne hj _ _
  have hself : packets' i = p := Function.update_self _ _ _
  have hown : q'.own packets' = Function.update (q.own packets) (some i)
      (entry.packet.map fun address => (address, .packet (packets' i))) :=
    own_update rfl rfl hpackets
  have hvalue : (q'.valueOf packets').entries = Function.update (q.valueOf packets).entries i
      ⟨entry.packet.map fun _ => packets' i, entry.packetLen, entry.sequenceNum, entry.valid⟩ :=
    valueOf_update rfl hpackets
  rw [hself] at hown hvalue
  have hnone : q.own packets (some i) = none := by
    rw [own, h.freed i hfree, Option.map_none]
  refine ⟨packets', ⟨fun j hj => ?_, ?_⟩, CircularQueue.ext hvalue.symm rfl⟩
  · by_cases hji : j = i
    · subst hji
      simp at hj
    · simp only [Function.update_of_ne hji] at hj ⊢
      exact h.freed j hj
  · exact hown ▸ h.owns.alloc hnone hunused (.packet p)

theorem Sound.insert (h : q.Sound heap packets) {malloc : Option ℕ} {s : UInt32} {p : Bytes}
    (hfresh : q.Fresh (.insert malloc s p)) :
    StepRel (Stands heap) (q.insert malloc s p)
      ((q.valueOf packets).insert malloc.isSome s p).toOption := by
  have hsame : Stands heap q (q.valueOf packets) := ⟨packets, h, rfl⟩
  have hfull : (q.valueOf packets).isFull = q.isFull := rfl
  rw [HeapQueue.insert, CircularQueue.insert, hfull]
  cases hq : q.isFull with
  | true => exact .some ⟨hsame, rfl⟩
  | false =>
    simp only [Bool.false_eq_true, if_false]
    cases CircularQueue.index W s with
    | error => exact .none
    | ok i =>
      have hvalid : ((q.valueOf packets).entries i).valid = (q.entries i).valid := rfl
      simp only [Except.toOption, bind, Except.bind, Option.bind, hvalid]
      cases hv : (q.entries i).valid with
      | true => exact .some ⟨hsame, rfl⟩
      | false =>
        have hnull := h.freed i hv
        cases malloc with
        | some address => exact .some ⟨h.store hv s p address hfresh, rfl⟩
        | none =>
          -- the pointer that is overwritten is `NULL`
          have hentry : (⟨none, (q.entries i).packetLen, (q.entries i).sequenceNum, false⟩
              : HeapEntry) = q.entries i := by
            rw [← hnull, ← hv]
          refine .some ⟨?_, rfl⟩
          simp only [hentry, Function.update_eq_self]
          have hvalue : (⟨none, (q.entries i).packetLen, (q.entries i).sequenceNum, false⟩
              : QueueEntry) = (q.valueOf packets).entries i := by
            simp only [valueOf, hnull, hv, Option.map_none]
          change Stands heap q ⟨Function.update (q.valueOf packets).entries i
            ⟨none, (q.entries i).packetLen, (q.entries i).sequenceNum, false⟩, q.ValidCount⟩
          rw [hvalue, Function.update_eq_self]
          exact hsame

theorem Sound.remove (h : q.Sound heap packets) (s : UInt32) :
    StepRel (Stands heap) (q.remove s) ((q.valueOf packets).remove s).toOption := by
  rw [HeapQueue.remove, CircularQueue.remove]
  cases CircularQueue.index W s with
  | error => exact .none
  | ok i =>
    have hrefused : (!((q.valueOf packets).entries i).valid
        || ((q.valueOf packets).entries i).sequenceNum != s)
        = (!(q.entries i).valid || (q.entries i).sequenceNum != s) := rfl
    simp only [Except.toOption, bind, Except.bind, Option.bind, hrefused, pure, Except.pure]
    split
    · exact .some ⟨⟨packets, h, rfl⟩, rfl⟩
    · obtain ⟨q', hvacate, hsound, hcount, hentries⟩ := h.vacate i
      have hvalue : (q'.valueOf packets).entries
          = Function.update (q.valueOf packets).entries i _ :=
        valueOf_update hentries fun _ _ => rfl
      rw [hvacate]
      refine .some ⟨⟨packets, ⟨hsound.freed, hsound.owns⟩, CircularQueue.ext hvalue.symm ?_⟩, rfl⟩
      simp only [CircularQueue.vacate, valueOf, hcount]

/-- **The loop of `CircularQueue_clear`** empties the valid ones of the slots it has been at. -/
theorem Sound.foldlM_clearOne (h : q.Sound heap packets) (l : List (Fin W)) :
    ∃ q', l.foldlM clearOne q = some q' ∧ q'.Sound heap packets
      ∧ ∀ j, q'.entries j = if j ∈ l ∧ (q.entries j).valid = true
        then { q.entries j with packet := none, valid := false } else q.entries j := by
  induction l generalizing q with
  | nil => exact ⟨q, rfl, h, by simp⟩
  | cons i l ih =>
    cases hv : (q.entries i).valid with
    | false =>
      obtain ⟨q', hfold, hsound, hentries⟩ := ih h
      refine ⟨q', by simpa [List.foldlM_cons, clearOne, hv] using hfold, hsound, fun j => ?_⟩
      rw [hentries j]
      by_cases hj : j = i
      · subst hj
        simp [hv]
      · simp [hj]
    | true =>
      obtain ⟨q₁, hvacate, hsound₁, -, hentries₁⟩ := h.vacate i
      obtain ⟨q', hfold, hsound, hentries⟩ := ih hsound₁
      refine ⟨q', by simpa [List.foldlM_cons, clearOne, hv, hvacate] using hfold, hsound,
        fun j => ?_⟩
      rw [hentries j, hentries₁]
      by_cases hj : j = i
      · subst hj
        simp [hv]
      · simp [hj]

theorem Sound.clear (h : q.Sound heap packets) : ∃ q', q.clear = some q'
    ∧ q'.Sound heap packets ∧ q'.valueOf packets = (q.valueOf packets).clear
    ∧ ∀ i, (q'.entries i).valid = false := by
  obtain ⟨q', hfold, hsound, hentries⟩ := h.foldlM_clearOne (List.finRange W)
  refine ⟨{ q' with ValidCount := 0 }, by rw [HeapQueue.clear, hfold, Option.map_some],
    ⟨hsound.freed, hsound.owns⟩, CircularQueue.ext (funext fun i => ?_) rfl, fun i => ?_⟩
  · simp only [valueOf, CircularQueue.clear, hentries i, List.mem_finRange, true_and]
    split <;> simp_all
  · simp only [hentries i, List.mem_finRange, true_and]
    split <;> simp_all

/-- **`CircularQueue_free`** frees everything the queue has allocated, once, and nothing else. -/
theorem Sound.free (h : q.Sound heap packets) : q.free = some heap := by
  obtain ⟨q', hclear, hsound, -, hinvalid⟩ := h.clear
  obtain ⟨hfree, howns⟩ := hsound.owns.free (k := none) rfl
  rw [HeapQueue.free, hclear, Option.bind_some, hfree, Option.some_inj]
  refine howns.eq_of_none fun k => ?_
  cases k with
  | none => exact Function.update_self _ _ _
  | some i =>
    rw [Function.update_of_ne (Option.some_ne_none i), own, hsound.freed i (hinvalid i),
      Option.map_none]

/-- **A call on the heap** is the call without pointers, wherever `malloc` puts its block. -/
theorem Stands.step {v : CircularQueue W} (h : Stands heap q v) {call : Call}
    (hfresh : q.Fresh call) : StepRel (Stands heap) ((machine W).step q call)
      ((CircularQueue.machine W).step v call.plain) := by
  obtain ⟨packets, hsound, rfl⟩ := h
  cases call with
  | insert malloc s p => exact hsound.insert hfresh
  | remove s => exact hsound.remove s
  | clear =>
    obtain ⟨q', hclear, hsound', hvalue, -⟩ := hsound.clear
    change StepRel _ (q.clear.map fun q => (q, true)) (some (_, true))
    rw [hclear]
    exact .some ⟨⟨packets, hsound', hvalue.symm⟩, rfl⟩

theorem Stands.value_eq {v : CircularQueue W} (h : Stands heap q v) : q.value = v := by
  obtain ⟨packets, hsound, rfl⟩ := h
  exact hsound.value_eq

theorem Stands.free {v : CircularQueue W} (h : Stands heap q v) : q.free = some heap := by
  obtain ⟨packets, hsound, -⟩ := h
  exact hsound.free

theorem stands_init (W : ℕ) {array : ℕ} (harray : heap.lookup array = none) :
    Stands heap (init W heap array) (.init W) :=
  ⟨_, sound_init W harray, rfl⟩

/-- **The step on the heap, read back**, is the step without pointers. -/
theorem Stands.map_step {v : CircularQueue W} (h : Stands heap q v) {call : Call}
    (hfresh : q.Fresh call) : ((machine W).step q call).map (fun r => (r.1.value, r.2))
      = (CircularQueue.machine W).step q.value call.plain := by
  have hstep := h.step hfresh
  rw [h.value_eq]
  generalize (machine W).step q call = x at hstep ⊢
  generalize (CircularQueue.machine W).step v call.plain = y at hstep ⊢
  cases hstep with
  | none => rfl
  | some hr => exact congrArg some (Prod.ext hr.1.value_eq hr.2)

/-! ## Runs -/

variable {array : ℕ}

/-- What a run shows of itself to whoever does not see the heap. -/
def plainTrace (es : List (Edge (HeapQueue W) Call Bool)) : List (CircularQueue.Call × Bool) :=
  es.map fun x => (x.event.plain, x.output)

/-- **A run on the heap** is a run without pointers. -/
theorem exists_run_plain (harray : heap.lookup array = none)
    {es : List (Edge (HeapQueue W) Call Bool)}
    (run : Run (machine W) Fresh (init W heap array) es q) :
    ∃ es' v, Run (CircularQueue.machine W) (fun _ _ => True) (.init W) es' v
      ∧ Stands heap q v ∧ trace es' = plainTrace es := by
  obtain ⟨es', v, run', hstands, hseen⟩ := run.exists_simulation (H := fun _ _ => True)
    (fun call ok => (call.plain, ok)) Prod.mk (stands_init W harray)
    fun q v call q' ok h hfresh hs => by
      obtain ⟨v', hv, h'⟩ := (h.step hfresh).exists_right hs
      exact ⟨v', call.plain, ok, trivial, hv, rfl, h'⟩
  exact ⟨es', v, run', hstands, hseen⟩

/-- **A run without pointers** can be made on the heap. -/
theorem exists_run_heap (harray : heap.lookup array = none) {v : CircularQueue W}
    {es : List (Edge (CircularQueue W) CircularQueue.Call Bool)}
    (run : Run (CircularQueue.machine W) (fun _ _ => True) (.init W) es v) :
    ∃ es' q, Run (machine W) Fresh (init W heap array) es' q
      ∧ Stands heap q v ∧ plainTrace es' = trace es := by
  obtain ⟨es', q, run', hstands, hseen⟩ := run.exists_simulation (N := machine W) (H := Fresh)
    (R := fun v q => Stands heap q v) Prod.mk (fun call ok => (call.plain, ok))
    (stands_init W harray) fun v q c v' ok h _ hs => by
      obtain ⟨call, rfl, hfresh⟩ := q.exists_fresh c
      obtain ⟨q', hq, h'⟩ := (h.step hfresh).exists_left hs
      exact ⟨q', call, ok, hfresh, hq, rfl, h'⟩
  exact ⟨es', q, run', hstands, hseen⟩

end HeapQueue

/-- **The queue with its pointers is the queue.**  Wherever `malloc` puts its blocks, and whatever
allocations fail, it has exactly the runs of the one without pointers; at every moment the next call
does, to the packets under its pointers, what it does to those of the other; and wherever a run ends
`CircularQueue_free` frees all the queue has allocated, each block once, so that the heap is as it
was. -/
theorem queue_on_heap (W : ℕ) {heap : Heap Block} {array : ℕ}
    (harray : heap.lookup array = none) :
    (∀ tr : List (CircularQueue.Call × Bool),
      (∃ es q, Run (HeapQueue.machine W) HeapQueue.Fresh (.init W heap array) es q
          ∧ HeapQueue.plainTrace es = tr)
        ↔ ∃ es v, Run (CircularQueue.machine W) (fun _ _ => True) (.init W) es v ∧ trace es = tr)
    ∧ ∀ es q, Run (HeapQueue.machine W) HeapQueue.Fresh (.init W heap array) es q →
      (∃ es', Run (CircularQueue.machine W) (fun _ _ => True) (.init W) es' q.value
          ∧ trace es' = HeapQueue.plainTrace es)
        ∧ (∀ call, q.Fresh call →
          ((HeapQueue.machine W).step q call).map (fun r => (r.1.value, r.2))
            = (CircularQueue.machine W).step q.value call.plain)
        ∧ q.free = some heap := by
  refine ⟨fun tr => ⟨?_, ?_⟩, fun es q run => ?_⟩
  · rintro ⟨es, q, run, rfl⟩
    obtain ⟨es', v, run', -, htrace⟩ := HeapQueue.exists_run_plain harray run
    exact ⟨es', v, run', htrace⟩
  · rintro ⟨es, v, run, rfl⟩
    obtain ⟨es', q, run', -, htrace⟩ := HeapQueue.exists_run_heap harray run
    exact ⟨es', q, run', htrace⟩
  · obtain ⟨es', v, run', hstands, htrace⟩ := HeapQueue.exists_run_plain harray run
    exact ⟨⟨es', hstands.value_eq ▸ run', htrace⟩, fun call hfresh => hstands.map_step hfresh,
      hstands.free⟩

/-- A block is freed, and its address is given out again. -/
theorem queue_on_heap_reused : ∃ es q,
    Run (HeapQueue.machine 2) HeapQueue.Fresh (.init 2 ∅ 0) es q
      ∧ HeapQueue.plainTrace es = [(.insert true 8 [3], true), (.remove 7, true),
          (.insert false 8 [2], false), (.insert true 7 [1], true)]
      ∧ (q.entries 0).packet = some 1 ∧ (q.value.entries 0).packet = some [3]
      ∧ q.free = some ∅ := by
  obtain ⟨es, q, run, h⟩ := exists_run_of_replay (M := HeapQueue.machine 2) (G := HeapQueue.Fresh)
    (s := .init 2 ∅ 0)
    [.insert (some 1) 7 [1], .insert none 8 [2], .remove 7, .insert (some 1) 8 [3]]
    (P := fun es q => HeapQueue.plainTrace es = [(.insert true 8 [3], true), (.remove 7, true),
          (.insert false 8 [2], false), (.insert true 7 [1], true)]
      ∧ (q.entries 0).packet = some 1 ∧ (q.value.entries 0).packet = some [3]) (by decide +kernel)
  obtain ⟨htrace, haddress, hpacket⟩ := of_decide_eq_true h
  obtain ⟨-, -, hfree⟩ := (queue_on_heap 2 (Finmap.lookup_empty 0)).2 es q run
  exact ⟨es, q, run, htrace, haddress, hpacket, hfree⟩

end RemoteFileCopy
