import Mathlib.Data.Finset.Insert
import Mathlib.Data.Finset.Erase
import Mathlib.Order.Nat

/-!
# Resources/PollSet — what a poll tells

    index    0   1   2   3   4   5   6 …
    fd       0   0   0   3   0   5   0       3 and 5 are registered
    events   0   0   0   IN  0   IN  0       maxFileDescriptor = 6

The poll set is an array under the descriptors' own numbers, and an entry that is not registered
watches descriptor 0 for no event.  But `poll` reports an error or a hang-up whether it is asked for
or not; so when there is one on descriptor 0 every such entry has it, and `pollCall` returns the
lowest of them (`pollCall_lowest_iff`).

`setupPollSet` makes a new array of `POLL_SET_SIZE` entries and leaves `maxFileDescriptor` as it
was: the entries that `poll` is told of need not be there.
-/

namespace RemoteFileCopy

/-- The size of a new poll set, and what it grows by. -/
def POLL_SET_SIZE : ℕ := 10

/-- A `struct pollfd`: `events` is `POLLIN` or nothing. -/
structure PollFd where
  fd : ℕ
  events : Bool
  deriving DecidableEq, Repr

/-- **The static variables of the poll library.** -/
structure PollSet where
  pollFileDescriptors : List PollFd
  maxFileDescriptor : ℕ
  currentPollSetSize : ℕ
  deriving DecidableEq, Repr

/-- How a call does not return. -/
inductive PollError
  /-- `growPollSet` is asked for no more than there is, and exits. -/
  | exits
  /-- An entry past the end of the array is written. -/
  | overflow
  deriving DecidableEq, Repr

/-- What `poll` finds of a descriptor: something to read; an error, a hang-up, or that it is not
open. -/
structure Status where
  readable : Bool
  broken : Bool
  deriving DecidableEq, Repr

/-- There is something to report of a descriptor that is polled for input. -/
def Status.ready (st : Status) : Bool := st.broken || st.readable

/-- What `poll` leaves in `revents`, as far as it is zero or not. -/
def PollFd.revents (status : ℕ → Status) (e : PollFd) : Bool :=
  (status e.fd).broken || (e.events && (status e.fd).readable)

namespace PollSet

/-- Before any call. -/
def empty : PollSet := ⟨[], 0, 0⟩

/-- `setupPollSet`: the entries there were are not freed. -/
def setupPollSet (s : PollSet) : PollSet :=
  { s with
    pollFileDescriptors := List.replicate POLL_SET_SIZE ⟨0, false⟩
    currentPollSetSize := POLL_SET_SIZE }

/-- `growPollSet`. -/
def growPollSet (s : PollSet) (newSetSize : ℕ) : Except PollError PollSet :=
  if newSetSize ≤ s.currentPollSetSize then .error .exits
  else .ok { s with
    pollFileDescriptors := s.pollFileDescriptors
      ++ List.replicate (newSetSize - s.currentPollSetSize) ⟨0, false⟩
    currentPollSetSize := newSetSize }

/-- An entry is written. -/
def write (s : PollSet) (index : ℕ) (entry : PollFd) : Except PollError PollSet :=
  if index < s.pollFileDescriptors.length then
    .ok { s with pollFileDescriptors := s.pollFileDescriptors.set index entry }
  else .error .overflow

/-- The array is made large enough for an entry. -/
def reach (s : PollSet) (socketNumber : ℕ) : Except PollError PollSet :=
  if socketNumber ≥ s.currentPollSetSize then s.growPollSet (socketNumber + POLL_SET_SIZE)
  else .ok s

/-- `addToPollSet`. -/
def addToPollSet (s : PollSet) (socketNumber : ℕ) : Except PollError PollSet := do
  let s ← s.reach socketNumber
  let maxFileDescriptor :=
    if socketNumber + 1 ≥ s.maxFileDescriptor then socketNumber + 1 else s.maxFileDescriptor
  { s with maxFileDescriptor := maxFileDescriptor }.write socketNumber ⟨socketNumber, true⟩

/-- `removeFromPollSet`. -/
def removeFromPollSet (s : PollSet) (socketNumber : ℕ) : Except PollError PollSet :=
  s.write socketNumber ⟨0, false⟩

/-- The number of a descriptor, or -1 for none. -/
def reported (found : Option ℕ) : ℤ := found.elim (-1) Int.ofNat

/-- **`pollCall`**, when this is what there is at the end of its wait. -/
def pollCall (s : PollSet) (status : ℕ → Status) : Except PollError ℤ :=
  if s.maxFileDescriptor ≤ s.pollFileDescriptors.length then
    let polled := s.pollFileDescriptors.take s.maxFileDescriptor
    let pollValue := polled.countP (PollFd.revents status)
    if pollValue > 0 then .ok (reported (polled.findIdx? (PollFd.revents status)))
    else .ok (-1)
  else .error .overflow

/-! ## Calls in a row -/

/-- What changes the poll set. -/
inductive Op
  | setup
  | add (socketNumber : ℕ)
  | remove (socketNumber : ℕ)
  deriving DecidableEq, Repr

def apply (s : PollSet) : Op → Except PollError PollSet
  | .setup => .ok s.setupPollSet
  | .add n => s.addToPollSet n
  | .remove n => s.removeFromPollSet n

/-- All calls since the program started, the first one first. -/
def calls (ops : List Op) : Except PollError PollSet := ops.foldlM apply empty

end PollSet

/-! ## What is watched -/

/-- The entry of a descriptor when these are registered. -/
def PollFd.of (R : Finset ℕ) (i : ℕ) : PollFd := if i ∈ R then ⟨i, true⟩ else ⟨0, false⟩

/-- The entries up to some number. -/
def PollFd.table (R : Finset ℕ) (size : ℕ) : List PollFd := (List.range size).map (.of R)

namespace PollFd

variable {R : Finset ℕ} {k n : ℕ}

@[simp] theorem length_table (R : Finset ℕ) (k : ℕ) : (table R k).length = k := by simp [table]

theorem table_empty (k : ℕ) : table ∅ k = List.replicate k ⟨0, false⟩ := by
  refine List.eq_replicate_iff.mpr ⟨length_table _ _, fun e he => ?_⟩
  obtain ⟨i, -, rfl⟩ := List.mem_map.mp he
  exact if_neg (Finset.notMem_empty i)

theorem set_table {S : Finset ℕ} (h : ∀ i, i ≠ n → (i ∈ S ↔ i ∈ R)) :
    (table R k).set n (of S n) = table S k := by
  refine List.ext_getElem (by simp) fun i hi hi' => ?_
  rw [List.getElem_set]
  split
  case isTrue heq => simp [table, heq]
  case isFalse hne => simp [table, of, h i (Ne.symm hne)]

theorem table_append_replicate (h : ∀ i ∈ R, i < k) {k' : ℕ} (hle : k ≤ k') :
    table R k ++ List.replicate (k' - k) ⟨0, false⟩ = table R k' := by
  obtain ⟨m, rfl⟩ := Nat.exists_eq_add_of_le hle
  rw [table, table, List.range_add, List.map_append, List.map_map, Nat.add_sub_cancel_left]
  congr 1
  refine (List.eq_replicate_iff.mpr ⟨by simp, fun e he => ?_⟩).symm
  obtain ⟨i, -, rfl⟩ := List.mem_map.mp he
  exact if_neg fun hi => absurd (h _ hi) (Nat.not_lt.mpr (Nat.le_add_right k i))

end PollFd

/-- **What a poll set is for**: the descriptors registered since the last `setupPollSet`; the
entries there are, and the entries `poll` is told of. -/
structure Watch where
  registered : Finset ℕ
  size : ℕ
  bound : ℕ
  lt_size : ∀ n ∈ registered, n < size
  lt_bound : ∀ n ∈ registered, n < bound

namespace Watch

/-- Before any call. -/
def empty : Watch := ⟨∅, 0, 0, by simp, by simp⟩

/-- A descriptor is registered. -/
def add (w : Watch) (n : ℕ) : Watch where
  registered := insert n w.registered
  size := if w.size ≤ n then n + POLL_SET_SIZE else w.size
  bound := max w.bound (n + 1)
  lt_size i hi := by
    have hsize := fun h => w.lt_size i h
    rw [POLL_SET_SIZE]
    rcases Finset.mem_insert.mp hi with rfl | hi
    · split <;> omega
    · have := w.lt_size i hi
      split <;> omega
  lt_bound i hi := by
    rcases Finset.mem_insert.mp hi with rfl | hi
    · exact Nat.lt_of_lt_of_le (Nat.lt_succ_self i) (le_max_right _ _)
    · exact (w.lt_bound i hi).trans_le (le_max_left _ _)

def apply (w : Watch) : PollSet.Op → Watch
  | .setup => ⟨∅, POLL_SET_SIZE, w.bound, by simp, by simp⟩
  | .add n => w.add n
  | .remove n =>
    { w with
      registered := w.registered.erase n
      lt_size := fun i hi => w.lt_size i (Finset.mem_of_mem_erase hi)
      lt_bound := fun i hi => w.lt_bound i (Finset.mem_of_mem_erase hi) }

/-- The poll set for it. -/
def concrete (w : Watch) : PollSet := ⟨PollFd.table w.registered w.size, w.bound, w.size⟩

/-- An entry is only taken out where there is one. -/
def Admits (w : Watch) : PollSet.Op → Prop
  | .remove n => n < w.size
  | _ => True

instance (w : Watch) : ∀ op, Decidable (w.Admits op)
  | .remove _ => inferInstanceAs (Decidable (_ < _))
  | .setup | .add _ => inferInstanceAs (Decidable True)

theorem reach_concrete (w : Watch) (n : ℕ) : w.concrete.reach n
    = .ok ⟨PollFd.table w.registered (w.add n).size, w.bound, (w.add n).size⟩ := by
  rw [PollSet.reach, add]
  by_cases hn : w.size ≤ n
  · have hgrow : ¬ n + POLL_SET_SIZE ≤ w.size := by
      rw [POLL_SET_SIZE]
      omega
    have happend := PollFd.table_append_replicate w.lt_size
      (hn.trans (Nat.le_add_right n POLL_SET_SIZE))
    simp only [concrete, PollSet.growPollSet, ge_iff_le, if_pos hn, if_neg hgrow, happend]
  · simp only [concrete, ge_iff_le, if_neg hn]

theorem setup_concrete (w : Watch) : w.concrete.setupPollSet = (w.apply .setup).concrete := by
  simp only [PollSet.setupPollSet, apply, concrete, PollFd.table_empty]

theorem add_concrete (w : Watch) (n : ℕ) :
    w.concrete.addToPollSet n = .ok (w.add n).concrete := by
  have hset := PollFd.set_table (R := w.registered) (k := (w.add n).size) (n := n)
    (S := insert n w.registered) fun i hi => by simp [hi]
  rw [PollFd.of, if_pos (Finset.mem_insert_self n _)] at hset
  have hlt : n < (w.add n).size := (w.add n).lt_size n (Finset.mem_insert_self n _)
  have hmax : (if n + 1 ≥ w.bound then n + 1 else w.bound) = max w.bound (n + 1) := by
    split <;> omega
  simp only [PollSet.addToPollSet, reach_concrete, bind, Except.bind, PollSet.write,
    PollFd.length_table, if_pos hlt, hset, hmax]
  rfl

theorem remove_concrete (w : Watch) (n : ℕ) : w.concrete.removeFromPollSet n
    = if n < w.size then .ok (w.apply (.remove n)).concrete else .error .overflow := by
  have hset := PollFd.set_table (R := w.registered) (k := w.size) (n := n)
    (S := w.registered.erase n) fun i hi => by simp [hi]
  rw [PollFd.of, if_neg (Finset.notMem_erase n _)] at hset
  simp only [PollSet.removeFromPollSet, PollSet.write, concrete, apply, PollFd.length_table, hset]

/-- **A call does to the array what it is for**, and `growPollSet` never exits. -/
theorem apply_concrete (w : Watch) (op : PollSet.Op) :
    w.concrete.apply op = if w.Admits op then .ok (w.apply op).concrete else .error .overflow := by
  cases op with
  | setup => exact (congrArg Except.ok w.setup_concrete).trans (if_pos trivial).symm
  | add n => exact (w.add_concrete n).trans (if_pos trivial).symm
  | remove n => exact w.remove_concrete n

end Watch

/-! ## The lowest number -/

/-- The lowest number below `n` that has a property. -/
def lowest (p : ℕ → Bool) (n : ℕ) : Option ℕ := (List.range n).find? p

section Lowest

variable {p q : ℕ → Bool} {n k : ℕ}

theorem lowest_eq_some : lowest p n = some k ↔ p k = true ∧ k < n ∧ ∀ j < k, p j = false := by
  simp [lowest]

theorem lowest_eq_none : lowest p n = none ↔ ∀ i < n, p i = false := by
  simp [lowest]

/-- **Looking for more** does not change what is found if whatever there is more of lies above
something that was looked for. -/
theorem lowest_eq_lowest_iff (hpq : ∀ i, p i = true → q i = true) :
    lowest q n = lowest p n ↔ ∀ i < n, q i = true → p i = false → ∃ j < i, p j = true := by
  constructor
  · intro heq i hi hq hp
    cases hfound : lowest p n with
    | none =>
      rw [hfound, lowest_eq_none] at heq
      rw [heq i hi] at hq
      cases hq
    | some k =>
      rw [hfound] at heq
      have hk := (lowest_eq_some.mp hfound).1
      obtain ⟨-, -, hleast⟩ := lowest_eq_some.mp heq
      rcases lt_trichotomy k i with hlt | rfl | hgt
      · exact ⟨k, hlt, hk⟩
      · rw [hp] at hk
        cases hk
      · rw [hleast i hgt] at hq
        cases hq
  · intro h
    have hfalse : ∀ i, q i = false → p i = false := fun i hq => by
      by_contra hp
      rw [hpq i (Bool.not_eq_false _ ▸ hp)] at hq
      cases hq
    cases hfound : lowest q n with
    | none => exact (lowest_eq_none.mpr fun i hi => hfalse i (lowest_eq_none.mp hfound i hi)).symm
    | some k =>
      obtain ⟨hq, hk, hleast⟩ := lowest_eq_some.mp hfound
      refine (lowest_eq_some.mpr ⟨?_, hk, fun j hj => hfalse j (hleast j hj)⟩).symm
      by_contra hp
      obtain ⟨j, hj, hpj⟩ := h k hk hq (Bool.not_eq_true _ ▸ hp)
      have hqj := hpq j hpj
      rw [hleast j hj] at hqj
      cases hqj

end Lowest

/-! ## What is reported -/

namespace PollSet

theorem reported_injective : Function.Injective reported := by
  intro x y h
  cases x <;> cases y <;>
    simp only [reported, Option.elim_none, Option.elim_some, Int.ofNat_eq_natCast] at h
  · rfl
  · omega
  · omega
  · exact congrArg some (by omega)

/-- Where `poll` counts nothing the loop finds nothing. -/
theorem pollCall_eq (s : PollSet) (status : ℕ → Status) : s.pollCall status
    = if s.maxFileDescriptor ≤ s.pollFileDescriptors.length then
        .ok (reported ((s.pollFileDescriptors.take s.maxFileDescriptor).findIdx?
          (PollFd.revents status)))
      else .error .overflow := by
  rw [pollCall]
  split
  case isFalse => rfl
  case isTrue =>
    simp only
    split
    case isTrue => rfl
    case isFalse hzero =>
      have hnone : (s.pollFileDescriptors.take s.maxFileDescriptor).findIdx?
          (PollFd.revents status) = none := by
        refine List.findIdx?_eq_none_iff.mpr fun e he => ?_
        by_contra hhit
        exact hzero (List.countP_pos_iff.mpr ⟨e, he, Bool.not_eq_false _ ▸ hhit⟩)
      rw [hnone]
      rfl

/-- The loop over the entries finds the lowest that has something to report. -/
theorem findIdx?_table (R : Finset ℕ) (n : ℕ) (p : PollFd → Bool) :
    (PollFd.table R n).findIdx? p = lowest (fun i => p (.of R i)) n := by
  rw [PollFd.table, List.findIdx?_map]
  cases h : lowest (fun i => p (.of R i)) n with
  | none =>
    refine List.findIdx?_eq_none_iff.mpr fun i hi => ?_
    exact lowest_eq_none.mp h i (List.mem_range.mp hi)
  | some k =>
    obtain ⟨hp, hk, hleast⟩ := lowest_eq_some.mp h
    refine List.findIdx?_eq_some_iff_getElem.mpr ⟨by simpa using hk, ?_, fun j hj => ?_⟩
    · simpa using hp
    · simpa using hleast j hj

end PollSet

namespace Watch

/-- There is something to report of an entry. -/
def hits (w : Watch) (status : ℕ → Status) (i : ℕ) : Bool :=
  (PollFd.of w.registered i).revents status

theorem hits_of_mem {w : Watch} {i : ℕ} (hi : i ∈ w.registered) (status : ℕ → Status) :
    w.hits status i = (status i).ready := by
  simp [hits, PollFd.of, hi, PollFd.revents, Status.ready]

theorem hits_of_not_mem {w : Watch} {i : ℕ} (hi : i ∉ w.registered) (status : ℕ → Status) :
    w.hits status i = (status 0).broken := by
  simp [hits, PollFd.of, hi, PollFd.revents]

/-- **What `pollCall` returns**, if the entries `poll` is told of are there. -/
theorem pollCall_concrete (w : Watch) (status : ℕ → Status) : w.concrete.pollCall status
    = if w.bound ≤ w.size then .ok (PollSet.reported (lowest (w.hits status) w.bound))
      else .error .overflow := by
  simp only [PollSet.pollCall_eq, concrete, PollFd.length_table]
  by_cases hle : w.bound ≤ w.size
  · have htake : (PollFd.table w.registered w.size).take w.bound
        = PollFd.table w.registered w.bound := by
      rw [PollFd.table, PollFd.table, ← List.map_take, List.take_range, Nat.min_eq_left hle]
    rw [if_pos hle, if_pos hle, htake, PollSet.findIdx?_table]
    rfl
  · rw [if_neg hle, if_neg hle]

/-- A registered descriptor has something to report. -/
def ready (w : Watch) (status : ℕ → Status) (i : ℕ) : Bool :=
  decide (i ∈ w.registered) && (status i).ready

/-- What is watched after all the calls so far. -/
def ofCalls (ops : List PollSet.Op) : Watch := ops.foldl apply empty

theorem calls_eq_ok {ops : List PollSet.Op} {s : PollSet} (h : PollSet.calls ops = .ok s) :
    s = (ofCalls ops).concrete := by
  suffices ∀ (ops : List PollSet.Op) (w : Watch), ops.foldlM PollSet.apply w.concrete = .ok s →
      s = (ops.foldl apply w).concrete from this ops empty h
  intro ops
  induction ops with
  | nil => exact fun w hw => (Except.ok.inj hw).symm
  | cons op ops ih =>
    intro w hw
    rw [List.foldlM_cons, apply_concrete] at hw
    split at hw
    case isTrue => exact ih _ hw
    case isFalse => cases hw

end Watch

/-! ## After any calls -/

/-- **What a poll tells.**  After any calls, `pollCall` returns the lowest registered descriptor
that has something to report, and -1 if none has, exactly if the entries it goes through are there
and, while something is wrong with descriptor 0, no entry that is not registered lies below that
descriptor. -/
theorem pollCall_lowest_iff {ops : List PollSet.Op} {s : PollSet} (h : PollSet.calls ops = .ok s)
    (status : ℕ → Status) :
    let w := Watch.ofCalls ops
    s.pollCall status = .ok (PollSet.reported (lowest (w.ready status) w.bound))
      ↔ w.bound ≤ w.size ∧ ((status 0).broken = true → ∀ i < w.bound, i ∉ w.registered →
        ∃ j < i, j ∈ w.registered ∧ (status j).ready = true) := by
  intro w
  obtain rfl := Watch.calls_eq_ok h
  rw [Watch.pollCall_concrete]
  split
  case isFalse hlt => exact iff_of_false (by simp) fun h => hlt h.1
  case isTrue hle =>
    have hmono : ∀ i, w.ready status i = true → w.hits status i = true := fun i hi => by
      obtain ⟨hmem, hready⟩ : i ∈ w.registered ∧ (status i).ready = true := by
        simpa [Watch.ready] using hi
      rw [Watch.hits_of_mem hmem, hready]
    rw [Except.ok.injEq, PollSet.reported_injective.eq_iff, lowest_eq_lowest_iff hmono,
      and_iff_right hle]
    constructor
    · intro hall hbroken i hi hmem
      obtain ⟨j, hj, hready⟩ := hall i hi ((Watch.hits_of_not_mem hmem status).trans hbroken)
        (by simp [Watch.ready, hmem])
      exact ⟨j, hj, by simpa [Watch.ready] using hready⟩
    · intro hall i hi hhit hready
      have hmem : i ∉ w.registered := fun hmem => by
        rw [Watch.hits_of_mem hmem] at hhit
        simp [Watch.ready, hmem, hhit] at hready
      rw [Watch.hits_of_not_mem hmem] at hhit
      obtain ⟨j, hj, hjmem, hjready⟩ := hall hhit i hi hmem
      exact ⟨j, hj, by simp [Watch.ready, hjmem, hjready]⟩

/-- With descriptor 3 registered and readable, and descriptor 0 hung up, it does not return 3. -/
theorem pollCall_lowest_hung_up : ∃ s, PollSet.calls [.setup, .add 3] = .ok s
    ∧ s.pollCall (fun i => ⟨i = 3, i = 0⟩) ≠ .ok 3 := by
  obtain ⟨s, hs⟩ : ∃ s, PollSet.calls [.setup, .add 3] = .ok s := ⟨_, rfl⟩
  refine ⟨s, hs, fun h => ?_⟩
  have htells := ((pollCall_lowest_iff hs (fun i => ⟨i = 3, i = 0⟩)).mp h).2 rfl
  obtain ⟨j, hj, -⟩ := htells 0 (by decide) (by decide)
  exact absurd hj (Nat.not_lt_zero j)

/-! ## One descriptor

Both programs set the poll set up anew for the only descriptor they poll. -/

namespace Watch

/-- Only `n` is watched. -/
def only (n : ℕ) : Watch := (empty.apply .setup).add n

theorem bound_only (n : ℕ) : (only n).bound = n + 1 := by simp [only, apply, add, empty]

/-- **Set up anew** for `n`, whatever was watched before, up to `n`. -/
theorem watch_only {w : Watch} {n : ℕ} (h : w.bound ≤ n + 1) :
    w.concrete.setupPollSet.addToPollSet n = .ok (only n).concrete := by
  have hbound : max w.bound (n + 1) = max 0 (n + 1) := by omega
  rw [setup_concrete, add_concrete]
  simp only [only, apply, add, concrete, empty, hbound]
  rfl

/-- **What a poll of one descriptor tells.** -/
theorem pollCall_only (n : ℕ) (status : ℕ → Status) : (only n).concrete.pollCall status
    = .ok (if 0 < n ∧ (status 0).broken = true then 0
      else if (status n).ready = true then (n : ℤ) else -1) := by
  have hbound := bound_only n
  have hmem : ∀ i, i ∈ (only n).registered ↔ i = n := by simp [only, apply, add]
  have hsize : (only n).bound ≤ (only n).size := by
    have := (only n).lt_size n ((hmem n).mpr rfl)
    omega
  have hself : (only n).hits status n = (status n).ready := hits_of_mem ((hmem n).mpr rfl) status
  have hother : ∀ i < n, (only n).hits status i = (status 0).broken := fun i hi =>
    hits_of_not_mem (fun h => hi.ne ((hmem i).mp h)) status
  rw [pollCall_concrete, if_pos hsize, Except.ok.injEq, hbound]
  split
  case isTrue hbroken =>
    have hlowest : lowest ((only n).hits status) (n + 1) = some 0 :=
      lowest_eq_some.mpr ⟨(hother 0 hbroken.1).trans hbroken.2, Nat.succ_pos n,
        fun j hj => absurd hj (Nat.not_lt_zero j)⟩
    rw [hlowest]
    rfl
  case isFalse hbroken =>
    have hbelow : ∀ i < n, (only n).hits status i = false := fun i hi => by
      rw [hother i hi]
      exact Bool.not_eq_true _ ▸ fun h => hbroken ⟨(Nat.zero_le i).trans_lt hi, h⟩
    split
    case isTrue hready =>
      have hlowest : lowest ((only n).hits status) (n + 1) = some n :=
        lowest_eq_some.mpr ⟨hself.trans hready, Nat.lt_succ_self n, hbelow⟩
      rw [hlowest]
      rfl
    case isFalse hready =>
      have hlowest : lowest ((only n).hits status) (n + 1) = none := by
        refine lowest_eq_none.mpr fun i hi => ?_
        rcases (Nat.lt_succ_iff.mp hi).lt_or_eq with hlt | rfl
        · exact hbelow i hlt
        · rw [hself]
          exact Bool.not_eq_true _ ▸ hready
      rw [hlowest]
      rfl

end Watch

end RemoteFileCopy
