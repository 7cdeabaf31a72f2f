import Mathlib.Data.List.Basic
import Mathlib.Order.Nat

/-!
# Library/Descriptors — numbers for what is open, the lowest first

A table gives what opens the lowest number that is free.  So a number that is released while
everything below it is open is the next to be assigned (`assign_release`): a program that closes
and opens in turn keeps the number it had, however often it does.
-/

/-- A table of descriptors — what is open under each number. -/
abbrev Descriptors (α : Type*) := List (Option α)

namespace Descriptors

variable {α : Type*} {t : Descriptors α} {x : α} {m n : ℕ}

/-- What is open under `n`. -/
def lookup (t : Descriptors α) (n : ℕ) : Option α := t[n]?.join

/-- `x` is opened, under the lowest number that is free. -/
def assign : Descriptors α → α → ℕ × Descriptors α
  | [], x => (0, [some x])
  | none :: t, x => (0, some x :: t)
  | some y :: t, x => ((assign t x).1 + 1, some y :: (assign t x).2)

/-- What is open under `n` is closed; a number under which nothing is open may be closed too. -/
def release (t : Descriptors α) (n : ℕ) : Descriptors α := t.set n none

/-- How much is open. -/
def inUse (t : Descriptors α) : ℕ := t.countP Option.isSome

/-- **Everything below `n` is open.** -/
def Below (t : Descriptors α) (n : ℕ) : Prop := ∀ m < n, (t.lookup m).isSome

/-! ## What is open under a number -/

theorem lookup_cons_zero (y : Option α) (t : Descriptors α) : lookup (y :: t) 0 = y := rfl

theorem lookup_cons_succ (y : Option α) (t : Descriptors α) (n : ℕ) :
    lookup (y :: t) (n + 1) = t.lookup n := rfl

@[simp] theorem lookup_release_self (t : Descriptors α) (n : ℕ) :
    (t.release n).lookup n = none := by
  rw [lookup, release, List.getElem?_set_self']
  cases t[n]? <;> rfl

theorem lookup_release_of_ne (h : m ≠ n) : (t.release n).lookup m = t.lookup m := by
  rw [lookup, release, List.getElem?_set_ne h.symm, lookup]

/-- **What has just been opened** is open under its number. -/
@[simp] theorem lookup_assign_self (t : Descriptors α) (x : α) :
    (t.assign x).2.lookup (t.assign x).1 = some x := by
  induction t with
  | nil => rfl
  | cons y t ih =>
    cases y with
    | none => rfl
    | some y => exact ih

/-- Nothing was open under it before. -/
theorem lookup_assign (t : Descriptors α) (x : α) : t.lookup (t.assign x).1 = none := by
  induction t with
  | nil => rfl
  | cons y t ih =>
    cases y with
    | none => rfl
    | some y => exact ih

theorem lookup_assign_of_ne (h : n ≠ (t.assign x).1) : (t.assign x).2.lookup n = t.lookup n := by
  induction t generalizing n with
  | nil =>
    obtain ⟨m, rfl⟩ := Nat.exists_eq_succ_of_ne_zero h
    rfl
  | cons y t ih =>
    cases y with
    | none =>
      obtain ⟨m, rfl⟩ := Nat.exists_eq_succ_of_ne_zero h
      rfl
    | some y =>
      cases n with
      | zero => rfl
      | succ m => exact ih fun heq => h (congrArg Nat.succ heq)

/-- What is open stays open. -/
theorem lookup_assign_of_some (h : t.lookup n = some x) (y : α) :
    (t.assign y).2.lookup n = some x := by
  rw [lookup_assign_of_ne, h]
  rintro rfl
  rw [lookup_assign] at h
  cases h

/-! ## The lowest number -/

/-- **Below the number that is assigned everything is open.** -/
theorem below_assign (t : Descriptors α) (x : α) : t.Below (t.assign x).1 := by
  induction t with
  | nil => exact fun m hm => absurd hm (Nat.not_lt_zero m)
  | cons y t ih =>
    cases y with
    | none => exact fun m hm => absurd hm (Nat.not_lt_zero m)
    | some y =>
      intro m hm
      cases m with
      | zero => rfl
      | succ m => exact ih m (Nat.lt_of_succ_lt_succ hm)

/-- **The number that is assigned** is the only free one below which everything is open. -/
theorem assign_eq_of_below (h : t.Below n) (hn : t.lookup n = none) (x : α) :
    (t.assign x).1 = n := by
  rcases lt_trichotomy (t.assign x).1 n with hlt | heq | hgt
  · have hsome := h _ hlt
    rw [lookup_assign] at hsome
    cases hsome
  · exact heq
  · have hsome := below_assign t x n hgt
    rw [hn] at hsome
    cases hsome

theorem Below.assign (h : t.Below n) (x : α) : (t.assign x).2.Below n := by
  intro m hm
  obtain ⟨y, hy⟩ := Option.isSome_iff_exists.mp (h m hm)
  rw [lookup_assign_of_some hy]
  rfl

theorem Below.release (h : t.Below n) (hle : n ≤ m) : (t.release m).Below n := by
  intro k hk
  rw [lookup_release_of_ne (hk.trans_le hle).ne]
  exact h k hk

/-- What is opened lies past everything that is open from the bottom on. -/
theorem Below.le_assign (h : t.Below n) (x : α) : n ≤ (t.assign x).1 := by
  by_contra hlt
  have hsome := h _ (Nat.lt_of_not_le hlt)
  rw [lookup_assign] at hsome
  cases hsome

/-- **What opens after it gets a higher number**, if nothing is closed in between. -/
theorem assign_lt_assign (t : Descriptors α) (x y : α) :
    (t.assign x).1 < ((t.assign x).2.assign y).1 := by
  refine Below.le_assign (n := (t.assign x).1 + 1) (fun m hm => ?_) y
  rcases (Nat.lt_succ_iff.mp hm).lt_or_eq with hlt | rfl
  · exact (below_assign t x).assign x m hlt
  · rw [lookup_assign_self]
    rfl

/-- **A number that is closed is the next to be assigned**, if everything below it is open. -/
theorem assign_release (h : t.Below n) (x : α) : ((t.release n).assign x).1 = n :=
  assign_eq_of_below (h.release le_rfl) (lookup_release_self t n) x

/-! ## How much is open -/

theorem inUse_cons (y : Option α) (t : Descriptors α) :
    inUse (y :: t) = t.inUse + if y.isSome then 1 else 0 :=
  List.countP_cons

theorem inUse_assign (t : Descriptors α) (x : α) : (t.assign x).2.inUse = t.inUse + 1 := by
  induction t with
  | nil => rfl
  | cons y t ih =>
    cases y with
    | none => simp [Descriptors.assign, inUse_cons]
    | some y =>
      rw [Descriptors.assign, inUse_cons, inUse_cons, ih]
      omega

theorem inUse_release (t : Descriptors α) (n : ℕ) :
    (t.release n).inUse + (if (t.lookup n).isSome then 1 else 0) = t.inUse := by
  induction t generalizing n with
  | nil => rfl
  | cons y t ih =>
    cases n with
    | zero =>
      rw [lookup_cons_zero, release, List.set_cons_zero, inUse_cons, inUse_cons]
      rfl
    | succ n =>
      have hrelease : release (y :: t) (n + 1) = y :: release t n := rfl
      rw [hrelease, lookup_cons_succ, inUse_cons, inUse_cons, ← ih n]
      omega

/-- What is opened takes one more, besides what may be under `n`. -/
theorem inUse_release_assign_le (t : Descriptors α) (x : α) (n : ℕ) :
    ((t.assign x).2.release n).inUse ≤ (t.release n).inUse + 1 := by
  have hassign := inUse_release (t.assign x).2 n
  have hrelease := inUse_release t n
  rw [inUse_assign] at hassign
  by_cases hn : n = (t.assign x).1
  · subst hn
    simp only [lookup_assign_self, lookup_assign, Option.isSome_some, Option.isSome_none, if_true,
      Bool.false_eq_true, if_false] at hassign hrelease
    omega
  · rw [lookup_assign_of_ne hn] at hassign
    omega

/-! ## A number that is used again

A program has `n` open most of the time, and closes it only to open it again. -/

/-- **A table with nothing free below `n`**, with all it was started with, and with no more than `k`
besides that and `n`. -/
structure Holding (inherited t : Descriptors α) (n k : ℕ) : Prop where
  below : t.Below n
  kept : ∀ m x, inherited.lookup m = some x → m ≠ n ∧ t.lookup m = some x
  inUse : (t.release n).inUse ≤ inherited.inUse + k

namespace Holding

variable {inherited : Descriptors α} {k : ℕ}

/-- **At the start** `n` is what has just been opened. -/
theorem start (t : Descriptors α) (x : α) : Holding t (t.assign x).2 (t.assign x).1 0 where
  below := (below_assign t x).assign x
  kept m y hy := by
    refine ⟨?_, lookup_assign_of_some hy x⟩
    rintro rfl
    rw [lookup_assign] at hy
    cases hy
  inUse := by
    have hrelease := inUse_release (t.assign x).2 (t.assign x).1
    rw [lookup_assign_self, Option.isSome_some, if_pos rfl, inUse_assign] at hrelease
    exact (Nat.succ.inj hrelease).le

theorem assign (h : Holding inherited t n k) (x : α) :
    Holding inherited (t.assign x).2 n (k + 1) where
  below := h.below.assign x
  kept m y hy := ⟨(h.kept m y hy).1, lookup_assign_of_some (h.kept m y hy).2 x⟩
  inUse := (inUse_release_assign_le t x n).trans (Nat.succ_le_succ h.inUse)

/-- What was opened on the way is closed. -/
theorem release (h : Holding inherited t n k) (hle : n ≤ m) (hm : inherited.lookup m = none) :
    Holding inherited (t.release m) n k where
  below := h.below.release hle
  kept l y hy := by
    refine ⟨(h.kept l y hy).1, ?_⟩
    rw [lookup_release_of_ne, (h.kept l y hy).2]
    rintro rfl
    rw [hm] at hy
    cases hy
  inUse := by
    have hcomm : ((t.release m).release n).inUse ≤ (t.release n).inUse := by
      by_cases hmn : m = n
      · rw [hmn, Descriptors.release, Descriptors.release, List.set_set]
      · rw [Descriptors.release, Descriptors.release, List.set_comm _ _ hmn]
        exact (Nat.le_add_right _ _).trans (inUse_release (t.release n) m).le
    exact hcomm.trans h.inUse

theorem free (h : Holding inherited t n k) : inherited.lookup n = none := by
  by_contra hsome
  obtain ⟨x, hx⟩ := Option.ne_none_iff_exists'.mp hsome
  exact (h.kept n x hx).1 rfl

/-- What is opened gets a number that nothing was open under at the start. -/
theorem free_assign (h : Holding inherited t n k) (x : α) :
    inherited.lookup (t.assign x).1 = none := by
  by_contra hsome
  obtain ⟨y, hy⟩ := Option.ne_none_iff_exists'.mp hsome
  have hlookup := (h.kept _ y hy).2
  rw [lookup_assign] at hlookup
  cases hlookup

theorem mono (h : Holding inherited t n k) {l : ℕ} (hle : k ≤ l) : Holding inherited t n l :=
  ⟨h.below, h.kept, h.inUse.trans (Nat.add_le_add_left hle _)⟩

/-- **An attempt**: `n` is closed, if it is open, and names what is opened next. -/
theorem reopen (h : Holding inherited t n k) (x : α) :
    ((t.release n).assign x).1 = n
      ∧ ((t.release n).assign x).2.lookup n = some x
      ∧ Holding inherited ((t.release n).assign x).2 n k := by
  have hfst := assign_release h.below x
  have hrelease := h.release le_rfl h.free
  have hlookup := lookup_assign_self (t.release n) x
  rw [hfst] at hlookup
  refine ⟨hfst, hlookup, (hrelease.assign x).below, (hrelease.assign x).kept, ?_⟩
  have huse := inUse_release ((t.release n).assign x).2 n
  rw [hlookup, inUse_assign, Option.isSome_some, if_pos rfl] at huse
  exact (Nat.succ.inj huse).le.trans h.inUse

end Holding

end Descriptors
