import Mathlib.Data.List.Basic

/-!
# Library/Channel — FIFO channels in one list

A list of what is in flight between many parties is, for each pair of them, a channel: the sublist
of what is theirs.  `Oldest P l k x` says that `x`, at index `k`, is the first of `l` with `P`.
Taking the oldest away takes the head off its channel, and leaves every other channel as it was.
-/

namespace Channel

variable {α : Type*} {P : α → Prop} [DecidablePred P] {l : List α} {k : ℕ} {x : α}

/-- **The first of `l` with `P`**, and where it is. -/
structure Oldest (P : α → Prop) (l : List α) (k : ℕ) (x : α) : Prop where
  get : l[k]? = some x
  mem : P x
  first : ∀ j < k, ∀ y, l[j]? = some y → ¬ P y

/-- What is not of the channel may come and go. -/
theorem filter_eraseIdx_of_not (hk : l[k]? = some x) (hx : ¬ P x) :
    (l.eraseIdx k).filter P = l.filter P := by
  induction l generalizing k with
  | nil => rfl
  | cons y l ih =>
    cases k with
    | zero =>
      obtain rfl : y = x := by simpa using hk
      rw [List.eraseIdx_cons_zero, List.filter_cons_of_neg (by simpa using hx)]
    | succ k =>
      have hk' : l[k]? = some x := by simpa using hk
      rw [List.eraseIdx_cons_succ, List.filter_cons, List.filter_cons, ih hk']

/-- **What is of the channel** has its own index there, and leaves it alone. -/
theorem exists_filter_eraseIdx (hk : l[k]? = some x) (hx : P x) :
    ∃ j, (l.filter P)[j]? = some x ∧ (l.eraseIdx k).filter P = (l.filter P).eraseIdx j := by
  induction l generalizing k with
  | nil => simp at hk
  | cons y l ih =>
    cases k with
    | zero =>
      obtain rfl : y = x := by simpa using hk
      rw [List.filter_cons_of_pos (by simpa using hx)]
      exact ⟨0, rfl, rfl⟩
    | succ k =>
      obtain ⟨j, hj, herase⟩ := ih (k := k) (by simpa using hk)
      rw [List.eraseIdx_cons_succ, List.filter_cons, List.filter_cons]
      split
      · exact ⟨j + 1, hj, by rw [herase, List.eraseIdx_cons_succ]⟩
      · exact ⟨j, hj, herase⟩

/-- **The oldest is the head of its channel.** -/
theorem Oldest.filter_eq (h : Oldest P l k x) : l.filter P = x :: (l.eraseIdx k).filter P := by
  induction l generalizing k with
  | nil => simpa using h.get
  | cons y l ih =>
    cases k with
    | zero =>
      obtain rfl : y = x := by simpa using h.get
      rw [List.eraseIdx_cons_zero, List.filter_cons_of_pos (by simpa using h.mem)]
    | succ k =>
      have hy : ¬ P y := h.first 0 (Nat.succ_pos k) y rfl
      have htail : Oldest P l k x := ⟨by simpa using h.get, h.mem, fun j hj z hz =>
        h.first (j + 1) (Nat.succ_lt_succ hj) z (by simpa using hz)⟩
      rw [List.eraseIdx_cons_succ, List.filter_cons_of_neg (by simpa using hy),
        List.filter_cons_of_neg (by simpa using hy), ih htail]

/-- **The head of a channel is its oldest.** -/
theorem exists_oldest {rest : List α} (h : l.filter P = x :: rest) : ∃ k, Oldest P l k x := by
  induction l with
  | nil => simp at h
  | cons y l ih =>
    by_cases hy : P y
    · rw [List.filter_cons_of_pos (by simpa using hy)] at h
      obtain ⟨rfl, -⟩ := List.cons.inj h
      exact ⟨0, rfl, hy, fun j hj => absurd hj (Nat.not_lt_zero j)⟩
    · rw [List.filter_cons_of_neg (by simpa using hy)] at h
      obtain ⟨k, hk⟩ := ih h
      refine ⟨k + 1, by simpa using hk.get, hk.mem, fun j hj z hz => ?_⟩
      cases j with
      | zero =>
        obtain rfl : y = z := by simpa using hz
        exact hy
      | succ j => exact hk.first j (Nat.lt_of_succ_lt_succ hj) z (by simpa using hz)

/-- A channel of one is empty without it. -/
theorem filter_eraseIdx_of_singleton {y : α} (h : l.filter P = [y]) (hk : l[k]? = some x)
    (hx : P x) : x = y ∧ (l.eraseIdx k).filter P = [] := by
  induction l generalizing k with
  | nil => simp at h
  | cons z l ih =>
    cases k with
    | zero =>
      obtain rfl : z = x := by simpa using hk
      rw [List.filter_cons_of_pos (by simpa using hx)] at h
      exact List.cons.inj h
    | succ k =>
      have hk' : l[k]? = some x := by simpa using hk
      rw [List.filter_cons] at h
      split at h
      case isTrue hz =>
        -- `z` is all there is
        obtain ⟨-, hnil⟩ := List.cons.inj h
        exact absurd (decide_eq_true hx)
          (List.filter_eq_nil_iff.mp hnil x (List.mem_of_getElem? hk'))
      case isFalse hz =>
        rw [List.eraseIdx_cons_succ, List.filter_cons_of_neg (by simpa using hz)]
        exact ih h hk'

end Channel
