import Mathlib.Data.Finmap
import Mathlib.Data.Fintype.EquivFin

/-!
# Library/Heap — blocks, and who owns them

A heap has a block at every address that has been allocated and not freed.  A program keeps pointers
to its own blocks; `Owns` says that what is on the heap, besides what was there at the start, is
exactly one block for each of them.  So what is freed is there, what is loaded is what was stored,
and a program that owns nothing any more has left the heap as it was (`Owns.eq_of_none`).
-/

/-- A heap — the block at every address that is allocated. -/
abbrev Heap (α : Type*) := Finmap fun _ : ℕ => α

namespace Heap

variable {α κ : Type*}

/-- **There is always room**: some address is not allocated. -/
theorem exists_unused (h : Heap α) : ∃ a, h.lookup a = none := by
  obtain ⟨a, ha⟩ := Infinite.exists_notMem_finset h.keys
  exact ⟨a, Finmap.lookup_eq_none.mpr fun hmem => ha (Finmap.mem_keys.mpr hmem)⟩

/-- `free`, of `NULL` or of a block; anything else is an error. -/
def free (h : Heap α) : Option ℕ → Option (Heap α)
  | none => some h
  | some a => (h.lookup a).map fun _ => h.erase a

/-- **Who owns what** — besides `h₀` there is on `h` what `own` lists, at an address of its own
each. -/
structure Owns (h₀ h : Heap α) (own : κ → Option (ℕ × α)) : Prop where
  unused : ∀ k a x, own k = some (a, x) → h₀.lookup a = none
  injective : ∀ k l a x y, own k = some (a, x) → own l = some (a, y) → k = l
  lookup : ∀ a x, h.lookup a = some x ↔ h₀.lookup a = some x ∨ ∃ k, own k = some (a, x)

namespace Owns

variable {h₀ h : Heap α} {own : κ → Option (ℕ × α)} {k : κ} {a : ℕ} {x : α}

/-- At the start it owns nothing. -/
theorem start (h : Heap α) : Owns h h fun _ : κ => none where
  unused _ _ _ hk := by cases hk
  injective _ _ _ _ _ hk := by cases hk
  lookup a x := by simp

/-- **What it owns is there.** -/
theorem load (h' : Owns h₀ h own) (hk : own k = some (a, x)) : h.lookup a = some x :=
  (h'.lookup a x).mpr (.inr ⟨k, hk⟩)

/-- What is not allocated is nobody's. -/
theorem ne_of_unused (h' : Owns h₀ h own) (ha : h.lookup a = none) (k : κ) (x : α) :
    own k ≠ some (a, x) := fun hk => by
  rw [h'.load hk] at ha
  cases ha

/-- What is not allocated was not at the start. -/
theorem unused_start (h' : Owns h₀ h own) (ha : h.lookup a = none) : h₀.lookup a = none := by
  by_contra hsome
  obtain ⟨x, hx⟩ := Option.ne_none_iff_exists'.mp hsome
  rw [(h'.lookup a x).mpr (.inl hx)] at ha
  cases ha

variable [DecidableEq κ]

/-- **A block is allocated.** -/
theorem alloc (h' : Owns h₀ h own) (hk : own k = none) (ha : h.lookup a = none) (x : α) :
    Owns h₀ (h.insert a x) (Function.update own k (some (a, x))) := by
  have hnew : ∀ l b y, Function.update own k (some (a, x)) l = some (b, y)
      ↔ (l = k ∧ b = a ∧ y = x) ∨ own l = some (b, y) := fun l b y => by
    by_cases hl : l = k
    · subst hl
      simp [hk, eq_comm]
    · simp [hl]
  refine ⟨fun l b y hb => ?_, fun l m b y z hl hm => ?_, fun b y => ?_⟩
  · rcases (hnew l b y).mp hb with ⟨-, rfl, -⟩ | hold
    · exact h'.unused_start ha
    · exact h'.unused l b y hold
  · rcases (hnew l b y).mp hl with ⟨rfl, rfl, rfl⟩ | hold
    · rcases (hnew m b z).mp hm with ⟨rfl, -, -⟩ | hold'
      · rfl
      · exact absurd hold' (h'.ne_of_unused ha m z)
    · rcases (hnew m b z).mp hm with ⟨rfl, rfl, rfl⟩ | hold'
      · exact absurd hold (h'.ne_of_unused ha l y)
      · exact h'.injective l m b y z hold hold'
  · by_cases hb : b = a
    · subst hb
      rw [Finmap.lookup_insert, Option.some_inj]
      constructor
      · rintro rfl
        exact .inr ⟨k, Function.update_self _ _ _⟩
      · rintro (hy | ⟨l, hl⟩)
        · rw [h'.unused_start ha] at hy
          cases hy
        · rcases (hnew l b y).mp hl with ⟨-, -, rfl⟩ | hold
          · rfl
          · exact absurd hold (h'.ne_of_unused ha l y)
    · rw [Finmap.lookup_insert_of_ne _ hb, h'.lookup]
      refine or_congr_right (exists_congr fun l => ?_)
      rw [hnew, or_iff_right fun h => hb h.2.1]

/-- **What it owns it can free**, once: then it owns it no more. -/
theorem free (h' : Owns h₀ h own) (hk : own k = some (a, x)) :
    Heap.free h (some a) = some (h.erase a)
      ∧ Owns h₀ (h.erase a) (Function.update own k none) := by
  have hold : ∀ l b y, Function.update own k none l = some (b, y) ↔ own l = some (b, y) ∧ b ≠ a :=
    fun l b y => by
      by_cases hl : l = k
      · subst hl
        rw [Function.update_self]
        refine iff_of_false (by simp) fun hb => hb.2 ?_
        exact (Prod.mk.inj (Option.some_inj.mp (hk.symm.trans hb.1))).1.symm
      · rw [Function.update_of_ne hl]
        refine (and_iff_left_of_imp fun hb => ?_).symm
        rintro rfl
        exact hl (h'.injective l k _ _ _ hb hk)
  refine ⟨by rw [Heap.free, h'.load hk, Option.map_some], fun l b y hb => ?_,
    fun l m b y z hl hm => ?_, fun b y => ?_⟩
  · exact h'.unused l b y ((hold l b y).mp hb).1
  · exact h'.injective l m b y z ((hold l b y).mp hl).1 ((hold m b z).mp hm).1
  · by_cases hb : b = a
    · subst hb
      rw [Finmap.lookup_erase]
      refine iff_of_false (by simp) ?_
      rintro (hy | ⟨l, hl⟩)
      · rw [h'.unused k b x hk] at hy
        cases hy
      · exact ((hold l b y).mp hl).2 rfl
    · rw [Finmap.lookup_erase_ne hb, h'.lookup]
      exact or_congr_right (exists_congr fun l => ((hold l b y).trans (and_iff_left hb)).symm)

omit [DecidableEq κ] in
/-- **Who owns nothing** has left the heap as it was. -/
theorem eq_of_none (h' : Owns h₀ h own) (hnone : ∀ k, own k = none) : h = h₀ := by
  refine Finmap.ext_lookup fun a => Option.ext fun x => (h'.lookup a x).trans ?_
  refine or_iff_left ?_
  rintro ⟨k, hk⟩
  rw [hnone k] at hk
  cases hk

end Owns

end Heap
