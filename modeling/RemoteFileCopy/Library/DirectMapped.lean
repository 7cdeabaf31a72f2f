import Mathlib.Data.Fintype.Card

/-!
# Library/DirectMapped — one cell for each residue, and the key beside the value

A direct-mapped table gives every key a cell, the cell `slot k`, and keeps the key with the value.
A cell may be asked for by many keys, but it answers only the one it holds, so the table *is* a
partial map (`lookup`), and its operations are updates of that map as long as nothing is inserted
into a cell in use (`lookup_insert`, `lookup_vacate`).  The cells in use are counted (`count`).
-/

/-- **A direct-mapped table** — a cell in use holds a key whose cell it is. -/
structure DirectMapped {K I : Type*} (slot : K → I) (V : Type*) where
  cell : I → Option (K × V)
  slot_eq : ∀ {i k v}, cell i = some (k, v) → slot k = i

namespace DirectMapped

variable {K I V : Type*} {slot : K → I}

/-- The table with every cell free. -/
def empty : DirectMapped slot V := ⟨fun _ => none, fun h => by cases h⟩

@[simp] theorem cell_empty (i : I) : (empty : DirectMapped slot V).cell i = none := rfl

variable (t : DirectMapped slot V)

/-- The key's cell is not in use. -/
def Free (k : K) : Prop := t.cell (slot k) = none

section Operations

variable [DecidableEq I]

/-- Put a value under a key, whatever was in the cell. -/
def insert (k : K) (v : V) : DirectMapped slot V where
  cell := Function.update t.cell (slot k) (some (k, v))
  slot_eq {i k' v'} h := by
    rcases eq_or_ne i (slot k) with rfl | hi
    · rw [Function.update_self, Option.some_inj, Prod.mk.injEq] at h
      rw [h.1]
    · rw [Function.update_of_ne hi] at h
      exact t.slot_eq h

/-- Empty a key's cell. -/
def vacate (k : K) : DirectMapped slot V where
  cell := Function.update t.cell (slot k) none
  slot_eq {i k' v'} h := by
    rcases eq_or_ne i (slot k) with rfl | hi
    · rw [Function.update_self] at h
      cases h
    · rw [Function.update_of_ne hi] at h
      exact t.slot_eq h

@[simp] theorem cell_insert (k : K) (v : V) :
    (t.insert k v).cell = Function.update t.cell (slot k) (some (k, v)) := rfl

@[simp] theorem cell_vacate (k : K) :
    (t.vacate k).cell = Function.update t.cell (slot k) none := rfl

end Operations

/-! ## The table as a map -/

section Lookup

variable [DecidableEq K]

/-- The value under a key. -/
def lookup (k : K) : Option V :=
  (t.cell (slot k)).bind fun e => if e.1 = k then some e.2 else none

variable {t}

/-- **A key is found exactly in its own cell.** -/
theorem lookup_eq_some_iff {k : K} {v : V} :
    t.lookup k = some v ↔ t.cell (slot k) = some (k, v) := by
  constructor
  · intro h
    obtain ⟨⟨k', v'⟩, hcell, hkey⟩ := Option.bind_eq_some_iff.mp h
    split at hkey
    case isTrue hk =>
      obtain rfl := Option.some_inj.mp hkey
      rwa [← hk] at hcell ⊢
    case isFalse => cases hkey
  · intro h
    rw [lookup, h]
    exact if_pos rfl

theorem lookup_of_free {k : K} (h : t.Free k) : t.lookup k = none := by
  rw [lookup, show t.cell (slot k) = none from h]
  rfl

/-- **The stored keys have cells of their own.** -/
theorem eq_of_slot_eq {k k' : K} {v v' : V} (h : t.lookup k = some v) (h' : t.lookup k' = some v')
    (hslot : slot k = slot k') : k = k' := by
  rw [lookup_eq_some_iff] at h h'
  rw [hslot, h', Option.some_inj, Prod.mk.injEq] at h
  exact h.1.symm

variable [DecidableEq I]

/-- **Inserting into a free cell updates the map at the key.** -/
theorem lookup_insert {k : K} (h : t.Free k) (v : V) :
    (t.insert k v).lookup = Function.update t.lookup k (some v) := by
  funext k'
  rcases eq_or_ne k' k with rfl | hk
  · rw [Function.update_self, lookup_eq_some_iff, cell_insert, Function.update_self]
  · rw [Function.update_of_ne hk]
    by_cases hslot : slot k' = slot k
    · have hfree : t.Free k' := by rwa [Free, hslot]
      rw [lookup_of_free hfree, lookup, cell_insert, hslot, Function.update_self]
      exact if_neg hk.symm
    · rw [lookup, lookup, cell_insert, Function.update_of_ne hslot]

/-- **Emptying the cell of a stored key updates the map at the key.** -/
theorem lookup_vacate {k : K} {v : V} (h : t.lookup k = some v) :
    (t.vacate k).lookup = Function.update t.lookup k none := by
  funext k'
  rcases eq_or_ne k' k with rfl | hk
  · rw [Function.update_self]
    exact lookup_of_free (by rw [Free, cell_vacate, Function.update_self])
  · rw [Function.update_of_ne hk]
    by_cases hslot : slot k' = slot k
    · have hno : t.lookup k' = none := by
        by_contra hsome
        obtain ⟨v', hv'⟩ := Option.ne_none_iff_exists'.mp hsome
        exact hk (eq_of_slot_eq hv' h hslot)
      rw [hno]
      exact lookup_of_free (by rw [Free, cell_vacate, hslot, Function.update_self])
    · rw [lookup, lookup, cell_vacate, Function.update_of_ne hslot]

end Lookup

/-! ## Counting the cells in use -/

section Count

variable [Fintype I]

/-- The cells in use. -/
def used : Finset I := Finset.univ.filter fun i => (t.cell i).isSome = true

@[simp] theorem mem_used {i : I} : i ∈ t.used ↔ t.cell i ≠ none := by
  rw [used, Finset.mem_filter, Option.isSome_iff_ne_none]
  exact and_iff_right (Finset.mem_univ i)

/-- The number of cells in use. -/
def count : ℕ := t.used.card

@[simp] theorem count_empty : (empty : DirectMapped slot V).count = 0 := by
  rw [count, Finset.card_eq_zero, Finset.eq_empty_iff_forall_notMem]
  simp

theorem count_le : t.count ≤ Fintype.card I := Finset.card_le_univ _

/-- **The table is full when every cell is in use.** -/
theorem count_eq_card_iff : t.count = Fintype.card I ↔ ∀ i, t.cell i ≠ none := by
  rw [count, Finset.card_eq_iff_eq_univ, Finset.eq_univ_iff_forall]
  simp only [mem_used]

/-- **The table is empty when no cell is in use.** -/
theorem count_eq_zero_iff : t.count = 0 ↔ ∀ i, t.cell i = none := by
  rw [count, Finset.card_eq_zero, Finset.eq_empty_iff_forall_notMem]
  simp only [mem_used, not_not]

variable {t} [DecidableEq I]

theorem count_insert {k : K} (h : t.Free k) (v : V) : (t.insert k v).count = t.count + 1 := by
  have hnot : slot k ∉ t.used := fun hmem => t.mem_used.mp hmem h
  have hcons : (t.insert k v).used = Finset.cons (slot k) t.used hnot := by
    ext i
    rw [Finset.mem_cons, mem_used, mem_used, cell_insert]
    rcases eq_or_ne i (slot k) with rfl | hi
    · simp
    · simp [hi]
  rw [count, count, hcons, Finset.card_cons]

theorem count_vacate {k : K} (h : ¬ t.Free k) : (t.vacate k).count + 1 = t.count := by
  have herase : (t.vacate k).used = t.used.erase (slot k) := by
    ext i
    rw [Finset.mem_erase, mem_used, mem_used, cell_vacate]
    rcases eq_or_ne i (slot k) with rfl | hi
    · simp
    · simp [hi]
  rw [count, count, herase, Finset.card_erase_add_one (t.mem_used.mpr h)]

end Count

end DirectMapped
