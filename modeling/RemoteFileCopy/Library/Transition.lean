import Mathlib.Algebra.Ring.Nat
import Mathlib.Data.List.Basic
import Mathlib.Order.Basic

/-!
# Library/Transition — partial machines, guarded runs and their rules

A **machine** is a partial function of a state and an event; every choice the environment makes is
in the event, so a run is replayed by evaluation.  A **guard** says which events an environment may
offer: one machine under two guards is one program in two networks.

The rules are the usual ones: an invariant passes from one step to a run (`Run.invariant`), holds
at the source of every edge (`Run.edge`), a budget bounds what a run costs
(`Run.cost_add_budget_le`), and a measure that every step lowers bounds its length
(`Run.length_add_measure_le`).
-/

namespace Transition

/-- A machine whose step is a partial function of the state and of an event that settles every
choice; a step also shows an output. -/
structure Machine (S E O : Type*) where
  step : S → E → Option (S × O)

/-- One step of a run, with both of its ends. -/
structure Edge (S E O : Type*) where
  source : S
  event : E
  output : O
  target : S

variable {S E O : Type*}

/-- **A run under a guard** — its edges, the latest first, and the state it has reached. -/
inductive Run (M : Machine S E O) (G : S → E → Prop) (s₀ : S) : List (Edge S E O) → S → Prop
  | nil : Run M G s₀ [] s₀
  | cons {es : List (Edge S E O)} {s t : S} {e : E} {o : O} (run : Run M G s₀ es s)
      (guard : G s e) (step : M.step s e = some (t, o)) : Run M G s₀ (⟨s, e, o, t⟩ :: es) t

/-- The states some run reaches. -/
def Reachable (M : Machine S E O) (G : S → E → Prop) (s₀ s : S) : Prop :=
  ∃ es, Run M G s₀ es s

/-- No event the guard allows is enabled. -/
def Stuck (M : Machine S E O) (G : S → E → Prop) (s : S) : Prop :=
  ∀ e, G s e → M.step s e = none

variable {M : Machine S E O} {G : S → E → Prop} {s₀ s : S} {es : List (Edge S E O)}

/-! ## Invariants -/

/-- **The invariant rule.** -/
theorem Run.invariant {P : S → Prop} (h : Run M G s₀ es s) (h₀ : P s₀)
    (hstep : ∀ s e t o, P s → G s e → M.step s e = some (t, o) → P t) : P s := by
  induction h with
  | nil => exact h₀
  | cons _ hg hs ih => exact hstep _ _ _ _ ih hg hs

/-- A run under a guard is one under a weaker guard. -/
theorem Run.mono {H : S → E → Prop} (h : Run M G s₀ es s) (hGH : ∀ s e, G s e → H s e) :
    Run M H s₀ es s := by
  induction h with
  | nil => exact .nil
  | cons _ hg hs ih => exact ih.cons (hGH _ _ hg) hs

/-- A guard a run meets at every edge may be added to the one it was made under. -/
theorem Run.strengthen {H : S → E → Prop} (h : Run M G s₀ es s)
    (hG : ∀ x ∈ es, H x.source x.event) :
    Run M (fun s e => G s e ∧ H s e) s₀ es s := by
  induction h with
  | nil => exact .nil
  | cons _ hg hs ih =>
    obtain ⟨hx, hes⟩ := List.forall_mem_cons.mp hG
    exact .cons (ih hes) ⟨hg, hx⟩ hs

/-- **Every edge of a run is a step out of a reachable state.** -/
theorem Run.edge (h : Run M G s₀ es s) {x : Edge S E O} (hx : x ∈ es) :
    Reachable M G s₀ x.source ∧ G x.source x.event
      ∧ M.step x.source x.event = some (x.target, x.output) := by
  induction h with
  | nil => cases hx
  | cons hr hg hs ih =>
    rcases List.mem_cons.mp hx with rfl | hx
    · exact ⟨⟨_, hr⟩, hg, hs⟩
    · exact ih hx

/-- **A property a run acquires is acquired at one of its edges.** -/
theorem Run.exists_crossing {P : S → Prop} (h : Run M G s₀ es s) (h₀ : ¬ P s₀) (hs : P s) :
    ∃ x ∈ es, ¬ P x.source ∧ P x.target := by
  induction h with
  | nil => exact absurd hs h₀
  | @cons es s t e o _ _ _ ih =>
    by_cases hP : P s
    · obtain ⟨x, hx, hcross⟩ := ih hP
      exact ⟨x, List.mem_cons_of_mem _ hx, hcross⟩
    · exact ⟨_, List.mem_cons_self, hP, hs⟩

/-! ## Registers

A register that every step sets from the event alone holds a fold of the events so far. -/

/-- What a register that starts with `r₀` holds after some edges. -/
def register {R : Type*} (upd : E → R → R) (r₀ : R) (es : List (Edge S E O)) : R :=
  es.foldr (fun x => upd x.event) r₀

/-- Up to any of its edges a run is a run. -/
theorem Run.suffix (h : Run M G s₀ es s) {x : Edge S E O} {earlier : List (Edge S E O)}
    (hx : x :: earlier <:+ es) :
    Run M G s₀ earlier x.source ∧ M.step x.source x.event = some (x.target, x.output) := by
  induction h with
  | nil => simp at hx
  | cons hr hg hs ih =>
    rcases List.suffix_cons_iff.mp hx with heq | hx
    · obtain ⟨rfl, rfl⟩ := List.cons.inj heq
      exact ⟨hr, hs⟩
    · exact ih hx

/-- **The register rule** — what every step sets unless it is the last. -/
theorem Run.register {R : Type*} (h : Run M G s₀ es s) (upd : E → R → R) (reg : S → R)
    (hstep : ∀ s e t o, M.step s e = some (t, o) →
      reg t = upd e (reg s) ∨ ∀ e', M.step t e' = none) :
    reg s = Transition.register upd (reg s₀) es ∨ ∀ e', M.step s e' = none := by
  induction h with
  | nil => exact .inl rfl
  | @cons es s t e o _ _ hs ih =>
    rcases ih with ih | hstuck
    · have := hstep _ _ _ _ hs
      rwa [ih] at this
    · rw [hstuck e] at hs
      cases hs

/-! ## Lockstep -/

/-- What a run shows — its events and outputs, the latest first. -/
def trace (es : List (Edge S E O)) : List (E × O) := es.map fun x => (x.event, x.output)

/-- **The events of a run** determine where it has come to. -/
theorem Run.eq_of_events {H : S → E → Prop} {es' : List (Edge S E O)} {s' : S}
    (h : Run M G s₀ es s) (h' : Run M H s₀ es' s')
    (heq : es.map (fun x => x.event) = es'.map fun x => x.event) : s = s' := by
  induction h generalizing es' s' with
  | nil =>
    cases h' with
    | nil => rfl
    | cons => cases heq
  | cons _ _ hs ih =>
    cases h' with
    | nil => cases heq
    | cons hr' _ hs' =>
      obtain ⟨rfl, hes⟩ := List.cons.inj heq
      obtain rfl := ih hr' hes
      exact (Prod.mk.inj (Option.some_inj.mp (hs.symm.trans hs'))).1

/-- **What a run shows** determines where it has come to. -/
theorem Run.eq_of_trace {H : S → E → Prop} {es' : List (Edge S E O)} {s' : S}
    (h : Run M G s₀ es s) (h' : Run M H s₀ es' s') (heq : trace es = trace es') : s = s' := by
  have hevents := congrArg (List.map Prod.fst) heq
  simp only [trace, List.map_map, Function.comp_def] at hevents
  exact h.eq_of_events h' hevents

/-- The last that a run shows is a step from where the rest of it has come to. -/
theorem Run.exists_of_trace_cons {e : E} {o : O} {tr : List (E × O)} (h : Run M G s₀ es s)
    (heq : trace es = (e, o) :: tr) :
    ∃ es' s', Run M G s₀ es' s' ∧ trace es' = tr ∧ M.step s' e = some (s, o) := by
  cases h with
  | nil => cases heq
  | cons hr _ hs =>
    obtain ⟨hx, htr⟩ := List.cons.inj heq
    obtain ⟨rfl, rfl⟩ := Prod.mk.inj hx
    exact ⟨_, _, hr, htr, hs⟩

/-- **The simulation rule** — where a machine answers every step of another with one that is seen
as the same, and stays related to it, it has a run that is seen as the same for every run of the
other. -/
theorem Run.exists_simulation {T E' O' X : Type*} {N : Machine T E' O'} {H : T → E' → Prop} {t₀ : T}
    {R : S → T → Prop} (f : E → O → X) (g : E' → O' → X) (h : Run M G s₀ es s) (h₀ : R s₀ t₀)
    (hstep : ∀ s t e s' o, R s t → G s e → M.step s e = some (s', o) →
      ∃ t' e' o', H t e' ∧ N.step t e' = some (t', o') ∧ g e' o' = f e o ∧ R s' t') :
    ∃ es' t, Run N H t₀ es' t ∧ R s t
      ∧ es'.map (fun x => g x.event x.output) = es.map fun x => f x.event x.output := by
  induction h with
  | nil => exact ⟨[], t₀, .nil, h₀, rfl⟩
  | cons _ hg hs ih =>
    obtain ⟨es', t, run, hR, hseen⟩ := ih
    obtain ⟨t', e', o', hH, hs', hsame, hR'⟩ := hstep _ _ _ _ _ hR hg hs
    exact ⟨_, t', run.cons hH hs', hR', congrArg₂ List.cons hsame hseen⟩

/-- **The lockstep rule** — where a machine answers every step of another with the same event and
output, and stays related to it, it has every run of the other. -/
theorem Run.exists_lockstep {T : Type*} {N : Machine T E O} {H : T → E → Prop} {t₀ : T}
    {R : S → T → Prop} (h : Run M G s₀ es s) (h₀ : R s₀ t₀)
    (hstep : ∀ s t e s' o, R s t → G s e → M.step s e = some (s', o) →
      ∃ t', H t e ∧ N.step t e = some (t', o) ∧ R s' t') :
    ∃ es' t, Run N H t₀ es' t ∧ R s t ∧ trace es' = trace es :=
  h.exists_simulation Prod.mk Prod.mk h₀ fun s t e s' o hR hg hs => by
    obtain ⟨t', hH, hs', hR'⟩ := hstep s t e s' o hR hg hs
    exact ⟨t', e, o, hH, hs', rfl, hR'⟩

/-- Two machines take a step together or not at all, with the same output. -/
abbrev StepRel {T : Type*} (R : S → T → Prop) : Option (S × O) → Option (T × O) → Prop :=
  Option.Rel fun x y => R x.1 y.1 ∧ x.2 = y.2

theorem StepRel.exists_right {T : Type*} {R : S → T → Prop} {x : Option (S × O)}
    {y : Option (T × O)} (h : StepRel R x y) {s' : S} {o : O} (hx : x = some (s', o)) :
    ∃ t', y = some (t', o) ∧ R s' t' := by
  cases h with
  | none => cases hx
  | @some a b hab =>
    obtain rfl := Option.some_inj.mp hx
    obtain ⟨t', o'⟩ := b
    obtain ⟨hR, rfl⟩ := hab
    exact ⟨t', rfl, hR⟩

theorem StepRel.exists_left {T : Type*} {R : S → T → Prop} {x : Option (S × O)}
    {y : Option (T × O)} (h : StepRel R x y) {t' : T} {o : O} (hy : y = some (t', o)) :
    ∃ s', x = some (s', o) ∧ R s' t' := by
  cases h with
  | none => cases hy
  | @some a b hab =>
    obtain rfl := Option.some_inj.mp hy
    obtain ⟨s', o'⟩ := a
    obtain ⟨hR, rfl⟩ := hab
    exact ⟨s', rfl, hR⟩

/-- **The bisimulation rule** — machines that take every step together show the same. -/
theorem exists_trace_iff {T : Type*} {N : Machine T E O} {t₀ : T} {R : S → T → Prop}
    (G : E → Prop) (h₀ : R s₀ t₀)
    (hstep : ∀ s t e, R s t → StepRel R (M.step s e) (N.step t e)) (tr : List (E × O)) :
    (∃ es s, Run M (fun _ => G) s₀ es s ∧ trace es = tr)
      ↔ ∃ es t, Run N (fun _ => G) t₀ es t ∧ trace es = tr := by
  constructor
  · rintro ⟨es, s, run, htr⟩
    obtain ⟨es', t, run', -, htrace⟩ := run.exists_lockstep (H := fun _ => G) h₀
      fun s t e s' o hR hg hs => by
        obtain ⟨t', ht, hR'⟩ := (hstep s t e hR).exists_right hs
        exact ⟨t', hg, ht, hR'⟩
    exact ⟨es', t, run', htrace.trans htr⟩
  · rintro ⟨es, t, run, htr⟩
    obtain ⟨es', s, run', -, htrace⟩ := run.exists_lockstep (H := fun _ => G) (R := flip R) h₀
      fun t s e t' o hR hg ht => by
        obtain ⟨s', hs, hR'⟩ := (hstep s t e hR).exists_left ht
        exact ⟨s', hg, hs, hR'⟩
    exact ⟨es', s, run', htrace.trans htr⟩

/-! ## Termination -/

/-- **The budget rule** — when every step out of a state with the invariant costs no more than it
takes from a budget, a run costs no more than the budget it started with. -/
theorem Run.cost_add_budget_le {P : S → Prop} (cost : Edge S E O → ℕ) (m : S → ℕ)
    (h : Run M G s₀ es s) (h₀ : P s₀)
    (hP : ∀ s e t o, P s → G s e → M.step s e = some (t, o) → P t)
    (hm : ∀ s e t o, P s → G s e → M.step s e = some (t, o) → cost ⟨s, e, o, t⟩ + m t ≤ m s) :
    (es.map cost).sum + m s ≤ m s₀ := by
  induction h with
  | nil => simp
  | cons hr hg hs ih =>
    have hle := hm _ _ _ _ (hr.invariant h₀ hP) hg hs
    simp only [List.map_cons, List.sum_cons]
    omega

/-- **The measure rule** — when every step out of a state with the invariant lowers the measure, a
run is no longer than the measure it started from. -/
theorem Run.length_add_measure_le {P : S → Prop} (m : S → ℕ) (h : Run M G s₀ es s) (h₀ : P s₀)
    (hP : ∀ s e t o, P s → G s e → M.step s e = some (t, o) → P t)
    (hm : ∀ s e t o, P s → G s e → M.step s e = some (t, o) → m t < m s) :
    es.length + m s ≤ m s₀ := by
  have hle := h.cost_add_budget_le (fun _ => 1) m h₀ hP fun s e t o hs hg hstep =>
    (Nat.add_comm _ _).trans_le (hm s e t o hs hg hstep)
  simpa using hle

/-- **The ranking rule** — when every step out of a state of some rank leads to one of a lower rank,
a run is no longer than the rank it started with. -/
theorem Run.exists_rank {R : S → ℕ → Prop} (h : Run M G s₀ es s) {n₀ : ℕ} (h₀ : R s₀ n₀)
    (hstep : ∀ s e t o n, R s n → G s e → M.step s e = some (t, o) → ∃ m < n, R t m) :
    ∃ n, R s n ∧ es.length + n ≤ n₀ := by
  induction h with
  | nil => exact ⟨n₀, h₀, (Nat.zero_add n₀).le⟩
  | cons _ hg hs ih =>
    obtain ⟨n, hn, hle⟩ := ih
    obtain ⟨m, hlt, hm⟩ := hstep _ _ _ _ n hn hg hs
    refine ⟨m, hm, ?_⟩
    rw [List.length_cons]
    omega

/-- **Where the runs are bounded** one of them goes as far as it can. -/
theorem exists_stuck_of_length_le {n : ℕ}
    (hbound : ∀ {es : List (Edge S E O)} {s : S}, Run M G s₀ es s → es.length ≤ n) :
    ∃ es s, Run M G s₀ es s ∧ Stuck M G s := by
  suffices ∀ k es s, Run M G s₀ es s → n - es.length = k →
      ∃ es s, Run M G s₀ es s ∧ Stuck M G s from this _ _ _ .nil rfl
  intro k
  induction k with
  | zero =>
    intro es s run hk
    refine ⟨es, s, run, fun e hg => ?_⟩
    by_contra hsome
    obtain ⟨⟨t, o⟩, hstep⟩ := Option.ne_none_iff_exists'.mp hsome
    have := hbound (run.cons hg hstep)
    rw [List.length_cons] at this
    omega
  | succ k ih =>
    intro es s run hk
    by_cases hs : Stuck M G s
    · exact ⟨es, s, run, hs⟩
    · obtain ⟨e, he⟩ := not_forall.mp hs
      obtain ⟨hg, hstep⟩ := Classical.not_imp.mp he
      obtain ⟨⟨t, o⟩, hto⟩ := Option.ne_none_iff_exists'.mp hstep
      refine ih _ _ (run.cons hg hto) ?_
      rw [List.length_cons]
      omega

/-- A run may be extended at its front, where it starts. -/
theorem Run.prepend {e : E} {t u : S} {o : O} (hg : G s e) (hs : M.step s e = some (t, o))
    (h : Run M G t es u) : Run M G s (es ++ [⟨s, e, o, t⟩]) u := by
  induction h with
  | nil => exact .cons .nil hg hs
  | cons _ hg' hs' ih => exact .cons ih hg' hs'

/-- A run starts with a step, unless it is empty. -/
theorem Run.head {t : S} (h : Run M G s es t) : t = s
    ∨ ∃ e u o es', G s e ∧ M.step s e = some (u, o) ∧ Run M G u es' t := by
  induction h with
  | nil => exact .inl rfl
  | cons hr hg hs ih =>
    rcases ih with rfl | ⟨e, u, o, es', hg', hs', hr'⟩
    · exact .inr ⟨_, _, _, _, hg, hs, .nil⟩
    · exact .inr ⟨e, u, o, _, hg', hs', .cons hr' hg hs⟩

/-- **Every maximal run from a state is finite and ends in `Q`.** -/
inductive Inevitably (M : Machine S E O) (G : S → E → Prop) (Q : S → Prop) : S → Prop
  | stuck {s : S} (hs : Stuck M G s) (hq : Q s) : Inevitably M G Q s
  | step {s t : S} {e : E} {o : O} (hg : G s e) (hs : M.step s e = some (t, o))
      (hall : ∀ e t o, G s e → M.step s e = some (t, o) → Inevitably M G Q t) :
      Inevitably M G Q s

namespace Inevitably

variable {Q Q' : S → Prop}

/-- **Where a measure goes down** with every step out of a state with the invariant, and such a
state is only stuck in `Q`, every maximal run ends there. -/
theorem of_measure {P : S → Prop} (m : S → ℕ)
    (hP : ∀ s e t o, P s → G s e → M.step s e = some (t, o) → P t ∧ m t < m s)
    (hstuck : ∀ s, P s → Stuck M G s → Q s) (h : P s) : Inevitably M G Q s := by
  induction hn : m s using Nat.strongRecOn generalizing s with
  | _ n ih =>
    by_cases hs : Stuck M G s
    · exact .stuck hs (hstuck s h hs)
    · obtain ⟨e, he⟩ := not_forall.mp hs
      obtain ⟨hg, hstep⟩ := Classical.not_imp.mp he
      obtain ⟨⟨t, o⟩, hto⟩ := Option.ne_none_iff_exists'.mp hstep
      refine .step hg hto fun e t o hg hto => ?_
      obtain ⟨ht, hlt⟩ := hP s e t o h hg hto
      exact ih (m t) (hn ▸ hlt) ht rfl

/-- Some run goes as far as it can. -/
theorem exists_run (h : Inevitably M G Q s) : ∃ es t, Run M G s es t ∧ Stuck M G t ∧ Q t := by
  induction h with
  | stuck hs hq => exact ⟨[], _, .nil, hs, hq⟩
  | step hg hs _ ih =>
    obtain ⟨es, t, run, hstuck, hq⟩ := ih _ _ _ hg hs
    exact ⟨_, t, run.prepend hg hs, hstuck, hq⟩

/-- **Every run that goes as far as it can ends in `Q`.** -/
theorem of_run (h : Inevitably M G Q s) {t : S} (run : Run M G s es t) (ht : Stuck M G t) :
    Q t := by
  induction h generalizing es with
  | stuck hs hq =>
    rcases run.head with rfl | ⟨e, u, o, es', hg, hstep, -⟩
    · exact hq
    · rw [hs e hg] at hstep
      cases hstep
  | step hg hs _ ih =>
    rcases run.head with rfl | ⟨e, u, o, es', hg', hstep, run'⟩
    · rw [ht _ hg] at hs
      cases hs
    · exact ih _ _ _ hg' hstep run'

/-- Two inevitable ends meet. -/
theorem and_exists (h : Inevitably M G Q s) (h' : Inevitably M G Q' s) : ∃ t, Q t ∧ Q' t := by
  obtain ⟨es, t, run, hstuck, hq⟩ := h.exists_run
  exact ⟨t, hq, h'.of_run run hstuck⟩

end Inevitably

/-! ## Replay

A list of events determines the run that takes them, so an existential about runs has a witness
that evaluates. -/

/-- Replay a list of events under a guard that can be decided, with the edges it makes, the latest
first. -/
def Machine.replay (M : Machine S E O) (G : S → E → Prop) [∀ s e, Decidable (G s e)] :
    S → List E → Option (List (Edge S E O) × S)
  | s, [] => some ([], s)
  | s, e :: evs =>
      if G s e then
        (M.step s e).bind fun r =>
          (M.replay G r.1 evs).map fun q => (q.1 ++ [⟨s, e, r.2, r.1⟩], q.2)
      else none

/-- **A successful replay is a run.** -/
theorem run_of_replay [∀ s e, Decidable (G s e)] {evs : List E}
    {r : List (Edge S E O) × S} (h : M.replay G s evs = some r) : Run M G s r.1 r.2 := by
  induction evs generalizing s r with
  | nil =>
    obtain rfl : ([], s) = r := by simpa [Machine.replay] using h
    exact .nil
  | cons e evs ih =>
    rw [Machine.replay] at h
    split at h
    case isFalse => cases h
    case isTrue hg =>
      obtain ⟨⟨t, o⟩, hstep, hrest⟩ := Option.bind_eq_some_iff.mp h
      obtain ⟨q, hq, rfl⟩ := Option.map_eq_some_iff.mp hrest
      exact (ih hq).prepend hg hstep

/-- **A replay that ends well is a run that does**, for a property that can be evaluated. -/
theorem exists_run_of_replay [∀ s e, Decidable (G s e)] (evs : List E)
    {P : List (Edge S E O) → S → Bool}
    (h : ((M.replay G s evs).any fun r => P r.1 r.2) = true) :
    ∃ es t, Run M G s es t ∧ P es t = true := by
  obtain ⟨r, hr, hP⟩ := (Option.any_eq_true _ _).mp h
  exact ⟨r.1, r.2, run_of_replay hr, hP⟩

end Transition
