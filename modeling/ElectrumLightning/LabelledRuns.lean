import Mathlib.Logic.Relation

/-!
Runs of a system given by an executable partial step function. A guard on
the state and the event restricts the runs under consideration, so that one
definition serves both every run and the runs meeting a condition.
-/

namespace ElectrumLightning.LabelledRuns

universe u v w

variable {S : Type u} {E : Type v}

def Unrestricted : S → E → Prop := fun _ _ => True

instance : DecidableRel (Unrestricted : S → E → Prop) :=
  fun _ _ => inferInstanceAs (Decidable True)

/-- One step on an event that meets the guard. -/
def Step (step : S → E → Option S) (guard : S → E → Prop) (s t : S) : Prop :=
  ∃ e, guard s e ∧ step s e = some t

def Reachable (step : S → E → Option S) (guard : S → E → Prop) : S → S → Prop :=
  Relation.ReflTransGen (Step step guard)

variable {step : S → E → Option S} {guard : S → E → Prop}

namespace Reachable

theorem refl (s : S) : Reachable step guard s s :=
  Relation.ReflTransGen.refl

theorem trans {s t r : S} (hst : Reachable step guard s t)
    (htr : Reachable step guard t r) : Reachable step guard s r :=
  Relation.ReflTransGen.trans hst htr

theorem tail {s t r : S} (h : Reachable step guard s t) {e : E}
    (hguard : guard t e) (hstep : step t e = some r) :
    Reachable step guard s r :=
  Relation.ReflTransGen.tail h ⟨e, hguard, hstep⟩

/-- What holds at the start and survives every guarded step holds in every
state reached. -/
theorem invariant {I : S → Prop} {s t : S} (h : Reachable step guard s t)
    (hstart : I s)
    (hpreserved : ∀ s e t, I s → guard s e → step s e = some t → I t) : I t := by
  induction h with
  | refl => exact hstart
  | tail _ hlast ih =>
      obtain ⟨e, hguard, hstep⟩ := hlast
      exact hpreserved _ e _ ih hguard hstep

end Reachable

/-- Execute a list of events, checking the guard before each of them. The
result is `none` when an event is not enabled or does not meet the guard. -/
def runWithin (step : S → E → Option S) (guard : S → E → Prop)
    [DecidableRel guard] : S → List E → Option S
  | s, [] => some s
  | s, e :: es =>
      if guard s e then (step s e).bind fun t => runWithin step guard t es
      else none

def run (step : S → E → Option S) : S → List E → Option S :=
  runWithin step Unrestricted

theorem runWithin_nil_iff [DecidableRel guard] {s t : S} :
    runWithin step guard s [] = some t ↔ s = t :=
  Option.some_inj

theorem runWithin_cons_iff [DecidableRel guard] {s t : S} {e : E} {es : List E} :
    runWithin step guard s (e :: es) = some t ↔
      guard s e ∧ ∃ r, step s e = some r ∧ runWithin step guard r es = some t := by
  by_cases hguard : guard s e
  · simp only [runWithin, hguard, if_true, true_and, Option.bind_eq_some_iff]
  · simp [runWithin, hguard]

theorem run_cons (s : S) (e : E) (es : List E) :
    run step s (e :: es) = (step s e).bind fun r => run step r es := by
  simp [run, runWithin, Unrestricted]

theorem run_cons_iff {s t : S} {e : E} {es : List E} :
    run step s (e :: es) = some t ↔ ∃ r, step s e = some r ∧ run step r es = some t := by
  rw [run_cons, Option.bind_eq_some_iff]

theorem reachable_of_runWithin [DecidableRel guard] {s t : S} {es : List E}
    (h : runWithin step guard s es = some t) : Reachable step guard s t := by
  induction es generalizing s with
  | nil => exact runWithin_nil_iff.mp h ▸ Reachable.refl s
  | cons e es ih =>
      obtain ⟨hguard, r, hr, hrest⟩ := runWithin_cons_iff.mp h
      exact Reachable.trans (Reachable.tail (Reachable.refl s) hguard hr) (ih hrest)

theorem run_of_runWithin [DecidableRel guard] {s t : S} {es : List E}
    (h : runWithin step guard s es = some t) : run step s es = some t := by
  induction es generalizing s with
  | nil => exact h
  | cons e es ih =>
      obtain ⟨-, r, hr, hrest⟩ := runWithin_cons_iff.mp h
      exact run_cons_iff.mpr ⟨r, hr, ih hrest⟩

/-- The states after the events of a run, up to the first event that is not
enabled. -/
def trace (step : S → E → Option S) : S → List E → List S
  | _, [] => []
  | s, e :: es =>
      match step s e with
      | none => []
      | some t => t :: trace step t es

/-- When the guard says exactly whether a step keeps `I`, a run meets the
guard throughout if and only if `I` holds in every state it passes. The
invariant `J` may be used to show it. -/
theorem runWithin_iff_forall_trace [DecidableRel guard] {I J : S → Prop}
    (hinvariant : ∀ s e t, J s → step s e = some t → J t)
    (hexact : ∀ s e t, J s → I s → step s e = some t → (guard s e ↔ I t))
    {s t : S} {es : List E} (hJ : J s) (hI : I s) (hrun : run step s es = some t) :
    runWithin step guard s es = some t ↔ ∀ r ∈ trace step s es, I r := by
  induction es generalizing s with
  | nil =>
      have hst : s = t := runWithin_nil_iff.mp hrun
      simp [runWithin, trace, hst]
  | cons e es ih =>
      obtain ⟨r, hr, hrest⟩ := run_cons_iff.mp hrun
      have hJr := hinvariant s e r hJ hr
      have hfirst := hexact s e r hJ hI hr
      simp only [runWithin, trace, hr, Option.bind_some, List.mem_cons, forall_eq_or_imp]
      by_cases hguard : guard s e
      · have hIr := hfirst.mp hguard
        simp only [hguard, if_true, hIr, true_and]
        exact ih hJr hIr hrest
      · have hIr : ¬ I r := fun h => hguard (hfirst.mpr h)
        simp [hguard, hIr]

/-- What no step makes true again was true before a run if it is true after it. -/
theorem of_run_of_last {I J : S → Prop}
    (hinvariant : ∀ s e t, J s → step s e = some t → J t)
    (hlost : ∀ s e t, J s → step s e = some t → I t → I s)
    {s t : S} {es : List E} (hJ : J s) (hrun : run step s es = some t) (hI : I t) : I s := by
  induction es generalizing s with
  | nil =>
      have hst : s = t := runWithin_nil_iff.mp hrun
      exact hst ▸ hI
  | cons e es ih =>
      obtain ⟨r, hr, hrest⟩ := run_cons_iff.mp hrun
      exact hlost s e r hJ hr (ih (hinvariant s e r hJ hr) hrest)

/-- Where `I` does not come back once it is lost, it is enough to look at the
last state. -/
theorem runWithin_iff_last [DecidableRel guard] {I J : S → Prop}
    (hinvariant : ∀ s e t, J s → step s e = some t → J t)
    (hlost : ∀ s e t, J s → step s e = some t → I t → I s)
    (hexact : ∀ s e t, J s → I s → step s e = some t → (guard s e ↔ I t))
    {s t : S} {es : List E} (hJ : J s) (hI : I s) (hrun : run step s es = some t) :
    runWithin step guard s es = some t ↔ I t := by
  induction es generalizing s with
  | nil =>
      obtain rfl : s = t := runWithin_nil_iff.mp hrun
      exact iff_of_true rfl hI
  | cons e es ih =>
      obtain ⟨r, hr, hrest⟩ := run_cons_iff.mp hrun
      have hJr := hinvariant s e r hJ hr
      have hfirst := hexact s e r hJ hI hr
      simp only [runWithin, hr, Option.bind_some]
      by_cases hguard : guard s e
      · simp only [hguard, if_true]
        exact ih hJr (hfirst.mp hguard) hrest
      · have hIt : ¬ I t := fun ht => hguard (hfirst.mpr (of_run_of_last hinvariant hlost hJr hrest ht))
        simp [hguard, hIt]

end ElectrumLightning.LabelledRuns
