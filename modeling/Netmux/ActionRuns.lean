import Mathlib.Data.Nat.Notation
import Mathlib.Data.Option.Basic
import Mathlib.Data.List.Basic

/-!
# Runs of partial action machines

A machine is a partial step `step : S → A → Option S`: `none` means that the
action is not enabled in that state. A run folds the step along a list of
actions, so every list of actions that runs through is one interleaving.

Invariants are carried along a run in three strengths: by every step, by every
step that meets a condition on its source state and action, and together with
an output that a second, total machine reproduces. Nothing here refers to a
particular program.
-/
namespace Netmux.ActionRuns

variable {S A : Type*} {step : S → A → Option S}

/-- Fold a partial step along a list of actions. -/
def run (step : S → A → Option S) : S → List A → Option S
  | s, [] => some s
  | s, a :: as => (step s a).bind fun t => run step t as

theorem run_cons_eq_some {s u : S} {a : A} {as : List A} :
    run step s (a :: as) = some u ↔ ∃ t, step s a = some t ∧ run step t as = some u := by
  simp only [run, Option.bind_eq_some_iff]

theorem run_append {s t u : S} {as bs : List A} (h : run step s as = some t)
    (k : run step t bs = some u) : run step s (as ++ bs) = some u := by
  induction as generalizing s with
  | nil => exact Option.some.inj h ▸ k
  | cons a as ih =>
      obtain ⟨v, hv, hr⟩ := run_cons_eq_some.mp h
      exact run_cons_eq_some.mpr ⟨v, hv, ih hr⟩

/-- Some list of actions leads from the first state to the second. -/
def Reaches (step : S → A → Option S) (s t : S) : Prop := ∃ as, run step s as = some t

/-- What every step preserves, every run preserves. -/
theorem run_preserves {P : S → Prop}
    (hstep : ∀ s a t, P s → step s a = some t → P t) {s t : S} {as : List A}
    (hs : P s) (h : run step s as = some t) : P t := by
  induction as generalizing s with
  | nil => exact Option.some.inj h ▸ hs
  | cons a as ih =>
      obtain ⟨u, hu, hr⟩ := run_cons_eq_some.mp h
      exact ih (hstep s a u hs hu) hr

theorem Reaches.preserves {P : S → Prop}
    (hstep : ∀ s a t, P s → step s a = some t → P t) {s t : S}
    (h : Reaches step s t) (hs : P s) : P t := by
  obtain ⟨as, ha⟩ := h
  exact run_preserves hstep hs ha

/-- Every action of the list meets `C` in the state it is taken from. -/
def Meets (step : S → A → Option S) (C : S → A → Prop) : S → List A → Prop
  | _, [] => True
  | s, a :: as => C s a ∧ ∀ t, step s a = some t → Meets step C t as

instance Meets.decidable {C : S → A → Prop} [∀ s a, Decidable (C s a)] :
    (s : S) → (as : List A) → Decidable (Meets step C s as)
  | _, [] => isTrue trivial
  | s, a :: as =>
      haveI : ∀ t, Decidable (Meets step C t as) := fun t => Meets.decidable t as
      inferInstanceAs (Decidable (C s a ∧ ∀ t ∈ step s a, Meets step C t as))

theorem Meets.cons {C : S → A → Prop} {s t : S} {a : A} {as : List A} (hc : C s a)
    (hs : step s a = some t) (hm : Meets step C t as) : Meets step C s (a :: as) :=
  ⟨hc, fun _ ht => Option.some.inj (hs.symm.trans ht) ▸ hm⟩

/-- What every step meeting `C` preserves, every run meeting `C` preserves. -/
theorem run_preserves_of_meets {P : S → Prop} {C : S → A → Prop}
    (hstep : ∀ s a t, P s → C s a → step s a = some t → P t) {s t : S} {as : List A}
    (hs : P s) (hm : Meets step C s as) (h : run step s as = some t) : P t := by
  induction as generalizing s with
  | nil => exact Option.some.inj h ▸ hs
  | cons a as ih =>
      obtain ⟨u, hu, hr⟩ := run_cons_eq_some.mp h
      exact ih (hstep s a u hs hm.1 hu) (hm.2 u hu) hr

theorem Meets.append {C : S → A → Prop} {s t : S} {as bs : List A}
    (hm : Meets step C s (as ++ bs)) (h : run step s as = some t) :
    Meets step C t bs := by
  induction as generalizing s with
  | nil => exact Option.some.inj h ▸ hm
  | cons a as ih =>
      obtain ⟨u, hu, hr⟩ := run_cons_eq_some.mp h
      exact ih (hm.2 u hu) hr

/-- Conditions that agree on an invariant agree along a run. -/
theorem meets_congr {I : S → Prop} {C D : S → A → Prop}
    (hstep : ∀ s a t, I s → step s a = some t → I t) (hcd : ∀ s a, I s → (C s a ↔ D s a))
    {s : S} {as : List A} (hs : I s) : Meets step C s as ↔ Meets step D s as := by
  induction as generalizing s with
  | nil => exact Iff.rfl
  | cons a as ih =>
      apply and_congr (hcd s a hs)
      exact forall_congr' fun t => imp_congr_right fun ht => ih (hstep s a t hs ht)

/-- The same for conditions that agree where a third one is met. -/
theorem meets_congr_of_meets {I : S → Prop} {B C D : S → A → Prop}
    (hstep : ∀ s a t, I s → step s a = some t → I t)
    (hcd : ∀ s a, I s → B s a → (C s a ↔ D s a)) {s : S} {as : List A} (hs : I s)
    (hm : Meets step B s as) : Meets step C s as ↔ Meets step D s as := by
  induction as generalizing s with
  | nil => exact Iff.rfl
  | cons a as ih =>
      apply and_congr (hcd s a hs hm.1)
      exact forall_congr' fun t => imp_congr_right fun ht => ih (hstep s a t hs ht) (hm.2 t ht)

/-- A run goes through if every action that meets `C` can be taken. -/
theorem exists_run_of_meets {I : S → Prop} {C : S → A → Prop}
    (hstep : ∀ s a, I s → C s a → ∃ t, step s a = some t ∧ I t) {s : S} {as : List A}
    (hs : I s) (hm : Meets step C s as) : ∃ t, run step s as = some t ∧ I t := by
  induction as generalizing s with
  | nil => exact ⟨s, rfl, hs⟩
  | cons a as ih =>
      obtain ⟨u, hu, hi⟩ := hstep s a hs hm.1
      obtain ⟨t, ht, hti⟩ := ih hi (hm.2 u hu)
      exact ⟨t, run_cons_eq_some.mpr ⟨u, hu, ht⟩, hti⟩

/-- What an invariant allows in every state is met all along a run. -/
theorem meets_of_step {I : S → Prop} {C : S → A → Prop}
    (hstep : ∀ s a t, I s → step s a = some t → I t) (hc : ∀ s a, I s → C s a)
    {s : S} (as : List A) (hs : I s) : Meets step C s as := by
  induction as generalizing s with
  | nil => trivial
  | cons a as ih => exact ⟨hc s a hs, fun t ht => ih (hstep s a t hs ht)⟩

theorem Meets.imp {I : S → Prop} {C D : S → A → Prop}
    (hstep : ∀ s a t, I s → C s a → step s a = some t → I t) (hcd : ∀ s a, I s → C s a → D s a)
    {s : S} {as : List A} (hs : I s) (hm : Meets step C s as) : Meets step D s as := by
  induction as generalizing s with
  | nil => trivial
  | cons a as ih =>
      exact ⟨hcd s a hs hm.1, fun t ht => ih (hstep s a t hs hm.1 ht) (hm.2 t ht)⟩

/-- A size that grows with the counted actions only stays below their number. -/
theorem meets_of_countP {counted : A → Bool} {size : S → ℕ} {bound : ℕ}
    (hstep : ∀ s a t, step s a = some t → size t ≤ size s + if counted a = true then 1 else 0)
    {s : S} {as : List A} (h : size s + as.countP counted ≤ bound) :
    Meets step (fun s a => counted a = true → size s < bound) s as := by
  induction as generalizing s with
  | nil => trivial
  | cons a as ih =>
      rw [List.countP_cons] at h
      constructor
      · intro hcounted
        rw [if_pos hcounted] at h
        omega
      · intro t ht
        have hsize := hstep s a t ht
        exact ih (by omega)

/-- A condition on the action alone is one on the members of the list. -/
theorem meets_iff_forall_mem {C : A → Prop} {s t : S} {as : List A}
    (h : run step s as = some t) : Meets step (fun _ a => C a) s as ↔ ∀ a ∈ as, C a := by
  induction as generalizing s with
  | nil => exact iff_of_true trivial (List.forall_mem_nil C)
  | cons a as ih =>
      obtain ⟨u, hu, hr⟩ := run_cons_eq_some.mp h
      rw [List.forall_mem_cons, ← ih hr]
      exact ⟨fun hm => ⟨hm.1, hm.2 u hu⟩, fun hm => Meets.cons hm.1 hu hm.2⟩

/-- A machine that can take every action on the states with `I` runs through
every list of actions. -/
theorem exists_run {I : S → Prop} (hstep : ∀ s a, I s → ∃ t, step s a = some t ∧ I t)
    {s : S} (as : List A) (hs : I s) : ∃ t, run step s as = some t ∧ I t := by
  have hkeep : ∀ s a t, I s → step s a = some t → I t := by
    intro s a t hi ht
    obtain ⟨u, hu, hui⟩ := hstep s a hi
    exact Option.some.inj (hu.symm.trans ht) ▸ hui
  have hm : Meets step (fun _ _ => True) s as :=
    meets_of_step hkeep (fun _ _ _ => trivial) as hs
  exact exists_run_of_meets (fun s a hi _ => hstep s a hi) hs hm

/-- `P` holds in the first state and in every state the run passes through. -/
def Throughout (step : S → A → Option S) (P : S → Prop) : S → List A → Prop
  | s, [] => P s
  | s, a :: as => P s ∧ ∀ t, step s a = some t → Throughout step P t as

instance Throughout.decidable {P : S → Prop} [DecidablePred P] :
    (s : S) → (as : List A) → Decidable (Throughout step P s as)
  | s, [] => inferInstanceAs (Decidable (P s))
  | s, a :: as =>
      haveI : ∀ t, Decidable (Throughout step P t as) := fun t => Throughout.decidable t as
      inferInstanceAs (Decidable (P s ∧ ∀ t ∈ step s a, Throughout step P t as))

theorem Throughout.first {P : S → Prop} {s : S} {as : List A}
    (h : Throughout step P s as) : P s := by
  cases as with
  | nil => exact h
  | cons a as => exact h.1

theorem Throughout.last {P : S → Prop} {s t : S} {as : List A} (h : Throughout step P s as)
    (hrun : run step s as = some t) : P t := by
  induction as generalizing s with
  | nil => exact Option.some.inj hrun ▸ h
  | cons a as ih =>
      obtain ⟨u, hu, hr⟩ := run_cons_eq_some.mp hrun
      exact ih (h.2 u hu) hr

/-- What every step preserves holds all along a run. -/
theorem throughout_of_step {P : S → Prop} (hstep : ∀ s a t, P s → step s a = some t → P t)
    {s : S} (as : List A) (hs : P s) : Throughout step P s as := by
  induction as generalizing s with
  | nil => exact hs
  | cons a as ih => exact ⟨hs, fun t ht => ih (hstep s a t hs ht)⟩

theorem Throughout.imp {P Q : S → Prop} (hpq : ∀ s, P s → Q s) {s : S} {as : List A}
    (h : Throughout step P s as) : Throughout step Q s as := by
  induction as generalizing s with
  | nil => exact hpq s h
  | cons a as ih => exact ⟨hpq s h.1, fun t ht => ih (h.2 t ht)⟩

theorem throughout_of_meets {I P : S → Prop} {C : S → A → Prop}
    (hstep : ∀ s a t, I s → C s a → step s a = some t → I t) (hP : ∀ s, I s → P s)
    {s : S} {as : List A} (hs : I s) (hm : Meets step C s as) : Throughout step P s as := by
  induction as generalizing s with
  | nil => exact hP s hs
  | cons a as ih => exact ⟨hP s hs, fun t ht => ih (hstep s a t hs hm.1 ht) (hm.2 t ht)⟩

/-- The same where `P` is known to hold all along. -/
theorem throughout_of_throughout {I P : S → Prop}
    (hstep : ∀ s a t, I s → P s → step s a = some t → I t) {s : S} {as : List A}
    (h : Throughout step P s as) (hs : I s) : Throughout step I s as := by
  induction as generalizing s with
  | nil => exact hs
  | cons a as ih => exact ⟨hs, fun t ht => ih (h.2 t ht) (hstep s a t hs h.1 ht)⟩

/-- `P` holds all along a run exactly if every action of it meets `C`, when on
the states with `I` a step into `P` needs `C` and a step with `C` keeps `I`. -/
theorem throughout_iff_meets {I P : S → Prop} {C : S → A → Prop}
    (hkeep : ∀ s a t, I s → C s a → step s a = some t → I t)
    (hneed : ∀ s a t, I s → step s a = some t → P t → C s a) (hP : ∀ s, I s → P s)
    {s t : S} {as : List A} (hs : I s) (h : run step s as = some t) :
    Throughout step P s as ↔ Meets step C s as := by
  constructor
  · intro hall
    induction as generalizing s with
    | nil => trivial
    | cons a as ih =>
        obtain ⟨u, hu, hr⟩ := run_cons_eq_some.mp h
        have hrest := hall.2 u hu
        have hc := hneed s a u hs hu hrest.first
        exact Meets.cons hc hu (ih (hkeep s a u hs hc hu) hr hrest)
  · exact throughout_of_meets hkeep hP hs

/-- The same for a machine that can take every action, by one fact about its
steps: `P` lives on exactly through the actions that meet `C`. -/
theorem throughout_iff_meets_of_total {J P : S → Prop} {C : S → A → Prop}
    (hstep : ∀ s a, J s → ∃ t, step s a = some t ∧ J t ∧ (P s → (P t ↔ C s a)))
    {s : S} (as : List A) (hj : J s) (hs : P s) :
    Throughout step P s as ↔ Meets step C s as := by
  have htotal : ∀ s a, J s → ∃ t, step s a = some t ∧ J t := by
    intro s a hj
    obtain ⟨t, ht, hjt, -⟩ := hstep s a hj
    exact ⟨t, ht, hjt⟩
  have hspec : ∀ s a t, J s ∧ P s → step s a = some t → J t ∧ (P t ↔ C s a) := by
    intro s a t hi ht
    obtain ⟨u, hu, hju, hiff⟩ := hstep s a hi.1
    exact Option.some.inj (hu.symm.trans ht) ▸ ⟨hju, hiff hi.2⟩
  obtain ⟨t, hrun, -⟩ := exists_run htotal as hj
  have hstart : J s ∧ P s := ⟨hj, hs⟩
  refine throughout_iff_meets ?_ ?_ (fun _ => And.right) hstart hrun
  · intro s a t hi hc ht
    exact ⟨(hspec s a t hi ht).1, (hspec s a t hi ht).2.mpr hc⟩
  · intro s a t hi ht hp
    exact (hspec s a t hi ht).2.mp hp

/-- If a step without `C` spoils the state for good, a run that ends unspoilt
met `C` all along. -/
theorem meets_of_run {I Spoilt : S → Prop} {C : S → A → Prop}
    (hkeep : ∀ s a t, I s → C s a → step s a = some t → I t)
    (hspoil : ∀ s a t, I s → ¬ C s a → step s a = some t → Spoilt t)
    (hstay : ∀ s a t, Spoilt s → step s a = some t → Spoilt t)
    {s t : S} {as : List A} (hs : I s) (h : run step s as = some t) (ht : ¬ Spoilt t) :
    Meets step C s as := by
  induction as generalizing s with
  | nil => trivial
  | cons a as ih =>
      obtain ⟨u, hu, hr⟩ := run_cons_eq_some.mp h
      by_cases hc : C s a
      · exact Meets.cons hc hu (ih (hkeep s a u hs hc hu) hr)
      · exact absurd (run_preserves hstay (hspoil s a u hs hc hu) hr) ht

/-- Counted steps lower a rank and no other step raises it, until a goal is reached
for good: more counted steps than the rank reach it. -/
theorem reached_of_rank {I Goal : S → Prop} {C : S → A → Prop} {counted : A → Bool} {rank : S → ℕ}
    (hkeep : ∀ s a t, I s → C s a → step s a = some t → I t)
    (hgoal : ∀ s a t, Goal s → step s a = some t → Goal t)
    (hrank : ∀ s a t, I s → C s a → ¬ Goal s → step s a = some t →
      Goal t ∨ rank t + (if counted a = true then 1 else 0) ≤ rank s)
    {s t : S} {as : List A} (hs : I s) (hm : Meets step C s as) (h : run step s as = some t)
    (hn : rank s < as.countP counted) : Goal t := by
  induction as generalizing s with
  | nil => exact absurd hn (Nat.not_lt_zero _)
  | cons a as ih =>
      obtain ⟨u, hu, hr⟩ := run_cons_eq_some.mp h
      by_cases hreached : Goal s
      · exact run_preserves hgoal (hgoal s a u hreached hu) hr
      · rcases hrank s a u hs hm.1 hreached hu with hnow | hlower
        · exact run_preserves hgoal hnow hr
        · refine ih (hkeep s a u hs hm.1 hu) (hm.2 u hu) hr ?_
          rw [List.countP_cons] at hn
          omega

section Outputs
variable {O Q B : Type*}

/-- Run a machine whose steps also return an output, collecting the outputs. -/
def trace (step : S → A → Option (S × O)) : S → List A → Option (S × List O)
  | s, [] => some (s, [])
  | s, a :: as =>
      (step s a).bind fun r => (trace step r.1 as).map fun q => (q.1, r.2 :: q.2)

/-- The successor alone, for conditions along a run with outputs. -/
def next (step : S → A → Option (S × O)) (s : S) (a : A) : Option S :=
  (step s a).map Prod.fst

theorem next_eq_some {step : S → A → Option (S × O)} {s t : S} {a : A} :
    next step s a = some t ↔ ∃ o, step s a = some (t, o) := by
  simp [next]

/-- A run that goes through, and one more step. -/
theorem exists_reached (step : S → A → Option (S × O)) (s : S) (as : List A) (a : A)
    (h : ((run (next step) s as).bind fun t => step t a).isSome = true) :
    ∃ t u o, Reaches (next step) s t ∧ step t a = some (u, o) := by
  obtain ⟨⟨u, o⟩, hu⟩ := Option.isSome_iff_exists.mp h
  obtain ⟨t, ht, hstep⟩ := Option.bind_eq_some_iff.mp hu
  exact ⟨t, u, o, ⟨as, ht⟩, hstep⟩

/-- The same for a total machine, which serves as specification. -/
def specTrace (spec : Q → B → Q × O) : Q → List B → Q × List O
  | q, [] => (q, [])
  | q, b :: bs =>
      let r := spec q b
      let u := specTrace spec r.1 bs
      (u.1, r.2 :: u.2)

/-- The specification's action for each action of a run, read off the state
the action is taken from. -/
def labels (step : S → A → Option (S × O)) (label : S → A → B) : S → List A → List B
  | _, [] => []
  | s, a :: as =>
      label s a :: (match step s a with
        | some r => labels step label r.1 as
        | none => [])

/-- If every legal step succeeds, keeps the invariant and is matched through
the abstraction `abs` by the specification's step with the same output, then a
legal run succeeds and the specification reproduces its outputs and final
state. -/
theorem trace_refines {step : S → A → Option (S × O)} (spec : Q → B → Q × O)
    (abs : S → Q) (label : S → A → B) {I : S → Prop} {C : S → A → Prop}
    (hstep : ∀ s a, I s → C s a → ∃ t o, step s a = some (t, o) ∧ I t ∧
      spec (abs s) (label s a) = (abs t, o))
    {s : S} {as : List A} (hs : I s) (hm : Meets (next step) C s as) :
    ∃ t os, trace step s as = some (t, os) ∧ I t ∧
      specTrace spec (abs s) (labels step label s as) = (abs t, os) := by
  induction as generalizing s with
  | nil => exact ⟨s, [], rfl, hs, rfl⟩
  | cons a as ih =>
      obtain ⟨u, o, hu, hi, hq⟩ := hstep s a hs hm.1
      obtain ⟨t, os, ht, hti, hts⟩ := ih hi (hm.2 u (by simp [next, hu]))
      refine ⟨t, o :: os, ?_, hti, ?_⟩
      · simp [trace, hu, ht]
      · simp [labels, hu, specTrace, hq, hts]

/-- A machine whose steps emit lists simulates what every step simulates. -/
theorem trace_simulates (spec : Q → B → Option Q) (view : S → Q)
    {step : S → A → Option (S × List B)} {I : S → Prop}
    (hstep : ∀ s a t es, I s → step s a = some (t, es) →
      I t ∧ run spec (view s) es = some (view t))
    {s t : S} {as : List A} {ess : List (List B)} (hs : I s)
    (h : trace step s as = some (t, ess)) :
    I t ∧ run spec (view s) ess.flatten = some (view t) := by
  induction as generalizing s ess with
  | nil =>
      cases h
      exact ⟨hs, rfl⟩
  | cons a as ih =>
      rw [trace, Option.bind_eq_some_iff] at h
      obtain ⟨⟨u, es⟩, hu, hr⟩ := h
      obtain ⟨⟨v, fss⟩, hv, heq⟩ := Option.map_eq_some_iff.mp hr
      cases heq
      obtain ⟨hi, hspec⟩ := hstep s a u es hs hu
      obtain ⟨ht, hrest⟩ := ih hi hv
      exact ⟨ht, run_append hspec hrest⟩

/-- Two machines whose related actions keep their states related run in step. -/
theorem trace_lockstep {T C U : Type*} {stepS : S → A → Option (S × O)}
    {stepT : T → C → Option (T × U)} {R : S → T → Prop} {M : A → C → Prop} {N : O → U → Prop}
    (hstep : ∀ s t a c s' t' o u, R s t → M a c → stepS s a = some (s', o) →
      stepT t c = some (t', u) → R s' t' ∧ N o u)
    {s s' : S} {t t' : T} {as : List A} {cs : List C} {os : List O} {us : List U}
    (hr : R s t) (hm : List.Forall₂ M as cs) (hs : trace stepS s as = some (s', os))
    (ht : trace stepT t cs = some (t', us)) : R s' t' ∧ List.Forall₂ N os us := by
  induction hm generalizing s t os us with
  | nil =>
      cases hs
      cases ht
      exact ⟨hr, .nil⟩
  | cons hac hm ih =>
      rw [trace, Option.bind_eq_some_iff] at hs ht
      obtain ⟨⟨v, o⟩, hv, hs⟩ := hs
      obtain ⟨⟨w, u⟩, hw, ht⟩ := ht
      obtain ⟨⟨x, os'⟩, hx, heq⟩ := Option.map_eq_some_iff.mp hs
      obtain ⟨⟨y, us'⟩, hy, heq'⟩ := Option.map_eq_some_iff.mp ht
      cases heq
      cases heq'
      obtain ⟨hvw, hou⟩ := hstep s t _ _ v w o u hr hac hv hw
      obtain ⟨hend, hrest⟩ := ih hvw hx hy
      exact ⟨hend, .cons hou hrest⟩

end Outputs

section Histories
variable {E : Type*}

/-- Every event of a history, newest first, relates as `R` to those before. -/
def Along (R : E → List E → Prop) : List E → Prop
  | [] => True
  | e :: es => R e es ∧ Along R es

end Histories

end Netmux.ActionRuns
