import Mathlib.Logic.Function.Basic
import Netmux.ActionRuns

/-!
# Critical sections

A machine some of whose actions read a shared value and write it back. Taken one
memory access at a time, such an action is four steps: take the lock, read the
value into a copy, write what the action makes of the copy, release the lock.
Other threads go on in between, and the copy would be stale if they could write.

With the lock they cannot: every interleaving of the fine steps is one of the
whole actions, each at the place of its write. Nothing here refers to a
particular program.
-/
namespace Netmux.CriticalSections
open ActionRuns

variable {S A I V : Type*}

/-- How far a thread has got: outside any section, past the lock, past the read,
past the write. -/
inductive Phase (A V : Type*) where
  | outside
  | entered (action : A)
  | loaded (action : A) (copy : V)
  | stored

def Phase.isOutside : Phase A V → Bool
  | outside => true
  | _ => false

/-- The action of a section whose write is still to come. -/
def Phase.action : Phase A V → Option A
  | entered a | loaded a _ => some a
  | outside | stored => none

/-- A machine with a value that its threads share, and which actions use it. -/
structure Sharing (S A I V : Type*) where
  step : S → A → Option S
  get : S → V
  set : S → V → S
  thread : A → I
  guarded : S → A → Bool
  set_get : ∀ s, set s (get s) = s
  frame : ∀ s a t, guarded s a = false → step s a = some t → get t = get s

/-- The machine's state with its lock and the threads in their sections. -/
structure Sections (S A I V : Type*) where
  state : S
  holder : Option I
  phase : I → Phase A V

inductive SectionAction (A I : Type*) where
  | plain (action : A)
  | lock (action : A)
  | load (i : I)
  | store (i : I)
  | unlock (i : I)

def start (s : S) : Sections S A I V := ⟨s, none, fun _ => .outside⟩

/-- Who is in a section holds the lock, and a copy is what it was read from. -/
structure Exclusive (m : Sharing S A I V) (s : Sections S A I V) : Prop where
  holds : ∀ i, (s.phase i).isOutside = false → s.holder = some i
  held : ∀ i, s.holder = some i → (s.phase i).isOutside = false
  fresh : ∀ i a copy, s.phase i = .loaded a copy → copy = m.get s.state

variable {m : Sharing S A I V}

theorem exclusive_start (s : S) : Exclusive m (start s) where
  holds := by
    intro i h
    cases h
  held := by
    intro i h
    cases h
  fresh := by
    intro i a copy h
    cases h

/-- Nobody else is in a section while one thread writes. -/
theorem Exclusive.alone {s : Sections S A I V} (h : Exclusive m s) {i j : I}
    (hi : (s.phase i).isOutside = false) (hj : (s.phase j).isOutside = false) : j = i :=
  Option.some.inj ((h.holds j hj).symm.trans (h.holds i hi))

section Steps
variable [DecidableEq I]

/-- A thread in a section does nothing else, and enters one where its action is
possible. The write puts what it makes of its copy in the place of the value. -/
def sectionStep (m : Sharing S A I V) (s : Sections S A I V) :
    SectionAction A I → Option (Sections S A I V)
  | .plain a =>
      if m.guarded s.state a = false ∧ (s.phase (m.thread a)).isOutside = true then
        (m.step s.state a).map fun t => { s with state := t }
      else none
  | .lock a =>
      if m.guarded s.state a = true ∧ (m.step s.state a).isSome = true ∧
          (s.phase (m.thread a)).isOutside = true ∧ s.holder.isNone = true then
        some { s with
          holder := some (m.thread a)
          phase := Function.update s.phase (m.thread a) (.entered a) }
      else none
  | .load i =>
      match s.phase i with
      | .entered a =>
          some { s with phase := Function.update s.phase i (.loaded a (m.get s.state)) }
      | _ => none
  | .store i =>
      match s.phase i with
      | .loaded a copy =>
          (m.step (m.set s.state copy) a).map fun t =>
            { s with state := t, phase := Function.update s.phase i .stored }
      | _ => none
  | .unlock i =>
      match s.phase i with
      | .stored => some { s with holder := none, phase := Function.update s.phase i .outside }
      | _ => none

/-- The whole action that a fine step completes. -/
def label (s : Sections S A I V) : SectionAction A I → Option A
  | .plain a => some a
  | .store i =>
      match s.phase i with
      | .loaded a _ => some a
      | _ => none
  | .lock _ | .load _ | .unlock _ => none

/-- The whole actions of a run, in the order in which they are completed. -/
def wholeActions (m : Sharing S A I V) : Sections S A I V → List (SectionAction A I) → List A
  | _, [] => []
  | s, a :: as =>
      (label s a).toList ++ match sectionStep m s a with
        | some t => wholeActions m t as
        | none => []

/-- The holder moves from one phase inside its section to another. -/
theorem Exclusive.move {s : Sections S A I V} (h : Exclusive m s) {i : I}
    (hi : (s.phase i).isOutside = false) {phase : Phase A V} (hphase : phase.isOutside = false)
    (hfresh : ∀ a copy, phase = .loaded a copy → copy = m.get s.state) :
    Exclusive m { s with phase := Function.update s.phase i phase } := by
  have hholder := h.holds i hi
  constructor
  · intro j hj
    by_cases hji : j = i
    · exact hji ▸ hholder
    · simp only [Function.update_of_ne hji] at hj
      exact h.holds j hj
  · intro j hj
    cases hholder.symm.trans hj
    simpa using hphase
  · intro j a copy hj
    by_cases hji : j = i
    · subst hji
      exact hfresh a copy (by simpa using hj)
    · simp only [Function.update_of_ne hji] at hj
      exact h.fresh j a copy hj

theorem Exclusive.lock {s : Sections S A I V} (h : Exclusive m s) (hfree : s.holder = none)
    (i : I) (a : A) : Exclusive m { s with
      holder := some i
      phase := Function.update s.phase i (.entered a) } := by
  have houtside : ∀ j, (s.phase j).isOutside = true := by
    intro j
    by_contra hj
    have hheld := h.holds j (Bool.eq_false_iff.mpr hj)
    rw [hfree] at hheld
    cases hheld
  constructor
  · intro j hj
    by_cases hji : j = i
    · rw [hji]
    · simp only [Function.update_of_ne hji, houtside j, reduceCtorEq] at hj
  · intro j hj
    cases hj
    simp [Phase.isOutside]
  · intro j b copy hj
    by_cases hji : j = i
    · simp [hji] at hj
    · simp only [Function.update_of_ne hji] at hj
      exact h.fresh j b copy hj

theorem Exclusive.unlock {s : Sections S A I V} (h : Exclusive m s) {i : I}
    (hi : (s.phase i).isOutside = false) :
    Exclusive m { s with holder := none, phase := Function.update s.phase i .outside } := by
  have houtside : ∀ j, j ≠ i → (s.phase j).isOutside = true := by
    intro j hji
    by_contra hj
    exact hji (h.alone hi (Bool.eq_false_iff.mpr hj))
  constructor
  · intro j hj
    by_cases hji : j = i
    · simp [hji, Phase.isOutside] at hj
    · simp only [Function.update_of_ne hji, houtside j hji, reduceCtorEq] at hj
  · intro j hj
    cases hj
  · intro j a copy hj
    by_cases hji : j = i
    · simp [hji] at hj
    · simp only [Function.update_of_ne hji] at hj
      have hin := houtside j hji
      simp [hj, Phase.isOutside] at hin

/-- The written value is the one of the whole action, and no copy of the old one
is left. -/
theorem Exclusive.store {s : Sections S A I V} (h : Exclusive m s) {i : I}
    (hi : (s.phase i).isOutside = false) (t : S) :
    Exclusive m { s with state := t, phase := Function.update s.phase i .stored } := by
  have hmoved : Exclusive m { s with phase := Function.update s.phase i .stored } :=
    h.move hi rfl (fun _ _ hl => by cases hl)
  refine ⟨hmoved.holds, hmoved.held, ?_⟩
  intro j a copy hj
  by_cases hji : j = i
  · simp [hji] at hj
  · simp only [Function.update_of_ne hji] at hj
    have hin : (s.phase j).isOutside = false := by simp [hj, Phase.isOutside]
    exact absurd (h.alone hi hin) hji

theorem step_exclusive (s : Sections S A I V) (a : SectionAction A I) (t : Sections S A I V)
    (h : Exclusive m s) (ht : sectionStep m s a = some t) : Exclusive m t := by
  cases a with
  | plain a =>
      simp only [sectionStep, Option.ite_none_right_eq_some, Option.map_eq_some_iff] at ht
      obtain ⟨⟨hguarded, -⟩, u, hu, rfl⟩ := ht
      refine ⟨h.holds, h.held, ?_⟩
      intro i b copy hi
      exact (h.fresh i b copy hi).trans (m.frame _ _ _ hguarded hu).symm
  | lock a =>
      simp only [sectionStep, Option.ite_none_right_eq_some, Option.some.injEq] at ht
      obtain ⟨⟨-, -, -, hfree⟩, rfl⟩ := ht
      exact h.lock (Option.isNone_iff_eq_none.mp hfree) _ a
  | load i =>
      simp only [sectionStep] at ht
      split at ht
      · next a hi =>
          cases ht
          refine h.move (by simp [hi, Phase.isOutside]) rfl ?_
          intro b copy hcopy
          cases hcopy
          rfl
      · cases ht
  | store i =>
      simp only [sectionStep] at ht
      split at ht
      · next a copy hi =>
          obtain ⟨u, -, rfl⟩ := Option.map_eq_some_iff.mp ht
          exact h.store (by simp [hi, Phase.isOutside]) u
      · cases ht
  | unlock i =>
      simp only [sectionStep] at ht
      split at ht
      · next hi =>
          cases ht
          exact h.unlock (by simp [hi, Phase.isOutside])
      · cases ht

/-- A write has the effect of the whole action. -/
theorem Exclusive.store_eq {s : Sections S A I V} (h : Exclusive m s) {i : I} {a : A} {copy : V}
    (hi : s.phase i = .loaded a copy) : sectionStep m s (.store i) =
      (m.step s.state a).map fun t =>
        { s with state := t, phase := Function.update s.phase i .stored } := by
  simp only [sectionStep, hi]
  rw [h.fresh i a copy hi, m.set_get]

/-- A fine step completes a whole action, or leaves the machine's state alone. -/
theorem step_whole {s t : Sections S A I V} {a : SectionAction A I} (h : Exclusive m s)
    (ht : sectionStep m s a = some t) :
    run m.step s.state (label s a).toList = some t.state := by
  cases a with
  | plain a =>
      simp only [sectionStep, Option.ite_none_right_eq_some, Option.map_eq_some_iff] at ht
      obtain ⟨-, u, hu, rfl⟩ := ht
      exact run_cons_eq_some.mpr ⟨u, hu, rfl⟩
  | lock a =>
      simp only [sectionStep, Option.ite_none_right_eq_some, Option.some.injEq] at ht
      obtain ⟨-, rfl⟩ := ht
      rfl
  | store i =>
      cases hi : s.phase i with
      | loaded a copy =>
          rw [h.store_eq hi] at ht
          obtain ⟨u, hu, rfl⟩ := Option.map_eq_some_iff.mp ht
          simp only [label, hi, Option.toList_some]
          exact run_cons_eq_some.mpr ⟨u, hu, rfl⟩
      | outside | entered _ | stored => simp [sectionStep, hi] at ht
  | load i | unlock i =>
      simp only [sectionStep] at ht
      split at ht
      · cases ht
        rfl
      · cases ht

/-- Every interleaving of the fine steps leads where the whole actions lead that
it completes, in their order. -/
theorem sections_refine {s t : Sections S A I V} {as : List (SectionAction A I)}
    (hs : Exclusive m s) (h : run (sectionStep m) s as = some t) :
    run m.step s.state (wholeActions m s as) = some t.state := by
  induction as generalizing s with
  | nil =>
      cases h
      rfl
  | cons a as ih =>
      obtain ⟨u, hu, hr⟩ := run_cons_eq_some.mp h
      simp only [wholeActions, hu]
      exact run_append (step_whole hs hu) (ih (step_exclusive s a u hs hu) hr)

/-- What holds after every run of the whole actions holds all along every
interleaving of the fine steps. -/
theorem throughout_sections {P : S → Prop} {s : S}
    (h : ∀ (as : List A) (t : S), run m.step s as = some t → P t)
    (as : List (SectionAction A I)) :
    Throughout (sectionStep m) (fun s => P s.state) (start s) as := by
  have hreach : ∀ (s u : Sections S A I V) (a : SectionAction A I),
      Exclusive m s ∧ (∀ as t, run m.step s.state as = some t → P t) →
      sectionStep m s a = some u →
      Exclusive m u ∧ (∀ as t, run m.step u.state as = some t → P t) := by
    rintro s u a ⟨hs, hrun⟩ hu
    exact ⟨step_exclusive s a u hs hu,
      fun as t ht => hrun _ t (run_append (step_whole hs hu) ht)⟩
  have hall := throughout_of_step (fun s a u => hreach s u a) as ⟨exclusive_start s, h⟩
  exact hall.imp fun s hs => hs.2 [] s.state rfl

section Release
variable {P : S → A → Prop}

/-- Actions under way are those of the threads in the sections, and `P` holds of
them. -/
def Begun (m : Sharing S A I V) (P : S → A → Prop) (s : Sections S A I V) : Prop :=
  ∀ i a, (s.phase i).action = some a → m.thread a = i ∧ P s.state a

/-- One thread changes its phase, in a state that the others' actions can bear. -/
theorem Begun.move {s : Sections S A I V} (h : Begun m P s) {i : I} {phase : Phase A V} {u : S}
    (hrest : ∀ j a, j ≠ i → (s.phase j).action = some a → P u a)
    (hthis : ∀ a, phase.action = some a → m.thread a = i ∧ P u a) (holder : Option I) :
    Begun m P ⟨u, holder, Function.update s.phase i phase⟩ := by
  intro j a hj
  by_cases hji : j = i
  · subst hji
    exact hthis a (by simpa using hj)
  · simp only [Function.update_of_ne hji] at hj
    exact ⟨(h j a hj).1, hrest j a hji hj⟩

/-- What holds of an action when its lock is taken and survives the steps of other
threads holds of it until its write. -/
theorem step_begun (hbegin : ∀ s a, m.guarded s a = true → (m.step s a).isSome = true → P s a)
    (hother : ∀ s a b t, P s a → m.thread b ≠ m.thread a → m.step s b = some t → P t a)
    {s t : Sections S A I V} {a : SectionAction A I} (hs : Exclusive m s) (h : Begun m P s)
    (ht : sectionStep m s a = some t) : Begun m P t := by
  cases a with
  | plain b =>
      simp only [sectionStep, Option.ite_none_right_eq_some, Option.map_eq_some_iff] at ht
      obtain ⟨⟨-, houtside⟩, u, hu, rfl⟩ := ht
      intro i a hi
      obtain ⟨hthread, hp⟩ := h i a hi
      refine ⟨hthread, hother _ _ b u hp ?_ hu⟩
      intro hsame
      rw [hsame, hthread] at houtside
      cases hphase : s.phase i with
      | outside | stored => simp [hphase, Phase.action] at hi
      | entered _ | loaded _ _ => simp [hphase, Phase.isOutside] at houtside
  | lock b =>
      simp only [sectionStep, Option.ite_none_right_eq_some, Option.some.injEq] at ht
      obtain ⟨⟨hguarded, henabled, -, -⟩, rfl⟩ := ht
      refine h.move (fun j a _ hj => (h j a hj).2) ?_ _
      intro a ha
      cases ha
      exact ⟨rfl, hbegin _ _ hguarded henabled⟩
  | load i =>
      simp only [sectionStep] at ht
      split at ht
      · next b hi =>
          cases ht
          refine h.move (fun j a _ hj => (h j a hj).2) ?_ _
          intro a ha
          cases ha
          exact h i b (by simp [hi, Phase.action])
      · cases ht
  | store i =>
      simp only [sectionStep] at ht
      split at ht
      · next b copy hi =>
          obtain ⟨u, -, rfl⟩ := Option.map_eq_some_iff.mp ht
          refine h.move ?_ (fun a ha => by cases ha) _
          intro j a hji hj
          have hin : (s.phase j).isOutside = false := by
            cases hphase : s.phase j <;> simp [hphase, Phase.action] at hj <;> rfl
          exact absurd (hs.alone (by simp [hi, Phase.isOutside]) hin) hji
      · cases ht
  | unlock i =>
      simp only [sectionStep] at ht
      split at ht
      · cases ht
        exact h.move (fun j a _ hj => (h j a hj).2) (fun a ha => by cases ha) _
      · cases ht

/-- The steps that take a thread out of its section. -/
def remaining (i : I) : Phase A V → List (SectionAction A I)
  | .outside => []
  | .entered _ => [.load i, .store i, .unlock i]
  | .loaded _ _ => [.store i, .unlock i]
  | .stored => [.unlock i]

/-- The holder releases the lock on its own, provided its action can be taken. -/
theorem Exclusive.releases {s : Sections S A I V} (h : Exclusive m s) {i : I}
    (hi : s.holder = some i)
    (henabled : ∀ a, (s.phase i).action = some a → (m.step s.state a).isSome = true) :
    ∃ t, run (sectionStep m) s (remaining i (s.phase i)) = some t ∧ t.holder = none := by
  have hin := h.held i hi
  cases hphase : s.phase i with
  | outside => simp [hphase, Phase.isOutside] at hin
  | entered a =>
      obtain ⟨u, hu⟩ := Option.isSome_iff_exists.mp (henabled a (by simp [hphase, Phase.action]))
      simp [remaining, run, sectionStep, hphase, m.set_get, hu]
  | loaded a copy =>
      obtain ⟨u, hu⟩ := Option.isSome_iff_exists.mp (henabled a (by simp [hphase, Phase.action]))
      have hcopy := h.fresh i a copy hphase
      subst hcopy
      simp [remaining, run, sectionStep, hphase, m.set_get, hu]
  | stored => simp [remaining, run, sectionStep, hphase]

end Release

end Steps

end Netmux.CriticalSections
