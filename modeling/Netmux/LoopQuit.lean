import Netmux.FunctorHistory

/-!
# Work queued before a quit

The functors whose `queueInLoop` has completed before `quit` is called should
have been executed when `loop()` returns. They have, unless the `quit` arrives
past the swap of an iteration while a completed functor is pending again: the
next test of `quit_` then ends the loop. The destructor of the server posts
`connectDestroyed` and the pool joins its threads right after, so this is the
functor it can lose.
-/
namespace Netmux.LoopQuit
open ActionRuns EventLoop FunctorHistory

variable {F T : Type}

/-- The queued call is not pending any more. -/
def Taken (s : State F T) (index : ℕ) : Prop :=
  index + s.pendingFunctors.length < s.queued.length

/-- `quit_` will be reset, or a swap comes before it is tested. -/
def swapAhead (pc : Pc F) : Bool := pc.beforeReset || pc.polling || pc.collecting

/-- The loop has seen `quit_` and is on its way out. -/
def exiting : Pc F → Bool
  | .clearLooping | .returned | .finished => true
  | _ => false

/-- No completed call is pending when `quit_` is set, unless a swap is ahead. -/
def QuitSafe (s : State F T) : LoopAction F T → Prop
  | .quit _ | .selfQuit => swapAhead s.pc = true ∨ ∀ i ∈ s.completed, Taken s i
  | _ => True

/-- Every call completed before `quit_` was last set has been executed. -/
def AllDone (s : State F T) : Prop :=
  s.executed <+: s.queued ∧ ∀ i ∈ s.due, i < s.executed.length

/-- All positions the state remembers are positions of queued functors. -/
structure Indexed (s : State F T) : Prop where
  order : InOrder s
  own : ∀ i, s.own = some i → i < s.queued.length
  pushed : ∀ t i, s.threads t = .pushed i → i < s.queued.length
  completed : ∀ i ∈ s.completed, i < s.queued.length
  due : ∀ i ∈ s.due, i < s.queued.length
  joined : ∀ t, s.threads t = .joined → s.pc.alive = false

theorem indexed_create (shared : Bool) : Indexed (State.create shared : State F T) where
  order := inOrder_create shared
  own := by
    intro i h
    cases h
  pushed := by
    intro t i h
    cases h
  completed := by
    intro i h
    cases h
  due := by
    intro i h
    cases h
  joined := by
    intro t h
    cases h

theorem follows_dead {p q : Pc F} (h : p.Follows q) (hp : p.alive = false) : q.alive = false := by
  cases h <;> first | rfl | cases hp

theorem returned_of_dead {p : Pc F} (h : p.alive = false) : p.hasReturned = true := by
  cases p <;> first | rfl | cases h

/-- Past `loop()` no swap will come and no batch is left. -/
theorem returned_phase {p : Pc F} (h : p.hasReturned = true) :
    swapAhead p = false ∧ exiting p = true ∧ p.unexecuted = [] := by
  cases p <;> first | exact ⟨rfl, rfl, rfl⟩ | cases h

theorem Indexed.advance {s : State F T} (h : Indexed s) (ready : Bool) :
    Indexed (s.advance ready) := by
  have hs := advance_sameCalls s ready
  constructor
  · exact h.order.advance ready
  · rw [hs.own, hs.queued]
    exact h.own
  · rw [hs.threads, hs.queued]
    exact h.pushed
  · rw [hs.completed, hs.queued]
    exact h.completed
  · rw [hs.due, hs.queued]
    exact h.due
  · rw [hs.threads]
    exact fun t ht => follows_dead (advance_follows s ready) (h.joined t ht)

theorem Indexed.emplaceBack {s : State F T} (h : Indexed s) (functor : F) :
    Indexed (s.emplaceBack functor) := by
  have hlt : ∀ {i}, i < s.queued.length → i < (s.emplaceBack functor).queued.length := by
    intro i hi
    exact Nat.lt_of_lt_of_le hi (List.prefix_append _ _).length_le
  exact ⟨h.order.emplaceBack functor, fun i hi => hlt (h.own i hi),
    fun t i hi => hlt (h.pushed t i hi), fun i hi => hlt (h.completed i hi),
    fun i hi => hlt (h.due i hi), h.joined⟩

theorem Indexed.setOwn {s : State F T} (h : Indexed s) {own : Option ℕ}
    (ho : ∀ i, own = some i → i < s.queued.length) : Indexed { s with own := own } :=
  ⟨h.order, ho, h.pushed, h.completed, h.due, h.joined⟩

theorem Indexed.wakeup {s : State F T} (h : Indexed s) : Indexed s.wakeup :=
  ⟨h.order, h.own, h.pushed, h.completed, h.due, h.joined⟩

theorem Indexed.complete {s : State F T} (h : Indexed s) {index : ℕ}
    (hi : index < s.queued.length) : Indexed { s with completed := index :: s.completed } :=
  ⟨h.order, h.own, h.pushed, List.forall_mem_cons.mpr ⟨hi, h.completed⟩, h.due, h.joined⟩

theorem Indexed.storeQuit {s : State F T} (h : Indexed s) : Indexed s.storeQuit :=
  ⟨h.order, h.own, h.pushed, h.completed, h.completed, h.joined⟩

theorem Indexed.withDone {s : State F T} (h : Indexed s) : Indexed { s with quitDone := true } :=
  ⟨h.order, h.own, h.pushed, h.completed, h.due, h.joined⟩

theorem Indexed.finishOwn {s : State F T} (h : Indexed s) : Indexed s.finishOwn := by
  unfold State.finishOwn
  cases ho : s.own with
  | none => exact h
  | some index =>
      dsimp only
      split_ifs
      · exact (h.wakeup.complete (h.own index ho)).setOwn fun i hi => by cases hi
      · exact (h.complete (h.own index ho)).setOwn fun i hi => by cases hi

section Threads
variable [DecidableEq T]

theorem Indexed.setThread {s : State F T} (h : Indexed s) (t : T) {c : Caller}
    (hc : ∀ i, c = .pushed i → i < s.queued.length) (hj : c = .joined → s.pc.alive = false) :
    Indexed { s with threads := Function.update s.threads t c } := by
  refine ⟨h.order, h.own, ?_, h.completed, h.due, ?_⟩
  · intro u i hu
    dsimp only at hu
    rcases eq_or_ne u t with rfl | hne
    · exact hc i (by simpa using hu)
    · exact h.pushed u i (by simpa [hne] using hu)
  · intro u hu
    dsimp only at hu
    rcases eq_or_ne u t with rfl | hne
    · exact hj (by simpa using hu)
    · exact h.joined u (by simpa [hne] using hu)

/-- A thread that comes out of a call, or is inside `quit`. -/
theorem Indexed.release {s : State F T} (h : Indexed s) (t : T) {c : Caller}
    (hc : c = .idle ∨ c = .quitStored) :
    Indexed { s with threads := Function.update s.threads t c } := by
  apply h.setThread
  · intro i hi
    rcases hc with rfl | rfl <;> cases hi
  · intro hj
    rcases hc with rfl | rfl <;> cases hj

theorem Indexed.finishPush {s : State F T} (h : Indexed s) (t : T) : Indexed (s.finishPush t) := by
  unfold State.finishPush
  cases ht : s.threads t with
  | pushed index =>
      exact (h.wakeup.complete (h.pushed t index ht)).release t (.inl rfl)
  | idle | quitStored | joined => exact h

theorem indexed_step (s : State F T) (a : LoopAction F T) (t : State F T) (h : Indexed s)
    (ht : step s a = some t) : Indexed t := by
  obtain ⟨he, rfl⟩ := step_eq_some.mp ht
  have hnew (functor : F) : s.queued.length < (s.emplaceBack functor).queued.length := by
    simp [State.emplaceBack]
  cases a with
  | advance ready => exact h.advance ready
  | selfPush functor =>
      apply (h.emplaceBack functor).setOwn
      intro i h
      cases h
      exact hnew functor
  | selfWake => exact h.finishOwn
  | selfQuit => exact h.storeQuit.withDone
  | push u functor =>
      apply (h.emplaceBack functor).setThread u
      · intro i h
        cases h
        exact hnew functor
      · intro h
        cases h
  | wake u => exact h.finishPush u
  | quit u => exact h.storeQuit.release u (.inr rfl)
  | quitWake u => exact (h.wakeup.release u (.inl rfl)).withDone
  | join u => exact h.setThread u (fun i hi => by cases hi) fun _ => he.1

end Threads

/-- After the swap and until the loop is entered again, what is due is taken. -/
def Settled (s : State F T) : Prop :=
  swapAhead s.pc = false → s.quit = true ∨ exiting s.pc = true → ∀ i ∈ s.due, Taken s i

theorem Settled.advance {s : State F T} (h : Settled s) (hi : Indexed s) (ready : Bool) :
    Settled (s.advance ready) := by
  unfold State.advance
  cases hpc : s.pc with
  | initCallback | publish | setLooping | poll | setCalling =>
      intro hs
      simp [swapAhead, Pc.beforeReset, Pc.polling, Pc.collecting] at hs
  | resetQuit =>
      intro _ hq
      simp [exiting] at hq
  | testQuit =>
      cases hq : s.quit
      · intro hs
        simp [swapAhead, Pc.beforeReset, Pc.polling, Pc.collecting] at hs
      · exact fun _ _ => h (by rw [hpc]; rfl) (.inl hq)
  | dispatch wakeup =>
      intro hs
      cases wakeup <;> simp [swapAhead, Pc.beforeReset, Pc.polling, Pc.collecting] at hs
  | swap => exact fun _ _ i hdue => hi.due i hdue
  | batch functors =>
      cases functors
      · exact fun _ hq => h (by rw [hpc]; rfl) (hq.imp_right fun hx => by simp [exiting] at hx)
      · exact fun _ hq => h (by rw [hpc]; rfl) (hq.imp_right fun hx => by simp [exiting] at hx)
  | running functor functors =>
      exact fun _ hq => h (by rw [hpc]; rfl) (hq.imp_right fun hx => by simp [exiting] at hx)
  | clearLooping | returned | finished =>
      exact fun _ _ => h (by rw [hpc]; rfl) (.inr (by rw [hpc]; rfl))

theorem taken_emplaceBack {s : State F T} {functor : F} {index : ℕ} :
    Taken (s.emplaceBack functor) index ↔ Taken s index := by
  simp only [Taken, State.emplaceBack, List.length_append, List.length_singleton]
  omega

theorem Settled.emplaceBack {s : State F T} (h : Settled s) (functor : F) :
    Settled (s.emplaceBack functor) :=
  fun hs hq i hi => taken_emplaceBack.mpr (h hs hq i hi)

theorem settled_storeQuit {s : State F T}
    (h : swapAhead s.pc = true ∨ ∀ i ∈ s.completed, Taken s i) : Settled s.storeQuit := by
  intro hs _ i hi
  rcases h with ha | htaken
  · exact absurd ha (by simpa [State.storeQuit] using hs)
  · exact htaken i hi

theorem Settled.finishOwn {s : State F T} (h : Settled s) : Settled s.finishOwn := by
  unfold State.finishOwn
  cases s.own with
  | none => exact h
  | some index =>
      dsimp only
      split_ifs
      · exact h
      · exact h

section Threads
variable [DecidableEq T]

theorem Settled.finishPush {s : State F T} (h : Settled s) (t : T) : Settled (s.finishPush t) := by
  unfold State.finishPush
  cases s.threads t <;> exact h

theorem settled_step {s t : State F T} {a : LoopAction F T} (h : Settled s) (hi : Indexed s)
    (hsafe : QuitSafe s a) (ht : step s a = some t) : Settled t := by
  obtain ⟨-, rfl⟩ := step_eq_some.mp ht
  cases a with
  | advance ready => exact h.advance hi ready
  | selfPush functor => exact h.emplaceBack functor
  | selfWake => exact h.finishOwn
  | selfQuit => exact settled_storeQuit hsafe
  | push u functor => exact h.emplaceBack functor
  | wake u => exact h.finishPush u
  | quit u => exact settled_storeQuit hsafe
  | quitWake u => exact h
  | join u => exact h

end Threads

/-- A call that was due is still pending, and no swap will come. -/
structure Lost (s : State F T) (index : ℕ) : Prop where
  done : index ∈ s.completed
  due : index ∈ s.due
  pending : s.queued.length ≤ index + s.pendingFunctors.length
  noSwap : swapAhead s.pc = false
  leaving : s.quit = true ∨ exiting s.pc = true

theorem Lost.advance {s : State F T} {index : ℕ} (h : Lost s index) (ready : Bool) :
    Lost (s.advance ready) index := by
  obtain ⟨hdone, hdue, hp, hs, hl⟩ := h
  unfold State.advance
  cases hpc : s.pc with
  | initCallback | publish | setLooping | resetQuit | poll | dispatch wakeup | setCalling
  | swap => simp [hpc, swapAhead, Pc.beforeReset, Pc.polling, Pc.collecting] at hs
  | testQuit =>
      have hquit : s.quit = true := by simpa [hpc, exiting] using hl
      exact ⟨hdone, hdue, hp, by simp [hquit]; rfl, .inl hquit⟩
  | batch functors =>
      have hquit : s.quit = true := by simpa [hpc, exiting] using hl
      cases functors <;> exact ⟨hdone, hdue, hp, rfl, .inl hquit⟩
  | running functor functors =>
      have hquit : s.quit = true := by simpa [hpc, exiting] using hl
      exact ⟨hdone, hdue, hp, rfl, .inl hquit⟩
  | clearLooping | returned | finished => exact ⟨hdone, hdue, hp, rfl, .inr rfl⟩

theorem Lost.emplaceBack {s : State F T} {index : ℕ} (h : Lost s index) (functor : F) :
    Lost (s.emplaceBack functor) index := by
  refine ⟨h.done, h.due, ?_, h.noSwap, h.leaving⟩
  have hp := h.pending
  simp only [State.emplaceBack, List.length_append, List.length_singleton]
  omega

theorem Lost.finishOwn {s : State F T} {index : ℕ} (h : Lost s index) :
    Lost s.finishOwn index := by
  unfold State.finishOwn
  cases s.own with
  | none => exact h
  | some i =>
      dsimp only
      split_ifs <;>
        exact ⟨List.mem_cons_of_mem _ h.done, h.due, h.pending, h.noSwap, h.leaving⟩

/-- A loop that has returned has not executed it. -/
theorem Lost.not_allDone {s : State F T} {index : ℕ} (h : Lost s index) (hi : InOrder s)
    (hr : s.pc.hasReturned = true) : ¬ AllDone s := by
  intro hdone
  have hlt := hdone.2 index h.due
  have hlen := hi.length
  have hp := h.pending
  have hempty : s.pc.unexecuted.length = 0 := by rw [(returned_phase hr).2.2]; rfl
  omega

theorem Settled.allDone {s : State F T} (h : Settled s) (hi : InOrder s)
    (hr : s.pc.hasReturned = true) : AllDone s := by
  refine ⟨hi.executed_prefix, fun i hdue => ?_⟩
  have hlen := hi.length
  obtain ⟨hswap, hexit, hrest⟩ := returned_phase hr
  have hempty : s.pc.unexecuted.length = 0 := by rw [hrest]; rfl
  have htaken := h hswap (.inr hexit) i hdue
  unfold Taken at htaken
  omega

section Runs
variable [DecidableEq T]

theorem Lost.finishPush {s : State F T} {index : ℕ} (h : Lost s index) (t : T) :
    Lost (s.finishPush t) index := by
  unfold State.finishPush
  cases s.threads t with
  | pushed i => exact ⟨List.mem_cons_of_mem _ h.done, h.due, h.pending, h.noSwap, h.leaving⟩
  | idle | quitStored | joined => exact h

theorem lost_step (s : State F T) (a : LoopAction F T) (t : State F T) (h : ∃ i, Lost s i)
    (ht : step s a = some t) : ∃ i, Lost t i := by
  obtain ⟨-, rfl⟩ := step_eq_some.mp ht
  obtain ⟨i, hl⟩ := h
  refine ⟨i, ?_⟩
  cases a with
  | advance ready => exact hl.advance ready
  | selfPush functor =>
      have hl := hl.emplaceBack functor
      exact ⟨hl.done, hl.due, hl.pending, hl.noSwap, hl.leaving⟩
  | selfWake => exact hl.finishOwn
  | selfQuit => exact ⟨hl.done, hl.done, hl.pending, hl.noSwap, .inl rfl⟩
  | push u functor =>
      have hl := hl.emplaceBack functor
      exact ⟨hl.done, hl.due, hl.pending, hl.noSwap, hl.leaving⟩
  | wake u => exact hl.finishPush u
  | quit u => exact ⟨hl.done, hl.done, hl.pending, hl.noSwap, .inl rfl⟩
  | quitWake u => exact ⟨hl.done, hl.due, hl.pending, hl.noSwap, hl.leaving⟩
  | join u => exact ⟨hl.done, hl.due, hl.pending, hl.noSwap, hl.leaving⟩

/-- An unsafe `quit` loses a call. -/
theorem lost_of_not_quitSafe (s : State F T) (a : LoopAction F T) (t : State F T)
    (h : ¬ QuitSafe s a) (ht : step s a = some t) : ∃ i, Lost t i := by
  obtain ⟨-, rfl⟩ := step_eq_some.mp ht
  cases a with
  | selfQuit =>
      simp only [QuitSafe, not_or, not_forall] at h
      obtain ⟨hs, i, hi, hp⟩ := h
      exact ⟨i, hi, hi, Nat.not_lt.mp hp, eq_false_of_ne_true hs, .inl rfl⟩
  | quit u =>
      simp only [QuitSafe, not_or, not_forall] at h
      obtain ⟨hs, i, hi, hp⟩ := h
      exact ⟨i, hi, hi, Nat.not_lt.mp hp, eq_false_of_ne_true hs, .inl rfl⟩
  | advance _ | selfPush _ | selfWake | push _ _ | wake _ | quitWake _ | join _ =>
      exact absurd trivial h

/-- In every interleaving, a loop that has returned, and all the more one that
was joined, has executed every call completed before `quit_` was set exactly if
every `quit` found a swap ahead or no completed call pending. -/
theorem quit_loses_nothing_iff (shared : Bool) {actions : List (LoopAction F T)} {s : State F T}
    (h : run step (State.create shared) actions = some s)
    (hr : s.pc.hasReturned = true ∨ ∃ t, s.threads t = .joined) :
    AllDone s ↔ Meets step QuitSafe (State.create shared) actions := by
  have hi : Indexed s := run_preserves indexed_step (indexed_create shared) h
  have hreturned : s.pc.hasReturned = true := by
    rcases hr with hr | ⟨t, ht⟩
    · exact hr
    · exact returned_of_dead (hi.joined t ht)
  have hstart : Settled (State.create shared : State F T) := by
    intro _ _ i h
    cases h
  constructor
  · intro hdone
    refine meets_of_run (I := fun _ => True) ?_ ?_ lost_step trivial h ?_
    · exact fun _ _ _ _ _ _ => trivial
    · exact fun s a t _ hc ht => lost_of_not_quitSafe s a t hc ht
    · rintro ⟨i, hl⟩
      exact hl.not_allDone hi.order hreturned hdone
  · intro hmeets
    have hboth := run_preserves_of_meets (P := fun s => Indexed s ∧ Settled s)
      (fun s a t hs hc ht => ⟨indexed_step s a t hs.1 ht, settled_step hs.2 hs.1 hc ht⟩)
      ⟨indexed_create shared, hstart⟩ hmeets h
    exact hboth.2.allDone hi.order hreturned

end Runs

instance [DecidableEq F] (s : State F T) : Decidable (AllDone s) :=
  inferInstanceAs (Decidable (_ ∧ _))

/-- One functor is running when another thread queues a second one, completes
the call, quits and joins. -/
def quitWhileRunning : List (LoopAction ℕ Bool) :=
  [.push true 1, .wake true] ++ List.replicate 5 (.advance false) ++ [.advance true] ++
    List.replicate 4 (.advance false) ++ [.push true 2, .wake true, .quit true, .quitWake true] ++
    List.replicate 6 (.advance false) ++ [.join true]

theorem quit_loses_nothing_iff_running :
    ∃ s, run step (State.create true) quitWhileRunning = some s ∧
      (AllDone s ↔ Meets step QuitSafe (State.create true) quitWhileRunning) := by
  obtain ⟨s, hs, hr⟩ : ∃ s ∈ run step (State.create true) quitWhileRunning,
      s.pc.hasReturned = true := by decide
  exact ⟨s, hs, quit_loses_nothing_iff true hs (.inl hr)⟩

/-- The thread is joined and the second functor is still pending. -/
theorem quit_while_running_loses :
    ∃ s ∈ run step (State.create true) quitWhileRunning,
      s.threads true = .joined ∧ s.pendingFunctors = [2] ∧ ¬ AllDone s := by
  decide

end Netmux.LoopQuit
