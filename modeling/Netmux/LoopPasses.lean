import Netmux.LoopQuit

/-!
# The passes of a loop

A pass of `loop()` polls, dispatches and runs one batch: what `doPendingFunctors`
has swapped out. What is queued while the batch runs, by another thread or by a
functor of the batch, waits for the next pass, so that functors that queue
functors keep the loop neither from its poller nor from its test of `quit_`.

A functor waits for those ahead of it and for the statements of two passes at
most, whatever the other threads do. Only the statements of the loop's own thread
are counted; how long a `poll` sleeps is another matter.
-/
namespace Netmux.LoopPasses
open ActionRuns EventLoop FunctorHistory LoopQuit

variable {F T : Type}

/-- A test of `quit_` does not find it set. -/
def QuitNotFound (s : State F T) : LoopAction F T → Prop
  | .advance _ => s.pc = .testQuit → s.quit = false
  | _ => True

instance [DecidableEq F] (s : State F T) : (a : LoopAction F T) → Decidable (QuitNotFound s a)
  | .advance _ => inferInstanceAs (Decidable (_ → _))
  | .selfPush _ | .selfWake | .selfQuit | .push _ _ | .wake _ | .quit _ | .quitWake _ | .join _ =>
      isTrue trivial

/-- The statements before the functor at a position is called, apart from the two
for each functor ahead of it. -/
def lag (s : State F T) (index : ℕ) : ℕ :=
  match s.pc with
  | .initCallback => 11
  | .publish => 10
  | .setLooping => 9
  | .resetQuit => 8
  | .testQuit => 7
  | .poll => 6
  | .dispatch true => 5
  | .dispatch false => 4
  | .setCalling => 3
  | .swap => 2
  | .batch functors => if index < s.executed.length + functors.length then 1 else 8
  | .running _ functors => if index ≤ s.executed.length + functors.length then 0 else 7
  | .clearLooping | .returned | .finished => 0

def rank (s : State F T) (index : ℕ) : ℕ := 2 * (index - s.executed.length) + lag s index

/-- The loop goes on, and the position is that of a functor. -/
structure Waits (s : State F T) (index : ℕ) : Prop where
  order : InOrder s
  inside : exiting s.pc = false
  queued : index < s.queued.length

theorem lag_le (s : State F T) (index : ℕ) : lag s index ≤ 11 := by
  unfold lag
  split <;> try omega
  · split_ifs <;> omega
  · split_ifs <;> omega

/-- A statement of the loop's thread brings the functor nearer. -/
theorem rank_advance {s : State F T} {index : ℕ} (h : Waits s index)
    (hquit : s.pc = .testQuit → s.quit = false) (hwaits : s.executed.length ≤ index)
    (ready : Bool) :
    index < (s.advance ready).executed.length ∨
      rank (s.advance ready) index + 1 ≤ rank s index := by
  have hlength := h.order.length
  have hinside := h.inside
  have hqueued := h.queued
  unfold State.advance
  cases hpc : s.pc with
  | testQuit => simp [rank, lag, hpc, hquit hpc]
  | dispatch wakeup => cases wakeup <;> simp [rank, lag, hpc, State.handleRead]
  | swap =>
      rw [hpc] at hlength
      have hfound : index < s.executed.length + s.pendingFunctors.length := by
        simp only [Pc.unexecuted, List.length_nil] at hlength
        omega
      simp [rank, lag, hpc, hfound]
  | batch functors =>
      cases functors with
      | nil => simp [rank, lag, hpc, Nat.not_lt.mpr hwaits]
      | cons functor functors =>
          right
          simp only [rank, lag, hpc, List.length_cons]
          split_ifs <;> omega
  | running functor functors =>
      simp only [rank, lag, hpc, List.length_append, List.length_singleton]
      split_ifs <;> omega
  | poll => cases ready <;> simp [rank, lag, hpc]
  | initCallback | publish | setLooping | resetQuit | setCalling => simp [rank, lag, hpc]
  | clearLooping | returned | finished => simp [hpc, exiting] at hinside

/-- The loop's thread goes on as long as it does not find `quit_` set. -/
theorem advance_inside {s : State F T} (hinside : exiting s.pc = false)
    (hquit : s.pc = .testQuit → s.quit = false) (ready : Bool) :
    exiting (s.advance ready).pc = false := by
  unfold State.advance
  cases hpc : s.pc with
  | testQuit => simp [hquit hpc, exiting]
  | dispatch wakeup => cases wakeup <;> rfl
  | batch functors => cases functors <;> rfl
  | initCallback | publish | setLooping | resetQuit | poll | setCalling | swap
  | running functor functors => rfl
  | clearLooping | returned | finished => simp [hpc, exiting] at hinside

theorem getElem?_of_initial {l m : List F} (h : l <+: m) {i : ℕ} (hi : i < l.length) :
    l[i]? = m[i]? := by
  obtain ⟨rest, rfl⟩ := h
  exact (List.getElem?_append_left hi).symm

section Threads
variable [DecidableEq T]

theorem step_waits {index : ℕ} (s : State F T) (a : LoopAction F T) (t : State F T)
    (h : Waits s index) (hquit : QuitNotFound s a) (ht : step s a = some t) : Waits t index := by
  have horder : InOrder t := inOrder_step s a t h.order ht
  rcases advance_or_other a with ⟨ready, rfl⟩ | ha
  · rw [advance_eq ht] at horder ⊢
    refine ⟨horder, advance_inside h.inside hquit ready, ?_⟩
    rw [(advance_sameCalls s ready).queued]
    exact h.queued
  · obtain ⟨hpc, -, hqueued⟩ := other_step ht ha
    exact ⟨horder, hpc ▸ h.inside, Nat.lt_of_lt_of_le h.queued hqueued.length_le⟩

/-- What has been queued or executed stays so. -/
theorem step_grows {s t : State F T} {a : LoopAction F T} (ht : step s a = some t) :
    s.queued <+: t.queued ∧ s.executed.length ≤ t.executed.length := by
  rcases advance_or_other a with ⟨ready, rfl⟩ | ha
  · rw [advance_eq ht, (advance_sameCalls s ready).queued]
    refine ⟨List.prefix_refl _, ?_⟩
    unfold State.advance
    split <;> simp [State.handleRead]
  · obtain ⟨-, hexecuted, hqueued⟩ := other_step ht ha
    exact ⟨hqueued, hexecuted ▸ Nat.le_refl _⟩

theorem step_rank {index : ℕ} (s : State F T) (a : LoopAction F T) (t : State F T)
    (h : Waits s index) (hquit : QuitNotFound s a) (hwaits : ¬ index < s.executed.length)
    (ht : step s a = some t) : index < t.executed.length ∨
      rank t index + (if isAdvance a = true then 1 else 0) ≤ rank s index := by
  rcases advance_or_other a with ⟨ready, rfl⟩ | ha
  · rw [advance_eq ht]
    exact rank_advance h hquit (Nat.not_lt.mp hwaits) ready
  · right
    obtain ⟨hpc, hexecuted, -⟩ := other_step ht ha
    simp [rank, lag, hpc, hexecuted, ha]

/-- In every interleaving and from every state of it, a functor that waits is
executed, as the one queued at its position, once the loop's thread has taken two
statements for each functor ahead of it and twelve more, unless the loop finds
`quit_` set before. -/
theorem executed_within (shared : Bool) {before actions : List (LoopAction F T)}
    {s t : State F T} {index : ℕ} (hs : run step (State.create shared) before = some s)
    (hinside : exiting s.pc = false) (hqueued : index < s.queued.length)
    (hquit : Meets step QuitNotFound s actions) (h : run step s actions = some t)
    (hn : 2 * (index - s.executed.length) + 12 ≤ actions.countP isAdvance) :
    t.executed[index]? = s.queued[index]? := by
  have hstart : InOrder s := run_preserves inOrder_step (inOrder_create shared) hs
  have hrank : rank s index < actions.countP isAdvance := by
    have hlag := lag_le s index
    unfold rank
    omega
  have hdone : ∀ (s : State F T) (a : LoopAction F T) (t : State F T),
      index < s.executed.length → step s a = some t → index < t.executed.length :=
    fun _ _ _ hs ht => Nat.lt_of_lt_of_le hs (step_grows ht).2
  have hwaits : Waits s index := ⟨hstart, hinside, hqueued⟩
  have hreached : index < t.executed.length :=
    reached_of_rank step_waits hdone step_rank hwaits hquit h hrank
  have hgrow : ∀ (u : State F T) (a : LoopAction F T) (v : State F T),
      s.queued <+: u.queued → step u a = some v → s.queued <+: v.queued :=
    fun _ _ _ hu hv => hu.trans (step_grows hv).1
  have hkept : s.queued <+: t.queued := run_preserves hgrow (List.prefix_refl _) h
  have horder : InOrder t := run_preserves inOrder_step hstart h
  calc t.executed[index]?
      = t.queued[index]? := getElem?_of_initial horder.executed_prefix hreached
    _ = s.queued[index]? := (getElem?_of_initial hkept hqueued).symm

end Threads

/-- Two threads queue a functor each before the loop starts. -/
def queuedTwo : List (LoopAction ℕ Bool) := [.push true 1, .wake true, .push false 2, .wake false]

theorem executed_within_queuedTwo :
    ∃ s t, run step (State.create true) queuedTwo = some s ∧
      run step s (List.replicate 14 (.advance false)) = some t ∧
      t.executed[1]? = s.queued[1]? :=
  ⟨_, _, rfl, rfl, @executed_within ℕ Bool _ true queuedTwo (List.replicate 14 (.advance false))
    _ _ 1 rfl rfl (by decide) (by decide) rfl (by decide)⟩

section Threads
variable [DecidableEq T]

/-- What the loop's thread has still to do of its batch before it tests `quit_`. -/
def toBatchEnd : Pc F → ℕ
  | .batch functors => 2 * functors.length + 1
  | .running _ functors => 2 * functors.length + 2
  | _ => 0

/-- A batch is under way or has just ended, and these are the functors executed
when it has. -/
structure InBatch (executed : List F) (s : State F T) : Prop where
  executed : s.executed ++ s.pc.unexecuted = executed
  running : s.pc = .testQuit ∨ 0 < toBatchEnd s.pc

theorem step_inBatch {executed : List F} {s t : State F T} {a : LoopAction F T}
    (h : InBatch executed s) (hpc : s.pc ≠ .testQuit) (ht : step s a = some t) :
    InBatch executed t ∧
      toBatchEnd t.pc + (if isAdvance a = true then 1 else 0) = toBatchEnd s.pc := by
  rcases advance_or_other a with ⟨ready, rfl⟩ | ha
  · rw [advance_eq ht]
    have hexecuted := h.executed
    have hrunning := h.running.resolve_left hpc
    unfold State.advance
    cases hs : s.pc with
    | batch functors =>
        rw [hs] at hexecuted
        cases functors with
        | nil => exact ⟨⟨hexecuted, .inl rfl⟩, rfl⟩
        | cons functor functors => exact ⟨⟨hexecuted, .inr (Nat.succ_pos _)⟩, rfl⟩
    | running functor functors =>
        rw [hs] at hexecuted
        refine ⟨⟨?_, .inr (Nat.succ_pos _)⟩, rfl⟩
        simpa [Pc.unexecuted] using hexecuted
    | dispatch wakeup => simp [hs, toBatchEnd] at hrunning
    | initCallback | publish | setLooping | resetQuit | testQuit | poll | setCalling | swap
    | clearLooping | returned | finished => simp [hs, toBatchEnd] at hrunning
  · obtain ⟨hsame, hexecuted, -⟩ := other_step ht ha
    refine ⟨⟨?_, ?_⟩, ?_⟩
    · rw [hsame, hexecuted]
      exact h.executed
    · rw [hsame]
      exact h.running
    · simp [hsame, ha]

/-- A batch runs to its end, whatever happens meanwhile. -/
theorem run_inBatch {executed : List F} {s t : State F T} {actions : List (LoopAction F T)}
    (hs : InBatch executed s) (h : run step s actions = some t) (hend : t.pc = .testQuit)
    (hfirst : Meets step (fun s _ => s.pc ≠ .testQuit) s actions) :
    t.executed = executed ∧ actions.countP isAdvance = toBatchEnd s.pc := by
  induction actions generalizing s with
  | nil =>
      cases h
      have hexecuted := hs.executed
      rw [hend] at hexecuted ⊢
      exact ⟨(List.append_nil _).symm.trans hexecuted, rfl⟩
  | cons a actions ih =>
      obtain ⟨u, hu, hr⟩ := run_cons_eq_some.mp h
      obtain ⟨hbatch, hcount⟩ := step_inBatch hs hfirst.1 hu
      obtain ⟨hexecuted, hrest⟩ := ih hbatch hr (hfirst.2 u hu)
      refine ⟨hexecuted, ?_⟩
      rw [List.countP_cons, hrest, hcount]

/-- Whatever is queued or asked for meanwhile, the batch of a pass is what was
pending when it swapped: when the loop tests `quit_` next it has executed just
this, in two statements for each functor and one more, and everything queued since
the swap is pending. -/
theorem pass_exact (shared : Bool) {before actions : List (LoopAction F T)} {s t : State F T}
    (hs : run step (State.create shared) before = some s) (hswap : s.pc = .swap) (ready : Bool)
    (h : run step (s.advance ready) actions = some t) (hend : t.pc = .testQuit)
    (hfirst : Meets step (fun s _ => s.pc ≠ .testQuit) (s.advance ready) actions) :
    t.executed = s.executed ++ s.pendingFunctors ∧ t.queued = s.queued ++ t.pendingFunctors ∧
      actions.countP isAdvance = 2 * s.pendingFunctors.length + 1 := by
  have hstart : InOrder s := run_preserves inOrder_step (inOrder_create shared) hs
  have hpc : (s.advance ready).pc = .batch s.pendingFunctors := by simp [State.advance, hswap]
  have hexecuted : (s.advance ready).executed = s.executed := by simp [State.advance, hswap]
  have hbatch : InBatch (s.executed ++ s.pendingFunctors) (s.advance ready) := by
    constructor
    · rw [hpc, hexecuted]
      rfl
    · rw [hpc]
      exact .inr (Nat.succ_pos _)
  obtain ⟨hdone, hcount⟩ := run_inBatch hbatch h hend hfirst
  refine ⟨hdone, ?_, ?_⟩
  · have horder : InOrder t := run_preserves inOrder_step (hstart.advance ready) h
    unfold InOrder at hstart horder
    rw [hend, hdone] at horder
    rw [hswap] at hstart
    simpa [Pc.unexecuted, ← hstart] using horder.symm
  · rw [hcount, hpc]
    rfl

end Threads

def queuedAtSwap : List (LoopAction ℕ Bool) := queuedTwo ++ List.replicate 8 (.advance false)

/-- The first of two functors queues a third one, and a thread a fourth. -/
def queuedMeanwhile : List (LoopAction ℕ Bool) :=
  [.advance false, .selfPush 3, .selfWake, .push true 4, .wake true, .advance false,
    .advance false, .advance false, .advance false]

theorem pass_exact_queuedMeanwhile :
    ∃ s t, run step (State.create true) queuedAtSwap = some s ∧
      run step (s.advance false) queuedMeanwhile = some t ∧
      t.executed = s.executed ++ s.pendingFunctors ∧ t.queued = s.queued ++ t.pendingFunctors ∧
      queuedMeanwhile.countP isAdvance = 2 * s.pendingFunctors.length + 1 := by
  refine ⟨_, _, rfl, rfl, ?_⟩
  exact @pass_exact ℕ Bool _ true queuedAtSwap queuedMeanwhile _ _ rfl rfl false rfl rfl (by decide)

end Netmux.LoopPasses
