import Netmux.SharedWork

/-!
# Queued operations and the life of their connection

`send` and `shutdown` bind the raw `this` into the functors they queue, so a
queued `sendInLoop` or `shutdownInLoop` keeps nothing alive. It is safe as long
as whoever lets go of the last pointer finds no such functor queued: a thread
that drops its pointer after the server has gone, the end of the batch that ran
`connectDestroyed`, the end of a dispatch.
-/
namespace Netmux.ConnectionLifetime
open ActionRuns SocketBuffer ChannelPoller TcpConnection SharedConnection

variable {T : Type}

/-- No functor bound to the raw `this` has run on a connection that was gone. -/
def Safe (s : Shared T) : Prop := .executed false ∉ s.log

/-- Only functors that hold the connection are queued. -/
def Unburdened (s : Shared T) : Prop := ∀ functor ∈ s.work, functor.owns = true

instance (s : Shared T) : Decidable (Unburdened s) :=
  inferInstanceAs (Decidable (∀ functor ∈ s.work, _))

/-- A state with all the pointers of one that is alive is alive. -/
theorem alive_of_owners {s t : Shared T} (h : s.alive = true) (htable : t.table = s.table)
    (hremoving : t.removing = s.removing) (hguard : t.guard = s.guard)
    (hholders : t.holders = s.holders)
    (hmem : ∀ functor ∈ s.executed ++ s.work, functor ∈ t.executed ++ t.work) :
    t.alive = true := by
  by_contra hdead
  rw [Bool.not_eq_true, dead_iff, htable, hremoving, hguard, hholders] at hdead
  obtain ⟨htable, hremoving, hguard, hholders, howners⟩ := hdead
  have hs : s.alive = false := dead_iff.mpr
    ⟨htable, hremoving, hguard, hholders, fun functor hf => howners functor (hmem functor hf)⟩
  cases hs.symm.trans h

theorem sendInLoop_alive {s : Shared T} (hf : Founded s) (h : s.alive = true) (id : ℕ)
    (payload : Bytes) (read : Option Bytes) (write : Bytes → WriteAnswer) :
    (s.sendInLoop id payload read write).alive = true := by
  rcases hf.sendInLoop_cases id payload read write with ⟨-, he⟩ | ⟨-, callbacks, -, he⟩
  · rw [he]
    exact h
  · rw [he]
    refine alive_of_owners h rfl rfl rfl rfl ?_
    intro functor hmem
    simp only [Shared.work, List.mem_append] at hmem ⊢
    exact hmem.imp_right fun hw => hw.imp_right .inl

/-- Running a functor lets go of nothing. -/
theorem runNext_alive {s : Shared T} (hf : Founded s) (write : Bytes → WriteAnswer)
    (h : s.alive = true) : (s.runNext write).alive = true := by
  unfold Shared.runNext
  cases hbatch : s.batch with
  | nil => exact h
  | cons first batch =>
      have hpop : (s.pop first batch).alive = true := (pop_alive hbatch).trans h
      have hpopped : ∀ e, Founded ((s.pop first batch).record e) :=
        fun e => hf.same rfl Iff.rfl rfl rfl
      cases first with
      | sendInLoop id owner address len payload =>
          dsimp only [Shared.runFunctor]
          rw [if_pos hpop]
          exact sendInLoop_alive (hpopped _) hpop ..
      | shutdownInLoop required =>
          dsimp only [Shared.runFunctor, Shared.shutdownInLoop]
          split_ifs <;> exact hpop
      | connectDestroyed =>
          dsimp only [Shared.runFunctor, Shared.connectDestroyed]
          split_ifs <;> exact hpop
      | callback => exact hpop

variable [DecidableEq T]

/-- A step that lets go of the last pointer finds no raw functor queued. -/
def LastOut (s : Shared T) (a : Action T) : Prop :=
  s.alive = true → (after s a).alive = false → Unburdened s

/-- A connection that is gone has no raw functor queued. -/
def Covered (s : Shared T) : Prop := s.alive = false → Unburdened s

/-- A thread that pushes a functor holds a pointer, before and after. -/
theorem pushes_alive {s : Shared T} (hf : Founded s) {u : T} {functor : Functor T}
    (h : Pushes s u functor) : s.alive = true ∧ (s.advance u).alive = true := by
  have hmem : u ∈ s.holders := by
    apply hf.callers
    intro hidle
    unfold Pushes at h
    rw [hidle] at h
    exact h
  have hholders : (s.advance u).holders = s.holders := by
    unfold Shared.advance
    split <;> rfl
  exact ⟨alive_of_holder hmem, alive_of_holder (hholders ▸ hmem)⟩

theorem step_covered {s t : Shared T} {a : Action T} (hf : Founded s) (hb : Batched s)
    (h : Covered s) (ht : step s a = some t) (ha : LastOut s a) : Covered t := by
  intro hdead functor hmem
  have hafter : after s a = t := (step_eq_some.mp ht).2
  rcases step_work hf hb ht hmem with hold | howns | ⟨u, rfl, hpush⟩
  · cases hs : s.alive with
    | false => exact h hs functor hold
    | true => exact ha hs (hafter ▸ hdead) functor hold
  · exact howns
  · have halive := (pushes_alive hf hpush).2
    rw [← hafter] at hdead
    cases hdead.symm.trans halive

theorem step_safe {s t : Shared T} {a : Action T} (hf : Founded s) (hc : Covered s) (h : Safe s)
    (ht : step s a = some t) : Safe t := by
  intro hmem
  rcases step_log hf ht hmem with hold | ⟨halive, write, functor, batch, rfl, hbatch, hraw⟩
  · exact h hold
  · have howns := hc halive.symm functor (by simp [Shared.work, hbatch])
    cases hraw.symm.trans howns

/-- A connection once gone stays gone, and a raw functor queued for it runs at
some point or is still queued. -/
def Doomed (s : Shared T) : Prop :=
  s.alive = false ∧ (¬ Unburdened s ∨ .executed false ∈ s.log)

theorem step_doomed {s t : Shared T} {a : Action T} (hf : Founded s) (hb : Batched s)
    (h : Doomed s) (ht : step s a = some t) : Doomed t := by
  obtain ⟨hdead, hraw⟩ := h
  rcases step_dead hf hb hdead ht with ⟨hstill, ⟨hwork, hlog⟩ | hlog⟩
  · refine ⟨hstill, ?_⟩
    unfold Unburdened
    rw [hwork, hlog]
    exact hraw
  · refine ⟨hstill, .inr ?_⟩
    rw [hlog]
    exact List.mem_cons_self ..

/-- Letting go over a raw functor dooms the connection. -/
theorem doomed_of_not_lastOut {s t : Shared T} {a : Action T} (hf : Founded s) (hb : Batched s)
    (ht : step s a = some t) (ha : ¬ LastOut s a) : Doomed t := by
  have hafter : after s a = t := (step_eq_some.mp ht).2
  simp only [LastOut, Classical.not_imp] at ha
  obtain ⟨halive, hdead, hraw⟩ := ha
  rw [hafter] at hdead
  refine ⟨hdead, .inl ?_⟩
  have hrun : ∀ write, a ≠ .run write := by
    rintro write rfl
    subst hafter
    cases hdead.symm.trans (runNext_alive hf write halive)
  obtain ⟨new, hwork, -⟩ := step_appends hf hb ht hrun
  intro hclean
  apply hraw
  intro functor hmem
  apply hclean functor
  rw [hwork]
  exact List.mem_append_left _ hmem

omit [DecidableEq T] in
theorem create_safe (c : Connection) (p : EPollPoller ℕ) (memory : T → ℕ → Option Bytes) :
    Safe (Shared.create c p memory) := by
  intro h
  cases List.mem_singleton.mp h

/-- For any number of threads and in every interleaving whose steps let go of
the last pointer only when no raw functor is queued, every queued operation runs
while its connection is alive. A run that violates this, and has worked off all
raw functors at its end, has run one on a connection that was gone. -/
theorem lifetime_safe {c : Connection} (hc : c.Fresh) (p : EPollPoller ℕ)
    (memory : T → ℕ → Option Bytes) {actions : List (Action T)} {t : Shared T}
    (h : run step (Shared.create c p memory) actions = some t) :
    (Meets step LastOut (Shared.create c p memory) actions →
      Throughout step Safe (Shared.create c p memory) actions) ∧
    (Unburdened t → Safe t → Meets step LastOut (Shared.create c p memory) actions) := by
  have hf := create_founded hc p memory
  have hb := create_batched c p memory
  constructor
  · apply throughout_of_meets (I := fun s => Founded s ∧ Batched s ∧ Covered s ∧ Safe s)
    · intro s a t hi ha ht
      exact ⟨step_founded s a t hi.1 ht, step_batched hi.1 hi.2.1 ht,
        step_covered hi.1 hi.2.1 hi.2.2.1 ht ha, step_safe hi.1 hi.2.2.1 hi.2.2.2 ht⟩
    · intro s hi
      exact hi.2.2.2
    · refine ⟨hf, hb, ?_, create_safe c p memory⟩
      intro hdead
      cases hdead
  · intro hclean hsafe
    have hkeep : ∀ s (a : Action T) t, Founded s ∧ Batched s → step s a = some t →
        Founded t ∧ Batched t :=
      fun s a t hi ht => ⟨step_founded s a t hi.1 ht, step_batched hi.1 hi.2 ht⟩
    have hspoil : ∀ s (a : Action T) t, Founded s ∧ Batched s → ¬ LastOut s a →
        step s a = some t → (Founded t ∧ Batched t) ∧ Doomed t :=
      fun s a t hi ha ht => ⟨hkeep s a t hi ht, doomed_of_not_lastOut hi.1 hi.2 ht ha⟩
    have hstay : ∀ s (a : Action T) t, (Founded s ∧ Batched s) ∧ Doomed s → step s a = some t →
        (Founded t ∧ Batched t) ∧ Doomed t :=
      fun s a t hi ht => ⟨hkeep s a t hi.1 ht, step_doomed hi.1.1 hi.1.2 hi.2 ht⟩
    refine meets_of_run (fun s a t hi _ ht => hkeep s a t hi ht) hspoil hstay ⟨hf, hb⟩ h ?_
    rintro ⟨-, -, hraw | hexecuted⟩
    · exact hraw hclean
    · exact hsafe hexecuted

/-- Thread 0 has tested `state_` in `send` when the server goes and its
`connectDestroyed` runs; it then pushes its functor and drops its pointer. -/
def lateSend : List (Action ℕ) :=
  [.loopAdvance fun _ => .accepted 0, .copy 0, .leave, .send 0 0, .destroyServer, .swap,
    .run fun _ => .accepted 0, .loopAdvance fun _ => .accepted 0, .leave, .endBatch, .advance 0,
    .drop 0, .swap, .run fun _ => .accepted 1]

theorem lateSend_log : ∃ t ∈ run step (justMade ℕ) lateSend, .executed false ∈ t.log := by
  decide +kernel

theorem lifetime_safe_lateSend : ∃ t, run step (justMade ℕ) lateSend = some t ∧
    (Meets step LastOut (justMade ℕ) lateSend → Throughout step Safe (justMade ℕ) lateSend) ∧
      (Unburdened t → Safe t → Meets step LastOut (justMade ℕ) lateSend) := by
  obtain ⟨t, ht, -⟩ := lateSend_log
  exact ⟨t, ht, lifetime_safe (Connection.create_fresh _ _ _) _ _ ht⟩

/-- The functor runs on a connection that is gone. -/
theorem lateSend_unsafe : ∃ t, run step (justMade ℕ) lateSend = some t ∧ ¬ Safe t := by
  obtain ⟨t, ht, hlog⟩ := lateSend_log
  exact ⟨t, ht, fun hsafe => hsafe hlog⟩

end Netmux.ConnectionLifetime
