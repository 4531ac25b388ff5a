import Netmux.SharedSteps

/-!
# What the loop still has to do for a shared connection

The functors of the loop that concern the connection, in the order in which they
run: where they come from, how long they stay, and what they have to do with the
life of the connection.
-/
namespace Netmux.SharedConnection
open ActionRuns SocketBuffer ChannelPoller TcpConnection ConnectionOutput

variable {T : Type}

/-- Between two batches nothing is left over, and the loop's thread works on the
connection only with a pointer in hand. -/
structure Batched (s : Shared T) : Prop where
  between : s.callingPendingFunctors = false → s.batch = []
  held : s.pc ≠ .idle → s.guard = true ∨ ∃ functor ∈ s.executed, functor.owns = true

theorem create_batched (c : Connection) (p : EPollPoller ℕ) (memory : T → ℕ → Option Bytes) :
    Batched (Shared.create c p memory) := ⟨fun _ => rfl, fun _ => .inl rfl⟩

theorem Batched.same {s t : Shared T} (h : Batched s)
    (hcalling : t.callingPendingFunctors = s.callingPendingFunctors) (hbatch : t.batch = s.batch)
    (hpc : t.pc ≠ .idle → s.pc ≠ .idle) (hguard : t.guard = s.guard)
    (hexecuted : t.executed = s.executed) : Batched t := by
  constructor
  · rw [hcalling, hbatch]
    exact h.between
  · rw [hguard, hexecuted]
    exact fun ht => h.held (hpc ht)

/-- The loop's thread goes on with a pointer in hand. -/
theorem Batched.working {s t : Shared T} (h : Batched s)
    (hcalling : t.callingPendingFunctors = s.callingPendingFunctors) (hbatch : t.batch = s.batch)
    (hheld : t.guard = true ∨ ∃ functor ∈ t.executed, functor.owns = true) : Batched t := by
  refine ⟨?_, fun _ => hheld⟩
  rw [hcalling, hbatch]
  exact h.between

theorem Batched.sendInLoop {s : Shared T} (hf : Founded s) (h : Batched s) (id : ℕ)
    (payload : Bytes) (read : Option Bytes) (write : Bytes → WriteAnswer) :
    Batched (s.sendInLoop id payload read write) := by
  rcases hf.sendInLoop_cases id payload read write with ⟨-, he⟩ | ⟨-, _, -, he⟩
  · rw [he]
    exact h
  · rw [he]
    exact h.same rfl rfl (fun hpc => hpc) rfl rfl

theorem Batched.shutdownInLoop {s : Shared T} (h : Batched s) (required : ℕ) :
    Batched (s.shutdownInLoop required) := by
  unfold Shared.shutdownInLoop
  split_ifs
  · exact h
  · exact h.same rfl rfl (fun hpc => hpc) rfl rfl

theorem Batched.connectDestroyed {s : Shared T} (h : Batched s)
    (hheld : s.guard = true ∨ ∃ functor ∈ s.executed, functor.owns = true) :
    Batched s.connectDestroyed := by
  unfold Shared.connectDestroyed
  split_ifs
  · exact h.working rfl rfl hheld
  · exact h.working rfl rfl hheld
  · exact h.working rfl rfl hheld

theorem Batched.loopAdvance {s : Shared T} (hf : Founded s) (h : Batched s) (hpc : s.pc ≠ .idle)
    (write : Bytes → WriteAnswer) : Batched (s.loopAdvance write) := by
  have hheld := h.held hpc
  unfold Shared.loopAdvance
  cases hc : s.pc with
  | establishing => exact h.working rfl rfl hheld
  | idle => exact h
  | inCallback => exact h
  | sendCalled data =>
      refine (h.sendInLoop hf s.returned data (some data) write).same rfl rfl ?_ rfl rfl
      intro _
      rw [(hf.sendInLoop s.returned data (some data) write).2]
      exact hpc
  | shutdownTested required => exact h.working rfl rfl hheld
  | shutdownStored required =>
      refine (h.shutdownInLoop required).same rfl rfl ?_ rfl rfl
      intro _
      rw [shutdownInLoop_pc]
      exact hpc
  | destroyTested => exact h.working rfl rfl hheld

theorem Batched.runNext {s : Shared T} (hf : Founded s) (h : Batched s) (hpc : s.pc = .idle)
    (hcalling : s.callingPendingFunctors = true) (write : Bytes → WriteAnswer) :
    Batched (s.runNext write) := by
  unfold Shared.runNext
  cases s.batch with
  | nil => exact h
  | cons first batch =>
      have hpopped : ∀ e, Founded ((s.pop first batch).record e) :=
        fun e => hf.same rfl Iff.rfl rfl rfl
      have hnot : (s.pop first batch).callingPendingFunctors ≠ false := by
        show s.callingPendingFunctors ≠ false
        rw [hcalling]
        decide
      have hpop : Batched (s.pop first batch) :=
        ⟨fun hf => absurd hf hnot, fun hp => absurd hpc hp⟩
      have hstay : ∀ e, Batched ((s.pop first batch).record e) :=
        fun e => hpop.same rfl rfl (fun hp => hp) rfl rfl
      have hlast : first.owns = true → ∃ functor ∈ (s.pop first batch).executed,
          functor.owns = true :=
        fun howns => ⟨first, List.mem_append_right _ (List.mem_cons_self ..), howns⟩
      cases first with
      | sendInLoop id owner address len payload =>
          dsimp only [Shared.runFunctor]
          split_ifs
          · exact (hstay _).sendInLoop (hpopped _) ..
          · exact hstay _
      | shutdownInLoop required =>
          dsimp only [Shared.runFunctor]
          split_ifs
          · exact (hstay _).shutdownInLoop required
          · exact hstay _
      | connectDestroyed => exact hpop.connectDestroyed (.inr (hlast rfl))
      | callback => exact hpop.working rfl rfl (.inr (hlast rfl))

/-- A functor another thread's next statement binds to the raw `this`. -/
def Pushes (s : Shared T) (t : T) (functor : Functor T) : Prop :=
  match s.threads t with
  | .sending address payload =>
      functor = .sendInLoop s.returned t address (s.contents t address).length payload
  | .shutdownStored required => functor = .shutdownInLoop required
  | .idle | .shutdownTested _ => False

theorem shutdownInLoop_work (s : Shared T) (required : ℕ) :
    (s.shutdownInLoop required).work = s.work := by
  unfold Shared.shutdownInLoop
  split_ifs <;> rfl

theorem connectDestroyed_work (s : Shared T) : s.connectDestroyed.work = s.work := by
  unfold Shared.connectDestroyed
  split_ifs <;> rfl

theorem sendInLoop_appends {s : Shared T} (h : Founded s) (id : ℕ) (payload : Bytes)
    (read : Option Bytes) (write : Bytes → WriteAnswer) :
    ∃ callbacks, (∀ functor ∈ callbacks, functor.owns = true) ∧
      (s.sendInLoop id payload read write).work = s.work ++ callbacks := by
  rcases h.sendInLoop_cases id payload read write with ⟨-, he⟩ | ⟨-, callbacks, hc, he⟩
  · rw [he]
    exact ⟨[], by simp, (List.append_nil _).symm⟩
  · rw [he]
    refine ⟨callbacks, ?_, ?_⟩
    · intro functor hmem
      rw [hc functor hmem]
      rfl
    · exact (List.append_assoc ..).symm

/-- A functor that runs queues callbacks at most. -/
theorem runFunctor_appends {s : Shared T} (h : Founded s) (write : Bytes → WriteAnswer)
    (functor : Functor T) : ∃ callbacks, (∀ new ∈ callbacks, new.owns = true) ∧
      (s.runFunctor write functor).work = s.work ++ callbacks := by
  have hrecorded : ∀ e, Founded (s.record e) := fun e => h.same rfl Iff.rfl rfl rfl
  have hnone : ∃ callbacks : List (Functor T), (∀ new ∈ callbacks, new.owns = true) ∧
      s.work = s.work ++ callbacks := ⟨[], by simp, (List.append_nil _).symm⟩
  cases functor with
  | sendInLoop id owner address len payload =>
      dsimp only [Shared.runFunctor]
      split_ifs
      · exact sendInLoop_appends (hrecorded _) ..
      · exact hnone
  | shutdownInLoop required =>
      dsimp only [Shared.runFunctor]
      split_ifs
      · rw [shutdownInLoop_work]
        exact hnone
      · exact hnone
  | connectDestroyed =>
      dsimp only [Shared.runFunctor]
      rw [connectDestroyed_work]
      exact hnone
  | callback => exact hnone

theorem alive_of_holder {s : Shared T} {u : T} (h : u ∈ s.holders) : s.alive = true := by
  unfold Shared.alive
  cases hh : s.holders with
  | nil =>
      rw [hh] at h
      cases h
  | cons v holders => simp

theorem alive_of_held {s : Shared T}
    (h : s.guard = true ∨ ∃ functor ∈ s.executed, functor.owns = true) : s.alive = true := by
  unfold Shared.alive
  rcases h with hguard | ⟨functor, hmem, howns⟩
  · simp [hguard]
  · have hany : (s.executed ++ s.work).any Functor.owns = true :=
      List.any_eq_true.mpr ⟨functor, List.mem_append_left _ hmem, howns⟩
    simp [hany]

/-- Without any pointer there is none in any place. -/
theorem dead_iff {s : Shared T} : s.alive = false ↔
    s.table = false ∧ s.removing = false ∧ s.guard = false ∧ s.holders = [] ∧
      ∀ functor ∈ s.executed ++ s.work, functor.owns = false := by
  simp [Shared.alive, and_assoc, or_imp, forall_and]

variable [DecidableEq T]

theorem step_batched {s t : Shared T} {a : Action T} (hf : Founded s) (h : Batched s)
    (ht : step s a = some t) : Batched t := by
  obtain ⟨hen, rfl⟩ := step_eq_some.mp ht
  have hstay : ∀ u : Shared T, u.callingPendingFunctors = s.callingPendingFunctors →
      u.batch = s.batch → u.pc = s.pc → u.guard = s.guard → u.executed = s.executed →
      Batched u := by
    intro u hcalling hbatch hpc hguard hexecuted
    exact h.same hcalling hbatch (fun hp => hpc ▸ hp) hguard hexecuted
  cases a with
  | send u address =>
      dsimp only [after, Shared.testSend]
      split
      · split_ifs
        · exact hstay _ rfl rfl rfl rfl rfl
        · exact h
      · exact h
  | shutdown u =>
      dsimp only [after]
      split_ifs
      · exact hstay _ rfl rfl rfl rfl rfl
      · exact h
  | advance u =>
      dsimp only [after, Shared.advance]
      split
      · exact h
      · exact hstay _ rfl rfl rfl rfl rfl
      · exact hstay _ rfl rfl rfl rfl rfl
      · exact hstay _ rfl rfl rfl rfl rfl
  | handleWrite write =>
      dsimp only [after, Shared.handleWrite]
      split
      · exact hstay _ rfl rfl rfl rfl rfl
      · exact h
  | loopSend data =>
      have hheld := h.held (by simp [show s.pc = .inCallback from hen])
      dsimp only [after]
      split_ifs
      · exact h.working rfl rfl hheld
      · exact h
  | loopShutdown =>
      have hheld := h.held (by simp [show s.pc = .inCallback from hen])
      dsimp only [after]
      split_ifs
      · exact h.working rfl rfl hheld
      · exact h
  | dispatch => exact h.working rfl rfl (.inl rfl)
  | loopDestroyServer =>
      have hguarded : Batched { s with table := false, guard := true } :=
        h.working rfl rfl (.inl rfl)
      exact hguarded.connectDestroyed (.inl rfl)
  | leave => exact ⟨h.between, fun hp => absurd rfl hp⟩
  | loopAdvance write => exact h.loopAdvance hf hen.1 write
  | swap =>
      refine ⟨?_, fun hp => absurd hen.1 hp⟩
      intro hcalling
      cases hcalling
  | run write => exact h.runNext hf hen.1 hen.2.1 write
  | endBatch => exact ⟨fun _ => hen.2.2, fun hp => absurd hen.1 hp⟩
  | assign _ _ _ | copy _ | drop _ | queueCallback _ | destroyServer | handleClose =>
      exact hstay _ rfl rfl rfl rfl rfl

/-- Work that a step brings: a functor that holds the connection, or what another
thread pushes. -/
def Brings (s : Shared T) (a : Action T) (functor : Functor T) : Prop :=
  functor.owns = true ∨ ∃ u, a = .advance u ∧ Pushes s u functor

/-- The loop's work grows at its end only, and shrinks only when a functor runs. -/
theorem step_appends {s t : Shared T} {a : Action T} (hf : Founded s) (hb : Batched s)
    (ht : step s a = some t) (ha : ∀ write, a ≠ .run write) :
    ∃ new, t.work = s.work ++ new ∧ ∀ functor ∈ new, Brings s a functor := by
  obtain ⟨hen, rfl⟩ := step_eq_some.mp ht
  have hsame : ∀ u : Shared T, u.work = s.work →
      ∃ new, u.work = s.work ++ new ∧ ∀ functor ∈ new, Brings s a functor :=
    fun u hu => ⟨[], by rw [hu, List.append_nil], by simp⟩
  have hqueued : ∀ functor, Brings s a functor → ∃ new,
      (s.queueInLoop functor).work = s.work ++ new ∧ ∀ functor ∈ new, Brings s a functor :=
    fun functor hfunctor => ⟨[functor], (List.append_assoc ..).symm, by simpa using hfunctor⟩
  cases a with
  | send u address =>
      dsimp only [after, Shared.testSend]
      split
      · split_ifs
        · exact hsame _ rfl
        · exact hsame _ rfl
      · exact hsame _ rfl
  | shutdown u =>
      dsimp only [after]
      split_ifs
      · exact hsame _ rfl
      · exact hsame _ rfl
  | advance u =>
      have hpush : ∀ functor, Pushes s u functor → Brings s (.advance u) functor :=
        fun functor hfunctor => .inr ⟨u, rfl, hfunctor⟩
      unfold Pushes at hpush
      dsimp only [after, Shared.advance]
      cases hc : s.threads u with
      | idle => exact hsame _ rfl
      | sending address payload =>
          rw [hc] at hpush
          exact hqueued _ (hpush _ rfl)
      | shutdownTested required => exact hsame _ rfl
      | shutdownStored required =>
          rw [hc] at hpush
          exact hqueued _ (hpush _ rfl)
  | queueCallback u => exact hqueued .callback (.inl rfl)
  | destroyServer => exact hqueued .connectDestroyed (.inl rfl)
  | handleWrite write =>
      dsimp only [after, Shared.handleWrite]
      split
      · exact hsame _ rfl
      · exact hsame _ rfl
  | loopSend data =>
      dsimp only [after]
      split_ifs
      · exact hsame _ rfl
      · exact hsame _ rfl
  | loopShutdown =>
      dsimp only [after]
      split_ifs
      · exact hsame _ rfl
      · exact hsame _ rfl
  | loopDestroyServer => exact hsame _ (connectDestroyed_work _)
  | loopAdvance write =>
      dsimp only [after, Shared.loopAdvance]
      cases s.pc with
      | sendCalled data =>
          obtain ⟨callbacks, howns, hwork⟩ :=
            sendInLoop_appends hf s.returned data (some data) write
          exact ⟨callbacks, hwork, fun functor hmem => .inl (howns functor hmem)⟩
      | shutdownStored required => exact hsame _ (shutdownInLoop_work s required)
      | establishing | idle | inCallback | shutdownTested _ | destroyTested => exact hsame _ rfl
  | swap =>
      apply hsame
      simp [after, Shared.work, hb.between hen.2]
  | run write => exact absurd rfl (ha write)
  | assign _ _ _ | copy _ | drop _ | dispatch | handleClose | leave | endBatch => exact hsame _ rfl

theorem step_runs {s t : Shared T} {write : Bytes → WriteAnswer} (hf : Founded s)
    (ht : step s (.run write) = some t) : ∃ functor batch callbacks,
      s.batch = functor :: batch ∧ (∀ new ∈ callbacks, new.owns = true) ∧
      t.work = (s.pop functor batch).work ++ callbacks := by
  obtain ⟨hen, rfl⟩ := step_eq_some.mp ht
  cases hbatch : s.batch with
  | nil => exact absurd hbatch hen.2.2
  | cons functor batch =>
      have hpop : Founded (s.pop functor batch) := hf.same rfl Iff.rfl rfl rfl
      obtain ⟨callbacks, howns, hwork⟩ := runFunctor_appends hpop write functor
      refine ⟨functor, batch, callbacks, rfl, howns, ?_⟩
      dsimp only [after, Shared.runNext]
      rw [hbatch]
      exact hwork

/-- Where the loop's work comes from. -/
theorem step_work {s t : Shared T} {a : Action T} (hf : Founded s) (hb : Batched s)
    (ht : step s a = some t) {functor : Functor T} (hmem : functor ∈ t.work) :
    functor ∈ s.work ∨ Brings s a functor := by
  by_cases ha : ∃ write, a = .run write
  · obtain ⟨write, rfl⟩ := ha
    obtain ⟨first, batch, callbacks, hbatch, howns, hwork⟩ := step_runs hf ht
    rw [hwork] at hmem
    rcases List.mem_append.mp hmem with hold | hnew
    · left
      rw [pop_work hbatch]
      exact List.mem_cons_of_mem _ hold
    · exact .inr (.inl (howns functor hnew))
  · obtain ⟨new, hwork, hnew⟩ := step_appends hf hb ht fun write h => ha ⟨write, h⟩
    rw [hwork] at hmem
    exact (List.mem_append.mp hmem).imp_right (hnew functor)

/-- A connection once gone stays gone: only its raw functors can still run, and
that without it. -/
theorem step_dead {s t : Shared T} {a : Action T} (hf : Founded s) (hb : Batched s)
    (hdead : s.alive = false) (ht : step s a = some t) :
    t.alive = false ∧ (t.work = s.work ∧ t.log = s.log ∨ t.log = .executed false :: s.log) := by
  obtain ⟨htable, hremoving, hguard, hholders, howners⟩ := dead_iff.mp hdead
  have hidle : s.pc = .idle := by
    by_contra hpc
    cases hdead.symm.trans (alive_of_held (hb.held hpc))
  have hnone : ∀ u, u ∉ s.holders := by
    intro u hu
    cases hdead.symm.trans (alive_of_holder hu)
  have hcallers : ∀ u, s.threads u = .idle := by
    intro u
    by_contra hu
    exact hnone u (hf.callers u hu)
  obtain ⟨hen, rfl⟩ := step_eq_some.mp ht
  cases a with
  | assign u address contents => exact ⟨hdead, .inl ⟨rfl, rfl⟩⟩
  | swap =>
      have hwork : (after s .swap).work = s.work := by
        simp [after, Shared.work, hb.between hen.2]
      refine ⟨?_, .inl ⟨hwork, rfl⟩⟩
      exact dead_iff.mpr ⟨htable, hremoving, hguard, hholders, hwork ▸ howners⟩
  | run write =>
      cases hbatch : s.batch with
      | nil => exact absurd hbatch hen.2.2
      | cons first batch =>
          have hpop := pop_alive hbatch
          rw [hdead] at hpop
          have hfirst : first.owns = false := howners first (by simp [Shared.work, hbatch])
          have hrun : after s (.run write) = (s.pop first batch).record (.executed false) := by
            cases first with
            | sendInLoop id owner address len payload =>
                simp [after, Shared.runNext, hbatch, Shared.runFunctor, hpop]
            | shutdownInLoop required =>
                simp [after, Shared.runNext, hbatch, Shared.runFunctor, hpop]
            | connectDestroyed => cases hfirst
            | callback => cases hfirst
          rw [hrun]
          exact ⟨hpop, .inr rfl⟩
  | endBatch =>
      refine ⟨?_, .inl ⟨rfl, rfl⟩⟩
      refine dead_iff.mpr ⟨htable, hremoving, hguard, hholders, ?_⟩
      intro functor hmem
      exact howners functor (List.mem_append_right _ hmem)
  | advance u => exact absurd (hcallers u) hen
  | send u address => exact absurd hen.2.1 (hnone u)
  | shutdown u => exact absurd hen.2 (hnone u)
  | drop u => exact absurd hen.2 (hnone u)
  | queueCallback u => exact absurd hen.2 (hnone u)
  | copy u => cases hdead.symm.trans hen.2
  | destroyServer => cases htable.symm.trans hen
  | loopDestroyServer => cases htable.symm.trans hen.1
  | dispatch => cases hdead.symm.trans hen.2.2.2
  | handleWrite write => cases hidle.symm.trans hen.1
  | handleClose => cases hidle.symm.trans hen.1
  | leave => cases hidle.symm.trans hen
  | loopSend data => cases hidle.symm.trans hen
  | loopShutdown => cases hidle.symm.trans hen
  | loopAdvance write => exact absurd hidle hen.1

end Netmux.SharedConnection
