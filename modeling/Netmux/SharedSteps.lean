import Netmux.SharedConnection

/-!
# What one step does to a shared connection

What holds of every state, whose calls and strings a step is about, and where
the entries of the history come from. The properties of whole runs use these
and do not look into the steps again.
-/
namespace Netmux.SharedConnection
open ActionRuns SocketBuffer ChannelPoller TcpConnection ConnectionOutput

variable {T : Type}

/-- What holds of every state: threads between two statements hold a pointer,
nothing happens before the establishment or undoes it, and the connection
never wants to write. -/
structure Founded (s : Shared T) : Prop where
  callers : ∀ t, s.threads t ≠ .idle → t ∈ s.holders
  unborn : s.pc = .establishing → s.state = .kConnecting ∧ s.holders = []
  born : s.pc ≠ .establishing → s.state ≠ .kConnecting
  events : s.site.connection.channel.events = kNoneEvent ∨
    s.site.connection.channel.events = kReadEvent
  output : s.site.connection.outputBuffer = Buffer.initial

theorem create_founded {c : Connection} (hc : c.Fresh) (p : EPollPoller ℕ)
    (memory : T → ℕ → Option Bytes) : Founded (Shared.create c p memory) := by
  constructor
  · intro t ht
    exact absurd rfl ht
  · intro _
    exact ⟨hc.state, rfl⟩
  · intro h
    exact absurd rfl h
  · left
    show c.channel.events = kNoneEvent
    rw [hc.channel]
    rfl
  · exact hc.output

/-- A step that leaves the connection and the callers alone. -/
theorem Founded.same {s t : Shared T} (h : Founded s) (hsite : t.site = s.site)
    (hpc : t.pc = .establishing ↔ s.pc = .establishing) (hthreads : t.threads = s.threads)
    (hholders : t.holders = s.holders) : Founded t := by
  have hstate : t.state = s.state := by
    unfold Shared.state
    rw [hsite]
  constructor
  · rw [hthreads, hholders]
    exact h.callers
  · rw [hpc, hstate, hholders]
    exact h.unborn
  · rw [Ne, hpc, hstate]
    exact h.born
  · rw [hsite]
    exact h.events
  · rw [hsite]
    exact h.output

/-- A step of the loop's thread on the connection. -/
theorem Founded.later {s t : Shared T} (h : Founded s) (hpc : t.pc ≠ .establishing)
    (hstate : t.state ≠ .kConnecting)
    (hevents : t.site.connection.channel.events = s.site.connection.channel.events ∨
      t.site.connection.channel.events = kNoneEvent ∨
      t.site.connection.channel.events = kReadEvent)
    (houtput : t.site.connection.outputBuffer = s.site.connection.outputBuffer)
    (hthreads : t.threads = s.threads) (hholders : t.holders = s.holders) : Founded t := by
  constructor
  · rw [hthreads, hholders]
    exact h.callers
  · intro hest
    exact absurd hest hpc
  · intro _
    exact hstate
  · rcases hevents with hsame | hevents
    · rw [hsame]
      exact h.events
    · exact hevents
  · rw [houtput]
    exact h.output

/-- The bytes the socket takes of what was read for a send. -/
def acceptedOf (read : Option Bytes) (write : Bytes → WriteAnswer) : Bytes :=
  match read with
  | some data => (write data).taken data
  | none => []

theorem functorsOf_callback (effects : List Effect) :
    ∀ f ∈ (functorsOf effects : List (Functor T)), f = .callback := by
  intro f hf
  obtain ⟨effect, -, he⟩ := List.mem_flatMap.mp hf
  cases effect with
  | queueWriteComplete | queueHighWaterMark _ => exact List.mem_singleton.mp he
  | connectionCallback _ | messageCallback | closeCallback | queueSendInLoop _
  | queueShutdownInLoop | accepted _ | shutdownWrite => cases he

theorem Founded.direct {s : Shared T} (h : Founded s) (hopen : s.state ≠ .kDisconnected) :
    Direct s.site.connection := by
  obtain ⟨hv, hcontent⟩ := Buffer.initial_valid
  have hempty := hv.length_content
  rw [hcontent] at hempty
  constructor
  · exact hopen
  · unfold Channel.isWriting
    rcases h.events with he | he
    · rw [he]
      decide
    · rw [he]
      decide
  · rw [h.output]
    exact hempty.symm
  · rw [h.output]
    exact hcontent

/-- `sendInLoop` gives up, or offers what it read to the socket and queues
callbacks. -/
theorem Founded.sendInLoop_cases {s : Shared T} (h : Founded s) (id : ℕ) (payload : Bytes)
    (read : Option Bytes) (write : Bytes → WriteAnswer) :
    (s.state = .kDisconnected ∧ s.sendInLoop id payload read write = s) ∨
    (s.state ≠ .kDisconnected ∧ ∃ callbacks, (∀ f ∈ callbacks, f = Functor.callback) ∧
      s.sendInLoop id payload read write =
        { s with
          pendingFunctors := s.pendingFunctors ++ callbacks
          log := .write id payload read (acceptedOf read write) :: .passed :: s.log }) := by
  by_cases hd : s.state = .kDisconnected
  · exact .inl ⟨hd, if_pos hd⟩
  · have hdirect := h.direct hd
    refine .inr ⟨hd, ?_⟩
    unfold Shared.sendInLoop
    rw [if_neg (show s.site.connection.state ≠ .kDisconnected from hd)]
    cases read with
    | none => exact ⟨[], by simp, by simp [hdirect.idle, hdirect.empty, Shared.record, acceptedOf]⟩
    | some data =>
        obtain ⟨hfst, htaken⟩ := sendInLoop_direct hdirect data write
        refine ⟨functorsOf (s.site.connection.sendInLoop data write).2, functorsOf_callback _, ?_⟩
        simp only [hdirect.idle, hdirect.empty, Shared.record, hfst, htaken, acceptedOf, and_self,
          if_true]

theorem Founded.sendInLoop {s : Shared T} (h : Founded s) (id : ℕ) (payload : Bytes)
    (read : Option Bytes) (write : Bytes → WriteAnswer) :
    Founded (s.sendInLoop id payload read write) ∧
      (s.sendInLoop id payload read write).pc = s.pc := by
  rcases h.sendInLoop_cases id payload read write with ⟨-, he⟩ | ⟨-, _, -, he⟩
  · rw [he]
    exact ⟨h, rfl⟩
  · rw [he]
    exact ⟨h.same rfl Iff.rfl rfl rfl, rfl⟩

@[simp] theorem shutdownInLoop_pc (s : Shared T) (required : ℕ) :
    (s.shutdownInLoop required).pc = s.pc := by
  unfold Shared.shutdownInLoop
  split_ifs <;> rfl

theorem Founded.shutdownInLoop {s : Shared T} (h : Founded s) (required : ℕ) :
    Founded (s.shutdownInLoop required) := by
  unfold Shared.shutdownInLoop
  split_ifs
  · exact h
  · exact h.same rfl Iff.rfl rfl rfl

theorem Founded.connectDestroyed {s : Shared T} (h : Founded s) (hpc : s.pc ≠ .establishing) :
    Founded s.connectDestroyed := by
  unfold Shared.connectDestroyed
  by_cases hconn : s.state = .kConnected
  · rw [if_pos hconn]
    exact h.later (by simp [Shared.goto]) (h.born hpc) (.inl rfl) rfl rfl rfl
  · rw [if_neg hconn]
    refine h.later ?_ (h.born hpc) (.inl ?_) rfl rfl rfl
    · dsimp only
      split_ifs <;> simp
    · exact Channel.remove_events epollCtl s.site.connection.channel s.site.poller

theorem Founded.destroyConnected {s : Shared T} (h : Founded s) :
    Founded s.destroyConnected := by
  refine h.later (by simp [Shared.destroyConnected]) ?_ (.inr (.inl ?_)) rfl rfl rfl
  · show StateE.kDisconnected ≠ .kConnecting
    decide
  · show (Channel.remove _ epollCtl _).2.events = kNoneEvent
    rw [Channel.remove_events]
    exact Channel.setEvents_events epollCtl s.site.connection.channel s.site.poller kNoneEvent

theorem Founded.connectEstablished {s : Shared T} (h : Founded s) :
    Founded s.connectEstablished := by
  refine h.later (by simp [Shared.connectEstablished]) ?_ (.inr (.inr ?_)) rfl rfl rfl
  · show StateE.kConnected ≠ .kConnecting
    decide
  · show (s.site.connection.channel.tie.enableReading epollCtl s.site.poller).2.events = kReadEvent
    unfold Channel.enableReading
    rw [Channel.setEvents_events]
    show s.site.connection.channel.events ||| kReadEvent = kReadEvent
    rcases h.events with he | he
    · rw [he]
      decide
    · rw [he]
      decide

theorem Founded.loopAdvance {s : Shared T} (h : Founded s) (write : Bytes → WriteAnswer) :
    Founded (s.loopAdvance write) := by
  unfold Shared.loopAdvance
  cases hpc : s.pc with
  | establishing => exact h.connectEstablished
  | idle => exact h
  | inCallback => exact h
  | sendCalled data =>
      obtain ⟨hs, hspc⟩ := h.sendInLoop s.returned data (some data) write
      exact hs.same rfl (by simp [hspc, hpc]) rfl rfl
  | shutdownTested required =>
      refine h.later (by simp [Shared.goto]) ?_ (.inl rfl) rfl rfl rfl
      show StateE.kDisconnecting ≠ .kConnecting
      decide
  | shutdownStored required =>
      exact (h.shutdownInLoop required).same rfl (by simp [Shared.goto, hpc]) rfl rfl
  | destroyTested => exact h.destroyConnected

theorem Founded.runFunctor {s : Shared T} (h : Founded s) (hpc : s.pc = .idle)
    (write : Bytes → WriteAnswer) (functor : Functor T) : Founded (s.runFunctor write functor) := by
  have hrecorded : ∀ e, Founded (s.record e) := fun e => h.same rfl Iff.rfl rfl rfl
  cases functor with
  | sendInLoop id owner address len payload =>
      dsimp only [Shared.runFunctor]
      split_ifs
      · exact ((hrecorded _).sendInLoop ..).1
      · exact hrecorded _
  | shutdownInLoop required =>
      dsimp only [Shared.runFunctor]
      split_ifs
      · exact (hrecorded _).shutdownInLoop _
      · exact hrecorded _
  | connectDestroyed => exact h.connectDestroyed (by simp [hpc])
  | callback => exact h.same rfl (by simp [Shared.runFunctor, Shared.goto, hpc]) rfl rfl

theorem Founded.runNext {s : Shared T} (h : Founded s) (hpc : s.pc = .idle)
    (write : Bytes → WriteAnswer) : Founded (s.runNext write) := by
  unfold Shared.runNext
  cases s.batch with
  | nil => exact h
  | cons functor batch =>
      exact (h.same (t := s.pop functor batch) rfl Iff.rfl rfl rfl).runFunctor hpc write functor

theorem pop_work {s : Shared T} {functor : Functor T} {batch : List (Functor T)}
    (hb : s.batch = functor :: batch) : s.work = functor :: (s.pop functor batch).work := by
  unfold Shared.work
  rw [hb]
  rfl

/-- A batch keeps the functors it has run. -/
theorem pop_alive {s : Shared T} {functor : Functor T} {batch : List (Functor T)}
    (hb : s.batch = functor :: batch) : (s.pop functor batch).alive = s.alive := by
  unfold Shared.alive
  rw [pop_work hb]
  simp [Shared.pop, List.append_assoc]

theorem sendInLoop_callers {s : Shared T} (h : Founded s) (id : ℕ) (payload : Bytes)
    (read : Option Bytes) (write : Bytes → WriteAnswer) :
    (s.sendInLoop id payload read write).threads = s.threads ∧
      (s.sendInLoop id payload read write).memory = s.memory := by
  rcases h.sendInLoop_cases id payload read write with ⟨-, he⟩ | ⟨-, _, -, he⟩
  · rw [he]
    exact ⟨rfl, rfl⟩
  · rw [he]
    exact ⟨rfl, rfl⟩

theorem shutdownInLoop_callers (s : Shared T) (required : ℕ) :
    (s.shutdownInLoop required).threads = s.threads ∧
      (s.shutdownInLoop required).memory = s.memory := by
  unfold Shared.shutdownInLoop
  split_ifs
  · exact ⟨rfl, rfl⟩
  · exact ⟨rfl, rfl⟩

theorem connectDestroyed_callers (s : Shared T) :
    s.connectDestroyed.threads = s.threads ∧ s.connectDestroyed.memory = s.memory := by
  unfold Shared.connectDestroyed
  split_ifs <;> exact ⟨rfl, rfl⟩

theorem runNext_callers {s : Shared T} (h : Founded s) (write : Bytes → WriteAnswer) :
    (s.runNext write).threads = s.threads ∧ (s.runNext write).memory = s.memory := by
  unfold Shared.runNext
  cases s.batch with
  | nil => exact ⟨rfl, rfl⟩
  | cons first batch =>
      have hpopped : ∀ e, Founded ((s.pop first batch).record e) :=
        fun e => h.same rfl Iff.rfl rfl rfl
      cases first with
      | sendInLoop id owner address len payload =>
          dsimp only [Shared.runFunctor]
          split_ifs
          · exact sendInLoop_callers (hpopped _) ..
          · exact ⟨rfl, rfl⟩
      | shutdownInLoop required =>
          dsimp only [Shared.runFunctor]
          split_ifs
          · exact shutdownInLoop_callers _ required
          · exact ⟨rfl, rfl⟩
      | connectDestroyed => exact connectDestroyed_callers _
      | callback => exact ⟨rfl, rfl⟩

/-- What a new entry of the history tells about the step that made it. -/
def Caused (s : Shared T) (a : Action T) : Event → Prop
  | .write id payload read _ => read = some payload ∨
      ∃ write owner address len batch, a = .run write ∧
        s.batch = .sendInLoop id owner address len payload :: batch ∧ s.alive = true ∧
        s.state ≠ .kDisconnected ∧ read = s.read owner address len
  | .executed alive => alive = s.alive ∧ ∃ write functor batch, a = .run write ∧
      s.batch = functor :: batch ∧ functor.owns = false
  | .stored _ | .passed | .shutdownWrite _ | .drained _ => True

theorem sendInLoop_log {s : Shared T} (h : Founded s) {id : ℕ} {payload : Bytes}
    {read : Option Bytes} {write : Bytes → WriteAnswer} {e : Event}
    (he : e ∈ (s.sendInLoop id payload read write).log) :
    e ∈ s.log ∨ e = .passed ∨
      (s.state ≠ .kDisconnected ∧ e = .write id payload read (acceptedOf read write)) := by
  rcases h.sendInLoop_cases id payload read write with ⟨-, hs⟩ | ⟨hopen, _, -, hs⟩
  · rw [hs] at he
    exact .inl he
  · rw [hs] at he
    rcases List.mem_cons.mp he with hwrite | he
    · exact .inr (.inr ⟨hopen, hwrite⟩)
    · rcases List.mem_cons.mp he with hpassed | hold
      · exact .inr (.inl hpassed)
      · exact .inl hold

theorem shutdownInLoop_log {s : Shared T} {required : ℕ} {e : Event}
    (he : e ∈ (s.shutdownInLoop required).log) : e ∈ s.log ∨ e = .shutdownWrite required := by
  unfold Shared.shutdownInLoop at he
  split_ifs at he
  · exact .inl he
  · exact (List.mem_cons.mp he).symm

theorem runNext_log {s : Shared T} (h : Founded s) (write : Bytes → WriteAnswer) {e : Event}
    (he : e ∈ (s.runNext write).log) : e ∈ s.log ∨ Caused s (.run write) e := by
  unfold Shared.runNext at he
  cases hb : s.batch with
  | nil =>
      rw [hb] at he
      exact .inl he
  | cons first batch =>
      rw [hb] at he
      have hexecuted : first.owns = false → e ∈ ((s.pop first batch).record
          (.executed (s.pop first batch).alive)).log → e ∈ s.log ∨ Caused s (.run write) e := by
        intro hraw hmem
        rw [pop_alive hb] at hmem
        rcases List.mem_cons.mp hmem with hnew | hold
        · rw [hnew]
          exact .inr ⟨rfl, write, first, batch, rfl, hb, hraw⟩
        · exact .inl hold
      cases first with
      | sendInLoop id owner address len payload =>
          dsimp only [Shared.runFunctor] at he
          split_ifs at he with halive
          · rw [pop_alive hb] at halive
            have hpopped : ∀ e, Founded ((s.pop (.sendInLoop id owner address len payload)
                batch).record e) := fun e => h.same rfl Iff.rfl rfl rfl
            rcases sendInLoop_log (hpopped _) he with hold | hpassed | hwrite
            · exact hexecuted rfl hold
            · rw [hpassed]
              exact .inr trivial
            · rw [hwrite.2]
              exact .inr (.inr ⟨write, owner, address, len, batch, rfl, hb, halive, hwrite.1, rfl⟩)
          · exact hexecuted rfl he
      | shutdownInLoop required =>
          dsimp only [Shared.runFunctor] at he
          split_ifs at he
          · rcases shutdownInLoop_log he with hold | hnew
            · exact hexecuted rfl hold
            · rw [hnew]
              exact .inr trivial
          · exact hexecuted rfl he
      | connectDestroyed =>
          dsimp only [Shared.runFunctor, Shared.connectDestroyed] at he
          split_ifs at he
          · exact .inl he
          · exact .inl he
          · exact .inl he
      | callback => exact .inl he

/-- The thread whose call or string an action is about. -/
def callerOf : Action T → Option T
  | .send t _ | .shutdown t | .advance t | .assign t _ _ => some t
  | .copy _ | .drop _ | .queueCallback _ | .destroyServer | .dispatch | .handleWrite _
  | .handleClose | .leave | .loopSend _ | .loopShutdown | .loopDestroyServer | .loopAdvance _
  | .swap | .run _ | .endBatch => none

variable [DecidableEq T]

theorem Founded.setCaller {s : Shared T} (h : Founded s) {t : T} {caller : Caller}
    (ht : caller ≠ .idle → t ∈ s.holders) : Founded (s.setCaller t caller) := by
  refine ⟨?_, h.unborn, h.born, h.events, h.output⟩
  intro u hu
  by_cases htu : u = t
  · subst htu
    exact ht (by simpa [Shared.setCaller] using hu)
  · exact h.callers u (by simpa [Shared.setCaller, htu] using hu)

theorem Founded.advance {s : Shared T} (h : Founded s) (t : T) : Founded (s.advance t) := by
  unfold Shared.advance
  cases hc : s.threads t with
  | idle => exact h
  | sending address payload =>
      have hq : Founded (s.queueInLoop (.sendInLoop s.returned t address
          (s.contents t address).length payload)) := h.same rfl Iff.rfl rfl rfl
      have hidle : Founded ((s.queueInLoop (.sendInLoop s.returned t address
          (s.contents t address).length payload)).setCaller t .idle) := hq.setCaller (by simp)
      exact hidle.same rfl Iff.rfl rfl rfl
  | shutdownTested required =>
      have hmem : t ∈ s.holders := h.callers t (by simp [hc])
      have hborn : s.pc ≠ .establishing := by
        intro hpc
        rw [(h.unborn hpc).2] at hmem
        cases hmem
      have hstored : Founded (s.store .kDisconnecting) := by
        refine h.later hborn ?_ (.inl rfl) rfl rfl rfl
        show StateE.kDisconnecting ≠ .kConnecting
        decide
      exact hstored.setCaller fun _ => hmem
  | shutdownStored required =>
      have hq : Founded (s.queueInLoop (.shutdownInLoop required)) := h.same rfl Iff.rfl rfl rfl
      exact hq.setCaller (by simp)

theorem step_founded (s : Shared T) (a : Action T) (t : Shared T) (h : Founded s)
    (ht : step s a = some t) : Founded t := by
  obtain ⟨hen, rfl⟩ := step_eq_some.mp ht
  cases a with
  | send t address =>
      dsimp only [after, Shared.testSend]
      cases s.memory t address with
      | none => exact h
      | some payload =>
          dsimp only
          split_ifs
          · exact h.setCaller fun _ => hen.2.1
          · exact h
  | shutdown t =>
      dsimp only [after]
      split_ifs
      · exact h.setCaller fun _ => hen.2
      · exact h
  | advance t => exact h.advance t
  | assign t address contents => exact h.same rfl Iff.rfl rfl rfl
  | copy t =>
      refine ⟨?_, fun hpc => absurd hpc hen.1, h.born, h.events, h.output⟩
      intro u hu
      exact List.mem_cons_of_mem _ (h.callers u hu)
  | drop t =>
      refine ⟨?_, ?_, h.born, h.events, h.output⟩
      · intro u hu
        have hne : u ≠ t := by
          rintro rfl
          exact hu hen.1
        exact (List.mem_erase_of_ne hne).mpr (h.callers u hu)
      · intro hpc
        have hmem := hen.2
        rw [(h.unborn hpc).2] at hmem
        cases hmem
  | queueCallback t => exact h.same rfl Iff.rfl rfl rfl
  | destroyServer => exact h.same rfl Iff.rfl rfl rfl
  | dispatch => exact h.same rfl (by simp [after, hen.1]) rfl rfl
  | handleWrite write =>
      dsimp only [after, Shared.handleWrite]
      cases hr : s.site.connection.handleWrite write with
      | error fault => exact h
      | ok r =>
          have hfst := Connection.handleWrite_fst hr
          exact h.same (by simp [hfst]) Iff.rfl rfl rfl
  | handleClose =>
      refine h.later (t := s.handleClose) (by simp [Shared.handleClose, hen.1]) ?_
        (.inr (.inl ?_)) rfl rfl rfl
      · show StateE.kDisconnected ≠ .kConnecting
        decide
      · exact Channel.setEvents_events epollCtl s.site.connection.channel s.site.poller kNoneEvent
  | leave => exact h.same rfl (by simp [after, show s.pc = .inCallback from hen]) rfl rfl
  | loopSend data =>
      dsimp only [after]
      split_ifs
      · exact h.same rfl (by simp [Shared.goto, show s.pc = .inCallback from hen]) rfl rfl
      · exact h
  | loopShutdown =>
      dsimp only [after]
      split_ifs
      · exact h.same rfl (by simp [Shared.goto, show s.pc = .inCallback from hen]) rfl rfl
      · exact h
  | loopDestroyServer =>
      have hfreed : Founded { s with table := false, guard := true } := h.same rfl Iff.rfl rfl rfl
      apply hfreed.connectDestroyed
      rcases hen.2 with hpc | hpc <;> simp [hpc]
  | loopAdvance write => exact h.loopAdvance write
  | swap => exact h.same rfl Iff.rfl rfl rfl
  | run write => exact h.runNext hen.1 write
  | endBatch => exact h.same rfl Iff.rfl rfl rfl

/-- The loop leaves the callers and their strings alone. -/
theorem step_callers {s t : Shared T} {a : Action T} (h : Founded s) (ht : step s a = some t)
    (ha : callerOf a = none) : t.threads = s.threads ∧ t.memory = s.memory := by
  obtain ⟨-, rfl⟩ := step_eq_some.mp ht
  cases a with
  | send _ _ | shutdown _ | advance _ | assign _ _ _ => cases ha
  | handleWrite write =>
      dsimp only [after, Shared.handleWrite]
      split <;> exact ⟨rfl, rfl⟩
  | loopSend data =>
      dsimp only [after]
      split_ifs <;> exact ⟨rfl, rfl⟩
  | loopShutdown =>
      dsimp only [after]
      split_ifs <;> exact ⟨rfl, rfl⟩
  | loopDestroyServer => exact connectDestroyed_callers _
  | loopAdvance write =>
      dsimp only [after, Shared.loopAdvance]
      cases s.pc with
      | sendCalled data => exact sendInLoop_callers h ..
      | shutdownStored required => exact shutdownInLoop_callers s required
      | establishing | idle | inCallback | shutdownTested _ | destroyTested => exact ⟨rfl, rfl⟩
  | run write => exact runNext_callers h write
  | copy _ | drop _ | queueCallback _ | destroyServer | dispatch | handleClose | leave | swap
  | endBatch => exact ⟨rfl, rfl⟩

/-- Only an assignment changes a string. -/
theorem step_memory {s t : Shared T} {a : Action T} (h : Founded s) (ht : step s a = some t)
    (ha : ∀ u address contents, a ≠ .assign u address contents) : t.memory = s.memory := by
  cases hc : callerOf a with
  | none => exact (step_callers h ht hc).2
  | some u =>
      obtain ⟨-, rfl⟩ := step_eq_some.mp ht
      cases a with
      | send u address =>
          dsimp only [after, Shared.testSend]
          split
          · split_ifs <;> rfl
          · rfl
      | shutdown u =>
          dsimp only [after]
          split_ifs <;> rfl
      | advance u =>
          dsimp only [after, Shared.advance]
          split <;> rfl
      | assign u address contents => exact absurd rfl (ha u address contents)
      | copy _ | drop _ | queueCallback _ | destroyServer | dispatch | handleWrite _ | handleClose
      | leave | loopSend _ | loopShutdown | loopDestroyServer | loopAdvance _ | swap | run _
      | endBatch => cases hc

/-- Where the entries of the history come from. -/
theorem step_log {s t : Shared T} {a : Action T} (h : Founded s) (ht : step s a = some t)
    {e : Event} (he : e ∈ t.log) : e ∈ s.log ∨ Caused s a e := by
  obtain ⟨-, rfl⟩ := step_eq_some.mp ht
  have hstored : ∀ state, e ∈ (s.store state).log → e ∈ s.log ∨ Caused s a e := by
    intro state hmem
    rcases List.mem_cons.mp hmem with hnew | hold
    · rw [hnew]
      exact .inr trivial
    · exact .inl hold
  cases a with
  | send u address =>
      dsimp only [after, Shared.testSend] at he
      split at he
      · split_ifs at he
        · exact .inl he
        · exact .inl he
      · exact .inl he
  | shutdown u =>
      dsimp only [after] at he
      split_ifs at he
      · exact .inl he
      · exact .inl he
  | advance u =>
      dsimp only [after, Shared.advance] at he
      cases hc : s.threads u with
      | shutdownTested required =>
          rw [hc] at he
          exact hstored _ he
      | idle | sending _ _ | shutdownStored _ =>
          rw [hc] at he
          exact .inl he
  | handleWrite write =>
      dsimp only [after, Shared.handleWrite] at he
      split at he
      · split_ifs at he
        · exact .inl he
        · rcases List.mem_cons.mp he with hnew | hold
          · rw [hnew]
            exact .inr trivial
          · exact .inl hold
      · exact .inl he
  | handleClose => exact hstored _ he
  | loopSend data =>
      dsimp only [after] at he
      split_ifs at he
      · exact .inl he
      · exact .inl he
  | loopShutdown =>
      dsimp only [after] at he
      split_ifs at he
      · exact .inl he
      · exact .inl he
  | loopDestroyServer =>
      dsimp only [after, Shared.connectDestroyed] at he
      split_ifs at he
      · exact .inl he
      · exact .inl he
      · exact .inl he
  | loopAdvance write =>
      dsimp only [after, Shared.loopAdvance] at he
      cases hpc : s.pc with
      | establishing =>
          rw [hpc] at he
          exact hstored _ he
      | idle =>
          rw [hpc] at he
          exact .inl he
      | inCallback =>
          rw [hpc] at he
          exact .inl he
      | sendCalled data =>
          rw [hpc] at he
          rcases sendInLoop_log h he with hold | hpassed | hwrite
          · exact .inl hold
          · rw [hpassed]
            exact .inr trivial
          · rw [hwrite.2]
            exact .inr (.inl rfl)
      | shutdownTested required =>
          rw [hpc] at he
          exact hstored _ he
      | shutdownStored required =>
          rw [hpc] at he
          rcases shutdownInLoop_log he with hold | hnew
          · exact .inl hold
          · rw [hnew]
            exact .inr trivial
      | destroyTested =>
          rw [hpc] at he
          exact hstored _ he
  | run write => exact runNext_log h write he
  | assign _ _ _ | copy _ | drop _ | queueCallback _ | destroyServer | dispatch | leave | swap
  | endBatch => exact .inl he

end Netmux.SharedConnection
