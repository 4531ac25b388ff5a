import Netmux.SharedSteps

/-!
# The order of the connection's states

`state_` should only move forward, and once it is `kDisconnected` no
`sendInLoop` should get past its test. `shutdown` tests `state_` and sets it in
two steps. When the loop closes the connection in between, `kDisconnected` is
overwritten with `kDisconnecting`, and sends queued earlier go through again.
This is the only way: the loop's own stores all move forward.
-/
namespace Netmux.StateOrder
open ActionRuns SocketBuffer ChannelPoller TcpConnection SharedConnection

variable {T : Type}

/-- The order in which `StateE` is declared. -/
def rank : StateE → ℕ
  | .kConnecting => 0
  | .kConnected => 1
  | .kDisconnecting => 2
  | .kDisconnected => 3

/-- A store does not go back behind an earlier one, and no test of `sendInLoop`
passes after `kDisconnected` was stored. -/
def ForwardAt : Event → List Event → Prop
  | .stored state, log => ∀ earlier, .stored earlier ∈ log → rank earlier ≤ rank state
  | .passed, log => .stored .kDisconnected ∉ log
  | .executed _, _ | .write .., _ | .shutdownWrite _, _ | .drained _, _ => True

def Forward (s : Shared T) : Prop := Along ForwardAt s.log

/-- A store of `shutdown` does not find the connection disconnected. -/
def Timely (s : Shared T) : Action T → Prop
  | .advance t => ∀ required, s.threads t = .shutdownTested required → s.state ≠ .kDisconnected
  | .loopAdvance _ => ∀ required, s.pc = .shutdownTested required → s.state ≠ .kDisconnected
  | _ => True

/-- The history goes forward and ends with the present state. -/
structure Ordered (s : Shared T) : Prop where
  forward : Forward s
  last : .stored s.state ∈ s.log
  highest : ∀ earlier, .stored earlier ∈ s.log → rank earlier ≤ rank s.state

theorem rank_le_kDisconnected (state : StateE) : rank state ≤ rank .kDisconnected := by
  cases state <;> decide

/-- Once `kDisconnected` was stored it is the state. -/
theorem Ordered.closed {s : Shared T} (h : Ordered s) (hd : .stored .kDisconnected ∈ s.log) :
    s.state = .kDisconnected := by
  have hle := h.highest _ hd
  cases hs : s.state with
  | kDisconnected => rfl
  | kConnecting | kConnected | kDisconnecting =>
      rw [hs] at hle
      exact absurd hle (by decide)

theorem create_ordered {c : Connection} (hc : c.Fresh) (p : EPollPoller ℕ)
    (memory : T → ℕ → Option Bytes) : Ordered (Shared.create c p memory) := by
  have hstate : (Shared.create c p memory).state = .kConnecting := hc.state
  constructor
  · refine ⟨?_, trivial⟩
    intro earlier h
    cases h
  · rw [hstate]
    exact List.mem_cons_self ..
  · intro earlier h
    cases List.mem_singleton.mp h
    exact Nat.zero_le _

/-- A step that stores nothing and tests nothing. -/
theorem Ordered.same {s t : Shared T} (h : Ordered s) (hlog : t.log = s.log)
    (hstate : t.state = s.state) : Ordered t := by
  constructor
  · unfold Forward
    rw [hlog]
    exact h.forward
  · rw [hlog, hstate]
    exact h.last
  · rw [hlog, hstate]
    exact h.highest

/-- An event other than a store, in its place. -/
theorem Ordered.note {s : Shared T} (h : Ordered s) {e : Event} (hstore : ∀ v, e ≠ .stored v)
    (he : ForwardAt e s.log) : Ordered (s.record e) := by
  refine ⟨⟨he, h.forward⟩, List.mem_cons_of_mem _ h.last, ?_⟩
  intro earlier hmem
  rcases List.mem_cons.mp hmem with hnew | hold
  · exact absurd hnew.symm (hstore earlier)
  · exact h.highest earlier hold

/-- A store keeps the order exactly if it does not go back. -/
theorem Ordered.store_iff {s t : Shared T} (h : Ordered s) {v : StateE} (hstate : t.state = v)
    (hlog : t.log = .stored v :: s.log) : Ordered t ↔ rank s.state ≤ rank v := by
  constructor
  · intro ht
    have hle := ht.highest s.state
    rw [hlog, hstate] at hle
    exact hle (List.mem_cons_of_mem _ h.last)
  · intro hle
    have hearlier : ∀ earlier, .stored earlier ∈ s.log → rank earlier ≤ rank v :=
      fun earlier hmem => (h.highest earlier hmem).trans hle
    constructor
    · unfold Forward
      rw [hlog]
      exact ⟨hearlier, h.forward⟩
    · rw [hlog, hstate]
      exact List.mem_cons_self ..
    · rw [hlog, hstate]
      intro earlier hmem
      rcases List.mem_cons.mp hmem with hnew | hold
      · cases hnew
        exact le_rfl
      · exact hearlier earlier hold

/-- `sendInLoop` passes its test only while nothing has been closed. -/
theorem Ordered.sendInLoop {s : Shared T} (hf : Founded s) (h : Ordered s) (id : ℕ)
    (payload : Bytes) (read : Option Bytes) (write : Bytes → WriteAnswer) :
    Ordered (s.sendInLoop id payload read write) := by
  rcases hf.sendInLoop_cases id payload read write with ⟨-, he⟩ | ⟨hopen, _, -, he⟩
  · rw [he]
    exact h
  · have hpassed : Ordered (s.record .passed) := h.note (by simp) fun hd => hopen (h.closed hd)
    rw [he]
    exact (hpassed.note (e := .write id payload read (acceptedOf read write)) (by simp)
      trivial).same rfl rfl

theorem Ordered.shutdownInLoop {s : Shared T} (h : Ordered s) (required : ℕ) :
    Ordered (s.shutdownInLoop required) := by
  unfold Shared.shutdownInLoop
  split_ifs
  · exact h
  · exact h.note (by simp) trivial

theorem Ordered.connectDestroyed {s : Shared T} (h : Ordered s) :
    Ordered s.connectDestroyed := by
  unfold Shared.connectDestroyed
  split_ifs
  · exact h.same rfl rfl
  · exact h.same rfl rfl
  · exact h.same rfl rfl

theorem Ordered.runFunctor {s : Shared T} (hf : Founded s) (h : Ordered s)
    (write : Bytes → WriteAnswer) (functor : Functor T) :
    Ordered (s.runFunctor write functor) := by
  have hrecorded : ∀ e, Founded (s.record e) := fun e => hf.same rfl Iff.rfl rfl rfl
  have hexecuted : ∀ alive, Ordered (s.record (.executed alive)) :=
    fun alive => h.note (by simp) trivial
  cases functor with
  | sendInLoop id owner address len payload =>
      dsimp only [Shared.runFunctor]
      split_ifs
      · exact Ordered.sendInLoop (hrecorded _) (hexecuted _) ..
      · exact hexecuted _
  | shutdownInLoop required =>
      dsimp only [Shared.runFunctor]
      split_ifs
      · exact (hexecuted _).shutdownInLoop _
      · exact hexecuted _
  | connectDestroyed => exact h.connectDestroyed
  | callback => exact h.same rfl rfl

theorem Ordered.runNext {s : Shared T} (hf : Founded s) (h : Ordered s)
    (write : Bytes → WriteAnswer) : Ordered (s.runNext write) := by
  unfold Shared.runNext
  cases s.batch with
  | nil => exact h
  | cons functor batch =>
      have hpopped : Founded (s.pop functor batch) := hf.same rfl Iff.rfl rfl rfl
      exact Ordered.runFunctor hpopped (h.same rfl rfl) write functor

/-- The store of `kDisconnecting` keeps the order exactly if it is timely. -/
theorem disconnecting_iff {s t : Shared T} (hf : Founded s) (h : Ordered s)
    (hborn : s.pc ≠ .establishing) (hstate : t.state = .kDisconnecting)
    (hlog : t.log = .stored .kDisconnecting :: s.log) :
    Ordered t ↔ s.state ≠ .kDisconnected := by
  rw [h.store_iff hstate hlog]
  have hbegun := hf.born hborn
  cases hs : s.state with
  | kConnecting => exact absurd hs hbegun
  | kConnected | kDisconnecting | kDisconnected => simp [rank]

/-- The loop's next statement. -/
theorem loopAdvance_ordered_iff {s : Shared T} (hf : Founded s) (h : Ordered s)
    (write : Bytes → WriteAnswer) :
    Ordered (s.loopAdvance write) ↔
      ∀ required, s.pc = .shutdownTested required → s.state ≠ .kDisconnected := by
  unfold Shared.loopAdvance
  cases hpc : s.pc with
  | establishing =>
      refine iff_of_true ?_ (by simp)
      rw [h.store_iff (v := .kConnected) rfl rfl, (hf.unborn hpc).1]
      decide
  | idle => exact iff_of_true h (by simp)
  | inCallback => exact iff_of_true h (by simp)
  | sendCalled data =>
      refine iff_of_true ?_ (by simp)
      exact (h.sendInLoop hf s.returned data (some data) write).same rfl rfl
  | shutdownTested required =>
      rw [disconnecting_iff hf h (by simp [hpc]) rfl rfl]
      simp
  | shutdownStored required =>
      refine iff_of_true ?_ (by simp)
      exact (h.shutdownInLoop required).same rfl rfl
  | destroyTested =>
      refine iff_of_true ?_ (by simp)
      rw [h.store_iff (v := .kDisconnected) rfl rfl]
      exact rank_le_kDisconnected _

variable [DecidableEq T]

theorem advance_ordered_iff {s : Shared T} (hf : Founded s) (h : Ordered s) (t : T) :
    Ordered (s.advance t) ↔
      ∀ required, s.threads t = .shutdownTested required → s.state ≠ .kDisconnected := by
  unfold Shared.advance
  cases hc : s.threads t with
  | idle => exact iff_of_true h (by simp)
  | sending address payload => exact iff_of_true (h.same rfl rfl) (by simp)
  | shutdownTested required =>
      have hborn : s.pc ≠ .establishing := by
        intro hpc
        have hmem := hf.callers t (by simp [hc])
        rw [(hf.unborn hpc).2] at hmem
        cases hmem
      rw [disconnecting_iff hf h hborn rfl rfl]
      simp
  | shutdownStored required => exact iff_of_true (h.same rfl rfl) (by simp)

/-- A step keeps the order exactly if it is timely. -/
theorem step_ordered_iff {s t : Shared T} {a : Action T} (hf : Founded s) (h : Ordered s)
    (ht : step s a = some t) : Ordered t ↔ Timely s a := by
  obtain ⟨-, rfl⟩ := step_eq_some.mp ht
  cases a with
  | advance t => exact advance_ordered_iff hf h t
  | loopAdvance write => exact loopAdvance_ordered_iff hf h write
  | send t address =>
      refine iff_of_true ?_ trivial
      dsimp only [after, Shared.testSend]
      cases s.memory t address with
      | none => exact h
      | some payload =>
          dsimp only
          split_ifs
          · exact h.same rfl rfl
          · exact h
  | shutdown t =>
      refine iff_of_true ?_ trivial
      dsimp only [after]
      split_ifs
      · exact h.same rfl rfl
      · exact h
  | handleWrite write =>
      refine iff_of_true ?_ trivial
      dsimp only [after, Shared.handleWrite]
      cases hr : s.site.connection.handleWrite write with
      | error fault => exact h
      | ok r =>
          have hstate : r.1.state = s.state := by
            rw [Connection.handleWrite_fst hr]
            rfl
          dsimp only
          split_ifs
          · exact h.same rfl hstate
          · exact (h.note (e := .drained _) (by simp) trivial).same rfl hstate
  | handleClose =>
      refine iff_of_true ?_ trivial
      exact (h.store_iff (t := s.handleClose) (v := .kDisconnected) rfl rfl).mpr
        (rank_le_kDisconnected _)
  | loopSend data =>
      refine iff_of_true ?_ trivial
      dsimp only [after]
      split_ifs
      · exact h.same rfl rfl
      · exact h
  | loopShutdown =>
      refine iff_of_true ?_ trivial
      dsimp only [after]
      split_ifs
      · exact h.same rfl rfl
      · exact h
  | loopDestroyServer =>
      refine iff_of_true ?_ trivial
      exact (h.same (t := { s with table := false, guard := true }) rfl rfl).connectDestroyed
  | run write => exact iff_of_true (h.runNext hf write) trivial
  | assign t address contents => exact iff_of_true (h.same rfl rfl) trivial
  | copy t => exact iff_of_true (h.same rfl rfl) trivial
  | drop t => exact iff_of_true (h.same rfl rfl) trivial
  | queueCallback t => exact iff_of_true (h.same rfl rfl) trivial
  | destroyServer => exact iff_of_true (h.same rfl rfl) trivial
  | dispatch => exact iff_of_true (h.same rfl rfl) trivial
  | leave => exact iff_of_true (h.same rfl rfl) trivial
  | swap => exact iff_of_true (h.same rfl rfl) trivial
  | endBatch => exact iff_of_true (h.same rfl rfl) trivial

/-- A step that is not timely goes back. -/
theorem timely_of_forward {s t : Shared T} {a : Action T} (h : Ordered s)
    (ht : step s a = some t) (hforward : Forward t) : Timely s a := by
  obtain ⟨-, rfl⟩ := step_eq_some.mp ht
  cases a with
  | advance t =>
      intro required hc hd
      have hlog : (s.advance t).log = .stored .kDisconnecting :: s.log := by
        unfold Shared.advance
        rw [hc]
        rfl
      have hback : Along ForwardAt (s.advance t).log := hforward
      rw [hlog] at hback
      exact absurd (hback.1 .kDisconnected (hd ▸ h.last)) (by decide)
  | loopAdvance write =>
      intro required hpc hd
      have hlog : (s.loopAdvance write).log = .stored .kDisconnecting :: s.log := by
        unfold Shared.loopAdvance
        rw [hpc]
        rfl
      have hback : Along ForwardAt (s.loopAdvance write).log := hforward
      rw [hlog] at hback
      exact absurd (hback.1 .kDisconnected (hd ▸ h.last)) (by decide)
  | send _ _ | shutdown _ | assign _ _ _ | copy _ | drop _ | queueCallback _ | destroyServer
  | dispatch | handleWrite _ | handleClose | leave | loopSend _ | loopShutdown
  | loopDestroyServer | swap | run _ | endBatch => trivial

/-- For any number of threads and in every interleaving, `state_` goes forward
at every point exactly if every store of `shutdown` is timely. -/
theorem state_forward_iff {c : Connection} (hc : c.Fresh) (p : EPollPoller ℕ)
    (memory : T → ℕ → Option Bytes) {actions : List (Action T)} {t : Shared T}
    (h : run step (Shared.create c p memory) actions = some t) :
    Throughout step Forward (Shared.create c p memory) actions ↔
      Meets step Timely (Shared.create c p memory) actions := by
  apply throughout_iff_meets (I := fun s => Founded s ∧ Ordered s) _ _ _ _ h
  · intro s a t hs htimely ht
    exact ⟨step_founded s a t hs.1 ht, (step_ordered_iff hs.1 hs.2 ht).mpr htimely⟩
  · intro s a t hs ht hforward
    exact timely_of_forward hs.2 ht hforward
  · intro s hs
    exact hs.2.forward
  · exact ⟨create_founded hc p memory, create_ordered hc p memory⟩

/-- Thread 0 tests `state_` in `shutdown`, the loop closes the connection, and
thread 0 stores. Thread 1 has queued a send before all this, which the loop
then runs. -/
def lateShutdown : List (Action ℕ) :=
  [.loopAdvance fun _ => .accepted 0, .copy 0, .copy 1, .leave, .send 1 0, .advance 1,
    .shutdown 0, .dispatch, .handleClose, .leave, .advance 0, .swap, .run fun _ => .accepted 1]

theorem lateShutdown_log : ∃ t ∈ run step (justMade ℕ) lateShutdown,
    t.log = [.write 0 [7] (some [7]) [7], .passed, .executed true, .stored .kDisconnecting,
      .stored .kDisconnected, .stored .kConnected, .stored .kConnecting] := by
  decide +kernel

theorem state_forward_iff_lateShutdown :
    Throughout step Forward (justMade ℕ) lateShutdown ↔
      Meets step Timely (justMade ℕ) lateShutdown := by
  obtain ⟨t, ht, -⟩ := lateShutdown_log
  exact state_forward_iff (Connection.create_fresh _ _ _) _ _ ht

/-- The state goes back, and the send passes on a closed connection. -/
theorem lateShutdown_goes_back :
    ∃ t, run step (justMade ℕ) lateShutdown = some t ∧ ¬ Forward t := by
  obtain ⟨t, ht, hlog⟩ := lateShutdown_log
  refine ⟨t, ht, ?_⟩
  intro hforward
  unfold Forward at hforward
  rw [hlog] at hforward
  exact absurd (hforward.2.2.2.1 .kDisconnected (List.mem_cons_self ..)) (by decide)

end Netmux.StateOrder
