import Netmux.SharedWork

/-!
# What a queued send offers to the socket

`send` on another thread binds the address and the length of its argument, not
its bytes. What the loop offers to the socket is what lies at the address when
the functor runs, which the caller may have overwritten or destroyed since. On
the loop's own thread `sendInLoop` runs within the call and always offers the
argument.

A thread cannot touch its string during the call, so between the test and the
push address and length are those of the argument. Afterwards only the bytes at the
address count: an append that moves the string's characters elsewhere leaves none
there, like the end of the string.
-/
namespace Netmux.SendSnapshot
open ActionRuns BoundedMemory SocketBuffer ChannelPoller TcpConnection SharedConnection

variable {T : Type}

/-- Every `::write` made for a send was given the bytes its argument had. -/
def Snapshot (s : Shared T) : Prop :=
  ∀ id payload read accepted, .write id payload read accepted ∈ s.log → read = some payload

/-- When a queued `sendInLoop` gets as far as `::write`, the bytes at the `c_str()` it
is bound to still begin with those the argument had. -/
def StillThere (s : Shared T) : Action T → Prop
  | .run _ => ∀ id owner address len payload batch,
      s.batch = .sendInLoop id owner address len payload :: batch → s.alive = true →
        s.state ≠ .kDisconnected → payload <+: s.contents owner address
  | _ => True

/-- The caller leaves the bytes at an address alone while a send is bound to it, or
changes them behind those of the send only. -/
def Untouched (s : Shared T) : Action T → Prop
  | .assign t address contents => ∀ id len payload,
      .sendInLoop id t address len payload ∈ s.work → payload <+: contents.getD []
  | _ => True

def Measured : Functor T → Prop
  | .sendInLoop _ _ _ len payload => len = payload.length
  | .shutdownInLoop _ | .connectDestroyed | .callback => True

/-- Calls under way have their argument intact, functors are bound to its length. -/
structure Bound (s : Shared T) : Prop where
  sending : ∀ t address payload, s.threads t = .sending address payload →
    s.memory t address = some payload
  measured : ∀ functor ∈ s.work, Measured functor

/-- Every queued send would still find its argument. -/
def Kept (s : Shared T) : Prop :=
  ∀ id owner address len payload, .sendInLoop id owner address len payload ∈ s.work →
    payload <+: s.contents owner address

/-- A read of the bound length finds the argument exactly if the string begins
with it. -/
theorem read_eq_iff (s : Shared T) (owner : T) (address : ℕ) (payload : Bytes) :
    s.read owner address payload.length = some payload ↔ payload <+: s.contents owner address := by
  rw [List.prefix_iff_eq_take]
  unfold Shared.read
  constructor
  · intro h
    unfold load at h
    split_ifs at h with hempty hfits
    · rw [List.length_eq_zero_iff.mp hempty]
      rfl
    · rw [Nat.zero_add] at h
      exact (Option.some.inj h).symm
  · intro h
    have hfits : 0 + payload.length ≤ (s.contents owner address).length := by
      have hlen := congrArg List.length h
      rw [List.length_take] at hlen
      omega
    rw [load_eq _ hfits, Nat.zero_add]
    exact congrArg some h.symm

theorem create_bound (c : Connection) (p : EPollPoller ℕ) (memory : T → ℕ → Option Bytes) :
    Bound (Shared.create c p memory) := by
  constructor
  · intro t address payload h
    cases h
  · intro functor h
    cases h

theorem create_snapshot (c : Connection) (p : EPollPoller ℕ) (memory : T → ℕ → Option Bytes) :
    Snapshot (Shared.create c p memory) := by
  intro id payload read accepted h
  cases List.mem_singleton.mp h

variable [DecidableEq T]

/-- Only the thread itself acts on its calls and strings, and it keeps the
argument of a call under way. -/
theorem Bound.caller {s t : Shared T} {a : Action T} {u : T} (h : Bound s)
    (ht : step s a = some t) (ha : callerOf a = some u) :
    (∀ w ≠ u, t.threads w = s.threads w ∧ t.memory w = s.memory w) ∧
      ∀ address payload, t.threads u = .sending address payload →
        t.memory u address = some payload := by
  obtain ⟨hen, rfl⟩ := step_eq_some.mp ht
  have hcall : ∀ caller, (∀ address payload, caller = .sending address payload →
      s.memory u address = some payload) →
      (∀ w ≠ u, (s.setCaller u caller).threads w = s.threads w ∧ s.memory w = s.memory w) ∧
        ∀ address payload, (s.setCaller u caller).threads u = .sending address payload →
          s.memory u address = some payload := by
    intro caller hcaller
    constructor
    · intro w hw
      exact ⟨setCaller_of_ne s caller hw, rfl⟩
    · intro address payload hu
      rw [setCaller_self] at hu
      exact hcaller address payload hu
  have hstay : (∀ w ≠ u, s.threads w = s.threads w ∧ s.memory w = s.memory w) ∧
      ∀ address payload, s.threads u = .sending address payload →
        s.memory u address = some payload := ⟨fun _ _ => ⟨rfl, rfl⟩, h.sending u⟩
  cases a with
  | send w address =>
      cases ha
      dsimp only [after, Shared.testSend]
      cases hm : s.memory u address with
      | none => exact hstay
      | some payload =>
          dsimp only
          split_ifs
          · apply hcall
            intro _ _ heq
            cases heq
            exact hm
          · exact hstay
  | shutdown w =>
      cases ha
      dsimp only [after]
      split_ifs
      · exact hcall _ (by simp)
      · exact hstay
  | advance w =>
      cases ha
      dsimp only [after, Shared.advance]
      cases s.threads u with
      | idle => exact hstay
      | sending _ _ | shutdownTested _ | shutdownStored _ => exact hcall _ (by simp)
  | assign w address contents =>
      cases ha
      constructor
      · intro v hv
        exact ⟨rfl, Function.update_of_ne hv ..⟩
      · intro address' payload hu
        have hidle : s.threads u = .idle := hen
        cases hidle.symm.trans hu
  | copy _ | drop _ | queueCallback _ | destroyServer | dispatch | handleWrite _ | handleClose
  | leave | loopSend _ | loopShutdown | loopDestroyServer | loopAdvance _ | swap | run _
  | endBatch => cases ha

theorem step_sending {s t : Shared T} {a : Action T} (hf : Founded s) (h : Bound s)
    (ht : step s a = some t) : ∀ u address payload, t.threads u = .sending address payload →
      t.memory u address = some payload := by
  intro u address payload hu
  cases ha : callerOf a with
  | none =>
      obtain ⟨hthreads, hmemory⟩ := step_callers hf ht ha
      rw [hthreads] at hu
      rw [hmemory]
      exact h.sending u address payload hu
  | some w =>
      obtain ⟨hother, hself⟩ := h.caller ht ha
      by_cases huw : u = w
      · subst huw
        exact hself address payload hu
      · obtain ⟨hthreads, hmemory⟩ := hother u huw
        rw [hthreads] at hu
        rw [hmemory]
        exact h.sending u address payload hu

theorem step_bound {s t : Shared T} {a : Action T} (hf : Founded s) (hw : Batched s) (h : Bound s)
    (ht : step s a = some t) : Bound t := by
  refine ⟨step_sending hf h ht, ?_⟩
  intro functor hmem
  rcases step_work hf hw ht hmem with hold | howns | ⟨u, -, hpush⟩
  · exact h.measured functor hold
  · cases functor with
    | sendInLoop id owner address len payload => cases howns
    | shutdownInLoop _ | connectDestroyed | callback => trivial
  · unfold Pushes at hpush
    cases hc : s.threads u with
    | idle | shutdownTested _ =>
        rw [hc] at hpush
        cases hpush
    | sending address payload =>
        rw [hc] at hpush
        subst hpush
        show (s.contents u address).length = payload.length
        unfold Shared.contents
        rw [h.sending u address payload hc]
        rfl
    | shutdownStored required =>
        rw [hc] at hpush
        subst hpush
        trivial

/-- New calls of `::write` get the argument if the string is still there. -/
theorem step_snapshot {s t : Shared T} {a : Action T} (hf : Founded s) (hb : Bound s)
    (hs : Snapshot s) (ht : step s a = some t) (ha : StillThere s a) : Snapshot t := by
  intro id payload read accepted hmem
  rcases step_log hf ht hmem with hold | hself | ⟨_, owner, address, len, batch, rfl, hbatch,
    halive, hopen, hread⟩
  · exact hs id payload read accepted hold
  · exact hself
  · have hlen : len = payload.length :=
      hb.measured (.sendInLoop id owner address len payload) (by simp [Shared.work, hbatch])
    rw [hread, hlen, read_eq_iff]
    exact ha id owner address len payload batch hbatch halive hopen

/-- A functor run on a connection that is alive and open reaches `::write`. -/
theorem run_writes {s t : Shared T} {write : Bytes → WriteAnswer} (hf : Founded s)
    (ht : step s (.run write) = some t) {id : ℕ} {owner : T} {address len : ℕ} {payload : Bytes}
    {batch : List (Functor T)} (hb : s.batch = .sendInLoop id owner address len payload :: batch)
    (halive : s.alive = true) (hopen : s.state ≠ .kDisconnected) :
    .write id payload (s.read owner address len) (acceptedOf (s.read owner address len) write) ∈
      t.log := by
  obtain ⟨-, rfl⟩ := step_eq_some.mp ht
  have hpopped : ∀ e, Founded ((s.pop (.sendInLoop id owner address len payload) batch).record e) :=
    fun e => hf.same rfl Iff.rfl rfl rfl
  simp only [after, Shared.runNext, hb, Shared.runFunctor, pop_alive hb, halive, if_true]
  rcases (hpopped (.executed true)).sendInLoop_cases id payload
    ((s.pop (.sendInLoop id owner address len payload) batch).read owner address len) write with
    ⟨hclosed, -⟩ | ⟨-, _, -, he⟩
  · exact absurd hclosed hopen
  · rw [he]
    exact List.mem_cons_self ..

theorem stillThere_of_snapshot {s t : Shared T} {a : Action T} (hf : Founded s) (hb : Bound s)
    (ht : step s a = some t) (hs : Snapshot t) : StillThere s a := by
  cases a with
  | run write =>
      intro id owner address len payload batch hbatch halive hopen
      have hread := hs _ _ _ _ (run_writes hf ht hbatch halive hopen)
      have hlen : len = payload.length :=
        hb.measured (.sendInLoop id owner address len payload) (by simp [Shared.work, hbatch])
      rwa [hlen, read_eq_iff] at hread
  | send _ _ | shutdown _ | advance _ | assign _ _ _ | copy _ | drop _ | queueCallback _
  | destroyServer | dispatch | handleWrite _ | handleClose | leave | loopSend _ | loopShutdown
  | loopDestroyServer | loopAdvance _ | swap | endBatch => trivial

/-- What a string held stays at its front, unless a caller touches what a queued
send is bound to. -/
theorem step_contents {s t : Shared T} {a : Action T} (hf : Founded s) (ht : step s a = some t)
    (ha : Untouched s a) {id : ℕ} {owner : T} {address len : ℕ} {payload : Bytes}
    (hw : .sendInLoop id owner address len payload ∈ s.work)
    (hp : payload <+: s.contents owner address) : payload <+: t.contents owner address := by
  by_cases hassign : ∃ u position contents, a = .assign u position contents
  · obtain ⟨u, position, contents, rfl⟩ := hassign
    obtain ⟨-, rfl⟩ := step_eq_some.mp ht
    unfold Shared.contents
    dsimp only [after, Shared.assign]
    by_cases hu : owner = u
    · subst hu
      rw [Function.update_self]
      by_cases hposition : address = position
      · subst hposition
        rw [Function.update_self]
        exact ha id len payload hw
      · rw [Function.update_of_ne hposition]
        exact hp
    · rw [Function.update_of_ne hu]
      exact hp
  · have hmemory : t.memory = s.memory := by
      apply step_memory hf ht
      intro u position contents heq
      exact hassign ⟨u, position, contents, heq⟩
    unfold Shared.contents
    rw [hmemory]
    exact hp

/-- While the callers leave their strings alone, no queued send loses its
argument. -/
theorem step_kept {s t : Shared T} {a : Action T} (hf : Founded s) (hw : Batched s) (hb : Bound s)
    (hk : Kept s) (ht : step s a = some t) (ha : Untouched s a) : Kept t := by
  intro id owner address len payload hmem
  rcases step_work hf hw ht hmem with hold | howns | ⟨u, rfl, hpush⟩
  · exact step_contents hf ht ha hold (hk id owner address len payload hold)
  · cases howns
  · have hmemory := step_memory hf ht (by simp)
    unfold Pushes at hpush
    unfold Shared.contents
    rw [hmemory]
    cases hc : s.threads u with
    | idle | shutdownTested _ =>
        rw [hc] at hpush
        cases hpush
    | shutdownStored required =>
        rw [hc] at hpush
        cases hpush
    | sending position argument =>
        rw [hc] at hpush
        cases hpush
        rw [hb.sending _ _ _ hc]
        exact List.prefix_rfl

omit [DecidableEq T] in
theorem stillThere_of_kept {s : Shared T} (hk : Kept s) (a : Action T) : StillThere s a := by
  cases a with
  | run write =>
      intro id owner address len payload batch hbatch _ _
      exact hk id owner address len payload (by simp [Shared.work, hbatch])
  | send _ _ | shutdown _ | advance _ | assign _ _ _ | copy _ | drop _ | queueCallback _
  | destroyServer | dispatch | handleWrite _ | handleClose | leave | loopSend _ | loopShutdown
  | loopDestroyServer | loopAdvance _ | swap | endBatch => trivial

/-- For any number of threads and in every interleaving, the socket is offered
the arguments of `send()` at every point exactly if no queued send has lost its
string by the time it runs. Callers that leave their strings alone until then
are on the safe side. -/
theorem send_snapshot_iff {c : Connection} (hc : c.Fresh) (p : EPollPoller ℕ)
    (memory : T → ℕ → Option Bytes) {actions : List (Action T)} {t : Shared T}
    (h : run step (Shared.create c p memory) actions = some t) :
    (Throughout step Snapshot (Shared.create c p memory) actions ↔
      Meets step StillThere (Shared.create c p memory) actions) ∧
    (Meets step Untouched (Shared.create c p memory) actions →
      Throughout step Snapshot (Shared.create c p memory) actions) := by
  have hf := create_founded hc p memory
  have hw := create_batched c p memory
  have hb := create_bound c p memory
  have hs := create_snapshot c p memory
  constructor
  · apply throughout_iff_meets
      (I := fun s => Founded s ∧ Batched s ∧ Bound s ∧ Snapshot s) _ _ _ _ h
    · intro s a t ⟨hf, hw, hb, hs⟩ ha ht
      exact ⟨step_founded s a t hf ht, step_batched hf hw ht, step_bound hf hw hb ht,
        step_snapshot hf hb hs ht ha⟩
    · intro s a t ⟨hf, _, hb, _⟩ ht hsnapshot
      exact stillThere_of_snapshot hf hb ht hsnapshot
    · intro s hi
      exact hi.2.2.2
    · exact ⟨hf, hw, hb, hs⟩
  · apply throughout_of_meets
      (I := fun s => Founded s ∧ Batched s ∧ Bound s ∧ Snapshot s ∧ Kept s)
    · intro s a t ⟨hf, hw, hb, hs, hk⟩ ha ht
      exact ⟨step_founded s a t hf ht, step_batched hf hw ht, step_bound hf hw hb ht,
        step_snapshot hf hb hs ht (stillThere_of_kept hk a), step_kept hf hw hb hk ht ha⟩
    · intro s hi
      exact hi.2.2.2.1
    · refine ⟨hf, hw, hb, hs, ?_⟩
      intro id owner address len payload hmem
      cases hmem

/-- Thread 0 sends its string of one byte and overwrites it before the loop gets
to the functor. -/
def overwritten : List (Action ℕ) :=
  [.loopAdvance fun _ => .accepted 0, .copy 0, .leave, .send 0 0, .advance 0,
    .assign 0 0 (some [8]), .swap, .run fun _ => .accepted 1]

theorem overwritten_log : ∃ t ∈ run step (justMade ℕ) overwritten,
    .write 0 [7] (some [8]) [8] ∈ t.log := by
  decide +kernel

theorem send_snapshot_iff_overwritten :
    (Throughout step Snapshot (justMade ℕ) overwritten ↔
        Meets step StillThere (justMade ℕ) overwritten) ∧
      (Meets step Untouched (justMade ℕ) overwritten →
        Throughout step Snapshot (justMade ℕ) overwritten) := by
  obtain ⟨t, ht, -⟩ := overwritten_log
  exact send_snapshot_iff (Connection.create_fresh _ _ _) _ _ ht

/-- The byte the socket takes is not the one that was sent. -/
theorem overwritten_corrupts : ∃ t, run step (justMade ℕ) overwritten = some t ∧ ¬ Snapshot t := by
  obtain ⟨t, ht, hlog⟩ := overwritten_log
  refine ⟨t, ht, ?_⟩
  intro hs
  have heq := hs _ _ _ _ hlog
  revert heq
  decide

end Netmux.SendSnapshot
