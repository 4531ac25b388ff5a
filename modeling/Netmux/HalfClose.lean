import Mathlib.Data.Fintype.Basic
import Netmux.SendSnapshot

/-!
# The half-close and the data before it

`shutdownInLoop` holds the half-close back while the channel is writing. Nothing
ever makes it write: what `::write` does not take is lost, and the functors that
other threads have queued are not looked at. On the loop's own thread `shutdown`
runs at once and overtakes them, and a `send` between its test and its push is
overtaken by any `shutdown`.

A send that has returned is required by the shutdowns that begin after it. The
half-close comes after the data in the runs in which every send that some
shutdown requires is taken whole by the socket, and in which no send is under
way behind a half-close.
-/
namespace Netmux.HalfClose
open ActionRuns SocketBuffer ChannelPoller TcpConnection SharedConnection SendSnapshot

variable {T : Type}

/-- The socket has taken every byte of the send with that number. -/
def Delivered (log : List Event) (id : ℕ) : Prop :=
  ∃ payload, .write id payload (some payload) payload ∈ log

/-- A half-close follows the sends it requires, no `::write` follows it. -/
def InOrderAt : Event → List Event → Prop
  | .shutdownWrite required, log => ∀ id < required, Delivered log id
  | .write .., log => ∀ required, .shutdownWrite required ∉ log
  | .stored _, _ | .executed _, _ | .passed, _ | .drained _, _ => True

def InOrder (s : Shared T) : Prop := Along InOrderAt s.log

/-- How far a thread is with a call of `send` or `shutdown`. -/
structure Stage where
  sending : Bool
  required : ℕ
  stored : Bool
  deriving DecidableEq

def Stage.rest : Stage := ⟨false, 0, false⟩

def stageOf : Caller → Stage
  | .idle => .rest
  | .sending .. => ⟨true, 0, false⟩
  | .shutdownTested required => ⟨false, required, false⟩
  | .shutdownStored required => ⟨false, required, true⟩

def loopStage : LoopPc → Stage
  | .establishing | .idle | .inCallback | .destroyTested => .rest
  | .sendCalled _ => ⟨true, 0, false⟩
  | .shutdownTested required => ⟨false, required, false⟩
  | .shutdownStored required => ⟨false, required, true⟩

def isSend : Functor T → Bool
  | .sendInLoop .. => true
  | .shutdownInLoop _ | .connectDestroyed | .callback => false

def isShutdown : Functor T → Bool
  | .shutdownInLoop _ => true
  | .sendInLoop .. | .connectDestroyed | .callback => false

def requiredBy : Functor T → ℕ
  | .shutdownInLoop required => required
  | .sendInLoop .. | .connectDestroyed | .callback => 0

/-- Some shutdown requires the send, or one that is still to begin will. -/
def Awaited (s : Shared T) (id : ℕ) : Prop :=
  (s.state = .kConnected ∧ id < s.returned) ∨ (∃ t, id < (stageOf (s.threads t)).required) ∨
    id < (loopStage s.pc).required ∨ ∃ functor ∈ s.work, id < requiredBy functor

/-- No other thread stands between the test and the push of a send. -/
def NoneUnderway (s : Shared T) : Prop := ∀ t, (stageOf (s.threads t)).sending = false

def NoneQueued (s : Shared T) : Prop := ∀ functor ∈ s.work, isSend functor = false

/-- A half-close is queued with no send under way. -/
def PushesInOrder (s : Shared T) : Caller → Prop
  | .shutdownStored _ => NoneUnderway s
  | .idle | .sending .. | .shutdownTested _ => True

/-- The loop's own send is taken whole; its own half-close leaves none behind. -/
def GoesOnInOrder (s : Shared T) (write : Bytes → WriteAnswer) : LoopPc → Prop
  | .sendCalled data => s.state = .kConnected → (write data).taken data = data
  | .shutdownStored _ => NoneUnderway s ∧ NoneQueued s
  | .establishing | .idle | .inCallback | .shutdownTested _ | .destroyTested => True

/-- A queued send that is required finds the connection open, its bytes still at the
`c_str()` it is bound to and a socket that takes all of them. -/
def RunsInOrder (s : Shared T) (write : Bytes → WriteAnswer) : Functor T → Prop
  | .sendInLoop id owner address _ payload =>
      s.alive = true → Awaited s id → s.state ≠ .kDisconnected ∧
        payload <+: s.contents owner address ∧ (write payload).taken payload = payload
  | .shutdownInLoop _ | .connectDestroyed | .callback => True

def Orderly (s : Shared T) : Action T → Prop
  | .advance t => PushesInOrder s (s.threads t)
  | .loopAdvance write => GoesOnInOrder s write s.pc
  | .run write => ∀ functor ∈ s.batch.head?, RunsInOrder s write functor
  | _ => True

section Deciding
variable [Fintype T]

instance (s : Shared T) (id : ℕ) : Decidable (Awaited s id) :=
  inferInstanceAs (Decidable (_ ∨ (∃ _, _) ∨ _ ∨ ∃ functor ∈ s.work, _))

instance (s : Shared T) : Decidable (NoneUnderway s) := inferInstanceAs (Decidable (∀ _, _))

instance (s : Shared T) : Decidable (NoneQueued s) :=
  inferInstanceAs (Decidable (∀ functor ∈ s.work, _))

instance (s : Shared T) : (caller : Caller) → Decidable (PushesInOrder s caller)
  | .shutdownStored _ => inferInstanceAs (Decidable (NoneUnderway s))
  | .idle | .sending .. | .shutdownTested _ => isTrue trivial

instance (s : Shared T) (write : Bytes → WriteAnswer) :
    (pc : LoopPc) → Decidable (GoesOnInOrder s write pc)
  | .sendCalled _ => inferInstanceAs (Decidable (_ → _))
  | .shutdownStored _ => inferInstanceAs (Decidable (_ ∧ _))
  | .establishing | .idle | .inCallback | .shutdownTested _ | .destroyTested => isTrue trivial

instance (s : Shared T) (write : Bytes → WriteAnswer) :
    (functor : Functor T) → Decidable (RunsInOrder s write functor)
  | .sendInLoop .. => inferInstanceAs (Decidable (_ → _ → _))
  | .shutdownInLoop _ | .connectDestroyed | .callback => isTrue trivial

instance (s : Shared T) : (a : Action T) → Decidable (Orderly s a)
  | .advance _ => inferInstanceAs (Decidable (PushesInOrder s _))
  | .loopAdvance _ => inferInstanceAs (Decidable (GoesOnInOrder s _ _))
  | .run _ => inferInstanceAs (Decidable (∀ functor ∈ s.batch.head?, _))
  | .send _ _ | .shutdown _ | .assign _ _ _ | .copy _ | .drop _ | .queueCallback _
  | .destroyServer | .dispatch | .handleWrite _ | .handleClose | .leave | .loopSend _
  | .loopShutdown | .loopDestroyServer | .swap | .endBatch => isTrue trivial

end Deciding

def Queued (s : Shared T) (id : ℕ) : Prop :=
  ∃ owner address len payload, .sendInLoop id owner address len payload ∈ s.work

/-- A half-close is on its way or done. -/
def HalfClosing (s : Shared T) : Prop :=
  (∃ functor ∈ s.work, isShutdown functor = true) ∨ ∃ required, .shutdownWrite required ∈ s.log

/-- What is awaited is with the socket or in the queue, and there before every
half-close. -/
structure Lined (s : Shared T) : Prop where
  inOrder : InOrder s
  due : s.alive = true → ∀ id, Awaited s id → Delivered s.log id ∨ Queued s id
  ordered : s.work.Pairwise fun first later => isShutdown first = true → isSend later = false
  closing : HalfClosing s → s.state ≠ .kConnected ∧ NoneUnderway s
  closed : ∀ required, .shutdownWrite required ∈ s.log →
    NoneQueued s ∧ (loopStage s.pc).sending = false
  stored : (∃ t, (stageOf (s.threads t)).stored = true) ∨ (loopStage s.pc).stored = true →
    s.state ≠ .kConnected
  unborn : s.pc = .establishing → (∀ functor ∈ s.work, functor.owns = true) ∧
    (∀ required, .shutdownWrite required ∉ s.log) ∧ s.returned = 0

/-- An entry that has no part in the order. -/
def Quiet : Event → Prop
  | .stored _ | .executed _ | .passed | .drained _ => True
  | .write .. | .shutdownWrite _ => False

/-- A call ends, begins on a connected state, or has stored its own. -/
def Moves (s t : Shared T) (before after : Stage) : Prop :=
  after = before ∨ after = .rest ∨
    (s.state = .kConnected ∧ after.required ≤ s.returned ∧ after.stored = false) ∨
    (t.state ≠ .kConnected ∧ after.required ≤ before.required ∧ after.sending = false)

/-- A step that has no part in the order. -/
structure Calm (s t : Shared T) : Prop where
  log : t.log = s.log ∨ ∃ e, Quiet e ∧ t.log = e :: s.log
  work : ∃ new, t.work = s.work ++ new ∧ ∀ functor ∈ new, functor.owns = true
  returned : t.returned = s.returned
  state : t.state = .kConnected → s.state = .kConnected
  threads : ∀ u, Moves s t (stageOf (s.threads u)) (stageOf (t.threads u))
  pc : Moves s t (loopStage s.pc) (loopStage t.pc)
  unborn : t.pc = .establishing → s.pc = .establishing

theorem Delivered.mono {log log' : List Event} {id : ℕ} (h : Delivered log id)
    (hsub : log ⊆ log') : Delivered log' id := by
  obtain ⟨payload, hmem⟩ := h
  exact ⟨payload, hsub hmem⟩

theorem isSend_of_owns {functor : Functor T} (h : functor.owns = true) :
    isSend functor = false ∧ isShutdown functor = false ∧ requiredBy functor = 0 := by
  cases functor with
  | sendInLoop _ _ _ _ _ | shutdownInLoop _ => cases h
  | connectDestroyed | callback => exact ⟨rfl, rfl, rfl⟩

theorem Moves.required {s t : Shared T} {before after : Stage} (h : Moves s t before after)
    {id : ℕ} (hid : id < after.required) :
    id < before.required ∨ (s.state = .kConnected ∧ id < s.returned) := by
  rcases h with rfl | rfl | ⟨hopen, hle, -⟩ | ⟨-, hle, -⟩
  · exact .inl hid
  · cases hid
  · exact .inr ⟨hopen, Nat.lt_of_lt_of_le hid hle⟩
  · exact .inl (Nat.lt_of_lt_of_le hid hle)

/-- A send begins on a connected state. -/
theorem Moves.sending {s t : Shared T} {before after : Stage} (h : Moves s t before after)
    (hstate : s.state ≠ .kConnected) (hbefore : before.sending = false) :
    after.sending = false := by
  rcases h with rfl | rfl | ⟨hopen, -⟩ | ⟨-, -, hafter⟩
  · exact hbefore
  · rfl
  · exact absurd hopen hstate
  · exact hafter

theorem Moves.stored {s t : Shared T} {before after : Stage} (h : Moves s t before after)
    (hstate : t.state = .kConnected → s.state = .kConnected)
    (hbefore : before.stored = true → s.state ≠ .kConnected) (hafter : after.stored = true) :
    t.state ≠ .kConnected := by
  rcases h with rfl | rfl | ⟨-, -, hnot⟩ | ⟨hclosed, -⟩
  · exact fun ht => hbefore hafter (hstate ht)
  · cases hafter
  · cases hnot.symm.trans hafter
  · exact hclosed

/-- A step of the loop's thread that begins no call. -/
theorem Calm.of_rest {s t : Shared T} (hlog : t.log = s.log ∨ ∃ e, Quiet e ∧ t.log = e :: s.log)
    (hwork : ∃ new, t.work = s.work ++ new ∧ ∀ functor ∈ new, functor.owns = true)
    (hreturned : t.returned = s.returned) (hstate : t.state = s.state ∨ t.state ≠ .kConnected)
    (hthreads : t.threads = s.threads)
    (hpc : t.pc = s.pc ∨ (loopStage t.pc = .rest ∧ t.pc ≠ .establishing)) : Calm s t := by
  constructor
  · exact hlog
  · exact hwork
  · exact hreturned
  · intro hopen
    rcases hstate with hsame | hclosed
    · exact hsame ▸ hopen
    · exact absurd hopen hclosed
  · intro u
    rw [hthreads]
    exact .inl rfl
  · rcases hpc with hsame | ⟨hrest, -⟩
    · rw [hsame]
      exact .inl rfl
    · exact .inr (.inl hrest)
  · intro hest
    rcases hpc with hsame | ⟨-, hborn⟩
    · exact hsame ▸ hest
    · exact absurd hest hborn

theorem work_unchanged {s t : Shared T} (h : t.work = s.work) :
    ∃ new, t.work = s.work ++ new ∧ ∀ functor ∈ new, functor.owns = true :=
  ⟨[], by rw [h, List.append_nil], by simp⟩

theorem Calm.log_subset {s t : Shared T} (h : Calm s t) : s.log ⊆ t.log := by
  rcases h.log with he | ⟨e, -, he⟩
  · rw [he]
    exact List.Subset.refl _
  · rw [he]
    exact List.subset_cons_self ..

theorem Calm.shutdownWrite {s t : Shared T} (h : Calm s t) {required : ℕ}
    (ht : .shutdownWrite required ∈ t.log) : .shutdownWrite required ∈ s.log := by
  rcases h.log with he | ⟨e, hquiet, he⟩
  · rwa [he] at ht
  · rw [he] at ht
    rcases List.mem_cons.mp ht with rfl | hold
    · cases hquiet
    · exact hold

theorem Calm.inOrder {s t : Shared T} (h : Calm s t) (hs : InOrder s) : InOrder t := by
  unfold InOrder
  rcases h.log with he | ⟨e, hquiet, he⟩
  · rw [he]
    exact hs
  · rw [he]
    refine ⟨?_, hs⟩
    cases e with
    | write _ _ _ _ | shutdownWrite _ => cases hquiet
    | stored _ | executed _ | passed | drained _ => trivial

theorem Calm.awaited {s t : Shared T} (h : Calm s t) {id : ℕ} (ht : Awaited t id) :
    Awaited s id := by
  rcases ht with ⟨hopen, hid⟩ | ⟨u, hid⟩ | hid | ⟨functor, hmem, hid⟩
  · exact .inl ⟨h.state hopen, h.returned ▸ hid⟩
  · rcases (h.threads u).required hid with hbefore | hopen
    · exact .inr (.inl ⟨u, hbefore⟩)
    · exact .inl hopen
  · rcases h.pc.required hid with hbefore | hopen
    · exact .inr (.inr (.inl hbefore))
    · exact .inl hopen
  · obtain ⟨new, hwork, howns⟩ := h.work
    rw [hwork] at hmem
    rcases List.mem_append.mp hmem with hold | hnew
    · exact .inr (.inr (.inr ⟨functor, hold, hid⟩))
    · rw [(isSend_of_owns (howns functor hnew)).2.2] at hid
      cases hid

theorem Calm.halfClosing {s t : Shared T} (h : Calm s t) (ht : HalfClosing t) :
    HalfClosing s := by
  rcases ht with ⟨functor, hmem, hshut⟩ | ⟨required, hmem⟩
  · obtain ⟨new, hwork, howns⟩ := h.work
    rw [hwork] at hmem
    rcases List.mem_append.mp hmem with hold | hnew
    · exact .inl ⟨functor, hold, hshut⟩
    · cases hshut.symm.trans (isSend_of_owns (howns functor hnew)).2.1
  · exact .inr ⟨required, h.shutdownWrite hmem⟩

/-- What is awaited only grows with the queue. -/
theorem Awaited.of_work {s t : Shared T} {id : ℕ} (h : Awaited t id) (hstate : t.state = s.state)
    (hreturned : t.returned = s.returned) (hthreads : t.threads = s.threads) (hpc : t.pc = s.pc)
    (hwork : ∀ functor ∈ t.work, id < requiredBy functor → functor ∈ s.work ∨ Awaited s id) :
    Awaited s id := by
  rcases h with ⟨hopen, hid⟩ | ⟨u, hid⟩ | hid | ⟨functor, hmem, hid⟩
  · exact .inl ⟨hstate ▸ hopen, hreturned ▸ hid⟩
  · exact .inr (.inl ⟨u, hthreads ▸ hid⟩)
  · exact .inr (.inr (.inl (hpc ▸ hid)))
  · rcases hwork functor hmem hid with hold | hbefore
    · exact .inr (.inr (.inr ⟨functor, hold, hid⟩))
    · exact hbefore

/-- Functors that hold the connection may be appended to an ordered queue. -/
theorem ordered_append {work new : List (Functor T)}
    (h : work.Pairwise fun first later => isShutdown first = true → isSend later = false)
    (hnew : ∀ functor ∈ new, functor.owns = true) :
    (work ++ new).Pairwise fun first later => isShutdown first = true → isSend later = false := by
  refine List.pairwise_append.mpr ⟨h, ?_, ?_⟩
  · apply List.pairwise_of_forall_mem_list
    intro first _ later hl _
    exact (isSend_of_owns (hnew later hl)).1
  · intro first _ later hl _
    exact (isSend_of_owns (hnew later hl)).1

theorem Lined.calm {s t : Shared T} (h : Lined s) (halive : t.alive = true → s.alive = true)
    (hc : Calm s t) : Lined t := by
  obtain ⟨new, hwork, howns⟩ := hc.work
  constructor
  · exact hc.inOrder h.inOrder
  · intro ht id hid
    refine (h.due (halive ht) id (hc.awaited hid)).imp (fun hd => hd.mono hc.log_subset) ?_
    rintro ⟨owner, address, len, payload, hmem⟩
    exact ⟨owner, address, len, payload, hwork ▸ List.mem_append_left _ hmem⟩
  · rw [hwork]
    exact ordered_append h.ordered howns
  · intro ht
    obtain ⟨hstate, hunder⟩ := h.closing (hc.halfClosing ht)
    exact ⟨fun hopen => hstate (hc.state hopen), fun u => (hc.threads u).sending hstate (hunder u)⟩
  · intro required hmem
    have hold := hc.shutdownWrite hmem
    obtain ⟨hqueued, hpc⟩ := h.closed required hold
    constructor
    · intro functor hf
      rw [hwork] at hf
      rcases List.mem_append.mp hf with hf | hnew
      · exact hqueued functor hf
      · exact (isSend_of_owns (howns functor hnew)).1
    · exact hc.pc.sending (h.closing (.inr ⟨required, hold⟩)).1 hpc
  · rintro (⟨u, hu⟩ | hpc)
    · exact (hc.threads u).stored hc.state (fun hb => h.stored (.inl ⟨u, hb⟩)) hu
    · exact hc.pc.stored hc.state (fun hb => h.stored (.inr hb)) hpc
  · intro hpc
    obtain ⟨hqueue, hlog, hreturned⟩ := h.unborn (hc.unborn hpc)
    refine ⟨?_, fun required hmem => hlog required (hc.shutdownWrite hmem),
      hc.returned.trans hreturned⟩
    intro functor hf
    rw [hwork] at hf
    rcases List.mem_append.mp hf with hf | hnew
    · exact hqueue functor hf
    · exact howns functor hnew

theorem Lined.record {s : Shared T} (h : Lined s) {e : Event} (he : Quiet e) :
    Lined (s.record e) := by
  refine h.calm (fun halive => halive) ?_
  exact .of_rest (.inr ⟨e, he, rfl⟩) (work_unchanged rfl) rfl (.inl rfl) rfl (.inl rfl)

theorem Lined.goto {s : Shared T} (h : Lined s) {pc : LoopPc}
    (hpc : loopStage pc = .rest ∨ (s.state = .kConnected ∧
      (loopStage pc).required ≤ s.returned ∧ (loopStage pc).stored = false))
    (hborn : pc ≠ .establishing) : Lined (s.goto pc) := by
  refine h.calm (fun halive => halive) ?_
  exact ⟨.inl rfl, work_unchanged rfl, rfl, fun hopen => hopen, fun _ => .inl rfl,
    .inr (hpc.imp_right .inl), fun hest => absurd hest hborn⟩

theorem owns_of_callback {callbacks : List (Functor T)}
    (h : ∀ functor ∈ callbacks, functor = .callback) :
    ∀ functor ∈ callbacks, functor.owns = true := by
  intro functor hmem
  rw [h functor hmem]
  rfl

/-- A `sendInLoop` that passes its test calls `::write` and queues callbacks. -/
theorem Lined.wrote {s : Shared T} (h : Lined s) (halive : s.alive = true)
    (hbefore : ∀ required, .shutdownWrite required ∉ s.log) (id : ℕ) (payload : Bytes)
    (read : Option Bytes) (accepted : Bytes) {callbacks : List (Functor T)}
    (hc : ∀ functor ∈ callbacks, functor = .callback) :
    Lined { s with
      pendingFunctors := s.pendingFunctors ++ callbacks
      log := .write id payload read accepted :: .passed :: s.log } := by
  have hpassed : Lined { s with
      pendingFunctors := s.pendingFunctors ++ callbacks
      log := .passed :: s.log } := by
    refine h.calm (fun _ => halive) ?_
    exact .of_rest (.inr ⟨.passed, trivial, rfl⟩)
      ⟨callbacks, (List.append_assoc ..).symm, owns_of_callback hc⟩ rfl (.inl rfl) rfl (.inl rfl)
  have hnone : ∀ required, .shutdownWrite required ∉ Event.passed :: s.log := by
    intro required hmem
    rcases List.mem_cons.mp hmem with hnew | hold
    · cases hnew
    · exact hbefore required hold
  have hold : ∀ required, .shutdownWrite required ∉
      Event.write id payload read accepted :: .passed :: s.log := by
    intro required hmem
    rcases List.mem_cons.mp hmem with hnew | hmem
    · cases hnew
    · exact hnone required hmem
  constructor
  · exact ⟨hnone, hpassed.inOrder⟩
  · intro ht i hi
    exact (hpassed.due ht i hi).imp_left fun hd => hd.mono (List.subset_cons_self ..)
  · exact hpassed.ordered
  · rintro (hshut | ⟨required, hmem⟩)
    · exact hpassed.closing (.inl hshut)
    · exact absurd hmem (hold required)
  · intro required hmem
    exact absurd hmem (hold required)
  · exact hpassed.stored
  · intro hpc
    obtain ⟨howns, -, hreturned⟩ := hpassed.unborn hpc
    exact ⟨howns, hold, hreturned⟩

/-- A send returns: with the socket, in the queue, or after the connection. -/
theorem Lined.returns {s : Shared T} (h : Lined s) (hborn : s.pc ≠ .establishing)
    (hdone : s.state = .kConnected → Delivered s.log s.returned ∨ Queued s s.returned) :
    Lined { s with returned := s.returned + 1 } := by
  refine ⟨h.inOrder, ?_, h.ordered, h.closing, h.closed, h.stored, fun hpc => absurd hpc hborn⟩
  intro halive id hid
  rcases hid with ⟨hopen, hlt⟩ | hrest
  · rcases Nat.lt_succ_iff_lt_or_eq.mp hlt with hlt | rfl
    · exact h.due halive id (.inl ⟨hopen, hlt⟩)
    · exact hdone hopen
  · exact h.due halive id (.inr hrest)

/-- A functor is queued: a send before any half-close, a half-close on a state no
longer connected with no send under way. -/
theorem Lined.queueInLoop {s : Shared T} (h : Lined s) (halive : s.alive = true)
    (hborn : s.pc ≠ .establishing) {functor : Functor T}
    (hsend : isSend functor = true → ¬ HalfClosing s)
    (hshut : isShutdown functor = true → s.state ≠ .kConnected ∧ NoneUnderway s)
    (hrequired : ∀ id < requiredBy functor, Awaited s id) : Lined (s.queueInLoop functor) := by
  have hwork : (s.queueInLoop functor).work = s.work ++ [functor] := (List.append_assoc ..).symm
  have hmem : ∀ old, old ∈ (s.queueInLoop functor).work → old ∈ s.work ∨ old = functor := by
    intro old hold
    rw [hwork] at hold
    exact (List.mem_append.mp hold).imp_right List.mem_singleton.mp
  constructor
  · exact h.inOrder
  · intro _ id hid
    have hbefore : Awaited s id := by
      refine hid.of_work rfl rfl rfl rfl ?_
      intro old hold hlt
      refine (hmem old hold).imp_right ?_
      rintro rfl
      exact hrequired id hlt
    refine (h.due halive id hbefore).imp_right ?_
    rintro ⟨owner, address, len, payload, hq⟩
    exact ⟨owner, address, len, payload, hwork ▸ List.mem_append_left _ hq⟩
  · rw [hwork]
    refine List.pairwise_append.mpr ⟨h.ordered, List.pairwise_singleton .., ?_⟩
    intro first hfirst later hlater hshutdown
    rw [List.mem_singleton.mp hlater]
    by_contra hnot
    exact hsend (Bool.eq_true_of_not_eq_false hnot) (.inl ⟨first, hfirst, hshutdown⟩)
  · rintro (⟨old, hold, hs⟩ | hlog)
    · rcases hmem old hold with hold | rfl
      · exact h.closing (.inl ⟨old, hold, hs⟩)
      · exact hshut hs
    · exact h.closing (.inr hlog)
  · intro required hlog
    obtain ⟨hqueued, hpc⟩ := h.closed required hlog
    refine ⟨?_, hpc⟩
    intro old hold
    rcases hmem old hold with hold | rfl
    · exact hqueued old hold
    · by_contra hnot
      exact hsend (Bool.eq_true_of_not_eq_false hnot) (.inr ⟨required, hlog⟩)
  · exact h.stored
  · exact fun hpc => absurd hpc hborn

/-- The batch moves on past a functor that has done what is awaited of it. -/
theorem Lined.pop {s : Shared T} (h : Lined s) {functor : Functor T} {batch : List (Functor T)}
    (hb : s.batch = functor :: batch)
    (hdone : ∀ id owner address len payload, functor = .sendInLoop id owner address len payload →
      s.alive = true → Awaited s id → Delivered s.log id) : Lined (s.pop functor batch) := by
  have hwork := pop_work hb
  have hmem : ∀ old, old ∈ (s.pop functor batch).work → old ∈ s.work := by
    intro old hold
    rw [hwork]
    exact List.mem_cons_of_mem _ hold
  have hordered := h.ordered
  rw [hwork] at hordered
  constructor
  · exact h.inOrder
  · intro ht id hid
    have halive : s.alive = true := (pop_alive hb).symm.trans ht
    have hbefore : Awaited s id :=
      hid.of_work rfl rfl rfl rfl fun old hold _ => .inl (hmem old hold)
    rcases h.due halive id hbefore with hd | ⟨owner, address, len, payload, hq⟩
    · exact .inl hd
    · rw [hwork] at hq
      rcases List.mem_cons.mp hq with hfirst | hrest
      · exact .inl (hdone id owner address len payload hfirst.symm halive hbefore)
      · exact .inr ⟨owner, address, len, payload, hrest⟩
  · exact hordered.of_cons
  · rintro (⟨old, hold, hs⟩ | hlog)
    · exact h.closing (.inl ⟨old, hmem old hold, hs⟩)
    · exact h.closing (.inr hlog)
  · intro required hlog
    obtain ⟨hqueued, hpc⟩ := h.closed required hlog
    exact ⟨fun old hold => hqueued old (hmem old hold), hpc⟩
  · exact h.stored
  · intro hpc
    obtain ⟨howns, hlog, hreturned⟩ := h.unborn hpc
    exact ⟨fun old hold => howns old (hmem old hold), hlog, hreturned⟩

/-- The half-close itself, behind everything it requires. -/
theorem Lined.shutdownInLoop {s : Shared T} (h : Lined s) {required : ℕ}
    (hdone : ∀ id < required, Delivered s.log id) (hqueued : NoneQueued s)
    (hunder : NoneUnderway s) (hstate : s.state ≠ .kConnected)
    (hpc : (loopStage s.pc).sending = false) (hborn : s.pc ≠ .establishing) :
    Lined (s.shutdownInLoop required) := by
  unfold Shared.shutdownInLoop
  split_ifs
  · exact h
  · constructor
    · exact ⟨hdone, h.inOrder⟩
    · intro halive id hid
      exact (h.due halive id hid).imp_left fun hd => hd.mono (List.subset_cons_self ..)
    · exact h.ordered
    · exact fun _ => ⟨hstate, hunder⟩
    · exact fun _ _ => ⟨hqueued, hpc⟩
    · exact h.stored
    · exact fun hest => absurd hest hborn

theorem Lined.connectDestroyed {s : Shared T} (h : Lined s) : Lined s.connectDestroyed := by
  unfold Shared.connectDestroyed
  split_ifs
  · exact h.goto (.inl rfl) (by simp)
  · exact h.calm (fun halive => halive)
      (.of_rest (.inl rfl) (work_unchanged rfl) rfl (.inl rfl) rfl (.inr ⟨rfl, by simp⟩))
  · exact h.calm (fun halive => halive)
      (.of_rest (.inl rfl) (work_unchanged rfl) rfl (.inl rfl) rfl (.inr ⟨rfl, by simp⟩))

theorem Lined.connectEstablished {s : Shared T} (hf : Founded s) (h : Lined s)
    (hpc : s.pc = .establishing) : Lined s.connectEstablished := by
  obtain ⟨howns, hlog, hreturned⟩ := h.unborn hpc
  have hlog' : ∀ required, .shutdownWrite required ∉ s.connectEstablished.log := by
    intro required hmem
    rcases List.mem_cons.mp hmem with hnew | hold
    · cases hnew
    · exact hlog required hold
  have hrest : ∀ u, stageOf (s.threads u) = .rest := by
    intro u
    have hidle : s.threads u = .idle := by
      by_contra hu
      have hmem := hf.callers u hu
      rw [(hf.unborn hpc).2] at hmem
      cases hmem
    rw [hidle]
    rfl
  constructor
  · exact ⟨trivial, h.inOrder⟩
  · intro _ id hid
    rcases hid with ⟨-, hid⟩ | ⟨u, hid⟩ | hid | ⟨functor, hmem, hid⟩
    · have hid : id < s.returned := hid
      rw [hreturned] at hid
      cases hid
    · have hid : id < (stageOf (s.threads u)).required := hid
      rw [hrest u] at hid
      cases hid
    · cases hid
    · rw [(isSend_of_owns (howns functor hmem)).2.2] at hid
      cases hid
  · exact h.ordered
  · rintro (⟨functor, hmem, hshut⟩ | ⟨required, hmem⟩)
    · cases hshut.symm.trans (isSend_of_owns (howns functor hmem)).2.1
    · exact absurd hmem (hlog' required)
  · exact fun required hmem => absurd hmem (hlog' required)
  · rintro (⟨u, hu⟩ | hpc)
    · have hu : (stageOf (s.threads u)).stored = true := hu
      rw [hrest u] at hu
      cases hu
    · cases hpc
  · intro hest
    cases hest

/-- The loop's own send runs at once, and returns. -/
theorem Lined.loopSend {s : Shared T} (hf : Founded s) (h : Lined s) (halive : s.alive = true)
    {data : Bytes} (hc : s.pc = .sendCalled data) {write : Bytes → WriteAnswer}
    (ha : s.state = .kConnected → (write data).taken data = data) :
    Lined { s.sendInLoop s.returned data (some data) write with
      pc := .inCallback
      returned := (s.sendInLoop s.returned data (some data) write).returned + 1 } := by
  have hborn : s.pc ≠ .establishing := by simp [hc]
  have hbefore : ∀ required, .shutdownWrite required ∉ s.log := by
    intro required hmem
    have hsending := (h.closed required hmem).2
    rw [hc] at hsending
    cases hsending
  rcases hf.sendInLoop_cases s.returned data (some data) write with
    ⟨hclosed, he⟩ | ⟨-, callbacks, hcallbacks, he⟩
  · rw [he]
    have hreturned : Lined { s with returned := s.returned + 1 } :=
      h.returns hborn fun hopen => by cases hclosed.symm.trans hopen
    exact hreturned.goto (.inl rfl) (by simp)
  · rw [he]
    have hwrote := h.wrote halive hbefore s.returned data (some data)
      (acceptedOf (some data) write) hcallbacks
    refine (hwrote.returns hborn ?_).goto (.inl rfl) (by simp)
    intro hopen
    left
    have htaken : acceptedOf (some data) write = data := ha hopen
    rw [htaken]
    exact ⟨data, List.mem_cons_self ..⟩

/-- The loop's own half-close finds everything done that it requires. -/
theorem Lined.loopShutdown {s : Shared T} (h : Lined s) (halive : s.alive = true) {required : ℕ}
    (hc : s.pc = .shutdownStored required) (hunder : NoneUnderway s) (hqueued : NoneQueued s) :
    Lined ((s.shutdownInLoop required).goto .inCallback) := by
  have hstate : s.state ≠ .kConnected := by
    apply h.stored
    rw [hc]
    exact .inr rfl
  have hdone : ∀ id < required, Delivered s.log id := by
    intro id hid
    have hawaited : Awaited s id := by
      refine .inr (.inr (.inl ?_))
      rw [hc]
      exact hid
    rcases h.due halive id hawaited with hd | ⟨owner, address, len, payload, hq⟩
    · exact hd
    · cases hqueued _ hq
  exact (h.shutdownInLoop hdone hqueued hunder hstate (by rw [hc]; rfl) (by simp [hc])).goto
    (.inl rfl) (by simp)

/-- What the loop's thread does next within its own calls. -/
theorem Lined.loopAdvance {s : Shared T} (hf : Founded s) (hb : Batched s) (h : Lined s)
    (hpc : s.pc ≠ .idle) {write : Bytes → WriteAnswer} (ha : GoesOnInOrder s write s.pc) :
    Lined (s.loopAdvance write) := by
  have halive := alive_of_held (hb.held hpc)
  unfold Shared.loopAdvance
  cases hc : s.pc with
  | establishing => exact h.connectEstablished hf hc
  | idle => exact h
  | inCallback => exact h
  | sendCalled data =>
      rw [hc] at ha
      exact h.loopSend hf halive hc ha
  | shutdownTested required =>
      refine h.calm (fun halive => halive) ?_
      refine ⟨.inr ⟨.stored .kDisconnecting, trivial, rfl⟩, work_unchanged rfl, rfl, ?_,
        fun _ => .inl rfl, .inr (.inr (.inr ⟨?_, ?_, rfl⟩)), ?_⟩
      · intro hopen
        cases hopen
      · intro hopen
        cases hopen
      · rw [hc]
        exact Nat.le_refl _
      · intro hest
        cases hest
  | shutdownStored required =>
      rw [hc] at ha
      exact h.loopShutdown halive hc ha.1 ha.2
  | destroyTested =>
      refine h.calm (fun halive => halive) ?_
      refine .of_rest (.inr ⟨.stored .kDisconnected, trivial, rfl⟩) (work_unchanged rfl) rfl
        (.inr ?_) rfl (.inr ⟨rfl, by simp [Shared.destroyConnected]⟩)
      intro hopen
      cases hopen

/-- A queued send that runs offers its argument, if it is awaited, and the
socket takes it. -/
theorem Lined.runSend {s : Shared T} (hf : Founded s) (hm : Bound s) (h : Lined s)
    (halive : s.alive = true) {id : ℕ} {owner : T} {address len : ℕ} {payload : Bytes}
    {batch : List (Functor T)} {write : Bytes → WriteAnswer}
    (hb : s.batch = .sendInLoop id owner address len payload :: batch)
    (ha : RunsInOrder s write (.sendInLoop id owner address len payload)) :
    Lined (((s.pop (.sendInLoop id owner address len payload) batch).record
      (.executed true)).sendInLoop id payload (s.read owner address len) write) := by
  have hhead : .sendInLoop id owner address len payload ∈ s.work := by simp [Shared.work, hb]
  have hpopped : Founded ((s.pop (.sendInLoop id owner address len payload) batch).record
      (.executed true)) := hf.same rfl Iff.rfl rfl rfl
  have hrecorded : Lined (s.record (.executed true)) := h.record trivial
  rcases hpopped.sendInLoop_cases id payload (s.read owner address len) write with
    ⟨hclosed, he⟩ | ⟨-, callbacks, hcallbacks, he⟩
  · rw [he]
    refine hrecorded.pop hb ?_
    intro i _ _ _ _ heq _ hawaited
    cases heq
    exact absurd hclosed (ha halive hawaited).1
  · rw [he]
    have hnone : ∀ required, .shutdownWrite required ∉ (s.record (.executed true)).log := by
      intro required hmem
      cases (hrecorded.closed required hmem).1 _ hhead
    have hwrote := hrecorded.wrote halive hnone id payload (s.read owner address len)
      (acceptedOf (s.read owner address len) write) hcallbacks
    refine hwrote.pop hb ?_
    intro i _ _ _ _ heq _ hawaited
    cases heq
    have hbefore : Awaited s id := by
      refine hawaited.of_work rfl rfl rfl rfl ?_
      intro functor hmem hid
      left
      simp only [Shared.work, Shared.record, ← List.append_assoc] at hmem ⊢
      rcases List.mem_append.mp hmem with hold | hnew
      · exact hold
      · rw [hcallbacks functor hnew] at hid
        cases hid
    obtain ⟨-, hprefix, htaken⟩ := ha halive hbefore
    have hlen : len = payload.length := hm.measured _ hhead
    have hread : s.read owner address len = some payload := by
      rw [hlen, read_eq_iff]
      exact hprefix
    have haccepted : acceptedOf (some payload) write = payload := htaken
    rw [hread, haccepted]
    exact ⟨payload, List.mem_cons_self ..⟩

theorem Lined.runNext {s : Shared T} (hf : Founded s) (hm : Bound s) (h : Lined s)
    (hpc : s.pc = .idle) {write : Bytes → WriteAnswer}
    (ha : ∀ functor ∈ s.batch.head?, RunsInOrder s write functor) : Lined (s.runNext write) := by
  unfold Shared.runNext
  cases hb : s.batch with
  | nil => exact h
  | cons functor batch =>
      rw [hb] at ha
      have hfirst := ha functor rfl
      have halive := pop_alive hb
      cases functor with
      | sendInLoop id owner address len payload =>
          dsimp only [Shared.runFunctor]
          rw [halive]
          cases hs : s.alive with
          | true => exact h.runSend hf hm hs hb hfirst
          | false =>
              refine (h.record (e := .executed false) trivial).pop hb ?_
              intro _ _ _ _ _ _ hlive
              cases hs.symm.trans hlive
      | shutdownInLoop required =>
          have hpop : ∀ alive, Lined ((s.pop (.shutdownInLoop required) batch).record
              (.executed alive)) := by
            intro alive
            refine (h.record (e := .executed alive) trivial).pop hb ?_
            intro _ _ _ _ _ heq
            cases heq
          dsimp only [Shared.runFunctor]
          split_ifs with hlive
          · rw [halive] at hlive
            have hwork := pop_work hb
            have hordered := h.ordered
            rw [hwork] at hordered
            have hqueued : NoneQueued (s.pop (.shutdownInLoop required) batch) :=
              fun later hmem => (List.pairwise_cons.mp hordered).1 later hmem rfl
            have hhead : .shutdownInLoop required ∈ s.work := by simp [Shared.work, hb]
            obtain ⟨hstate, hunder⟩ := h.closing (.inl ⟨_, hhead, rfl⟩)
            refine (hpop _).shutdownInLoop ?_ hqueued hunder hstate ?_ ?_
            · intro id hid
              have hawaited : Awaited s id := .inr (.inr (.inr ⟨_, hhead, hid⟩))
              rcases h.due hlive id hawaited with hd | ⟨owner, address, len, payload, hq⟩
              · exact hd.mono (List.subset_cons_self ..)
              · rw [hwork] at hq
                rcases List.mem_cons.mp hq with heq | hq
                · cases heq
                · cases hqueued _ hq
            · show (loopStage s.pc).sending = false
              rw [hpc]
              rfl
            · show s.pc ≠ .establishing
              simp [hpc]
          · exact hpop _
      | connectDestroyed =>
          apply Lined.connectDestroyed
          apply h.pop hb
          intro _ _ _ _ _ heq
          cases heq
      | callback =>
          refine Lined.goto (h.pop hb ?_) (.inl rfl) (by simp)
          intro _ _ _ _ _ heq
          cases heq

variable [DecidableEq T]

theorem moves_setCaller (s t : Shared T) (u : T) {caller : Caller}
    (h : Moves s t (stageOf (s.threads u)) (stageOf caller)) (w : T) :
    Moves s t (stageOf (s.threads w)) (stageOf ((s.setCaller u caller).threads w)) := by
  by_cases hw : w = u
  · subst hw
    rw [setCaller_self]
    exact h
  · rw [setCaller_of_ne s caller hw]
    exact .inl rfl

/-- A call that ends or begins. -/
theorem Lined.setCaller {s : Shared T} (h : Lined s) {u : T} {caller : Caller}
    (hu : stageOf caller = .rest ∨ (s.state = .kConnected ∧
      (stageOf caller).required ≤ s.returned ∧ (stageOf caller).stored = false)) :
    Lined (s.setCaller u caller) := by
  refine h.calm (fun halive => halive) ?_
  refine ⟨.inl rfl, work_unchanged rfl, rfl, fun hopen => hopen, ?_, .inl rfl, fun hpc => hpc⟩
  exact moves_setCaller s _ u (.inr (hu.imp_right .inl))

theorem Lined.advance {s : Shared T} (hf : Founded s) (h : Lined s) (u : T)
    (hu : s.threads u ≠ .idle) (ha : PushesInOrder s (s.threads u)) : Lined (s.advance u) := by
  have hmem := hf.callers u hu
  have halive := alive_of_holder hmem
  have hborn : s.pc ≠ .establishing := by
    intro hpc
    rw [(hf.unborn hpc).2] at hmem
    cases hmem
  unfold Shared.advance
  cases hc : s.threads u with
  | idle => exact h
  | sending address payload =>
      have hnot : ¬ HalfClosing s := by
        intro hclosing
        have hunder := (h.closing hclosing).2 u
        rw [hc] at hunder
        cases hunder
      have hqueue : Lined (s.queueInLoop (.sendInLoop s.returned u address
          (s.contents u address).length payload)) :=
        h.queueInLoop halive hborn (fun _ => hnot) (by simp [isShutdown]) (by simp [requiredBy])
      refine (hqueue.returns hborn ?_).setCaller (u := u) (.inl rfl)
      refine fun _ => .inr ⟨u, address, (s.contents u address).length, payload, ?_⟩
      simp [Shared.work, Shared.queueInLoop]
  | shutdownTested required =>
      refine h.calm (fun halive => halive) ?_
      refine ⟨.inr ⟨.stored .kDisconnecting, trivial, rfl⟩, work_unchanged rfl, rfl, ?_, ?_,
        .inl rfl, fun hpc => hpc⟩
      · intro hopen
        cases hopen
      · apply moves_setCaller s
        refine .inr (.inr (.inr ⟨?_, ?_, rfl⟩))
        · intro hopen
          cases hopen
        · rw [hc]
          exact Nat.le_refl _
  | shutdownStored required =>
      rw [hc] at ha
      have hstate : s.state ≠ .kConnected := h.stored (.inl ⟨u, by rw [hc]; rfl⟩)
      have hrequired : ∀ id < required, Awaited s id := by
        intro id hid
        refine .inr (.inl ⟨u, ?_⟩)
        rw [hc]
        exact hid
      have hqueue : Lined (s.queueInLoop (.shutdownInLoop required)) :=
        h.queueInLoop halive hborn (by simp [isSend]) (fun _ => ⟨hstate, ha⟩) hrequired
      exact hqueue.setCaller (.inl rfl)

theorem step_lined {s t : Shared T} {a : Action T} (hf : Founded s) (hb : Batched s)
    (hm : Bound s) (h : Lined s) (ht : step s a = some t) (ha : Orderly s a) : Lined t := by
  have halive : t.alive = true → s.alive = true := by
    intro hlive
    by_contra hdead
    cases (step_dead hf hb (Bool.eq_false_of_not_eq_true hdead) ht).1.symm.trans hlive
  have hcalm : Calm s t → Lined t := h.calm halive
  have hwork : (∀ write, a ≠ .run write) → (∀ u, a ≠ .advance u) →
      ∃ new, t.work = s.work ++ new ∧ ∀ functor ∈ new, functor.owns = true := by
    intro hrun hadvance
    obtain ⟨new, hnew, hbrings⟩ := step_appends hf hb ht hrun
    refine ⟨new, hnew, ?_⟩
    intro functor hmem
    rcases hbrings functor hmem with howns | ⟨u, heq, -⟩
    · exact howns
    · exact absurd heq (hadvance u)
  obtain ⟨hen, rfl⟩ := step_eq_some.mp ht
  cases a with
  | send u address =>
      dsimp only [after, Shared.testSend]
      split
      · split_ifs with hopen
        · exact h.setCaller (.inr ⟨hopen, Nat.zero_le _, rfl⟩)
        · exact h
      · exact h
  | shutdown u =>
      dsimp only [after]
      split_ifs with hopen
      · exact h.setCaller (.inr ⟨hopen, Nat.le_refl _, rfl⟩)
      · exact h
  | advance u => exact h.advance hf u hen ha
  | handleWrite write =>
      dsimp only [after, Shared.handleWrite] at hcalm ⊢
      cases hr : s.site.connection.handleWrite write with
      | error fault => exact h
      | ok r =>
          rw [hr] at hcalm
          have hstate : r.1.state = s.site.connection.state := by
            rw [Connection.handleWrite_fst hr]
          refine hcalm (.of_rest ?_ (work_unchanged rfl) rfl (.inl hstate) rfl (.inl rfl))
          by_cases hnone : r.2 = []
          · exact .inl (if_pos hnone)
          · exact .inr ⟨.drained (ConnectionOutput.taken r.2), trivial, if_neg hnone⟩
  | handleClose =>
      refine hcalm (.of_rest (.inr ⟨.stored .kDisconnected, trivial, rfl⟩) (work_unchanged rfl) rfl
        (.inr ?_) rfl (.inl rfl))
      intro hopen
      cases hopen
  | loopSend data =>
      dsimp only [after]
      split_ifs with hopen
      · exact h.goto (.inr ⟨hopen, Nat.zero_le _, rfl⟩) (by simp)
      · exact h
  | loopShutdown =>
      dsimp only [after]
      split_ifs with hopen
      · exact h.goto (.inr ⟨hopen, Nat.le_refl _, rfl⟩) (by simp)
      · exact h
  | loopDestroyServer =>
      have hguarded : Lined { s with table := false, guard := true } := by
        refine h.calm ?_ (.of_rest (.inl rfl) (work_unchanged rfl) rfl (.inl rfl) rfl (.inl rfl))
        intro _
        simp [Shared.alive, hen.1]
      exact hguarded.connectDestroyed
  | loopAdvance write => exact h.loopAdvance hf hb hen.1 ha
  | run write => exact h.runNext hf hm hen.1 ha
  | dispatch | leave =>
      exact hcalm (.of_rest (.inl rfl) (work_unchanged rfl) rfl (.inl rfl) rfl
        (.inr ⟨rfl, by simp [after]⟩))
  | assign _ _ _ | copy _ | drop _ | queueCallback _ | destroyServer | swap | endBatch =>
      exact hcalm (.of_rest (.inl rfl) (hwork (by simp) (by simp)) rfl (.inl rfl) rfl (.inl rfl))

omit [DecidableEq T] in
theorem create_lined (c : Connection) (p : EPollPoller ℕ) (memory : T → ℕ → Option Bytes) :
    Lined (Shared.create c p memory) := by
  have hnone : ∀ required, .shutdownWrite required ∉ (Shared.create c p memory).log := by
    intro required hmem
    cases List.mem_singleton.mp hmem
  constructor
  · exact ⟨trivial, trivial⟩
  · intro _ id hid
    rcases hid with ⟨-, hid⟩ | ⟨u, hid⟩ | hid | ⟨functor, hmem, -⟩
    · cases hid
    · cases hid
    · cases hid
    · cases hmem
  · exact List.Pairwise.nil
  · rintro (⟨functor, hmem, -⟩ | ⟨required, hmem⟩)
    · cases hmem
    · exact absurd hmem (hnone required)
  · exact fun required hmem => absurd hmem (hnone required)
  · rintro (⟨u, hu⟩ | hpc)
    · cases hu
    · cases hpc
  · intro _
    refine ⟨?_, hnone, rfl⟩
    intro functor hmem
    cases hmem

/-- For any number of threads and in every interleaving whose steps are orderly,
the half-close comes after every send that had returned before its `shutdown`
began, all bytes of it with the socket, and before no `::write`. -/
theorem half_close_in_order {c : Connection} (hc : c.Fresh) (p : EPollPoller ℕ)
    (memory : T → ℕ → Option Bytes) {actions : List (Action T)}
    (h : Meets step Orderly (Shared.create c p memory) actions) :
    Throughout step InOrder (Shared.create c p memory) actions := by
  apply throughout_of_meets (I := fun s => Founded s ∧ Batched s ∧ Bound s ∧ Lined s) _ _ _ h
  · intro s a t ⟨hf, hb, hm, hs⟩ ha ht
    exact ⟨step_founded s a t hf ht, step_batched hf hb ht, step_bound hf hb hm ht,
      step_lined hf hb hm hs ht ha⟩
  · intro s hi
    exact hi.2.2.2.inOrder
  · exact ⟨create_founded hc p memory, create_batched c p memory, create_bound c p memory,
      create_lined c p memory⟩

/-- Thread 0 sends its string of one byte, thread 1 shuts down. -/
def inTurn : List (Action (Fin 2)) :=
  [.loopAdvance fun _ => .accepted 0, .copy 0, .copy 1, .leave, .send 0 0, .advance 0, .shutdown 1,
    .advance 1, .advance 1, .swap, .run fun _ => .accepted 1, .run fun _ => .accepted 0, .endBatch]

theorem half_close_in_order_inTurn : Throughout step InOrder (justMade (Fin 2)) inTurn :=
  half_close_in_order (Connection.create_fresh _ _ _) _ _ (by decide +kernel)

/-- The socket takes nothing of the send before the half-close. -/
def cutShort : List (Action ℕ) :=
  [.loopAdvance fun _ => .accepted 0, .copy 0, .leave, .send 0 0, .advance 0, .shutdown 0,
    .advance 0, .advance 0, .swap, .run fun _ => .accepted 0, .run fun _ => .accepted 0]

theorem cutShort_log : ∃ t ∈ run step (justMade ℕ) cutShort,
    t.log = [.shutdownWrite 1, .executed true, .write 0 [7] (some [7]) [], .passed,
      .executed true, .stored .kDisconnecting, .stored .kConnected, .stored .kConnecting] := by
  decide +kernel

/-- The connection is closed for writing with the byte lost. -/
theorem cutShort_out_of_order :
    ∃ t, run step (justMade ℕ) cutShort = some t ∧ ¬ InOrder t := by
  obtain ⟨t, ht, hlog⟩ := cutShort_log
  refine ⟨t, ht, ?_⟩
  intro horder
  unfold InOrder at horder
  rw [hlog] at horder
  obtain ⟨payload, hmem⟩ := horder.1 0 Nat.one_pos
  simp only [List.mem_cons, reduceCtorEq, Event.write.injEq, List.not_mem_nil, or_false,
    false_or, or_self] at hmem
  obtain ⟨-, rfl, -, hempty⟩ := hmem
  cases hempty

end Netmux.HalfClose
