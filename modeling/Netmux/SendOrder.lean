import Netmux.SharedWork

/-!
# The order in which sends reach the socket

A call of `send` on another thread is numbered when it is queued, a call on the
loop's own thread when it returns. The queue keeps the order of the numbers, so
the sends of the other threads reach the socket in that order and none of them
twice; the only ones that reach it out of turn are the loop's own, which overtake
what is queued.

`Tracked` adds to a run the numbers of the loop's own sends.
-/
namespace Netmux.SendOrder
open ActionRuns SocketBuffer ChannelPoller TcpConnection SharedConnection

variable {T : Type}

/-- The number of the send that a `::write` was made for. -/
def writeId : Event → Option ℕ
  | .write id _ _ _ => some id
  | .stored _ | .executed _ | .passed | .shutdownWrite _ | .drained _ => none

def sendId : Functor T → Option ℕ
  | .sendInLoop id _ _ _ _ => some id
  | .shutdownInLoop _ | .connectDestroyed | .callback => none

/-- The sends that reached the socket, newest first. -/
def written (s : Shared T) : List ℕ := s.log.filterMap writeId

/-- The sends in the queue, in the order in which they will run. -/
def queued (s : Shared T) : List ℕ := s.work.filterMap sendId

/-- The loop's own thread is about to return from `send`. -/
def isOwn (s : Shared T) : Action T → Bool
  | .loopAdvance _ => match s.pc with
    | .sendCalled _ => true
    | .establishing | .idle | .inCallback | .shutdownTested _ | .shutdownStored _
    | .destroyTested => false
  | .send _ _ | .shutdown _ | .advance _ | .assign _ _ _ | .copy _ | .drop _ | .queueCallback _
  | .destroyServer | .dispatch | .handleWrite _ | .handleClose | .leave | .loopSend _
  | .loopShutdown | .loopDestroyServer | .swap | .run _ | .endBatch => false

/-- A run together with the numbers of the loop's own sends. -/
structure Tracked (T : Type) where
  shared : Shared T
  own : List ℕ

def track [DecidableEq T] (s : Tracked T) (a : Action T) : Option (Tracked T) :=
  (SharedConnection.step s.shared a).map fun t =>
    ⟨t, if isOwn s.shared a then s.shared.returned :: s.own else s.own⟩

/-- No send reaches the socket twice, and a later one before an earlier one only
if it is the loop's own. -/
def InSendOrder (s : Tracked T) : Prop :=
  (written s.shared).Nodup ∧
    (written s.shared).Pairwise fun later earlier => earlier < later ∨ earlier ∈ s.own

/-- A step that concerns no send. -/
structure Calm (s t : Shared T) : Prop where
  queue : queued t = queued s
  socket : written t = written s
  returned : t.returned = s.returned

/-- What a step does to the queue, to the numbers and to the socket. -/
inductive Progress (s t : Shared T) : Bool → Prop
  | calm : Calm s t → Progress s t false
  | push : queued t = queued s ++ [s.returned] → written t = written s →
      t.returned = s.returned + 1 → Progress s t false
  | own : queued t = queued s → written t = written s ∨ written t = s.returned :: written s →
      t.returned = s.returned + 1 → Progress s t true
  | ran (id : ℕ) : queued s = id :: queued t →
      written t = written s ∨ written t = id :: written s → t.returned = s.returned →
      Progress s t false

theorem Calm.refl (s : Shared T) : Calm s s := ⟨rfl, rfl, rfl⟩

theorem Calm.trans {s t u : Shared T} (h : Calm s t) (k : Calm t u) : Calm s u :=
  ⟨k.queue.trans h.queue, k.socket.trans h.socket, k.returned.trans h.returned⟩

theorem sendId_eq_none {functors : List (Functor T)}
    (h : ∀ functor ∈ functors, functor = Functor.callback) : functors.filterMap sendId = [] :=
  List.filterMap_eq_nil_iff.mpr fun functor hmem => by rw [h functor hmem, sendId]

/-- `sendInLoop` writes at most once for its send, and queues no send. -/
theorem sendInLoop_progress {s : Shared T} (hf : Founded s) (id : ℕ) (payload : Bytes)
    (read : Option Bytes) (write : Bytes → WriteAnswer) :
    let t := s.sendInLoop id payload read write
    queued t = queued s ∧ (written t = written s ∨ written t = id :: written s) ∧
      t.returned = s.returned := by
  intro t
  rcases hf.sendInLoop_cases id payload read write with ⟨-, he⟩ | ⟨-, callbacks, hc, he⟩
  · rw [show t = s from he]
    exact ⟨rfl, Or.inl rfl, rfl⟩
  · have hqueue : t.work = s.work ++ callbacks := by
      rw [show t = _ from he]
      exact (List.append_assoc ..).symm
    refine ⟨?_, Or.inr ?_, ?_⟩
    · rw [queued, hqueue, List.filterMap_append, sendId_eq_none hc, List.append_nil]
      rfl
    · rw [written, show t = _ from he]
      rfl
    · rw [show t = _ from he]

theorem shutdownInLoop_calm (s : Shared T) (required : ℕ) : Calm s (s.shutdownInLoop required) := by
  unfold Shared.shutdownInLoop
  split_ifs
  · exact .refl s
  · exact ⟨rfl, rfl, rfl⟩

theorem connectDestroyed_calm (s : Shared T) : Calm s s.connectDestroyed := by
  unfold Shared.connectDestroyed
  split_ifs <;> exact ⟨rfl, rfl, rfl⟩

theorem queueInLoop_calm (s : Shared T) {functor : Functor T} (h : sendId functor = none) :
    Calm s (s.queueInLoop functor) := by
  refine ⟨?_, rfl, rfl⟩
  simp [queued, Shared.work, Shared.queueInLoop, h]

/-- The functor at the head of the batch. -/
theorem runNext_progress {s : Shared T} (hf : Founded s) (write : Bytes → WriteAnswer) :
    Progress s (s.runNext write) false := by
  unfold Shared.runNext
  cases hb : s.batch with
  | nil => exact .calm (.refl s)
  | cons functor batch =>
      have hwork : s.work = functor :: (s.pop functor batch).work := pop_work hb
      cases functor with
      | sendInLoop id owner address len payload =>
          have hqueue : queued s = id :: queued (s.pop (.sendInLoop id owner address len payload)
              batch) := by
            rw [queued, hwork]
            rfl
          dsimp only [Shared.runFunctor]
          split_ifs
          · have hpopped : Founded ((s.pop (.sendInLoop id owner address len payload) batch).record
                (.executed (s.pop (.sendInLoop id owner address len payload) batch).alive)) :=
              hf.same rfl Iff.rfl rfl rfl
            obtain ⟨hq, hw, hr⟩ := sendInLoop_progress hpopped id payload
              (Shared.read (s.pop (.sendInLoop id owner address len payload) batch) owner address
                len) write
            exact .ran id (hqueue.trans (congrArg (id :: ·) hq.symm)) hw hr
          · exact .ran id hqueue (Or.inl rfl) rfl
      | shutdownInLoop required =>
          have hpop : Calm s ((s.pop (.shutdownInLoop required) batch).record
              (.executed (s.pop (.shutdownInLoop required) batch).alive)) :=
            ⟨by rw [queued, queued, hwork]; rfl, rfl, rfl⟩
          dsimp only [Shared.runFunctor]
          split_ifs
          · exact .calm (hpop.trans (shutdownInLoop_calm _ required))
          · exact .calm hpop
      | connectDestroyed =>
          have hpop : Calm s (s.pop .connectDestroyed batch) :=
            ⟨by rw [queued, queued, hwork]; rfl, rfl, rfl⟩
          exact .calm (hpop.trans (connectDestroyed_calm _))
      | callback => exact .calm ⟨by rw [queued, queued, hwork]; rfl, rfl, rfl⟩

theorem loopAdvance_progress {s : Shared T} (hf : Founded s) (write : Bytes → WriteAnswer) :
    Progress s (s.loopAdvance write) (isOwn s (.loopAdvance write : Action T)) := by
  unfold Shared.loopAdvance isOwn
  cases hpc : s.pc with
  | sendCalled data =>
      obtain ⟨hq, hw, hr⟩ := sendInLoop_progress hf s.returned data (some data) write
      exact .own hq hw (congrArg (· + 1) hr)
  | shutdownStored required =>
      have hcalm := shutdownInLoop_calm s required
      exact .calm ⟨hcalm.queue, hcalm.socket, hcalm.returned⟩
  | establishing | idle | inCallback | shutdownTested _ | destroyTested =>
      exact .calm ⟨rfl, rfl, rfl⟩

/-- The queue ascends behind every send of another thread that has reached the
socket; the numbers to come are larger than all. -/
structure Ordered (s : Tracked T) : Prop where
  ascending : (queued s.shared).Pairwise (· < ·)
  pending : ∀ n ∈ queued s.shared, n < s.shared.returned ∧ n ∉ s.own
  past : ∀ n ∈ s.own, n < s.shared.returned
  sent : ∀ n ∈ written s.shared, n < s.shared.returned
  behind : ∀ n ∈ written s.shared, n ∈ s.own ∨ ∀ m ∈ queued s.shared, n < m
  inOrder : InSendOrder s

theorem Ordered.calm {s : Tracked T} {t : Shared T} (h : Ordered s) (hc : Calm s.shared t) :
    Ordered ⟨t, s.own⟩ where
  ascending := by
    rw [hc.queue]
    exact h.ascending
  pending := by
    rw [hc.queue, hc.returned]
    exact h.pending
  past := by
    rw [hc.returned]
    exact h.past
  sent := by
    rw [hc.socket, hc.returned]
    exact h.sent
  behind := by
    rw [hc.queue, hc.socket]
    exact h.behind
  inOrder := by
    rw [InSendOrder, hc.socket]
    exact h.inOrder

theorem Ordered.push {s : Tracked T} {t : Shared T} (h : Ordered s)
    (hqueue : queued t = queued s.shared ++ [s.shared.returned])
    (hsocket : written t = written s.shared) (hreturned : t.returned = s.shared.returned + 1) :
    Ordered ⟨t, s.own⟩ where
  ascending := by
    rw [hqueue, List.pairwise_append]
    refine ⟨h.ascending, List.pairwise_singleton _ _, fun n hn m hm => ?_⟩
    rw [List.mem_singleton.mp hm]
    exact (h.pending n hn).1
  pending := by
    intro n hn
    simp only [hqueue, List.mem_append, List.mem_singleton] at hn
    simp only [hreturned]
    rcases hn with hn | rfl
    · exact ⟨Nat.lt_succ_of_lt (h.pending n hn).1, (h.pending n hn).2⟩
    · exact ⟨Nat.lt_succ_self _, fun hown => Nat.lt_irrefl _ (h.past _ hown)⟩
  past := by
    intro n hn
    have hlt := h.past n hn
    simp only [hreturned]
    omega
  sent := by
    intro n hn
    rw [hsocket] at hn
    have hlt := h.sent n hn
    simp only [hreturned]
    omega
  behind := by
    intro n hn
    rw [hsocket] at hn
    refine (h.behind n hn).imp_right fun hall m hm => ?_
    simp only [hqueue, List.mem_append, List.mem_singleton] at hm
    rcases hm with hm | rfl
    · exact hall m hm
    · exact h.sent n hn
  inOrder := by
    rw [InSendOrder, hsocket]
    exact h.inOrder

/-- The loop's own send reaches the socket before what is queued. -/
theorem Ordered.own {s : Tracked T} {t : Shared T} (h : Ordered s)
    (hqueue : queued t = queued s.shared)
    (hsocket : written t = written s.shared ∨ written t = s.shared.returned :: written s.shared)
    (hreturned : t.returned = s.shared.returned + 1) :
    Ordered ⟨t, s.shared.returned :: s.own⟩ := by
  have hmem : ∀ n ∈ written t, n = s.shared.returned ∨ n ∈ written s.shared := by
    intro n hn
    rcases hsocket with he | he
    · exact Or.inr (he ▸ hn)
    · exact List.mem_cons.mp (he ▸ hn)
  refine ⟨hqueue ▸ h.ascending, ?_, ?_, ?_, ?_, ?_⟩
  · intro n hn
    rw [hqueue] at hn
    obtain ⟨hlt, hnot⟩ := h.pending n hn
    simp only [hreturned, List.mem_cons]
    exact ⟨by omega, by rintro (heq | hown) <;> [omega; exact hnot hown]⟩
  · intro n hn
    simp only [hreturned]
    rcases List.mem_cons.mp hn with rfl | hn
    · omega
    · have hlt := h.past n hn
      omega
  · intro n hn
    simp only [hreturned]
    rcases hmem n hn with rfl | hn
    · omega
    · have hlt := h.sent n hn
      omega
  · intro n hn
    rcases hmem n hn with rfl | hn
    · exact Or.inl List.mem_cons_self
    · rw [hqueue]
      exact (h.behind n hn).imp_left (List.mem_cons_of_mem _)
  · have hold : (written s.shared).Pairwise fun later earlier =>
        earlier < later ∨ earlier ∈ s.shared.returned :: s.own :=
      h.inOrder.2.imp fun hor => hor.imp_right (List.mem_cons_of_mem _)
    rcases hsocket with he | he
    · rw [InSendOrder, he]
      exact ⟨h.inOrder.1, hold⟩
    · rw [InSendOrder, he, List.nodup_cons, List.pairwise_cons]
      refine ⟨⟨fun hin => Nat.lt_irrefl _ (h.sent _ hin), h.inOrder.1⟩, fun n hn => ?_, hold⟩
      exact Or.inl (h.sent n hn)

/-- The first send of the queue reaches the socket, if at all, behind all of the
other threads that were queued before. -/
theorem Ordered.ran {s : Tracked T} {t : Shared T} {id : ℕ} (h : Ordered s)
    (hqueue : queued s.shared = id :: queued t)
    (hsocket : written t = written s.shared ∨ written t = id :: written s.shared)
    (hreturned : t.returned = s.shared.returned) : Ordered ⟨t, s.own⟩ := by
  have hid : id ∈ queued s.shared := hqueue ▸ List.mem_cons_self
  have hrest : ∀ n ∈ queued t, n ∈ queued s.shared := fun n hn =>
    hqueue ▸ List.mem_cons_of_mem id hn
  have hascending := h.ascending
  rw [hqueue, List.pairwise_cons] at hascending
  have hmem : ∀ n ∈ written t, n = id ∨ n ∈ written s.shared := by
    intro n hn
    rcases hsocket with he | he
    · exact Or.inr (he ▸ hn)
    · exact List.mem_cons.mp (he ▸ hn)
  refine ⟨hascending.2, ?_, ?_, ?_, ?_, ?_⟩
  · intro n hn
    rw [hreturned]
    exact h.pending n (hrest n hn)
  · rw [hreturned]
    exact h.past
  · intro n hn
    rw [hreturned]
    rcases hmem n hn with rfl | hn
    · exact (h.pending n hid).1
    · exact h.sent n hn
  · intro n hn
    rcases hmem n hn with rfl | hn
    · exact Or.inr hascending.1
    · exact (h.behind n hn).imp_right fun hall m hm => hall m (hrest m hm)
  · rcases hsocket with he | he
    · rw [InSendOrder, he]
      exact h.inOrder
    · rw [InSendOrder, he, List.nodup_cons, List.pairwise_cons]
      refine ⟨⟨fun hin => ?_, h.inOrder.1⟩, fun n hn => ?_, h.inOrder.2⟩
      · rcases h.behind id hin with hown | hall
        · exact (h.pending id hid).2 hown
        · exact Nat.lt_irrefl _ (hall id hid)
      · rcases h.behind n hn with hown | hall
        · exact Or.inr hown
        · exact Or.inl (hall id hid)

variable [DecidableEq T]

theorem setCaller_calm (s : Shared T) (u : T) (caller : Caller) : Calm s (s.setCaller u caller) :=
  ⟨rfl, rfl, rfl⟩

theorem advance_progress (s : Shared T) (u : T) : Progress s (s.advance u) false := by
  unfold Shared.advance
  cases hc : s.threads u with
  | idle => exact .calm (.refl s)
  | sending address payload => exact .push (by simp [queued, Shared.work, Shared.queueInLoop,
      Shared.setCaller, sendId]) rfl rfl
  | shutdownTested required => exact .calm ⟨rfl, rfl, rfl⟩
  | shutdownStored required =>
      exact .calm ((queueInLoop_calm s rfl).trans (setCaller_calm _ u .idle))

/-- Every step is one of the four. -/
theorem step_progress {s t : Shared T} {a : Action T} (hf : Founded s) (hb : Batched s)
    (ht : SharedConnection.step s a = some t) : Progress s t (isOwn s a) := by
  obtain ⟨hen, rfl⟩ := step_eq_some.mp ht
  cases a with
  | send u address =>
      dsimp only [after, Shared.testSend]
      split
      · split_ifs
        · exact .calm (setCaller_calm ..)
        · exact .calm (.refl s)
      · exact .calm (.refl s)
  | shutdown u =>
      dsimp only [after]
      split_ifs
      · exact .calm (setCaller_calm ..)
      · exact .calm (.refl s)
  | advance u => exact advance_progress s u
  | queueCallback u => exact .calm (queueInLoop_calm s rfl)
  | destroyServer =>
      have hcalm : Calm s (s.queueInLoop .connectDestroyed) := queueInLoop_calm s rfl
      exact .calm ⟨hcalm.queue, hcalm.socket, hcalm.returned⟩
  | handleWrite write =>
      dsimp only [after, Shared.handleWrite]
      split
      · refine .calm ⟨rfl, ?_, rfl⟩
        dsimp only [written]
        split_ifs <;> rfl
      · exact .calm (.refl s)
  | loopSend data =>
      dsimp only [after]
      split_ifs <;> exact .calm ⟨rfl, rfl, rfl⟩
  | loopShutdown =>
      dsimp only [after]
      split_ifs <;> exact .calm ⟨rfl, rfl, rfl⟩
  | loopDestroyServer =>
      have hcalm := connectDestroyed_calm { s with table := false, guard := true }
      exact .calm ⟨hcalm.queue, hcalm.socket, hcalm.returned⟩
  | loopAdvance write => exact loopAdvance_progress hf write
  | swap =>
      refine .calm ⟨?_, rfl, rfl⟩
      simp [after, queued, Shared.work, hb.between hen.2]
  | run write => exact runNext_progress hf write
  | assign _ _ _ | copy _ | drop _ | dispatch | handleClose | leave | endBatch =>
      exact .calm ⟨rfl, rfl, rfl⟩

theorem Ordered.step {s t : Tracked T} {a : Action T} (h : Ordered s) (hf : Founded s.shared)
    (hb : Batched s.shared) (ht : track s a = some t) : Ordered t := by
  obtain ⟨u, hu, rfl⟩ := Option.map_eq_some_iff.mp ht
  have hprogress := step_progress hf hb hu
  cases hown : isOwn s.shared a with
  | true =>
      rw [hown] at hprogress
      cases hprogress with
      | own hqueue hsocket hreturned => simpa [hown] using h.own hqueue hsocket hreturned
  | false =>
      rw [hown] at hprogress
      cases hprogress with
      | calm hcalm => simpa [hown] using h.calm hcalm
      | push hqueue hsocket hreturned => simpa [hown] using h.push hqueue hsocket hreturned
      | ran id hqueue hsocket hreturned => simpa [hown] using h.ran hqueue hsocket hreturned

/-- For any number of threads and in every interleaving, no send reaches the socket
twice, and those of the other threads reach it in the order in which they were
queued: only a send of the loop's own thread is ever there before an earlier one. -/
theorem sends_in_order {c : Connection} (hc : c.Fresh) (p : EPollPoller ℕ)
    (memory : T → ℕ → Option Bytes) (actions : List (Action T)) :
    Throughout track InSendOrder ⟨Shared.create c p memory, []⟩ actions := by
  have hstart : Ordered ⟨Shared.create c p memory, []⟩ := by
    refine ⟨.nil, ?_, ?_, ?_, ?_, .nil, .nil⟩
    all_goals
      intro n hn
      cases hn
  refine (throughout_of_step
    (P := fun s => Founded s.shared ∧ Batched s.shared ∧ Ordered s) ?_ actions
    ⟨create_founded hc p memory, create_batched c p memory, hstart⟩).imp fun s hs => hs.2.2.inOrder
  rintro s a t ⟨hf, hb, hs⟩ ht
  obtain ⟨u, hu, rfl⟩ := Option.map_eq_some_iff.mp ht
  exact ⟨step_founded s.shared a u hf hu, step_batched hf hb hu, hs.step hf hb ht⟩

/-- Thread 0 sends; before the loop gets to it, a callback of the loop sends. -/
def overtaking : List (Action ℕ) :=
  [.loopAdvance fun _ => .accepted 0, .copy 0, .send 0 0, .advance 0, .loopSend [9],
    .loopAdvance fun _ => .accepted 1, .leave, .swap, .run fun _ => .accepted 1, .endBatch]

theorem sends_in_order_overtaking :
    Throughout track InSendOrder ⟨justMade ℕ, []⟩ overtaking :=
  sends_in_order (Connection.create_fresh _ _ _) _ _ _

example : (run track ⟨justMade ℕ, []⟩ overtaking).map (fun t => (written t.shared, t.own)) =
    some ([0, 1], [1]) := by decide +kernel

end Netmux.SendOrder
