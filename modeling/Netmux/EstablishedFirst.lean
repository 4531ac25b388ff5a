import Netmux.ConnectionCalls

/-!
# Established before destroyed

What the destructor posts to another thread queues behind the establishments that
wait there, and the base loop's thread ends `newConnection` and establishes its own
connections before it comes back to the user's code, which alone can destroy the
server. So a connection is established first, provided the destructor runs outside
the loops of the pool and not while `newConnection` is under way.

On the thread of such a loop, in a callback of one of its connections, the
destructor would destroy the others on the spot, while the establishment of some
may wait in the queue. On a thread of the user's it could find in the table a
connection whose establishment is still to be posted.
-/
namespace Netmux.EstablishedFirst
open ActionRuns ServerThreads ThreadConfinement ServerLoad ConnectionCalls
open TcpServer (LoopId)

/-- On the thread of every loop no destruction comes before the establishment. -/
def Ordered (s : Server) : Prop := ∀ loop conn,
  .connectDestroyed conn ∉ (s.agenda loop).takeWhile (· ≠ .connectEstablished conn)

/-- What the base loop's thread calls on the spot. -/
def urgent : Call → Bool
  | .postEstablished _ | .connectEstablished _ => true
  | .listen | .newConnection _ | .removeConnection _ | .removeConnectionInLoop _
  | .connectDestroyed _ | .sendInLoop _ _ | .shutdownInLoop _ | .handleRead _ | .handleWrite _
  | .handleClose _ | .handleError _ | .callback _ _ | .closeCallback _ _ | .userCode => false

/-- The end of a `newConnection`, or an establishment, that waits on the base
loop's thread is what it does next. -/
def Imminent (s : Server) : Prop := ∀ call, urgent call = true → call ∈ s.todo .base →
  ∃ calls, s.calls (.loop .base) = call :: calls

section Lists
variable {α : Type*} [DecidableEq α] {x y : α}

/-- What is put in between may hold `y` only if it is behind an `x`. -/
theorem not_mem_takeWhile_insert {l m r : List α} (h : y ∉ (l ++ r).takeWhile (· ≠ x))
    (hm : y ∈ m → x ∈ l) : y ∉ (l ++ (m ++ r)).takeWhile (· ≠ x) := by
  induction l with
  | nil =>
      have hout : y ∉ m := fun hy => List.not_mem_nil (hm hy)
      induction m with
      | nil => exact h
      | cons z m ih =>
          rw [List.mem_cons, not_or] at hout
          by_cases hz : z = x
          · simp [hz]
          · have hrest := ih (fun hy => absurd hy hout.2) hout.2
            simpa [List.takeWhile_cons, hz, hout.1] using hrest
  | cons z l ih =>
      by_cases hz : z = x
      · simp [hz]
      · have hold : y ≠ z ∧ y ∉ (l ++ r).takeWhile (· ≠ x) := by
          simpa [List.takeWhile_cons, hz] using h
        have hrest := ih hold.2 fun hy => (List.mem_cons.mp (hm hy)).resolve_left (Ne.symm hz)
        simpa [List.takeWhile_cons, hz, hold.1] using hrest

theorem not_mem_takeWhile_append {l m : List α} (h : y ∉ l.takeWhile (· ≠ x))
    (hm : y ∈ m → x ∈ l) : y ∉ (l ++ m).takeWhile (· ≠ x) := by
  have hnil : y ∉ (l ++ []).takeWhile (· ≠ x) := by rwa [List.append_nil]
  simpa using not_mem_takeWhile_insert hnil hm

end Lists

/-- The thread that takes an action; setting a callback is nobody's in particular. -/
def actor : Action → Option ThreadId
  | .poll loop _ | .swap loop | .next loop => some (.loop loop)
  | .exec t _ | .leave t | .send t _ _ | .shutdown t _ | .start t | .destroy t => some t
  | .useInput _ _ | .setCallback _ | .setConnectionCallback _ | .setMessageCallback _
  | .setWriteCompleteCallback _ | .setHighWaterMarkCallback _ _ | .setCloseCallback _ => none

theorem calls_call {s : Server} {t v : ThreadId} (hv : v ≠ t) (calls : List Call) :
    (s.call t calls).calls v = s.calls v :=
  Function.update_of_ne hv ..

theorem calls_postInLoop {s : Server} {t v : ThreadId} (hv : v ≠ t) (loop : LoopId)
    (functor : Call) :
    (s.postInLoop t loop functor).calls v = s.calls v := by
  unfold Server.postInLoop
  split_ifs
  · exact calls_call hv _
  · rfl

theorem calls_settle {s : Server} {t v : ThreadId} (hv : v ≠ t) (conn : ℕ) (c : Conn)
    (r : TcpConnection.Site × List TcpConnection.Effect) :
    (s.settle t conn c r).calls v = s.calls v := calls_call hv _

theorem calls_withConn {s : Server} {v : ThreadId} {conn : ℕ} {f : Conn → Server}
    (hf : ∀ c, s.conns[conn]? = some c → (f c).calls v = s.calls v) :
    (s.withConn conn f).calls v = s.calls v :=
  withConn_cases (P := fun r => r.calls v = s.calls v) rfl hf

theorem calls_handleRead {s : Server} {t v : ThreadId} (hv : v ≠ t) (conn : ℕ) (c : Conn)
    (readv : List ℕ → SocketBuffer.ReadvAnswer) :
    (s.handleRead t conn c readv).calls v = s.calls v := by
  unfold Server.handleRead
  split
  · next buffer n _ =>
      rcases n with ⟨_ | n⟩ | errno
      · exact calls_call hv _
      · exact calls_call hv _
      · exact calls_call hv _
  · rfl

/-- A call changes what its own thread has to call, and the functors. -/
theorem calls_execute {s : Server} {t v : ThreadId} (hv : v ≠ t) (kernel : Kernel) (head : Call) :
    (s.execute t kernel head).calls v = s.calls v := by
  cases head with
  | listen | userCode => rfl
  | newConnection sockfd => exact calls_call hv _
  | postEstablished conn => exact calls_withConn fun c _ => calls_postInLoop hv _ _
  | removeConnection conn => exact calls_postInLoop hv _ _
  | removeConnectionInLoop conn => exact calls_withConn fun c _ => rfl
  | connectEstablished conn | connectDestroyed conn | sendInLoop conn data | shutdownInLoop conn
  | handleClose conn | handleError conn => exact calls_withConn fun c _ => calls_settle hv _ _ _
  | handleRead conn => exact calls_withConn fun c _ => calls_handleRead hv _ _ _
  | handleWrite conn =>
      refine calls_withConn fun c _ => ?_
      unfold Server.handleWrite
      split
      · exact calls_settle hv _ _ _
      · rfl
  | callback callback held =>
      dsimp only [Server.execute]
      split_ifs
      · exact calls_call hv _
      · rfl
  | closeCallback conn held =>
      refine calls_withConn fun c _ => ?_
      split_ifs
      · exact calls_call hv _
      · exact calls_call hv _
      · rfl

theorem calls_postDestroyed {s : Server} {t v : ThreadId} (hv : v ≠ t) (conns : List ℕ) :
    (s.postDestroyed t conns).calls v = s.calls v := by
  unfold Server.postDestroyed
  induction conns generalizing s with
  | nil => rfl
  | cons i conns ih =>
      rw [List.foldl_cons]
      exact ih.trans (calls_withConn fun c _ => calls_postInLoop hv _ _)

/-- The thread-init callbacks are called on the threads of the pool, or on the
starting one. -/
theorem calls_initThreads {s : Server} {t : ThreadId} (ht : .loop .base ≠ t) (first : ℕ) :
    (s.initThreads t first).calls (.loop .base) = s.calls (.loop .base) := by
  have hfold : ∀ (indices : List ℕ) (calls : List Call) (s : Server),
      (indices.foldl (fun s i => s.call (.loop (.io i)) calls) s).calls (.loop .base) =
        s.calls (.loop .base) := by
    intro indices calls
    induction indices with
    | nil => exact fun _ => rfl
    | cons i indices ih => exact fun s => (ih _).trans (calls_call (by simp) _)
  unfold Server.initThreads
  dsimp only
  split_ifs
  · exact calls_call ht _
  · exact hfold ..
  · rfl

/-- Other threads leave alone what the base loop's has to call. -/
theorem calls_step {s u : Server} {a : Action} (ht : step s a = some u)
    (ha : actor a ≠ some (.loop .base)) : u.calls (.loop .base) = s.calls (.loop .base) := by
  have hne : ∀ t, actor a = some t → .loop .base ≠ t := fun t h he => ha (he ▸ h)
  cases a with
  | poll target events =>
      simp only [step, Option.ite_none_right_eq_some, Option.some.injEq] at ht
      obtain ⟨-, rfl⟩ := ht
      exact calls_call (hne _ rfl) _
  | swap target =>
      simp only [step, Option.ite_none_right_eq_some, Option.some.injEq] at ht
      obtain ⟨-, rfl⟩ := ht
      rfl
  | next target =>
      simp only [step] at ht
      split at ht
      · cases ht
        exact calls_call (hne _ rfl) _
      · cases ht
  | exec t kernel =>
      obtain ⟨head, calls, -, -, rfl⟩ := step_exec ht
      rw [calls_execute (hne _ rfl)]
      exact Function.update_of_ne (hne _ rfl) ..
  | leave t =>
      simp only [step] at ht
      split at ht
      · cases ht
        exact Function.update_of_ne (hne _ rfl) ..
      · cases ht
  | send t conn buf =>
      simp only [step, Option.ite_none_right_eq_some, Option.some.injEq] at ht
      obtain ⟨-, rfl⟩ := ht
      refine calls_withConn fun c _ => ?_
      split_ifs
      · exact calls_postInLoop (hne _ rfl) _ _
      · rfl
  | shutdown t conn =>
      simp only [step, Option.ite_none_right_eq_some, Option.some.injEq] at ht
      obtain ⟨-, rfl⟩ := ht
      refine calls_withConn fun c _ => ?_
      split_ifs
      · exact calls_postInLoop (hne _ rfl) _ _
      · rfl
  | start t =>
      simp only [step, Option.ite_none_right_eq_some, Option.some.injEq] at ht
      obtain ⟨-, rfl⟩ := ht
      unfold Server.start
      split_ifs
      · exact (calls_initThreads (hne _ rfl) _).trans (calls_postInLoop (hne _ rfl) _ _)
      · rfl
  | destroy t =>
      simp only [step, Option.ite_none_right_eq_some, Option.some.injEq] at ht
      obtain ⟨-, rfl⟩ := ht
      exact calls_postDestroyed (hne _ rfl) _
  | setCallback callback =>
      cases ht
      rfl
  | useInput conn left | setConnectionCallback conn | setMessageCallback conn
  | setWriteCompleteCallback conn | setHighWaterMarkCallback conn mark | setCloseCallback conn =>
      cases ht
      exact calls_withConn fun c _ => rfl

/-- A thread with an urgent call in front makes it. -/
theorem step_imminent {s u : Server} {a : Action} {t : ThreadId} (ht : step s a = some u)
    (ha : actor a = some t) {call : Call} (hurgent : urgent call = true) {calls : List Call}
    (hcalls : s.calls t = call :: calls) : u.log = (t, call) :: s.log := by
  have huser : s.inUserCode t = false := by
    rw [Server.inUserCode, hcalls]
    cases call with
    | userCode => cases hurgent
    | _ => rfl
  cases a with
  | exec t' kernel =>
      cases ha
      obtain ⟨head, rest, hhead, -, rfl⟩ := step_exec ht
      rw [hcalls] at hhead
      cases hhead
      exact execute_log ..
  | poll target events | swap target =>
      cases ha
      simp [step, Server.idle, hcalls] at ht
  | next target =>
      cases ha
      simp [step, hcalls] at ht
  | leave t' =>
      cases ha
      cases call with
      | userCode => cases hurgent
      | _ => simp [step, hcalls] at ht
  | send t' _ _ | shutdown t' _ | start t' | destroy t' =>
      cases ha
      simp [step, huser] at ht
  | useInput _ _ | setCallback _ | setConnectionCallback _ | setMessageCallback _
  | setWriteCompleteCallback _ | setHighWaterMarkCallback _ _ | setCloseCallback _ => cases ha

theorem mem_enlist {t : Option ThreadId} {loop : LoopId} {posted rest : List Call} {call : Call} :
    call ∈ enlist t loop posted rest ↔ call ∈ posted ∨ call ∈ rest := by
  unfold enlist
  split_ifs
  · simp
  · simp [or_comm]

/-- An urgent call is scheduled once. -/
theorem count_urgent {s : Server} (h : Standing s) {call : Call} (hurgent : urgent call = true)
    (loop : LoopId) : (s.agenda loop).count call ≤ 1 := by
  cases call with
  | postEstablished conn =>
      rw [h.posted]
      split_ifs <;> decide
  | connectEstablished conn =>
      rw [h.established]
      split_ifs <;> decide
  | _ => cases hurgent

/-- Urgent calls are posted to the base loop by its own thread, which has them in
front. -/
theorem front_of_posted {s u : Server} {a : Action} (h : Standing s) (ht : step s a = some u)
    {call : Call} (hurgent : urgent call = true) (hposted : call ∈ posts s .base a) :
    ∃ calls, u.calls (.loop .base) = call :: calls := by
  cases mem_posts hposted with
  | start t => cases hurgent
  | destroy t _ => cases hurgent
  | @newConnection kernel sockfd calls hcalls =>
      simp only [step, hcalls, Option.some.injEq] at ht
      subst ht
      refine ⟨calls, ?_⟩
      simp [Server.execute, Server.newConnection, Server.call, Server.setCalls, Server.made,
        Server.addConnection]
  | @postEstablished t kernel conn calls hcalls howner =>
      obtain rfl := h.base hcalls (.inr ⟨conn, rfl⟩)
      obtain ⟨c, hc, hloop⟩ := Option.map_eq_some_iff.mp howner
      simp only [step, hcalls, Option.some.injEq] at ht
      subst ht
      refine ⟨calls, ?_⟩
      have hc' : (s.made (.loop .base) (.postEstablished conn) calls).conns[conn]? = some c := hc
      rw [Server.execute, withConn_eq hc', Server.postEstablished, Server.postInLoop,
        if_pos hloop.symm]
      simp [Server.call, Server.setCalls, Server.made]

theorem imminent_step {s u : Server} {a : Action} (h : Standing s) (hi : Imminent s)
    (ht : step s a = some u) : Imminent u := by
  intro call hurgent hmem
  obtain ⟨head, rest, htodo, -, hnow⟩ := h.moves ht .base
  rw [hnow] at hmem
  rcases mem_enlist.mp hmem with hposted | hrest
  · exact front_of_posted h ht hurgent hposted
  · have hold : call ∈ s.todo .base := htodo ▸ List.mem_append_right _ hrest
    obtain ⟨calls, hcalls⟩ := hi call hurgent hold
    by_cases ha : actor a = some (.loop .base)
    · have hkind : scheduled call = true := (List.mem_filter.mp hold).2
      have hmade : call ∈ u.done .base := by
        rw [mem_done, step_imminent ht ha hurgent hcalls]
        exact ⟨List.mem_cons_self .., hkind⟩
      have hstill : call ∈ u.todo .base := hnow ▸ mem_enlist.mpr (.inr hrest)
      exact absurd hmade (not_done_of_todo (count_urgent (step_standing s a u h ht) hurgent .base)
        hstill)
    · exact ⟨calls, (calls_step ht ha).trans hcalls⟩

/-- The destructor runs outside the loops of the pool, and on a thread of the
user's not between the insertion of a connection and the end of its
`newConnection`. -/
def DestroyedOutside (s : Server) : Action → Prop
  | .destroy (.loop (.io _)) => False
  | .destroy (.user _) => ∀ call ∈ s.calls (.loop .base), ∀ conn, call ≠ .postEstablished conn
  | _ => True

def isPostEstablished : Call → Bool
  | .postEstablished _ => true
  | _ => false

theorem forall_ne_postEstablished {call : Call} :
    (∀ conn, call ≠ .postEstablished conn) ↔ isPostEstablished call = false := by
  cases call <;> simp [isPostEstablished]

instance (s : Server) : (a : Action) → Decidable (DestroyedOutside s a)
  | .destroy (.loop (.io _)) => isFalse id
  | .destroy (.user _) =>
      decidable_of_iff (∀ call ∈ s.calls (.loop .base), isPostEstablished call = false)
        (forall₂_congr fun _ _ => forall_ne_postEstablished.symm)
  | .destroy (.loop .base) | .poll _ _ | .swap _ | .next _ | .exec _ _ | .leave _ | .send _ _ _
  | .shutdown _ _ | .start _ | .useInput _ _ | .setCallback _ | .setConnectionCallback _
  | .setMessageCallback _ | .setWriteCompleteCallback _ | .setHighWaterMarkCallback _ _
  | .setCloseCallback _ => isTrue trivial

/-- An urgent call keeps the base loop's thread from the user's code. -/
theorem Imminent.not_destroyed {s u : Server} (hi : Imminent s) {call : Call}
    (hurgent : urgent call = true) (htodo : call ∈ s.todo .base) :
    step s (.destroy (.loop .base)) ≠ some u := by
  intro ht
  obtain ⟨calls, hcalls⟩ := hi call hurgent htodo
  have hlog := step_imminent ht rfl hurgent hcalls
  rw [step_log_eq ht (by simp)] at hlog
  exact List.cons_ne_self _ _ hlog.symm

/-- Where the destructor may run, the establishments have been posted. -/
theorem posted_of_destroyed {s u : Server} {t : ThreadId} (h : Standing s) (hi : Imminent s)
    (hd : DestroyedOutside s (.destroy t)) (ht : step s (.destroy t) = some u) {conn : ℕ}
    {loop : LoopId} (howner : s.owner conn = some (.loop loop)) : Posted s conn := by
  have hlt : conn < s.conns.length := by
    by_contra hout
    rw [owner_none (Nat.not_lt.mp hout)] at howner
    cases howner
  have hagenda : .postEstablished conn ∈ s.agenda .base := by
    rw [← List.count_pos_iff, h.posted, if_pos ⟨hlt, rfl⟩]
    exact Nat.one_pos
  refine (List.mem_append.mp hagenda).resolve_right fun htodo => ?_
  rcases t with (_ | i) | number
  · exact hi.not_destroyed rfl htodo ht
  · exact hd
  · obtain ⟨calls, hcalls⟩ := hi _ rfl htodo
    exact hd _ (hcalls ▸ List.mem_cons_self ..) conn rfl

/-- A connection whose establishment has been posted is established or to be so. -/
theorem established_mem {s : Server} (h : Standing s) {loop : LoopId} {conn : ℕ}
    (howner : s.owner conn = some (.loop loop)) (hposted : Posted s conn) :
    .connectEstablished conn ∈ s.agenda loop := by
  rw [← List.count_pos_iff, h.established, if_pos ⟨howner, hposted⟩]
  exact Nat.one_pos

theorem owner_of_tabledOn {s : Server} {loop : LoopId} {conn : ℕ} (h : conn ∈ s.tabledOn loop) :
    s.owner conn = some (.loop loop) := by
  obtain ⟨c, hc, hl⟩ := (Option.any_eq_true ..).mp (List.mem_filter.mp h).2
  rw [owner_eq hc, of_decide_eq_true hl]

theorem ordered_step {s u : Server} {a : Action} (h : Standing s) (hi : Imminent s)
    (ho : Ordered s) (hd : DestroyedOutside s a) (ht : step s a = some u) : Ordered u := by
  intro loop conn
  obtain ⟨head, rest, htodo, hdone, hnow⟩ := h.moves ht loop
  have hbefore : s.agenda loop = (s.done loop ++ head) ++ rest := by
    rw [Server.agenda, htodo, List.append_assoc]
  have hafter : u.agenda loop =
      (s.done loop ++ head) ++ enlist (poster a) loop (posts s loop a) rest := by
    rw [Server.agenda, hdone, hnow]
  have hold := ho loop conn
  rw [hbefore] at hold
  rw [hafter]
  -- A destruction is posted for connections whose establishment has been, by now.
  have hest : .connectDestroyed conn ∈ posts s loop a → (∃ t, a = .destroy t) ∧
      .connectEstablished conn ∈ (s.done loop ++ head) ++ rest := by
    intro hmem
    rw [← hbefore]
    cases mem_posts hmem with
    | destroy t hin =>
        have howner := owner_of_tabledOn hin
        exact ⟨⟨t, rfl⟩, established_mem h howner (posted_of_destroyed h hi hd ht howner)⟩
  unfold enlist
  split_ifs with hposter
  · refine not_mem_takeWhile_insert hold fun hmem => ?_
    obtain ⟨⟨t, rfl⟩, hin⟩ := hest (List.mem_reverse.mp hmem)
    cases hposter
    refine (List.mem_append.mp hin).resolve_right fun hrest => ?_
    -- Only the base loop is left, whose thread does not come to the user's code yet.
    cases loop with
    | io i => exact hd
    | base =>
        have hwaits : .connectEstablished conn ∈ s.todo .base :=
          htodo ▸ List.mem_append_right _ hrest
        exact hi.not_destroyed rfl hwaits ht
  · rw [← List.append_assoc]
    exact not_mem_takeWhile_append hold fun hmem => (hest hmem).2

/-- What has been said of the calls, where each belongs, and their order. -/
structure Settled (s : Server) : Prop where
  standing : Standing s
  imminent : Imminent s
  ordered : Ordered s

theorem step_settled (s : Server) (a : Action) (u : Server) (h : Settled s)
    (hd : DestroyedOutside s a) (ht : step s a = some u) : Settled u :=
  ⟨step_standing s a u h.standing ht, imminent_step h.standing h.imminent ht,
    ordered_step h.standing h.imminent h.ordered hd ht⟩

/-- In every interleaving in which no thread of the pool runs the destructor, and
none of the user's while a `newConnection` is under way, every connection is
established before it is destroyed. -/
theorem established_first (name : String) {ipPort : String} (hip : ipPort.length ≤ 21)
    (threadNum : ℕ) (callbacks : Callback → Bool) {actions : List Action}
    (h : Meets step DestroyedOutside (Server.create name ipPort threadNum callbacks) actions) :
    Throughout step Ordered (Server.create name ipPort threadNum callbacks) actions := by
  have hstart : Settled (Server.create name ipPort threadNum callbacks) := by
    refine ⟨create_standing name hip threadNum callbacks, ?_, ?_⟩
    · intro call _ hmem
      cases hmem
    · intro loop conn hmem
      cases hmem
  exact throughout_of_meets step_settled (fun _ hs => hs.ordered) hstart h

/-- A server with one loop besides the base loop's. -/
def server : Server := Server.create "echoserver" "0.0.0.0:8888" 1 fun callback =>
  callback = .connection ∨ callback = .message

/-- It is started twice, and a client connects. -/
def accepting : List Action :=
  [.start (.loop .base), .start (.user 0), .exec (.loop .base) .blocked,
    .poll .base [.accept 5], .exec (.loop .base) .blocked, .exec (.loop .base) .blocked]

/-- A thread of the user's destroys the server before the connection is established. -/
def destroyedEarly : List Action :=
  accepting ++ [.destroy (.user 0), .swap (.io 0), .next (.io 0), .exec (.loop (.io 0)) .blocked]

theorem established_first_destroyedEarly : Throughout step Ordered server destroyedEarly :=
  established_first "echoserver" (by decide) 1 _ (by decide +kernel)

/-- The thread of the connection's loop does so. -/
example : ∃ s ∈ run step server (accepting ++ [.destroy (.loop (.io 0))]),
    s.agenda (.io 0) = [.connectDestroyed 0, .connectEstablished 0] := by decide +kernel

/-- A thread of the user's does so before the end of `newConnection`. -/
example : ∃ s ∈ run step server
    (accepting.dropLast ++ [.destroy (.user 0), .exec (.loop .base) .blocked]),
    s.agenda (.io 0) = [.connectDestroyed 0, .connectEstablished 0] := by decide +kernel

end Netmux.EstablishedFirst
