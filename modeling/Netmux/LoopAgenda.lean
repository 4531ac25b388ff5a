import Netmux.ThreadConfinement

/-!
# What a loop's thread has on its agenda

Four kinds of call are scheduled for good: the acceptor's `listen`, the end of
`newConnection`, and the establishment and destruction of a connection. A thread
makes its calls in one order: those called on the spot, then what is left of its
batch, then the functors pending. Scheduled calls enter this order in front when
the thread posts them to its own loop, and at the end otherwise; they leave it one
by one as they are made.
-/
namespace Netmux.ServerThreads
open SocketBuffer TcpConnection
open TcpServer (LoopId)

def scheduled : Call → Bool
  | .listen | .postEstablished _ | .connectEstablished _ | .connectDestroyed _ => true
  | .newConnection _ | .removeConnection _ | .removeConnectionInLoop _ | .sendInLoop _ _
  | .shutdownInLoop _ | .handleRead _ | .handleWrite _ | .handleClose _ | .handleError _
  | .callback _ _ | .closeCallback _ _ | .userCode => false

/-- The scheduled calls that the thread of a loop has still to make, in its order. -/
def Server.todo (s : Server) (loop : LoopId) : List Call :=
  (s.calls (.loop loop) ++ ((s.loops loop).batch ++ (s.loops loop).pendingFunctors)).filter
    scheduled

/-- Those it has made, oldest first. -/
def Server.done (s : Server) (loop : LoopId) : List Call :=
  (((s.log.filter fun e => e.1 = .loop loop).map Prod.snd).filter scheduled).reverse

def Server.agenda (s : Server) (loop : LoopId) : List Call := s.done loop ++ s.todo loop

/-- Posted by a thread to a loop, one call after the other. -/
def enlist (t : Option ThreadId) (loop : LoopId) (posts rest : List Call) : List Call :=
  if t = some (.loop loop) then posts.reverse ++ rest else rest ++ posts

theorem enlist_nil (t : Option ThreadId) (loop : LoopId) (rest : List Call) :
    enlist t loop [] rest = rest := by
  unfold enlist
  split_ifs
  · rfl
  · exact List.append_nil rest

theorem enlist_append (t : Option ThreadId) (loop : LoopId) (posts more rest : List Call) :
    enlist t loop (posts ++ more) rest = enlist t loop more (enlist t loop posts rest) := by
  unfold enlist
  split_ifs
  · rw [List.reverse_append, List.append_assoc]
  · rw [List.append_assoc]

theorem count_enlist (t : Option ThreadId) (loop : LoopId) (posts rest : List Call) (call : Call) :
    (enlist t loop posts rest).count call = posts.count call + rest.count call := by
  unfold enlist
  split_ifs
  · rw [List.count_append, List.count_reverse]
  · rw [List.count_append, Nat.add_comm]

theorem todo_congr {s u : Server} (hcalls : u.calls = s.calls) (hloops : u.loops = s.loops)
    (loop : LoopId) : u.todo loop = s.todo loop := by
  unfold Server.todo
  rw [hcalls, hloops]

theorem done_congr {s u : Server} (hlog : u.log = s.log) (loop : LoopId) :
    u.done loop = s.done loop := by
  unfold Server.done
  rw [hlog]

theorem todo_setCalls_of_ne (s : Server) {t : ThreadId} {loop : LoopId} (h : t ≠ .loop loop)
    (calls : List Call) : (s.setCalls t calls).todo loop = s.todo loop := by
  simp only [Server.todo, Server.setCalls, Function.update_of_ne h.symm]

theorem todo_call (s : Server) (t : ThreadId) (calls : List Call) (loop : LoopId) :
    (s.call t calls).todo loop =
      if t = .loop loop then calls.filter scheduled ++ s.todo loop else s.todo loop := by
  split_ifs with h
  · subst h
    simp only [Server.todo, Server.call, Server.setCalls, Function.update_self, List.append_assoc,
      List.filter_append]
  · exact todo_setCalls_of_ne s h _

/-- Calls of other kinds do not matter. -/
theorem todo_call_unscheduled (s : Server) (t : ThreadId) {calls : List Call}
    (h : calls.filter scheduled = []) (loop : LoopId) :
    (s.call t calls).todo loop = s.todo loop := by
  rw [todo_call, h]
  exact ite_self _

theorem todo_queueInLoop (s : Server) (target : LoopId) (functors : List Call) (loop : LoopId) :
    (s.queueInLoop target functors).todo loop =
      if target = loop then s.todo loop ++ functors.filter scheduled else s.todo loop := by
  unfold Server.todo Server.queueInLoop Server.setLoop
  split_ifs with h
  · subst h
    simp only [Function.update_self, ← List.append_assoc, List.filter_append]
  · simp only [Function.update_of_ne (Ne.symm h)]

theorem todo_queueInLoop_unscheduled (s : Server) (target : LoopId) {functors : List Call}
    (h : functors.filter scheduled = []) (loop : LoopId) :
    (s.queueInLoop target functors).todo loop = s.todo loop := by
  rw [todo_queueInLoop, h, List.append_nil]
  exact ite_self _

theorem todo_postInLoop (s : Server) (t : ThreadId) (target : LoopId) (functor : Call)
    (loop : LoopId) : (s.postInLoop t target functor).todo loop =
      enlist (some t) loop (if target = loop then [functor].filter scheduled else [])
        (s.todo loop) := by
  unfold Server.postInLoop
  by_cases ht : t = .loop target
  · rw [if_pos ht, todo_call]
    by_cases hl : target = loop
    · subst hl
      rw [if_pos ht, if_pos rfl]
      unfold enlist
      rw [if_pos (congrArg some ht)]
      cases hs : scheduled functor <;> simp [List.filter, hs]
    · have hne : t ≠ .loop loop := by
        rw [ht]
        exact fun h => hl (ThreadId.loop.inj h)
      rw [if_neg hne, if_neg hl, enlist_nil]
  · rw [if_neg ht, todo_queueInLoop]
    by_cases hl : target = loop
    · subst hl
      rw [if_pos rfl, if_pos rfl]
      unfold enlist
      rw [if_neg fun h => ht (Option.some.inj h)]
    · rw [if_neg hl, if_neg hl, enlist_nil]

/-- A poller, or whether the acceptor is watched, does not matter. -/
theorem todo_setLoop {s : Server} {target : LoopId} {l : LoopState}
    (hbatch : l.batch = (s.loops target).batch)
    (hpending : l.pendingFunctors = (s.loops target).pendingFunctors) (loop : LoopId) :
    (s.setLoop target l).todo loop = s.todo loop := by
  unfold Server.todo Server.setLoop
  by_cases h : loop = target
  · subst h
    simp only [Function.update_self, hbatch, hpending]
  · simp only [Function.update_of_ne h]

theorem filter_callsOf (conn : ℕ) (c : Connection) (effects : List Effect) :
    (effects.flatMap (callsOf conn c)).filter scheduled = [] := by
  rw [List.filter_eq_nil_iff]
  intro call hcall
  obtain ⟨effect, -, hmem⟩ := List.mem_flatMap.mp hcall
  cases effect with
  | connectionCallback _ | messageCallback | closeCallback =>
      rw [List.mem_singleton.mp hmem]
      exact Bool.false_ne_true
  | queueWriteComplete | queueHighWaterMark _ | queueSendInLoop _ | queueShutdownInLoop
  | accepted _ | shutdownWrite => cases hmem

theorem filter_functorsOf (c : Connection) (effects : List Effect) :
    (effects.flatMap (functorsOf c)).filter scheduled = [] := by
  rw [List.filter_eq_nil_iff]
  intro call hcall
  obtain ⟨effect, -, hmem⟩ := List.mem_flatMap.mp hcall
  cases effect with
  | queueWriteComplete | queueHighWaterMark _ =>
      rw [List.mem_singleton.mp hmem]
      exact Bool.false_ne_true
  | connectionCallback _ | messageCallback | closeCallback | queueSendInLoop _
  | queueShutdownInLoop | accepted _ | shutdownWrite => cases hmem

/-- The methods of a connection schedule nothing. -/
theorem todo_settle (s : Server) (t : ThreadId) (conn : ℕ) (c : Conn) (r : Site × List Effect)
    (loop : LoopId) : (s.settle t conn c r).todo loop = s.todo loop := by
  unfold Server.settle
  dsimp only
  rw [todo_call_unscheduled _ _ (filter_callsOf ..),
    todo_queueInLoop_unscheduled _ _ (filter_functorsOf ..)]
  exact (todo_setLoop (by rfl) (by rfl) loop).trans (todo_congr rfl rfl loop)

theorem todo_withConn {s : Server} {conn : ℕ} {f : Conn → Server} {loop : LoopId}
    (hf : ∀ c, s.conns[conn]? = some c → (f c).todo loop = s.todo loop) :
    (s.withConn conn f).todo loop = s.todo loop :=
  withConn_cases (P := fun r => r.todo loop = s.todo loop) rfl hf

theorem todo_handleRead (s : Server) (t : ThreadId) (conn : ℕ) (c : Conn)
    (readv : List ℕ → ReadvAnswer) (loop : LoopId) :
    (s.handleRead t conn c readv).todo loop = s.todo loop := by
  unfold Server.handleRead
  split
  · next buffer n _ =>
      rcases n with ⟨_ | n⟩ | errno
      · exact (todo_call_unscheduled _ t rfl loop).trans (todo_congr rfl rfl loop)
      · exact (todo_call_unscheduled _ t rfl loop).trans (todo_congr rfl rfl loop)
      · exact (todo_call_unscheduled _ t rfl loop).trans (todo_congr rfl rfl loop)
  · rfl

/-- What a call on a thread schedules for a loop: `newConnection` its own end, and
that the establishment. -/
def postsOf (s : Server) (t : ThreadId) (loop : LoopId) : Call → List Call
  | .newConnection _ => if t = .loop loop then [.postEstablished s.conns.length] else []
  | .postEstablished conn =>
      if s.owner conn = some (.loop loop) then [.connectEstablished conn] else []
  | _ => []

theorem todo_postEstablished (s : Server) (t : ThreadId) (conn : ℕ) (loop : LoopId) :
    (s.withConn conn (s.postEstablished t conn)).todo loop =
      enlist (some t) loop
        (if s.owner conn = some (.loop loop) then [.connectEstablished conn] else [])
        (s.todo loop) := by
  unfold Server.owner
  cases hc : s.conns[conn]? with
  | none =>
      rw [withConn_none hc]
      exact (enlist_nil ..).symm
  | some c =>
      rw [withConn_eq hc, Server.postEstablished, todo_postInLoop]
      have hsame : some (ThreadId.loop c.loop) = some (.loop loop) ↔ c.loop = loop := by simp
      simp only [Option.map_some, hsame]
      rfl

/-- What a call on a thread schedules, other than `removeConnectionInLoop`. -/
theorem todo_execute (s : Server) (t : ThreadId) (kernel : Kernel) (head : Call) (loop : LoopId)
    (hremove : ∀ conn, head ≠ .removeConnectionInLoop conn) :
    (s.execute t kernel head).todo loop =
      enlist (some t) loop (postsOf s t loop head) (s.todo loop) := by
  cases head with
  | newConnection sockfd =>
      show ((s.addConnection sockfd).call t [.postEstablished s.conns.length]).todo loop = _
      rw [todo_call, todo_congr (s := s) (u := s.addConnection sockfd) rfl rfl]
      unfold postsOf
      split_ifs with ht
      · rw [enlist, if_pos (congrArg some ht)]
        rfl
      · exact (enlist_nil ..).symm
  | postEstablished conn => exact todo_postEstablished ..
  | removeConnectionInLoop conn => exact absurd rfl (hremove conn)
  | removeConnection conn =>
      show (s.postInLoop t .base (.removeConnection conn)).todo loop = _
      rw [todo_postInLoop]
      congr 1
      exact ite_self _
  | listen =>
      refine Eq.trans ?_ (enlist_nil ..).symm
      exact todo_setLoop (by rfl) (by rfl) loop
  | callback callback held =>
      refine Eq.trans ?_ (enlist_nil ..).symm
      dsimp only [Server.execute]
      split_ifs
      · exact todo_call_unscheduled s t rfl loop
      · rfl
  | closeCallback conn held =>
      refine Eq.trans ?_ (enlist_nil ..).symm
      refine todo_withConn fun c _ => ?_
      split_ifs
      · exact todo_call_unscheduled s t rfl loop
      · exact todo_call_unscheduled s t rfl loop
      · rfl
  | handleRead conn =>
      refine Eq.trans ?_ (enlist_nil ..).symm
      exact todo_withConn fun c _ => todo_handleRead ..
  | handleWrite conn =>
      refine Eq.trans ?_ (enlist_nil ..).symm
      refine todo_withConn fun c _ => ?_
      unfold Server.handleWrite
      split
      · exact todo_settle ..
      · rfl
  | connectEstablished conn | connectDestroyed conn | sendInLoop conn data | shutdownInLoop conn
  | handleClose conn | handleError conn =>
      refine Eq.trans ?_ (enlist_nil ..).symm
      exact todo_withConn fun c _ => todo_settle ..
  | userCode => exact (enlist_nil ..).symm

/-- The connections of a loop that are in the table. -/
def Server.tabledOn (s : Server) (loop : LoopId) : List ℕ :=
  s.tabled.filter fun conn => s.conns[conn]?.any fun c => c.loop = loop

/-- What an action schedules for a loop, in the order in which it posts it. -/
def posts (s : Server) (loop : LoopId) : Action → List Call
  | .exec t _ =>
      match s.calls t with
      | call :: _ => postsOf s t loop call
      | [] => []
  | .start _ => if s.started = 0 ∧ loop = .base then [.listen] else []
  | .destroy _ => (s.tabledOn loop).map .connectDestroyed
  | _ => []

/-- The ways in which an action schedules a call. -/
inductive Schedules (s : Server) (loop : LoopId) : Action → Call → Prop
  | start (t : ThreadId) : Schedules s loop (.start t) .listen
  | newConnection {kernel : Kernel} {sockfd : ℕ} {calls : List Call} :
      s.calls (.loop loop) = .newConnection sockfd :: calls →
      Schedules s loop (.exec (.loop loop) kernel) (.postEstablished s.conns.length)
  | postEstablished {t : ThreadId} {kernel : Kernel} {conn : ℕ} {calls : List Call} :
      s.calls t = .postEstablished conn :: calls → s.owner conn = some (.loop loop) →
      Schedules s loop (.exec t kernel) (.connectEstablished conn)
  | destroy (t : ThreadId) {conn : ℕ} : conn ∈ s.tabledOn loop →
      Schedules s loop (.destroy t) (.connectDestroyed conn)

theorem mem_posts {s : Server} {loop : LoopId} {a : Action} {call : Call}
    (h : call ∈ posts s loop a) : Schedules s loop a call := by
  cases a with
  | start t =>
      simp only [posts] at h
      split_ifs at h
      · rw [List.mem_singleton.mp h]
        exact .start t
      · cases h
  | destroy t =>
      obtain ⟨conn, hconn, rfl⟩ := List.mem_map.mp h
      exact .destroy t hconn
  | exec t kernel =>
      simp only [posts] at h
      split at h
      · next head calls hcalls =>
          cases head with
          | newConnection sockfd =>
              simp only [postsOf] at h
              split_ifs at h with ht
              · subst ht
                rw [List.mem_singleton.mp h]
                exact .newConnection hcalls
              · cases h
          | postEstablished conn =>
              simp only [postsOf] at h
              split_ifs at h with howner
              · rw [List.mem_singleton.mp h]
                exact .postEstablished hcalls howner
              · cases h
          | _ => cases h
      · cases h
  | poll _ _ | swap _ | next _ | leave _ | send _ _ _ | shutdown _ _ | useInput _ _ | setCallback _
  | setConnectionCallback _ | setMessageCallback _ | setWriteCompleteCallback _
  | setHighWaterMarkCallback _ _ | setCloseCallback _ => cases h

/-- The thread that posts it. -/
def poster : Action → Option ThreadId
  | .exec t _ | .start t | .destroy t => some t
  | _ => none

/-- From one state to the next a thread makes its first calls and gets some more. -/
def Moves (s u : Server) (loop : LoopId) (t : Option ThreadId) (posts : List Call) : Prop :=
  ∃ head rest, s.todo loop = head ++ rest ∧ u.done loop = s.done loop ++ head ∧
    u.todo loop = enlist t loop posts rest

/-- No call is made. -/
theorem Moves.of_still {s u : Server} {loop : LoopId} {t : Option ThreadId} {posts : List Call}
    (hlog : u.log = s.log) (htodo : u.todo loop = enlist t loop posts (s.todo loop)) :
    Moves s u loop t posts :=
  ⟨[], s.todo loop, rfl, (done_congr hlog loop).trans (List.append_nil _).symm, htodo⟩

/-- Nothing is scheduled or made. -/
theorem Moves.of_same {s u : Server} {loop : LoopId} {t : Option ThreadId} (hlog : u.log = s.log)
    (htodo : u.todo loop = s.todo loop) : Moves s u loop t [] :=
  .of_still hlog (htodo.trans (enlist_nil ..).symm)

theorem todo_postInLoop_unscheduled (s : Server) (t : ThreadId) (target : LoopId) {functor : Call}
    (h : scheduled functor = false) (loop : LoopId) :
    (s.postInLoop t target functor).todo loop = s.todo loop := by
  rw [todo_postInLoop]
  have hnone : [functor].filter scheduled = [] := by simp [h]
  rw [hnone, ite_self, enlist_nil]

theorem todo_foldl_call (indices : List ℕ) {calls : List Call} (h : calls.filter scheduled = [])
    (s : Server) (loop : LoopId) :
    (indices.foldl (fun s i => s.call (.loop (.io i)) calls) s).todo loop = s.todo loop := by
  induction indices generalizing s with
  | nil => rfl
  | cons i indices ih => exact (ih _).trans (todo_call_unscheduled s _ h loop)

theorem todo_initThreads (s : Server) (t : ThreadId) (first : ℕ) (loop : LoopId) :
    (s.initThreads t first).todo loop = s.todo loop := by
  unfold Server.initThreads
  dsimp only
  split_ifs
  · exact todo_call_unscheduled s t rfl loop
  · exact todo_foldl_call _ rfl s loop
  · rfl

theorem todo_start (s : Server) (t : ThreadId) (loop : LoopId) :
    (s.start t).todo loop =
      enlist (some t) loop (if s.started = 0 ∧ loop = .base then [.listen] else [])
        (s.todo loop) := by
  unfold Server.start
  by_cases h : s.started = 0
  · rw [if_pos h, todo_initThreads, todo_postInLoop]
    have hposts : (if LoopId.base = loop then [Call.listen].filter scheduled else []) =
        if s.started = 0 ∧ loop = .base then [.listen] else [] := by
      show (if LoopId.base = loop then [Call.listen] else []) = _
      simp only [h, true_and, eq_comm]
    rw [hposts]
    rfl
  · rw [if_neg h, if_neg fun hfirst => h hfirst.1, enlist_nil]
    rfl

/-- The destructor posts in the order of the table. -/
theorem todo_postDestroyed (conns : List ℕ) (s : Server) (t : ThreadId) (loop : LoopId) :
    (s.postDestroyed t conns).todo loop = enlist (some t) loop
      ((conns.filter fun conn => s.conns[conn]?.any fun c => c.loop = loop).map .connectDestroyed)
      (s.todo loop) := by
  unfold Server.postDestroyed
  induction conns generalizing s with
  | nil => exact (enlist_nil ..).symm
  | cons i conns ih =>
      rw [List.foldl_cons]
      cases hc : s.conns[i]? with
      | none =>
          rw [withConn_none hc, ih, List.filter_cons_of_neg]
          simp [hc]
      | some c =>
          have hposted : [Call.connectDestroyed i].filter scheduled = [.connectDestroyed i] := rfl
          rw [withConn_eq hc, ih, postInLoop_conns, todo_postInLoop, hposted]
          by_cases hl : c.loop = loop
          · rw [List.filter_cons_of_pos (by simp [hc, hl]), if_pos hl, List.map_cons]
            exact (enlist_append (some t) loop [.connectDestroyed i] _ _).symm
          · rw [List.filter_cons_of_neg (by simp [hc, hl]), if_neg hl, enlist_nil]

theorem filter_events (events : List Event) :
    (events.flatMap Event.calls).filter scheduled = [] := by
  rw [List.filter_eq_nil_iff]
  intro call hcall
  obtain ⟨event, -, hmem⟩ := List.mem_flatMap.mp hcall
  cases event with
  | accept sockfd =>
      rw [List.mem_singleton.mp hmem]
      exact Bool.false_ne_true
  | channel conn handlers =>
      obtain ⟨handler, -, rfl⟩ := List.mem_map.mp hmem
      cases handler with
      | read | write | close | error => exact Bool.false_ne_true

/-- A call that is made leaves the agenda's rest for what has been done. -/
theorem made_moves {s : Server} {t : ThreadId} {head : Call} {calls : List Call}
    (h : s.calls t = head :: calls) (loop : LoopId) :
    ∃ first, s.todo loop = first ++ (s.made t head calls).todo loop ∧
      (s.made t head calls).done loop = s.done loop ++ first := by
  by_cases ht : t = .loop loop
  · subst ht
    refine ⟨[head].filter scheduled, ?_, ?_⟩
    · simp only [Server.todo, Server.made, Server.setCalls, Function.update_self, h,
        ← List.filter_append, List.cons_append, List.nil_append]
    · cases hs : scheduled head <;> simp [Server.done, Server.made, Server.setCalls, hs]
  · refine ⟨[], (todo_setCalls_of_ne s ht calls).symm, ?_⟩
    simp [Server.done, Server.made, Server.setCalls, ht]

theorem step_exec {s u : Server} {t : ThreadId} {kernel : Kernel}
    (ht : step s (.exec t kernel) = some u) : ∃ head calls, s.calls t = head :: calls ∧
      head ≠ .userCode ∧ u = (s.made t head calls).execute t kernel head := by
  simp only [step] at ht
  split at ht
  · cases ht
  · cases ht
  · next head calls huser hcalls =>
      cases ht
      exact ⟨head, calls, hcalls, fun h => huser (h ▸ rfl), rfl⟩

/-- Only the execution of a call makes one. -/
theorem step_log_eq {s u : Server} {a : Action} (ht : step s a = some u)
    (ha : ∀ t kernel, a ≠ .exec t kernel) : u.log = s.log := by
  rcases step_cases ht with h | ⟨t, -, rfl⟩ | ⟨t, kernel, -, -, rfl, -, -⟩
  · exact h.log
  · exact (still_postDestroyed s.tabled s t).log
  · exact absurd rfl (ha t kernel)

/-- What a step does to the agenda of a loop's thread. -/
theorem step_moves {s u : Server} {a : Action} (ht : step s a = some u)
    (hremove : ∀ t conn calls, s.calls t ≠ .removeConnectionInLoop conn :: calls)
    (loop : LoopId) : Moves s u loop (poster a) (posts s loop a) := by
  have hlog := step_log_eq ht
  cases a with
  | poll target events =>
      simp only [step, Option.ite_none_right_eq_some, Option.some.injEq] at ht
      obtain ⟨-, rfl⟩ := ht
      exact .of_same rfl (todo_call_unscheduled s _ (filter_events events) loop)
  | swap target =>
      simp only [step, Option.ite_none_right_eq_some, Option.some.injEq] at ht
      obtain ⟨hidle, rfl⟩ := ht
      refine .of_same rfl ?_
      have hbatch : (s.loops target).batch = [] := by
        simp only [Server.idle, Bool.and_eq_true, List.isEmpty_iff] at hidle
        exact hidle.2
      by_cases hl : loop = target
      · subst hl
        simp [Server.todo, Server.setLoop, hbatch]
      · simp [Server.todo, Server.setLoop, hl]
  | next target =>
      simp only [step] at ht
      split at ht
      · next functor batch hcalls hbatch =>
          cases ht
          refine .of_same rfl ?_
          by_cases hl : loop = target
          · subst hl
            simp [Server.todo, Server.call, Server.setCalls, Server.setLoop, hcalls, hbatch]
          · simp [Server.todo, Server.call, Server.setCalls, Server.setLoop, hl]
      · cases ht
  | exec t kernel =>
      obtain ⟨head, calls, hcalls, -, rfl⟩ := step_exec ht
      have hhead : ∀ conn, head ≠ .removeConnectionInLoop conn := by
        rintro conn rfl
        exact hremove t conn calls hcalls
      obtain ⟨first, htodo, hdone⟩ := made_moves hcalls loop
      refine ⟨first, _, htodo, ?_, ?_⟩
      · rw [done_congr (execute_log ..), hdone]
      · rw [todo_execute _ _ _ _ _ hhead]
        simp only [posts, hcalls, poster]
        rfl
  | leave t =>
      simp only [step] at ht
      split at ht
      · next calls hcalls =>
          cases ht
          refine .of_same rfl ?_
          by_cases hl : t = .loop loop
          · subst hl
            simp [Server.todo, Server.setCalls, hcalls, scheduled]
          · exact todo_setCalls_of_ne s hl calls
      · cases ht
  | send t conn buf =>
      simp only [step, Option.ite_none_right_eq_some, Option.some.injEq] at ht
      obtain ⟨-, rfl⟩ := ht
      refine .of_same (hlog (by simp)) (todo_withConn fun c _ => ?_)
      split_ifs
      · exact todo_postInLoop_unscheduled s t _ rfl loop
      · rfl
  | shutdown t conn =>
      simp only [step, Option.ite_none_right_eq_some, Option.some.injEq] at ht
      obtain ⟨-, rfl⟩ := ht
      refine .of_same (hlog (by simp)) (todo_withConn fun c _ => ?_)
      split_ifs
      · exact (todo_postInLoop_unscheduled _ t _ rfl loop).trans (todo_congr rfl rfl loop)
      · rfl
  | start t =>
      simp only [step, Option.ite_none_right_eq_some, Option.some.injEq] at ht
      obtain ⟨-, rfl⟩ := ht
      exact .of_still (still_start s t).log (todo_start s t loop)
  | destroy t =>
      simp only [step, Option.ite_none_right_eq_some, Option.some.injEq] at ht
      obtain ⟨-, rfl⟩ := ht
      refine .of_still (still_postDestroyed s.tabled s t).log ?_
      show ((s.postDestroyed t s.tabled).setAccepts false).todo loop = _
      exact (todo_setLoop (by rfl) (by rfl) loop).trans (todo_postDestroyed ..)
  | setCallback callback =>
      cases ht
      exact .of_same rfl rfl
  | useInput conn left | setConnectionCallback conn | setMessageCallback conn
  | setWriteCompleteCallback conn | setHighWaterMarkCallback conn mark | setCloseCallback conn =>
      cases ht
      exact .of_same (hlog (by simp)) (todo_withConn fun c _ => todo_congr rfl rfl loop)

/-- Calls are made or still to be made as often as before, and once more for each
time they are scheduled. -/
theorem Moves.count {s u : Server} {loop : LoopId} {t : Option ThreadId} {posted : List Call}
    (h : Moves s u loop t posted) (call : Call) :
    (u.agenda loop).count call = (s.agenda loop).count call + posted.count call := by
  obtain ⟨head, rest, htodo, hdone, hnow⟩ := h
  unfold Server.agenda
  rw [htodo, hdone, hnow]
  simp only [List.count_append, count_enlist]
  omega

end Netmux.ServerThreads
