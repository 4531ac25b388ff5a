import Netmux.ServerThreads

/-!
# The calls that the threads of a server have to make

Which calls a step brings, and to which thread. Whether `postInLoop` calls at
once or queues, the functor ends up with the thread of the loop.
-/
namespace Netmux.ServerThreads
open SocketBuffer ChannelPoller TcpConnection
open TcpServer (LoopId)

/-- What the thread still has to call: on the spot, or as a functor of its loop. -/
def Server.Pending (s : Server) (t : ThreadId) (call : Call) : Prop :=
  call ∈ s.calls t ∨
    ∃ loop, t = .loop loop ∧ call ∈ (s.loops loop).batch ++ (s.loops loop).pendingFunctors

/-- The effects of a method that its loop runs on a connection. -/
def effectsOf (s : Server) (kernel : Kernel) (c : Conn) : Call → List Effect
  | .connectEstablished _ => (s.site c).connectEstablished.2
  | .connectDestroyed _ => (s.site c).connectDestroyed.2
  | .sendInLoop _ data => (c.connection.sendInLoop data kernel.write).2
  | .shutdownInLoop _ => c.connection.shutdownInLoop.2
  | .handleWrite _ => match c.connection.handleWrite kernel.write with
      | .ok r => r.2
      | .error _ => []
  | .handleClose _ => (s.site c).handleClose.2
  | .handleError _ => (s.site c).handleError.2
  | .listen | .newConnection _ | .postEstablished _ | .removeConnection _
  | .removeConnectionInLoop _ | .handleRead _ | .callback _ _ | .closeCallback _ _ | .userCode => []

/-- The connection that a method is called on. -/
def connOf : Call → Option ℕ
  | .connectEstablished conn | .connectDestroyed conn | .sendInLoop conn _
  | .shutdownInLoop conn | .handleRead conn | .handleWrite conn | .handleClose conn
  | .handleError conn => some conn
  | .listen | .newConnection _ | .postEstablished _ | .removeConnection _
  | .removeConnectionInLoop _ | .callback _ _ | .closeCallback _ _ | .userCode => none

/-- The calls that a call on a thread brings, and to which thread. -/
inductive Spawns (s : Server) (t : ThreadId) (kernel : Kernel) : Call → ThreadId → Call → Prop
  | newConnection (sockfd : ℕ) : Spawns s t kernel (.newConnection sockfd) t
      (.postEstablished s.conns.length)
  | postEstablished {conn : ℕ} {c : Conn} : s.conns[conn]? = some c →
      Spawns s t kernel (.postEstablished conn) (.loop c.loop) (.connectEstablished conn)
  | removeConnection (conn : ℕ) : Spawns s t kernel (.removeConnection conn) (.loop .base)
      (.removeConnection conn)
  | removeConnectionInLoop {conn : ℕ} {c : Conn} : s.conns[conn]? = some c →
      Spawns s t kernel (.removeConnectionInLoop conn) (.loop c.loop) (.connectDestroyed conn)
  | calls {head call : Call} {conn : ℕ} {c : Conn} : connOf head = some conn →
      s.conns[conn]? = some c →
      call ∈ (effectsOf s kernel c head).flatMap (callsOf conn c.connection) →
      Spawns s t kernel head t call
  | queues {head call : Call} {conn : ℕ} {c : Conn} : connOf head = some conn →
      s.conns[conn]? = some c →
      call ∈ (effectsOf s kernel c head).flatMap (functorsOf c.connection) →
      Spawns s t kernel head (.loop c.loop) call
  | readClose (conn : ℕ) : Spawns s t kernel (.handleRead conn) t (.handleClose conn)
  | readError (conn : ℕ) : Spawns s t kernel (.handleRead conn) t (.handleError conn)
  | message {conn : ℕ} {c : Conn} : s.conns[conn]? = some c → Spawns s t kernel (.handleRead conn) t
      (.callback .message c.connection.messageCallback)
  | callback (callback : Callback) : Spawns s t kernel (.callback callback true) t .userCode
  | close (conn : ℕ) : Spawns s t kernel (.closeCallback conn true) t (.removeConnection conn)
  | userClose (conn : ℕ) : Spawns s t kernel (.closeCallback conn true) t .userCode

/-- The calls that an action brings. -/
inductive Brings (s : Server) : Action → ThreadId → Call → Prop
  | poll {loop : LoopId} {events : List Event} {event : Event} {call : Call} : event ∈ events →
      s.watches loop event = true → call ∈ event.calls →
      Brings s (.poll loop events) (.loop loop) call
  | exec {t u : ThreadId} {kernel : Kernel} {head call : Call} {rest : List Call} :
      s.calls t = head :: rest → Spawns s t kernel head u call →
      Brings s (.exec t kernel) u call
  | send (t : ThreadId) {conn : ℕ} {c : Conn} (buf : Bytes) : s.conns[conn]? = some c →
      Brings s (.send t conn buf) (.loop c.loop) (.sendInLoop conn buf)
  | shutdown (t : ThreadId) {conn : ℕ} {c : Conn} : s.conns[conn]? = some c →
      Brings s (.shutdown t conn) (.loop c.loop) (.shutdownInLoop conn)
  | listen (t : ThreadId) : Brings s (.start t) (.loop .base) .listen
  | threadInit (t u : ThreadId) : s.callbacks .threadInit = true →
      Brings s (.start t) u (.callback .threadInit true)
  | destroy (t : ThreadId) {conn : ℕ} {c : Conn} : s.conns[conn]? = some c →
      Brings s (.destroy t) (.loop c.loop) (.connectDestroyed conn)

theorem Server.Pending.of_eq {s u : Server} (hcalls : u.calls = s.calls)
    (hloops : u.loops = s.loops)
    {t : ThreadId} {call : Call} (h : u.Pending t call) : s.Pending t call := by
  unfold Server.Pending at h ⊢
  rwa [hcalls, hloops] at h

theorem pending_setCalls {s : Server} {t u : ThreadId} {calls : List Call} {call : Call}
    (h : (s.setCalls t calls).Pending u call) : s.Pending u call ∨ (u = t ∧ call ∈ calls) := by
  rcases h with hcall | hqueued
  · by_cases hu : u = t
    · subst hu
      simp only [Server.setCalls, Function.update_self] at hcall
      exact .inr ⟨rfl, hcall⟩
    · simp only [Server.setCalls, Function.update_of_ne hu] at hcall
      exact .inl (.inl hcall)
  · exact .inl (.inr hqueued)

theorem pending_call {s : Server} {t u : ThreadId} {calls : List Call} {call : Call}
    (h : (s.call t calls).Pending u call) : s.Pending u call ∨ (u = t ∧ call ∈ calls) := by
  rcases pending_setCalls h with hold | ⟨rfl, hmem⟩
  · exact .inl hold
  · rcases List.mem_append.mp hmem with hnew | hold
    · exact .inr ⟨rfl, hnew⟩
    · exact .inl (.inl hold)

/-- A thread that is past a call has no other ones than before. -/
theorem pending_past {s : Server} {t u : ThreadId} {head call : Call} {calls : List Call}
    (hcalls : s.calls t = head :: calls) (h : (s.setCalls t calls).Pending u call) :
    s.Pending u call := by
  rcases pending_setCalls h with hold | ⟨rfl, hmem⟩
  · exact hold
  · left
    rw [hcalls]
    exact List.mem_cons_of_mem _ hmem

/-- A loop with other functors than before. -/
theorem pending_setLoop {s : Server} {loop : LoopId} {l : LoopState} {t : ThreadId} {call : Call}
    (h : (s.setLoop loop l).Pending t call) :
    s.Pending t call ∨ (t = .loop loop ∧ call ∈ l.batch ++ l.pendingFunctors) := by
  rcases h with hcall | ⟨other, rfl, hqueued⟩
  · exact .inl (.inl hcall)
  · by_cases ho : other = loop
    · subst ho
      simp only [Server.setLoop, Function.update_self] at hqueued
      exact .inr ⟨rfl, hqueued⟩
    · simp only [Server.setLoop, Function.update_of_ne ho] at hqueued
      exact .inl (.inr ⟨other, rfl, hqueued⟩)

theorem pending_setAccepts {s : Server} {accepts : Bool} {t : ThreadId} {call : Call}
    (h : (s.setAccepts accepts).Pending t call) : s.Pending t call := by
  rcases pending_setLoop h with hold | ⟨rfl, hmem⟩
  · exact hold
  · exact .inr ⟨.base, rfl, hmem⟩

theorem pending_queueInLoop {s : Server} {loop : LoopId} {functors : List Call} {t : ThreadId}
    {call : Call} (h : (s.queueInLoop loop functors).Pending t call) :
    s.Pending t call ∨ (t = .loop loop ∧ call ∈ functors) := by
  rcases pending_setLoop h with hold | ⟨rfl, hmem⟩
  · exact .inl hold
  · rw [← List.append_assoc] at hmem
    rcases List.mem_append.mp hmem with hqueued | hnew
    · exact .inl (.inr ⟨loop, rfl, hqueued⟩)
    · exact .inr ⟨rfl, hnew⟩

/-- At once or later, a posted functor is with the thread of its loop. -/
theorem pending_postInLoop {s : Server} {t u : ThreadId} {loop : LoopId} {functor call : Call}
    (h : (s.postInLoop t loop functor).Pending u call) :
    s.Pending u call ∨ (u = .loop loop ∧ call = functor) := by
  unfold Server.postInLoop at h
  split_ifs at h with ht
  · subst ht
    exact (pending_call h).imp_right fun hnew => ⟨hnew.1, List.mem_singleton.mp hnew.2⟩
  · exact (pending_queueInLoop h).imp_right fun hnew => ⟨hnew.1, List.mem_singleton.mp hnew.2⟩

theorem pending_settle {s : Server} {t u : ThreadId} {conn : ℕ} {c : Conn} {r : Site × List Effect}
    {call : Call} (h : (s.settle t conn c r).Pending u call) :
    s.Pending u call ∨ (u = t ∧ call ∈ r.2.flatMap (callsOf conn c.connection)) ∨
      (u = .loop c.loop ∧ call ∈ r.2.flatMap (functorsOf c.connection)) := by
  rcases pending_call h with h | hnew
  · rcases pending_queueInLoop h with h | hnew
    · rcases pending_setLoop h with h | ⟨rfl, hmem⟩
      · exact .inl h
      · exact .inl (.inr ⟨c.channelLoop, rfl, hmem⟩)
    · exact .inr (.inr hnew)
  · exact .inr (.inl hnew)

theorem withConn_eq {s : Server} {conn : ℕ} {c : Conn} (h : s.conns[conn]? = some c)
    (f : Conn → Server) : s.withConn conn f = f c := by
  unfold Server.withConn
  rw [h]

theorem withConn_none {s : Server} {conn : ℕ} (h : s.conns[conn]? = none) (f : Conn → Server) :
    s.withConn conn f = s := by
  unfold Server.withConn
  rw [h]

/-- What holds of the server as it is, and of what is done with each connection. -/
theorem withConn_cases {P : Server → Prop} {s : Server} {conn : ℕ} {f : Conn → Server}
    (hs : P s) (hf : ∀ c, s.conns[conn]? = some c → P (f c)) : P (s.withConn conn f) := by
  cases hc : s.conns[conn]? with
  | none =>
      rw [withConn_none hc]
      exact hs
  | some c =>
      rw [withConn_eq hc]
      exact hf c hc

theorem pending_newConnection {s : Server} {t u : ThreadId} {sockfd : ℕ} {call : Call}
    (h : (s.newConnection t sockfd).Pending u call) :
    s.Pending u call ∨ (u = t ∧ call = .postEstablished s.conns.length) := by
  rcases pending_call h with hold | ⟨rfl, hmem⟩
  · exact .inl (hold.of_eq rfl rfl)
  · exact .inr ⟨rfl, List.mem_singleton.mp hmem⟩

/-- A method that hands its effects on. -/
theorem pending_method {s : Server} {t u : ThreadId} {kernel : Kernel} {head call : Call}
    {conn : ℕ} {c : Conn} {r : Site × List Effect} (hconn : connOf head = some conn)
    (hc : s.conns[conn]? = some c) (hr : r.2 = effectsOf s kernel c head)
    (h : (s.settle t conn c r).Pending u call) :
    s.Pending u call ∨ Spawns s t kernel head u call := by
  rcases pending_settle h with hold | ⟨rfl, hmem⟩ | ⟨rfl, hmem⟩
  · exact .inl hold
  · exact .inr (.calls hconn hc (hr ▸ hmem))
  · exact .inr (.queues hconn hc (hr ▸ hmem))

theorem pending_handleRead {s : Server} {t u : ThreadId} {kernel : Kernel} {call : Call} {conn : ℕ}
    {c : Conn} (hc : s.conns[conn]? = some c)
    (h : (s.handleRead t conn c kernel.readv).Pending u call) :
    s.Pending u call ∨ Spawns s t kernel (.handleRead conn) u call := by
  unfold Server.handleRead at h
  split at h
  · next buffer n _ =>
      cases n with
      | count n =>
          cases n with
          | zero =>
              rcases pending_call h with hold | ⟨rfl, hmem⟩
              · exact .inl (hold.of_eq rfl rfl)
              · rw [List.mem_singleton.mp hmem]
                exact .inr (.readClose conn)
          | succ n =>
              rcases pending_call h with hold | ⟨rfl, hmem⟩
              · exact .inl (hold.of_eq rfl rfl)
              · rw [List.mem_singleton.mp hmem]
                exact .inr (.message hc)
      | failed errno =>
          rcases pending_call h with hold | ⟨rfl, hmem⟩
          · exact .inl (hold.of_eq rfl rfl)
          · rw [List.mem_singleton.mp hmem]
            exact .inr (.readError conn)
  · exact .inl h

/-- The calls that a call brings. -/
theorem pending_execute {s : Server} {t u : ThreadId} {kernel : Kernel} {head call : Call}
    (h : (s.execute t kernel head).Pending u call) :
    s.Pending u call ∨ Spawns s t kernel head u call := by
  have hsame : s.Pending u call → s.Pending u call ∨ Spawns s t kernel head u call := .inl
  cases head with
  | listen => exact .inl (pending_setAccepts h)
  | newConnection sockfd =>
      rcases pending_newConnection h with hold | ⟨rfl, rfl⟩
      · exact .inl hold
      · exact .inr (.newConnection sockfd)
  | postEstablished conn =>
      revert h
      apply withConn_cases (P := fun r => r.Pending u call → _) hsame
      intro c hc h
      rcases pending_postInLoop h with hold | ⟨rfl, rfl⟩
      · exact .inl hold
      · exact .inr (.postEstablished hc)
  | removeConnection conn =>
      rcases pending_postInLoop h with hold | ⟨rfl, rfl⟩
      · exact .inl hold
      · exact .inr (.removeConnection conn)
  | removeConnectionInLoop conn =>
      revert h
      apply withConn_cases (P := fun r => r.Pending u call → _) hsame
      intro c hc h
      rcases pending_queueInLoop h with hold | ⟨rfl, hmem⟩
      · exact .inl (hold.of_eq rfl rfl)
      · rw [List.mem_singleton.mp hmem]
        exact .inr (.removeConnectionInLoop hc)
  | connectEstablished conn | connectDestroyed conn | sendInLoop conn data | shutdownInLoop conn
  | handleClose conn | handleError conn =>
      revert h
      apply withConn_cases (P := fun r => r.Pending u call → _) hsame
      intro c hc
      exact pending_method rfl hc rfl
  | handleRead conn =>
      revert h
      apply withConn_cases (P := fun r => r.Pending u call → _) hsame
      intro c hc
      exact pending_handleRead hc
  | handleWrite conn =>
      revert h
      apply withConn_cases (P := fun r => r.Pending u call → _) hsame
      intro c hc h
      unfold Server.handleWrite at h
      split at h
      · next r hr => exact pending_method rfl hc (by simp [effectsOf, hr]) h
      · exact .inl h
  | callback callback held =>
      cases held with
      | false => exact .inl h
      | true =>
          rcases pending_call h with hold | ⟨rfl, hmem⟩
          · exact .inl hold
          · rw [List.mem_singleton.mp hmem]
            exact .inr (.callback callback)
  | closeCallback conn held =>
      revert h
      apply withConn_cases (P := fun r => r.Pending u call → _) hsame
      intro c hc h
      cases held with
      | false => exact .inl h
      | true =>
          rcases pending_call h with hold | ⟨rfl, hmem⟩
          · exact .inl hold
          · rw [List.mem_singleton.mp hmem]
            split_ifs
            · exact .inr (.userClose conn)
            · exact .inr (.close conn)
  | userCode => exact .inl h

theorem pending_foldl_call (indices : List ℕ) {calls : List Call} {s : Server} {u : ThreadId}
    {call : Call}
    (h : (indices.foldl (fun s i => s.call (.loop (.io i)) calls) s).Pending u call) :
    s.Pending u call ∨ call ∈ calls := by
  induction indices generalizing s with
  | nil => exact .inl h
  | cons i indices ih =>
      rcases ih h with hold | hnew
      · exact (pending_call hold).imp_right And.right
      · exact .inr hnew

/-- What a call brings does not depend on the calls themselves. -/
theorem Spawns.of_made {s : Server} {t u : ThreadId} {kernel : Kernel} {head call : Call}
    {calls : List Call} (h : Spawns (s.made t head calls) t kernel head u call) :
    Spawns s t kernel head u call := by
  cases h with
  | newConnection sockfd => exact .newConnection sockfd
  | postEstablished hc => exact .postEstablished hc
  | removeConnection conn => exact .removeConnection conn
  | removeConnectionInLoop hc => exact .removeConnectionInLoop hc
  | calls hconn hc hmem => exact .calls hconn hc hmem
  | queues hconn hc hmem => exact .queues hconn hc hmem
  | readClose conn => exact .readClose conn
  | readError conn => exact .readError conn
  | message hc => exact .message hc
  | callback callback => exact .callback callback
  | close conn => exact .close conn
  | userClose conn => exact .userClose conn

theorem pending_initThreads {s : Server} {t u : ThreadId} {first : ℕ} {call : Call}
    (h : (s.initThreads t first).Pending u call) : s.Pending u call ∨
      (s.callbacks .threadInit = true ∧ call = .callback .threadInit true) := by
  unfold Server.initThreads at h
  cases hheld : s.callbacks .threadInit with
  | false =>
      rw [hheld] at h
      exact .inl h
  | true =>
      rw [hheld] at h
      dsimp only at h
      rw [if_pos rfl] at h
      split_ifs at h
      · exact (pending_call h).imp_right fun hnew => ⟨rfl, List.mem_singleton.mp hnew.2⟩
      · exact (pending_foldl_call _ h).imp_right fun hnew => ⟨rfl, List.mem_singleton.mp hnew⟩

theorem pending_start {s : Server} {t u : ThreadId} {call : Call}
    (h : (s.start t).Pending u call) : s.Pending u call ∨ Brings s (.start t) u call := by
  unfold Server.start at h
  split_ifs at h
  · rcases pending_initThreads h with h | ⟨hheld, rfl⟩
    · rcases pending_postInLoop h with hold | ⟨rfl, rfl⟩
      · exact .inl (hold.of_eq rfl rfl)
      · exact .inr (.listen t)
    · refine .inr (.threadInit t u ?_)
      unfold Server.postInLoop at hheld
      split_ifs at hheld <;> exact hheld
  · exact .inl (h.of_eq rfl rfl)

@[simp] theorem postInLoop_conns (s : Server) (t : ThreadId) (loop : LoopId) (functor : Call) :
    (s.postInLoop t loop functor).conns = s.conns := by
  unfold Server.postInLoop
  split_ifs <;> rfl

/-- The functors that the destructor posts. -/
theorem pending_postDestroyed (conns : List ℕ) {s : Server} {t u : ThreadId} {call : Call}
    (h : (s.postDestroyed t conns).Pending u call) :
    s.Pending u call ∨ ∃ conn c, s.conns[conn]? = some c ∧ u = .loop c.loop ∧
      call = .connectDestroyed conn := by
  unfold Server.postDestroyed at h
  induction conns generalizing s with
  | nil => exact .inl h
  | cons i conns ih =>
      cases hc : s.conns[i]? with
      | none =>
          rw [List.foldl_cons, withConn_none hc] at h
          exact ih h
      | some c =>
          rw [List.foldl_cons, withConn_eq hc] at h
          rcases ih h with hold | hnew
          · exact (pending_postInLoop hold).imp_right fun hpost => ⟨i, c, hc, hpost⟩
          · rw [postInLoop_conns] at hnew
            exact .inr hnew

theorem pending_destroy {s : Server} {t u : ThreadId} {call : Call}
    (h : (s.destroy t).Pending u call) : s.Pending u call ∨ Brings s (.destroy t) u call := by
  have hposted : ((s.postDestroyed t s.tabled).setAccepts false).Pending u call := h
  rcases pending_postDestroyed _ (pending_setAccepts hposted) with hold | ⟨conn, c, hc, rfl, rfl⟩
  · exact .inl hold
  · exact .inr (.destroy t hc)

/-- A method of the user's on a connection, or one that sets something in it. -/
theorem pending_withConn {s : Server} {a : Action} {t : ThreadId} {call : Call} {conn : ℕ}
    {f : Conn → Server} (hf : ∀ c, s.conns[conn]? = some c → (f c).Pending t call →
      s.Pending t call ∨ Brings s a t call) (h : (s.withConn conn f).Pending t call) :
    s.Pending t call ∨ Brings s a t call := by
  revert h
  exact withConn_cases (P := fun r => r.Pending t call → _) .inl hf

/-- What is still to be called after a step was so before, or the step brings it. -/
theorem step_pending {s u : Server} {a : Action} (ht : step s a = some u) {t : ThreadId}
    {call : Call} (h : u.Pending t call) : s.Pending t call ∨ Brings s a t call := by
  cases a with
  | poll loop events =>
      simp only [step, Option.ite_none_right_eq_some, Option.some.injEq] at ht
      obtain ⟨⟨-, hwatched⟩, rfl⟩ := ht
      rcases pending_call h with hold | ⟨rfl, hmem⟩
      · exact .inl hold
      · obtain ⟨event, hevent, hcall⟩ := List.mem_flatMap.mp hmem
        exact .inr (.poll hevent (List.all_eq_true.mp hwatched event hevent) hcall)
  | swap loop =>
      simp only [step, Option.ite_none_right_eq_some, Option.some.injEq] at ht
      obtain ⟨-, rfl⟩ := ht
      rcases pending_setLoop h with hold | ⟨rfl, hmem⟩
      · exact .inl hold
      · rw [List.append_nil] at hmem
        exact .inl (.inr ⟨loop, rfl, List.mem_append_right _ hmem⟩)
  | next loop =>
      simp only [step] at ht
      split at ht
      · next functor batch _ hbatch =>
          cases ht
          rcases pending_call h with h | ⟨rfl, hmem⟩
          · rcases pending_setLoop h with hold | ⟨rfl, hmem⟩
            · exact .inl hold
            · refine .inl (.inr ⟨loop, rfl, ?_⟩)
              rw [hbatch]
              exact List.mem_cons_of_mem _ hmem
          · refine .inl (.inr ⟨loop, rfl, ?_⟩)
            rw [hbatch, List.mem_singleton.mp hmem]
            exact List.mem_cons_self ..
      · cases ht
  | exec t' kernel =>
      simp only [step] at ht
      split at ht
      · cases ht
      · cases ht
      · next head calls _ hcalls =>
          cases ht
          rcases pending_execute h with hold | hspawned
          · exact .inl (pending_past hcalls (hold.of_eq rfl rfl))
          · exact .inr (.exec hcalls hspawned.of_made)
  | leave t' =>
      simp only [step] at ht
      split at ht
      · next calls hcalls =>
          cases ht
          exact .inl (pending_past hcalls h)
      · cases ht
  | send t' conn buf =>
      simp only [step, Option.ite_none_right_eq_some, Option.some.injEq] at ht
      obtain ⟨-, rfl⟩ := ht
      refine pending_withConn ?_ h
      intro c hc h
      split_ifs at h
      · rcases pending_postInLoop h with hold | ⟨rfl, rfl⟩
        · exact .inl hold
        · exact .inr (.send t' buf hc)
      · exact .inl h
  | shutdown t' conn =>
      simp only [step, Option.ite_none_right_eq_some, Option.some.injEq] at ht
      obtain ⟨-, rfl⟩ := ht
      refine pending_withConn ?_ h
      intro c hc h
      split_ifs at h
      · rcases pending_postInLoop h with hold | ⟨rfl, rfl⟩
        · exact .inl (hold.of_eq rfl rfl)
        · exact .inr (.shutdown t' hc)
      · exact .inl h
  | start t' =>
      simp only [step, Option.ite_none_right_eq_some, Option.some.injEq] at ht
      obtain ⟨-, rfl⟩ := ht
      exact pending_start h
  | destroy t' =>
      simp only [step, Option.ite_none_right_eq_some, Option.some.injEq] at ht
      obtain ⟨-, rfl⟩ := ht
      exact pending_destroy h
  | setCallback callback =>
      cases ht
      exact .inl (h.of_eq rfl rfl)
  | useInput conn left | setConnectionCallback conn | setMessageCallback conn
  | setWriteCompleteCallback conn | setHighWaterMarkCallback conn mark | setCloseCallback conn =>
      cases ht
      refine pending_withConn ?_ h
      intro c _ h
      exact .inl (h.of_eq rfl rfl)

end Netmux.ServerThreads
