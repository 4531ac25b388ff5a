import Netmux.ActionRuns
import Netmux.ServerSteps

/-!
# Every method on its loop's thread

The buffers, the channel and the table have no locks: the methods of a
connection run on the thread that owns its loop, those of the server that touch
the table or the acceptor on the base loop's. What carries this from one loop to
another is where a functor sits: `postInLoop` and `queueInLoop` bring it to the
thread of the loop they are called on, and a poller watches only what belongs to
its loop.
-/
namespace Netmux.ThreadConfinement
open ActionRuns ServerThreads
open TcpServer (LoopId)

/-- The call is made by a thread that may make it. -/
def RunsOn (s : Server) (t : ThreadId) : Call → Prop
  | .listen | .newConnection _ | .postEstablished _ | .removeConnectionInLoop _ =>
      t = .loop .base
  | .connectEstablished conn | .connectDestroyed conn | .sendInLoop conn _ | .shutdownInLoop conn
  | .handleRead conn | .handleWrite conn | .handleClose conn | .handleError conn =>
      s.owner conn = some t
  | .removeConnection _ | .callback _ _ | .closeCallback _ _ | .userCode => True

/-- Every call so far was made by a thread that may make it. -/
def Confined (s : Server) : Prop := ∀ e ∈ s.log, RunsOn s e.1 e.2

/-- Connections and channels know one loop, at whose poller alone the channel is
registered; the acceptor's is registered at the base loop's. -/
structure Sited (s : Server) : Prop where
  conns : ∀ (conn : ℕ) (c : Conn), s.conns[conn]? = some c →
    c.channelLoop = c.loop ∧ c.connection.channel.address = conn
  watched : ∀ loop fd e, (s.loops loop).poller.interest fd = some e →
    s.owner e.ptr = some (.loop loop)
  accepts : ∀ loop, (s.loops loop).accepts = true → loop = .base

/-- Calls made and calls to be made are where they belong. -/
structure Placed (s : Server) : Prop where
  sited : Sited s
  confined : Confined s
  pending : ∀ t call, s.Pending t call → RunsOn s t call

theorem owner_eq {s : Server} {conn : ℕ} {c : Conn} (h : s.conns[conn]? = some c) :
    s.owner conn = some (.loop c.loop) := by
  unfold Server.owner
  rw [h]
  rfl

theorem owner_still {s u : Server} (h : Still s u) (conn : ℕ) : u.owner conn = s.owner conn := by
  have hrel := h.conns conn
  unfold Server.owner
  generalize s.conns[conn]? = c at hrel ⊢
  generalize u.conns[conn]? = d at hrel ⊢
  cases hrel with
  | none => rfl
  | some hsame => simp [hsame.loop]

theorem owner_addConnection {s : Server} {sockfd conn : ℕ} {t : ThreadId}
    (h : s.owner conn = some t) : (s.addConnection sockfd).owner conn = some t := by
  unfold Server.owner at h ⊢
  obtain ⟨c, hc, ht⟩ := Option.map_eq_some_iff.mp h
  exact Option.map_eq_some_iff.mpr ⟨c, addConnection_conns.mpr (.inl hc), ht⟩

/-- Connections keep the thread that owns them. -/
theorem step_owner {s u : Server} {a : Action} (ht : step s a = some u) {conn : ℕ} {t : ThreadId}
    (h : s.owner conn = some t) : u.owner conn = some t := by
  apply step_preserves (P := fun s => s.owner conn = some t) _ _ _ _ _ h ht
  · intro s u hs hstill
    rwa [owner_still hstill]
  · exact fun sockfd hs => owner_addConnection hs
  · exact fun _ hs => hs
  · exact fun _ _ _ hs => hs
  · exact fun hs => hs

theorem RunsOn.mono {s u : Server} {t : ThreadId} {call : Call} (h : RunsOn s t call)
    (howner : ∀ conn t, s.owner conn = some t → u.owner conn = some t) : RunsOn u t call := by
  cases call with
  | listen | newConnection _ | postEstablished _ | removeConnectionInLoop _ => exact h
  | connectEstablished conn | connectDestroyed conn | sendInLoop conn _ | shutdownInLoop conn
  | handleRead conn | handleWrite conn | handleClose conn | handleError conn =>
      exact howner conn t h
  | removeConnection _ | callback _ _ | closeCallback _ _ | userCode => trivial

theorem Sited.still {s u : Server} (h : Sited s) (k : Still s u) : Sited u := by
  constructor
  · intro conn d hd
    obtain ⟨c, hc, hsame⟩ := k.before hd
    obtain ⟨hchannel, haddress⟩ := h.conns conn c hc
    exact ⟨hsame.channelLoop.trans (hchannel.trans hsame.loop.symm),
      hsame.address.trans haddress⟩
  · intro loop fd e he
    rw [owner_still k]
    rcases k.interest loop fd e he with hold | ⟨conn, c, hc, hloop, hptr⟩
    · exact h.watched loop fd e hold
    · obtain ⟨hchannel, haddress⟩ := h.conns conn c hc
      rw [hptr, haddress, owner_eq hc, hloop, hchannel]
  · intro loop ha
    exact (k.accepts loop ha).elim (h.accepts loop) id

theorem Sited.addConnection {s : Server} (h : Sited s) (sockfd : ℕ) :
    Sited (s.addConnection sockfd) := by
  constructor
  · intro conn c hc
    rcases addConnection_conns.mp hc with hold | ⟨rfl, rfl⟩
    · exact h.conns conn c hold
    · exact ⟨rfl, rfl⟩
  · intro loop fd e he
    exact owner_addConnection (h.watched loop fd e he)
  · exact h.accepts

theorem step_sited {s u : Server} {a : Action} (h : Sited s) (ht : step s a = some u) :
    Sited u := by
  apply step_preserves _ _ _ _ _ h ht
  · exact Sited.still
  · exact fun sockfd hs => hs.addConnection sockfd
  · exact fun _ hs => ⟨hs.conns, hs.watched, hs.accepts⟩
  · exact fun _ _ _ hs => ⟨hs.conns, hs.watched, hs.accepts⟩
  · exact fun hs => ⟨hs.conns, hs.watched, hs.accepts⟩

theorem runsOn_of_callsOf {s : Server} {t : ThreadId} {conn : ℕ} {c : TcpConnection.Connection}
    {effects : List TcpConnection.Effect} {call : Call}
    (h : call ∈ effects.flatMap (callsOf conn c)) : RunsOn s t call := by
  obtain ⟨effect, -, hcall⟩ := List.mem_flatMap.mp h
  cases effect with
  | connectionCallback _ | messageCallback | closeCallback =>
      rw [List.mem_singleton.mp hcall]
      trivial
  | queueWriteComplete | queueHighWaterMark _ | queueSendInLoop _ | queueShutdownInLoop
  | accepted _ | shutdownWrite => cases hcall

theorem runsOn_of_functorsOf {s : Server} {t : ThreadId} {c : TcpConnection.Connection}
    {effects : List TcpConnection.Effect} {call : Call}
    (h : call ∈ effects.flatMap (functorsOf c)) : RunsOn s t call := by
  obtain ⟨effect, -, hcall⟩ := List.mem_flatMap.mp h
  cases effect with
  | queueWriteComplete | queueHighWaterMark _ =>
      rw [List.mem_singleton.mp hcall]
      trivial
  | connectionCallback _ | messageCallback | closeCallback | queueSendInLoop _
  | queueShutdownInLoop | accepted _ | shutdownWrite => cases hcall

/-- A call made where it belongs brings only such calls. -/
theorem spawns_runsOn {s : Server} {t u : ThreadId} {kernel : Kernel} {head call : Call}
    (hhead : RunsOn s t head) (h : Spawns s t kernel head u call) : RunsOn s u call := by
  cases h with
  | newConnection sockfd => exact hhead
  | postEstablished hc => exact owner_eq hc
  | removeConnection conn => trivial
  | removeConnectionInLoop hc => exact owner_eq hc
  | calls _ _ hmem => exact runsOn_of_callsOf hmem
  | queues _ _ hmem => exact runsOn_of_functorsOf hmem
  | readClose conn => exact hhead
  | readError conn => exact hhead
  | message hc => trivial
  | callback callback => trivial
  | close conn => trivial
  | userClose conn => trivial

/-- The handlers of an event run on the thread whose poller reported it. -/
theorem event_runsOn {s : Server} (h : Sited s) {loop : LoopId} {event : Event} {call : Call}
    (hwatched : s.watches loop event = true) (hmem : call ∈ event.calls) :
    RunsOn s (.loop loop) call := by
  cases event with
  | accept sockfd =>
      rw [List.mem_singleton.mp hmem, h.accepts loop hwatched]
      rfl
  | channel conn handlers =>
      obtain ⟨handler, -, rfl⟩ := List.mem_map.mp hmem
      have howner : s.owner conn = some (.loop loop) := by
        simp only [Server.watches, Option.any_eq_true] at hwatched
        obtain ⟨c, hc, e, he, hptr⟩ := hwatched
        have hconn := h.watched loop _ e he
        rwa [beq_iff_eq.mp hptr, (h.conns conn c hc).2] at hconn
      cases handler with
      | read | write | close | error => exact howner

theorem brings_runsOn {s u : Server} {a : Action} (h : Placed s) (ht : step s a = some u)
    {t : ThreadId} {call : Call} (hb : Brings s a t call) : RunsOn u t call := by
  have hkeep : RunsOn s t call → RunsOn u t call := fun hs => hs.mono fun _ _ => step_owner ht
  cases hb with
  | poll _ hwatched hcall => exact hkeep (event_runsOn h.sited hwatched hcall)
  | @exec t' _ _ head _ _ hcalls hspawns =>
      have hhead : RunsOn s t' head := h.pending t' head (.inl (hcalls ▸ List.mem_cons_self ..))
      exact hkeep (spawns_runsOn hhead hspawns)
  | send _ _ hc => exact hkeep (owner_eq hc)
  | shutdown _ hc => exact hkeep (owner_eq hc)
  | listen _ => rfl
  | threadInit _ _ _ => trivial
  | destroy _ hc => exact hkeep (owner_eq hc)

theorem step_placed (s : Server) (a : Action) (u : Server) (h : Placed s)
    (ht : step s a = some u) : Placed u := by
  have hkeep : ∀ {t call}, RunsOn s t call → RunsOn u t call :=
    fun hs => hs.mono fun _ _ => step_owner ht
  constructor
  · exact step_sited h.sited ht
  · intro e he
    rcases step_log ht he with hold | hpending
    · exact hkeep (h.confined e hold)
    · exact hkeep (h.pending e.1 e.2 hpending)
  · intro t call hcall
    rcases step_pending ht hcall with hold | hbrings
    · exact hkeep (h.pending t call hold)
    · exact brings_runsOn h ht hbrings

theorem create_placed (name ipPort : String) (threadNum : ℕ) (callbacks : Callback → Bool) :
    Placed (Server.create name ipPort threadNum callbacks) := by
  refine ⟨⟨?_, ?_, ?_⟩, ?_, ?_⟩
  · intro conn c hc
    cases hc
  · intro loop fd e he
    cases he
  · intro loop ha
    cases ha
  · intro e he
    cases he
  · rintro t call (hcall | ⟨loop, -, hmem⟩)
    · cases hcall
    · cases hmem

/-- For every server with any number of loops and in every interleaving of its
loops and the user's threads, every method of a connection runs on the thread
that owns the connection's loop, and the acceptor's `listen`, `newConnection` and
`removeConnectionInLoop` on the base loop's. -/
theorem threads_confined (name ipPort : String) (threadNum : ℕ) (callbacks : Callback → Bool)
    (actions : List Action) :
    Throughout step Confined (Server.create name ipPort threadNum callbacks) actions :=
  (throughout_of_step step_placed actions
    (create_placed name ipPort threadNum callbacks)).imp fun _ h => h.confined

end Netmux.ThreadConfinement
