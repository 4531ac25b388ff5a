import Netmux.CallbackProtocol

/-!
# What `connectDestroyed` leaves to others

At its end a connection should be disconnected, without any interest, and
should have reported that it went down. `connectDestroyed` brings this about
for a connection that is still `kConnected`; one that is `kDisconnected` has
been through `handleClose`, which does the same. A connection in
`kDisconnecting`, on which `shutdown()` was called and whose peer has not gone
yet, gets neither.
-/
namespace Netmux.ConnectionDestruction
open ActionRuns SocketBuffer ChannelPoller TcpConnection CallbackProtocol

/-- The destruction is complete. -/
structure Complete (s : Session) : Prop where
  state : s.state = .kDisconnected
  silent : s.channel.events = kNoneEvent
  reported : down ∈ s.trace

instance (s : Session) : Decidable (Complete s) :=
  decidable_of_iff (s.state = .kDisconnected ∧ s.channel.events = kNoneEvent ∧ down ∈ s.trace)
    ⟨fun h => ⟨h.1, h.2.1, h.2.2⟩, fun h => ⟨h.state, h.silent, h.reported⟩⟩

/-- `connectDestroyed()` on the connection, wherever it stands. -/
def destroy (s : Session) : Session := s.advance s.site.connectDestroyed s.stage

/-- Established, and complete as soon as the state says disconnected. -/
structure Settled (s : Session) : Prop where
  begun : s.state ≠ .kConnecting
  complete : s.state = .kDisconnected → Complete s

theorem Complete.settled {s : Session} (h : Complete s) : Settled s := by
  constructor
  · rw [h.state]
    decide
  · intro _
    exact h

/-- A step that reports what it likes, keeps the mask, and enters no state but
`kDisconnecting`. -/
theorem Settled.later {s t : Session} (h : Settled s)
    (hstate : t.state = s.state ∨ t.state = .kDisconnecting)
    (hevents : t.channel.events = s.channel.events)
    (htrace : ∃ effects, t.trace = s.trace ++ effects) : Settled t := by
  obtain ⟨effects, htrace⟩ := htrace
  rcases hstate with hsame | hleft
  · constructor
    · rw [hsame]
      exact h.begun
    · intro hd
      have hc := h.complete (hsame ▸ hd)
      constructor
      · exact hd
      · rw [hevents]
        exact hc.silent
      · rw [htrace]
        exact List.mem_append_left _ hc.reported
  · constructor
    · rw [hleft]
      decide
    · rw [hleft]
      intro hd
      cases hd

theorem settled_advance {s : Session} (h : Settled s) (effects : List Effect) (stage : Stage) :
    Settled (s.advance (s.site, effects) stage) :=
  h.later (.inl rfl) rfl ⟨effects, rfl⟩

/-- Methods that return the connection they were called on. -/
theorem settled_onConnection {s : Session} (h : Settled s) {r : Connection × List Effect}
    (hr : r.1 = s.site.connection) (stage : Stage) : Settled (s.onConnection r stage) := by
  obtain ⟨c, effects⟩ := r
  subst hr
  exact settled_advance h effects stage

theorem handleClose_complete (s : Session) (site : Site) (stage : Stage) :
    Complete (s.advance site.handleClose stage) := by
  constructor
  · rfl
  · exact Channel.setEvents_events epollCtl site.connection.channel site.poller kNoneEvent
  · exact List.mem_append_right _ (List.mem_cons_self ..)

theorem handleRead_settled {s : Session} (h : Settled s) {readv : List ℕ → ReadvAnswer}
    {r : Site × List Effect} (hr : s.site.handleRead readv = .ok r) (stage : Stage) :
    Settled (s.advance r stage) := by
  obtain ⟨b, n, -, hn⟩ := Site.handleRead_eq_ok.mp hr
  rcases n with ⟨_ | n⟩ | errno
  · subst hn
    exact (handleClose_complete s (s.site.withInput b) stage).settled
  · subst hn
    exact h.later (.inl rfl) rfl ⟨_, rfl⟩
  · subst hn
    exact h.later (.inl rfl) rfl ⟨_, rfl⟩

/-- `connectDestroyed` completes the destruction unless a shutdown is pending. -/
theorem destroy_complete_iff {s : Session} (h : Settled s) :
    Complete (destroy s) ↔ s.state ≠ .kDisconnecting := by
  constructor
  · intro hc hd
    have hstate := hc.state
    have hnot : s.site.connection.state ≠ .kConnected := by
      intro hconn
      cases hconn.symm.trans hd
    unfold destroy Site.connectDestroyed at hstate
    rw [if_neg hnot] at hstate
    cases hstate.symm.trans hd
  · intro hd
    unfold destroy Site.connectDestroyed
    split_ifs with hconn
    · constructor
      · rfl
      · show (Channel.remove _ epollCtl _).2.events = kNoneEvent
        rw [Channel.remove_events]
        exact Channel.setEvents_events epollCtl s.channel s.site.poller kNoneEvent
      · exact List.mem_append_right _ (List.mem_cons_self ..)
    · have hdown : s.state = .kDisconnected := by
        have hbegun := h.begun
        unfold Session.state at hd hbegun ⊢
        cases hs : s.site.connection.state with
        | kConnecting => exact absurd hs hbegun
        | kConnected => exact absurd hs hconn
        | kDisconnecting => exact absurd hs hd
        | kDisconnected => rfl
      have hc := h.complete hdown
      constructor
      · exact hdown
      · show (Channel.remove _ epollCtl _).2.events = kNoneEvent
        rw [Channel.remove_events]
        exact hc.silent
      · exact List.mem_append_left _ hc.reported

theorem destroy_settled {s : Session} (h : Settled s) : Settled (destroy s) := by
  by_cases hd : s.state = .kDisconnecting
  · have hnot : s.site.connection.state ≠ .kConnected := by
      intro hconn
      cases hconn.symm.trans hd
    apply h.later
    · left
      unfold destroy Site.connectDestroyed
      rw [if_neg hnot]
      rfl
    · unfold destroy Site.connectDestroyed
      rw [if_neg hnot]
      exact Channel.remove_events epollCtl s.channel s.site.poller
    · exact ⟨_, rfl⟩
  · exact ((destroy_complete_iff h).mpr hd).settled

/-- One condition of a dispatch. -/
theorem condition_settled {s t : Session} (h : Settled s) {readv : List ℕ → ReadvAnswer}
    {write : Bytes → WriteAnswer} (ht : handleEventWithGuard s readv write = some t) :
    Settled t := by
  unfold handleEventWithGuard at ht
  cases hst : s.stage with
  | idle => simp [hst] at ht
  | closeTest =>
      simp only [hst, Option.some.injEq] at ht
      subst ht
      split_ifs
      · exact (handleClose_complete s s.site .errorTest).settled
      · exact settled_advance h [] .errorTest
  | errorTest =>
      simp only [hst, Site.handleError, ite_self, Option.some.injEq] at ht
      subst ht
      exact settled_advance h [] .readTest
  | readTest =>
      simp only [hst] at ht
      split_ifs at ht
      · obtain ⟨r, hr, rfl⟩ := Option.map_eq_some_iff.mp ht
        exact handleRead_settled h (toOption_eq_some hr) .writeTest
      · cases ht
        exact settled_advance h [] .writeTest
  | writeTest =>
      simp only [hst] at ht
      split_ifs at ht
      · obtain ⟨r, hr, rfl⟩ := Option.map_eq_some_iff.mp ht
        exact settled_onConnection h (quiet_handleWrite (toOption_eq_some hr)).1 .idle
      · cases ht
        exact settled_advance h [] .idle

theorem step_settled (s : Session) (a : Action) (t : Session) (h : Settled s)
    (ht : step s a = some t) : Settled t := by
  cases a with
  | handleEvent revents alive =>
      simp only [step, Option.ite_none_right_eq_some, Option.some.injEq] at ht
      obtain ⟨-, rfl⟩ := ht
      exact h.later (.inl rfl) rfl ⟨[], (List.append_nil _).symm⟩
  | condition readv write => exact condition_settled h ht
  | useInput left =>
      cases ht
      exact h.later (.inl rfl) rfl ⟨[], (List.append_nil _).symm⟩
  | send inLoopThread buf write =>
      cases ht
      exact settled_onConnection h (quiet_send ..).1 _
  | sendInLoop data write =>
      cases ht
      exact settled_onConnection h (quiet_sendInLoop ..).1 _
  | shutdownTest =>
      simp only [step, Option.some.injEq] at ht
      split_ifs at ht
      · subst ht
        exact h.later (.inl rfl) rfl ⟨[], (List.append_nil _).symm⟩
      · exact ht ▸ h
  | shutdownStore =>
      simp only [step, Option.ite_none_right_eq_some, Option.some.injEq] at ht
      obtain ⟨-, rfl⟩ := ht
      exact h.later (.inr rfl) rfl ⟨[], (List.append_nil _).symm⟩
  | shutdownInLoop =>
      cases ht
      exact settled_onConnection h (quiet_shutdownInLoop _).1 _
  | connectDestroyed =>
      cases ht
      exact destroy_settled h

theorem start_settled (c : Connection) (p : EPollPoller ℕ) : Settled (start c p) := by
  constructor
  · show StateE.kConnected ≠ .kConnecting
    decide
  · intro h
    cases h

/-- After every run of an established connection, its destruction is complete
exactly if it does not find the connection in `kDisconnecting`. -/
theorem destruction_complete_iff (c : Connection) (p : EPollPoller ℕ) {actions : List Action}
    {s : Session} (h : run step (start c p) actions = some s) :
    Complete (destroy s) ↔ s.state ≠ .kDisconnecting :=
  destroy_complete_iff (run_preserves step_settled (start_settled c p) h)

/-- The user closes the connection, and the server goes before the peer does. -/
def shutDown : List Action := [.shutdownTest, .shutdownStore, .shutdownInLoop]

theorem shutDown_state : ∃ s ∈ run step sampleStart shutDown,
    s.state = .kDisconnecting ∧ ¬ Complete (destroy s) := by
  decide +kernel

theorem destruction_complete_iff_shutDown : ∃ s, run step sampleStart shutDown = some s ∧
    (Complete (destroy s) ↔ s.state ≠ .kDisconnecting) := by
  obtain ⟨s, hs, -⟩ := shutDown_state
  exact ⟨s, hs, destruction_complete_iff _ _ hs⟩

/-- The connection ends half-closed, still watched for reading, unreported. -/
theorem shutDown_left_incomplete :
    ∃ s, run step sampleStart shutDown = some s ∧ ¬ Complete (destroy s) := by
  obtain ⟨s, hs, -, hincomplete⟩ := shutDown_state
  exact ⟨s, hs, hincomplete⟩

end Netmux.ConnectionDestruction
