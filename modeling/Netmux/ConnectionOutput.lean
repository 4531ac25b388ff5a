import Netmux.ActionRuns
import Netmux.TcpConnection

/-!
# Outgoing bytes of a connection

Runs of `sendInLoop` and `handleWrite` on an established connection against any
answers of `::write`. The bytes the socket took and the readable bytes of the
output buffer should together be the payloads in order.

The output buffer is never written, so they are exactly as long as every
payload is taken whole by the one `::write` its `sendInLoop` makes. A short
write, or one that would block, loses the rest of the payload for good.
-/
namespace Netmux.ConnectionOutput
open ActionRuns SocketBuffer ChannelPoller TcpConnection

structure Outgoing where
  connection : Connection
  accepted : Bytes
  payloads : Bytes

inductive Action where
  | sendInLoop (data : Bytes) (write : Bytes → WriteAnswer)
  | handleWrite (write : Bytes → WriteAnswer)

/-- The bytes the socket took during one method call. -/
def taken : List Effect → Bytes
  | [] => []
  | .accepted data :: effects => data ++ taken effects
  | _ :: effects => taken effects

def step (s : Outgoing) : Action → Option Outgoing
  | .sendInLoop data write =>
      let r := s.connection.sendInLoop data write
      some ⟨r.1, s.accepted ++ taken r.2, s.payloads ++ data⟩
  | .handleWrite write =>
      match s.connection.handleWrite write with
      | .ok r => some ⟨r.1, s.accepted ++ taken r.2, s.payloads⟩
      | .error _ => none

/-- No byte is lost, duplicated or reordered. -/
def Conserved (s : Outgoing) : Prop :=
  s.accepted ++ s.connection.outputBuffer.content = s.payloads

/-- The kernel's answer to a payload takes all of it. -/
def TakenWhole : Action → Prop
  | .sendInLoop data write => (write data).taken data = data
  | .handleWrite _ => True

def start (c : Connection) (p : EPollPoller ℕ) : Outgoing :=
  ⟨(Site.established c p).connection, [], []⟩

/-- The connection writes directly: not closed, no write interest, no output. -/
structure Direct (c : Connection) : Prop where
  alive : c.state ≠ .kDisconnected
  idle : c.channel.isWriting = false
  empty : c.outputBuffer.readableBytes = 0
  drained : c.outputBuffer.content = []

theorem established_direct {c : Connection} (hc : c.Fresh) (p : EPollPoller ℕ) :
    Direct (Site.established c p).connection := by
  obtain ⟨hv, hcontent⟩ := Buffer.initial_valid
  have hempty := hv.length_content
  rw [hcontent] at hempty
  constructor
  · rw [Site.established_state]
    decide
  · rw [Channel.isWriting, (Site.established_channel hc p).1]
    decide
  · rw [Site.established_outputBuffer, hc.output]
    exact hempty.symm
  · rw [Site.established_outputBuffer, hc.output]
    exact hcontent

@[simp] theorem taken_append (e f : List Effect) : taken (e ++ f) = taken e ++ taken f := by
  induction e with
  | nil => rfl
  | cons x e ih => cases x <;> simp [taken, ih]

@[simp] theorem taken_checkHighWaterMark (c : Connection) (remaining : ℕ) :
    taken (c.checkHighWaterMark remaining) = [] := by
  dsimp only [Connection.checkHighWaterMark]
  split_ifs <;> rfl

/-- `sendInLoop` writes no member, and the socket gets what `::write` took. -/
theorem sendInLoop_direct {c : Connection} (h : Direct c) (data : Bytes)
    (write : Bytes → WriteAnswer) :
    (c.sendInLoop data write).1 = c ∧
      taken (c.sendInLoop data write).2 = (write data).taken data := by
  unfold Connection.sendInLoop
  rw [if_neg h.alive, if_pos ⟨h.idle, h.empty⟩]
  cases write data with
  | accepted count =>
      refine ⟨rfl, ?_⟩
      simp only [taken, taken_append, taken_checkHighWaterMark, List.append_nil]
      split_ifs <;> simp [taken, WriteAnswer.taken]
  | failed errno =>
      refine ⟨rfl, ?_⟩
      dsimp only
      split_ifs <;> simp [taken, WriteAnswer.taken]

theorem handleWrite_direct {c : Connection} (h : Direct c) (write : Bytes → WriteAnswer) :
    c.handleWrite write = .ok (c, []) := by
  rw [Connection.handleWrite, h.idle]
  rfl

/-- One step keeps the connection as it is; a conserved state stays conserved
exactly if the payload of the step is taken whole. -/
theorem step_direct (s : Outgoing) (a : Action) (h : Direct s.connection) :
    ∃ t, step s a = some t ∧ Direct t.connection ∧
      (Conserved s → (Conserved t ↔ TakenWhole a)) := by
  cases a with
  | sendInLoop data write =>
      obtain ⟨hc, ht⟩ := sendInLoop_direct h data write
      refine ⟨_, rfl, hc.symm ▸ h, ?_⟩
      intro hs
      simp only [Conserved, hc, ht, h.drained, List.append_nil] at hs ⊢
      rw [← hs, List.append_right_inj]
      rfl
  | handleWrite write =>
      refine ⟨s, ?_, h, ?_⟩
      · simp [step, handleWrite_direct h write, taken]
      · intro hs
        exact iff_of_true hs trivial

/-- On every established connection and in every run, whatever the kernel
answers, no byte is lost at any point of the run exactly if every payload was
taken whole. -/
theorem output_conserved_iff {c : Connection} (hc : c.Fresh) (p : EPollPoller ℕ)
    (as : List Action) :
    Throughout step Conserved (start c p) as ↔ ∀ a ∈ as, TakenWhole a := by
  have hd := established_direct hc p
  have hstart : Conserved (start c p) := by
    simp only [Conserved, start, hd.drained, List.append_nil]
  have htotal : ∀ s a, Direct s.connection → ∃ t, step s a = some t ∧ Direct t.connection := by
    intro s a h
    obtain ⟨t, ht, hdirect, -⟩ := step_direct s a h
    exact ⟨t, ht, hdirect⟩
  have hfirst : Direct (start c p).connection := hd
  obtain ⟨t, hrun, -⟩ := exists_run htotal as hfirst
  rw [← meets_iff_forall_mem hrun]
  exact throughout_iff_meets_of_total step_direct as hfirst hstart

/-- A short write: three bytes offered, two taken. -/
def shortSend : List Action := [.sendInLoop [1, 2, 3] fun _ => .accepted 2]

theorem output_conserved_iff_short :
    Throughout step Conserved (start (Connection.create "c" 3 0) EPollPoller.create) shortSend ↔
      ∀ a ∈ shortSend, TakenWhole a :=
  output_conserved_iff (Connection.create_fresh _ _ _) _ _

/-- The third byte is neither sent nor buffered. -/
theorem short_write_loses :
    ¬ Throughout step Conserved (start (Connection.create "c" 3 0) EPollPoller.create)
      shortSend := by
  intro h
  have hlost := (h.2 _ rfl).first
  revert hlost
  unfold Conserved
  decide

end Netmux.ConnectionOutput
