import Netmux.ConnectionOutput

/-!
# Draining the output buffer

Runs of `handleWrite` on a connection with write interest, against any answers of
`::write`. The bytes the socket took and the readable bytes of the output buffer
should together stay what the buffer held, and with the last byte the write
interest should go, the write-complete callback and a pending half-close come.

`handleWrite` drops the count that `writeFd` returns. The buffer keeps every
byte, so that each write is offered the whole of it again.
-/
namespace Netmux.OutputDrain
open ActionRuns SocketBuffer ChannelPoller TcpConnection

structure Draining where
  connection : Connection
  accepted : Bytes

/-- One `EPOLLOUT` event, with the answer of its `::write`. -/
def step (s : Draining) (write : Bytes → WriteAnswer) : Option (Draining × List Effect) :=
  match s.connection.handleWrite write with
  | .ok r => some (⟨r.1, s.accepted ++ ConnectionOutput.taken r.2⟩, r.2)
  | .error _ => none

def start (c : Connection) : Draining := ⟨c, []⟩

/-- What was taken and what is still readable make up the content. -/
def Split (content : Bytes) (s : Draining) : Prop :=
  s.accepted ++ s.connection.outputBuffer.content = content

/-- The event that takes the last byte ends the writing. -/
def Completes (content : Bytes) (s : Draining) (write : Bytes → WriteAnswer) : Prop :=
  ∀ t effects, step s write = some (t, effects) → s.accepted ≠ content → t.accepted = content →
    t.connection.channel.events &&& kWriteEvent = kNoneEvent ∧
      (s.connection.writeCompleteCallback = true → .queueWriteComplete ∈ effects) ∧
      (s.connection.state = .kDisconnecting → .shutdownWrite ∈ effects)

/-- The events go through, keep the content together and end with its last byte. -/
structure Drains (c : Connection) (writes : List (Bytes → WriteAnswer)) : Prop where
  runs : ∃ s, run (next step) (start c) writes = some s
  split : Throughout (next step) (Split c.outputBuffer.content) (start c) writes
  completes : Meets (next step) (Completes c.outputBuffer.content) (start c) writes

theorem next_writing {s : Draining} (hw : s.connection.channel.isWriting = true)
    (hv : s.connection.outputBuffer.Valid) (write : Bytes → WriteAnswer) :
    next step s write = some ⟨s.connection, s.accepted ++
      (write s.connection.outputBuffer.content).taken s.connection.outputBuffer.content⟩ := by
  unfold next step
  rw [Connection.handleWrite_writing hw hv]
  simp only [ConnectionOutput.taken, List.append_nil, Option.map_some]

/-- The write takes no byte of what it is offered. -/
def TakesNone (content : Bytes) (write : Bytes → WriteAnswer) : Prop :=
  (write content).taken content = []

/-- The invariant of a run in which no byte is taken. -/
structure Untaken (c : Connection) (s : Draining) : Prop where
  connection : s.connection = c
  accepted : s.accepted = []

section Writing
variable {c : Connection} (hw : c.channel.isWriting = true) (hv : c.outputBuffer.Valid)
include hw hv

theorem next_untaken {s t : Draining} {write : Bytes → WriteAnswer} (h : Untaken c s)
    (ht : next step s write = some t) :
    t = ⟨c, (write c.outputBuffer.content).taken c.outputBuffer.content⟩ := by
  obtain ⟨rfl, hempty⟩ := h
  rw [next_writing hw hv, hempty, List.nil_append] at ht
  exact (Option.some.inj ht).symm

theorem step_untaken (s : Draining) (write : Bytes → WriteAnswer) (t : Draining)
    (h : Untaken c s) (hnone : TakesNone c.outputBuffer.content write)
    (ht : next step s write = some t) : Untaken c t := by
  rw [next_untaken hw hv h ht]
  exact ⟨rfl, hnone⟩

/-- What a write takes is still in the buffer, so that it must be nothing. -/
theorem takesNone_of_split (s : Draining) (write : Bytes → WriteAnswer) (t : Draining)
    (h : Untaken c s) (ht : next step s write = some t) (hs : Split c.outputBuffer.content t) :
    TakesNone c.outputBuffer.content write := by
  rw [next_untaken hw hv h ht] at hs
  exact List.append_left_eq_self.mp hs

theorem completes_untaken (s : Draining) (write : Bytes → WriteAnswer) (h : Untaken c s)
    (hnone : TakesNone c.outputBuffer.content write) :
    Completes c.outputBuffer.content s write := by
  intro t effects ht hpending hdone
  have hnext : next step s write = some t := next_eq_some.mpr ⟨effects, ht⟩
  have hstay := step_untaken hw hv s write t h hnone hnext
  rw [hstay.accepted] at hdone
  exact absurd (h.accepted.trans hdone) hpending

theorem runs_through (writes : List (Bytes → WriteAnswer)) :
    ∃ s, run (next step) (start c) writes = some s := by
  have hstep : ∀ s write, s.connection = c →
      ∃ t, next step s write = some t ∧ t.connection = c := by
    rintro s write rfl
    exact ⟨_, next_writing hw hv write, rfl⟩
  have hstart : (start c).connection = c := rfl
  obtain ⟨s, hs, -⟩ := exists_run hstep writes hstart
  exact ⟨s, hs⟩

/-- Every connection with write interest drains over a sequence of events exactly
if no write of the sequence takes a byte. -/
theorem drains_iff (writes : List (Bytes → WriteAnswer)) :
    Drains c writes ↔ ∀ write ∈ writes, TakesNone c.outputBuffer.content write := by
  obtain ⟨s, hs⟩ := runs_through hw hv writes
  have hstart : Untaken c (start c) := ⟨rfl, rfl⟩
  have hsplit : ∀ s, Untaken c s → Split c.outputBuffer.content s := by
    rintro s ⟨rfl, hempty⟩
    unfold Split
    rw [hempty, List.nil_append]
  have hiff := throughout_iff_meets (step_untaken hw hv) (takesNone_of_split hw hv) hsplit
    hstart hs
  rw [← meets_iff_forall_mem hs]
  constructor
  · intro hd
    exact hiff.mp hd.split
  · intro hm
    exact ⟨⟨s, hs⟩, hiff.mpr hm,
      hm.imp (step_untaken hw hv) (completes_untaken hw hv) hstart⟩

end Writing

/-- A closing connection with three bytes left and write interest. -/
def pending : Connection :=
  { Connection.create "c" 3 0 with
    state := .kDisconnecting
    channel := (Channel.create 0 3).withEvents kWriteEvent
    outputBuffer := ⟨8, 11, [0, 0, 0, 0, 0, 0, 0, 0, 1, 2, 3]⟩ }

theorem pending_valid : pending.outputBuffer.Valid := by
  constructor <;> simp [pending, kCheapPrepend, maxSize]

theorem drains_iff_pending :
    Drains pending [fun _ => .failed .EWOULDBLOCK] ↔
      ∀ write ∈ [fun _ => .failed .EWOULDBLOCK], TakesNone pending.outputBuffer.content write :=
  drains_iff rfl pending_valid _

/-- Two events with room for two bytes each send the first two bytes twice. -/
theorem pending_resent :
    ¬ Drains pending [fun _ => .accepted 2, fun _ => .accepted 2] ∧
      ∃ s, run (next step) (start pending) [fun _ => .accepted 2, fun _ => .accepted 2] = some s ∧
        s.accepted = [1, 2, 1, 2] := by
  constructor
  · intro hd
    have hlost := (hd.split.2 _ rfl).first
    revert hlost
    unfold Split
    decide
  · exact ⟨_, rfl, rfl⟩

end Netmux.OutputDrain
