import Netmux.ConnectionOutput

/-!
# The high-water mark

Runs of `sendInLoop` on a connection with a high-water mark. The backlog is what
was pending before the run and every remainder since, and the callback should be
queued by the call that takes it to the mark, with its size.

`sendInLoop` compares the remainder of one call, on top of what the output buffer
holds, with the mark. The buffer never gets the remainder, so that no call sees
what earlier ones have left: a backlog that many calls build up is not announced,
and a call with a large remainder is announced each time, with the size of that
remainder alone.
-/
namespace Netmux.HighWaterMark
open ActionRuns BoundedMemory SocketBuffer ChannelPoller TcpConnection

/-- A connection and all the bytes it has been given and not got rid of. -/
structure Sending where
  connection : Connection
  backlog : ℕ

/-- A call of `sendInLoop`, with the answer of the `::write` it may make. -/
structure Call where
  data : Bytes
  write : Bytes → WriteAnswer

def Call.effects (a : Call) (s : Sending) : List Effect :=
  (s.connection.sendInLoop a.data a.write).2

/-- What the call adds to the backlog. -/
def Call.unsent (a : Call) (s : Sending) : ℕ :=
  a.data.length - (ConnectionOutput.taken (a.effects s)).length

def step (s : Sending) (a : Call) : Option Sending :=
  some ⟨(s.connection.sendInLoop a.data a.write).1, s.backlog + a.unsent s⟩

def start (c : Connection) : Sending := ⟨c, c.outputBuffer.readableBytes⟩

/-- The payload is one that memory can hold. The kernel takes no more than it is
offered, nothing while bytes are pending, and fails only because it would block. -/
structure Allowed (s : Sending) (a : Call) : Prop where
  payload : a.data.length ≤ maxSize
  count : ∀ k, a.write a.data = .accepted k → k ≤ a.data.length ∧ (0 < s.backlog → k = 0)
  failure : ∀ errno, a.write a.data = .failed errno → errno = .EWOULDBLOCK

/-- A remainder takes a backlog from below the mark to it or past it. -/
def Crosses (mark backlog remaining : ℕ) : Prop := backlog < mark ∧ mark ≤ backlog + remaining

instance (mark backlog remaining : ℕ) : Decidable (Crosses mark backlog remaining) :=
  inferInstanceAs (Decidable (_ ∧ _))

/-- The sizes the high-water callback is queued with. -/
def announced : List Effect → List ℕ
  | [] => []
  | .queueHighWaterMark size :: effects => size :: announced effects
  | _ :: effects => announced effects

/-- What a backlog that grows by a remainder calls for. -/
def due (mark backlog remaining : ℕ) : List ℕ :=
  if Crosses mark backlog remaining then [backlog + remaining] else []

/-- The call queues the callback exactly if the backlog crosses the mark, and
with the new backlog. -/
def Marked (s : Sending) (a : Call) : Prop :=
  announced (a.effects s) = due s.connection.highWaterMark s.backlog (a.unsent s)

/-- The call asks the kernel. -/
def Asks (c : Connection) : Prop :=
  c.state ≠ .kDisconnected ∧ c.channel.isWriting = false ∧ c.outputBuffer.readableBytes = 0

instance (c : Connection) : Decidable (Asks c) := inferInstanceAs (Decidable (_ ∧ _ ∧ _))

/-- What the kernel leaves of the payload, if it is asked. -/
def remaining (c : Connection) (a : Call) : ℕ :=
  if Asks c then a.data.length - ((a.write a.data).taken a.data).length else a.data.length

/-- The connection is open and nothing but the output buffer is pending, or the
remainder takes neither it nor the backlog across the mark. -/
def Clear (s : Sending) (a : Call) : Prop :=
  let mark := s.connection.highWaterMark
  let readable := s.connection.outputBuffer.readableBytes
  let left := remaining s.connection a
  (s.connection.state ≠ .kDisconnected ∧ s.backlog = readable) ∨
    (¬ Crosses mark s.backlog left ∧
      (s.connection.state ≠ .kDisconnected → ¬ Crosses mark readable left))

instance (s : Sending) (a : Call) : Decidable (Clear s a) :=
  inferInstanceAs (Decidable ((_ ∧ _) ∨ (_ ∧ (_ → _))))

/-- The code's test is the crossing of what the output buffer holds. -/
theorem announced_checkHighWaterMark {c : Connection} (hv : c.outputBuffer.Valid)
    (hmark : 0 < c.highWaterMark) {left : ℕ} (hl : left ≤ maxSize) :
    announced (c.checkHighWaterMark left) =
      due c.highWaterMark c.outputBuffer.readableBytes left := by
  have hreadable : c.outputBuffer.readableBytes ≤ maxSize := by
    rw [hv.readableBytes_eq]
    exact (Nat.sub_le _ _).trans (hv.inside.trans hv.sized)
  have hsum : c.outputBuffer.readableBytes + left < 2 ^ 64 := by
    unfold maxSize at hl hreadable
    omega
  have htest : (0 < left ∧ c.highWaterMark ≤ c.outputBuffer.readableBytes + left ∧
      c.outputBuffer.readableBytes < c.highWaterMark ∧ c.highWaterMark ≠ 0) ↔
        Crosses c.highWaterMark c.outputBuffer.readableBytes left := by
    unfold Crosses
    omega
  unfold Connection.checkHighWaterMark due
  simp only [addSize_eq hsum, htest]
  split_ifs <;> rfl

theorem sendInLoop_asks {c : Connection} (h : Asks c) (data : Bytes) (write : Bytes → WriteAnswer) :
    (c.sendInLoop data write).2 = match write data with
      | .accepted nwrote =>
          .accepted (data.take nwrote) ::
            ((if subSize data.length nwrote = 0 ∧ c.writeCompleteCallback then
                [.queueWriteComplete] else []) ++
              c.checkHighWaterMark (subSize data.length nwrote))
      | .failed errno =>
          if errno = .EPIPE ∨ errno = .ECONNRESET then []
          else c.checkHighWaterMark data.length := by
  unfold Connection.sendInLoop
  rw [if_neg h.1, if_pos h.2]
  cases write data <;> rfl

theorem sendInLoop_silent {c : Connection} (h : ¬ Asks c) (data : Bytes)
    (write : Bytes → WriteAnswer) :
    (c.sendInLoop data write).2 =
      if c.state = .kDisconnected then [] else c.checkHighWaterMark data.length := by
  by_cases hs : c.state = .kDisconnected
  · unfold Connection.sendInLoop
    rw [if_pos hs, if_pos hs]
  · rw [Connection.sendInLoop_busy fun hidle => h ⟨hs, hidle⟩]

/-- A call that asks leaves what the kernel does not take, and announces it. -/
theorem effects_asks {s : Sending} (h : Asks s.connection) {a : Call} (ha : Allowed s a) :
    ConnectionOutput.taken (a.effects s) = (a.write a.data).taken a.data ∧
      announced (a.effects s) =
        announced (s.connection.checkHighWaterMark (remaining s.connection a)) := by
  unfold Call.effects remaining
  rw [sendInLoop_asks h, if_pos h]
  cases hw : a.write a.data with
  | accepted k =>
      obtain ⟨hk, -⟩ := ha.count k hw
      have hlen : a.data.length < 2 ^ 64 := lt_of_le_of_lt ha.payload (by decide)
      have hleft : a.data.length - (a.data.take k).length = a.data.length - k := by
        rw [List.length_take, Nat.min_eq_left hk]
      simp only [WriteAnswer.taken, subSize_eq hk hlen, hleft]
      split_ifs <;> simp [ConnectionOutput.taken, announced]
  | failed errno =>
      obtain rfl := ha.failure errno hw
      simp [WriteAnswer.taken]

/-- A call announces what the remainder on top of the output buffer calls for,
unless the connection is closed. -/
theorem sendInLoop_effects {s : Sending} (hv : s.connection.outputBuffer.Valid)
    (hmark : 0 < s.connection.highWaterMark) {a : Call} (ha : Allowed s a) :
    a.unsent s = remaining s.connection a ∧ announced (a.effects s) =
      if s.connection.state = .kDisconnected then []
      else due s.connection.highWaterMark s.connection.outputBuffer.readableBytes
        (remaining s.connection a) := by
  have hleft : remaining s.connection a ≤ maxSize := by
    unfold remaining
    split_ifs
    · exact (Nat.sub_le _ _).trans ha.payload
    · exact ha.payload
  rw [← announced_checkHighWaterMark hv hmark hleft]
  by_cases hasks : Asks s.connection
  · obtain ⟨htaken, hannounced⟩ := effects_asks hasks ha
    unfold Call.unsent
    rw [htaken, hannounced, if_neg hasks.1, remaining, if_pos hasks]
    exact ⟨rfl, rfl⟩
  · have hremaining : remaining s.connection a = a.data.length := if_neg hasks
    unfold Call.unsent Call.effects
    rw [sendInLoop_silent hasks, hremaining]
    split_ifs
    · exact ⟨rfl, rfl⟩
    · rw [ConnectionOutput.taken_checkHighWaterMark]
      exact ⟨rfl, rfl⟩

/-- Two backlogs call for the same exactly if they are the same or neither crosses. -/
theorem due_eq_iff (mark backlog readable left : ℕ) :
    due mark readable left = due mark backlog left ↔
      backlog = readable ∨ (¬ Crosses mark backlog left ∧ ¬ Crosses mark readable left) := by
  unfold due
  split_ifs with hr hb hb
  · simp [hr, hb]
    omega
  · simp [hr, hb]
    rintro rfl
    exact hb hr
  · simp [hr, hb]
    rintro rfl
    exact hr hb
  · simp [hr, hb]

theorem marked_iff {s : Sending} (hv : s.connection.outputBuffer.Valid)
    (hmark : 0 < s.connection.highWaterMark) {a : Call} (ha : Allowed s a) :
    Marked s a ↔ Clear s a := by
  obtain ⟨hunsent, hannounced⟩ := sendInLoop_effects hv hmark ha
  unfold Marked Clear
  rw [hannounced, hunsent]
  by_cases hs : s.connection.state = .kDisconnected
  · rw [if_pos hs]
    unfold due
    split_ifs with hcross
    · simp [hs, hcross]
    · simp [hs, hcross]
  · rw [if_neg hs, due_eq_iff]
    simp [hs]

/-- The invariant of a run. -/
structure Markable (s : Sending) : Prop where
  output : s.connection.outputBuffer.Valid
  mark : 0 < s.connection.highWaterMark

theorem step_markable (s : Sending) (a : Call) (t : Sending) (h : Markable s)
    (ht : step s a = some t) : Markable t := by
  unfold step at ht
  rw [Connection.sendInLoop_fst] at ht
  cases ht
  exact ⟨h.output, h.mark⟩

/-- For every connection with a callback and a mark, and every run of `sendInLoop`
that the kernel answers as it may, the callback is queued as the backlog crosses
the mark exactly if every call is clear. -/
theorem marked_run_iff {c : Connection} (hv : c.outputBuffer.Valid) {mark : ℕ} (hmark : 0 < mark)
    {calls : List Call} (ha : Meets step Allowed (start (c.setHighWaterMarkCallback mark)) calls) :
    Meets step Marked (start (c.setHighWaterMarkCallback mark)) calls ↔
      Meets step Clear (start (c.setHighWaterMarkCallback mark)) calls := by
  have hstart : Markable (start (c.setHighWaterMarkCallback mark)) := ⟨hv, hmark⟩
  exact meets_congr_of_meets step_markable (fun s a h ha => marked_iff h.output h.mark ha) hstart ha

/-- An established connection with a mark of four bytes. -/
def marked : Connection :=
  let c := (Site.established (Connection.create "c" 3 0) EPollPoller.create).connection
  c.setHighWaterMarkCallback 4

/-- A send of three bytes that would block. -/
def blocked : Call := ⟨[1, 2, 3], fun _ => .failed .EWOULDBLOCK⟩

theorem blocked_allowed (s : Sending) : Allowed s blocked := by
  refine ⟨by decide, ?_, ?_⟩
  · intro k hk
    cases hk
  · intro errno he
    cases he
    rfl

theorem blockedTwice_allowed : Meets step Allowed (start marked) [blocked, blocked] :=
  Meets.cons (blocked_allowed _) rfl (Meets.cons (blocked_allowed _) rfl trivial)

theorem marked_run_iff_blockedTwice : Meets step Marked (start marked) [blocked, blocked] ↔
    Meets step Clear (start marked) [blocked, blocked] :=
  marked_run_iff Buffer.initial_valid.1 (by decide) blockedTwice_allowed

-- the first call is clear, and the second takes a backlog of three bytes across the mark
example : Meets step Clear (start marked) [blocked] := by decide +kernel

/-- Six bytes are pending after two calls, and nothing has been announced. -/
theorem remainders_unannounced :
    Meets step Allowed (start marked) [blocked, blocked] ∧
      ¬ Meets step Marked (start marked) [blocked, blocked] := by
  refine ⟨blockedTwice_allowed, fun h => ?_⟩
  have hsecond := (h.2 _ rfl).1
  revert hsecond
  unfold Marked
  decide +kernel

end Netmux.HighWaterMark
