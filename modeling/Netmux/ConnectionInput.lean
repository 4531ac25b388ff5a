import Netmux.QueueRefinement
import Netmux.TcpConnection

/-!
# Incoming bytes of a connection

Read events of an established connection against its kernel stream, mixed with
any use the message callbacks make of the input buffer. The connection should
close at the end of the stream only, and a read should take what is there.

`readFd` hands `::readv` one vector when the writable space is below the size
of the side array and none otherwise. A vector without room, or no vector at
all, makes `::readv` return zero, which `handleRead` takes for the end of the
stream. Reads are right exactly while the writable space is neither empty nor
as large as the side array.
-/
namespace Netmux.ConnectionInput
open ActionRuns BoundedMemory SocketBuffer ChannelPoller TcpConnection QueueRefinement

/-- The receiving side of the kernel socket. -/
structure Stream where
  available : Bytes
  eof : Bool
  deriving DecidableEq

namespace Stream

def AtEnd (stream : Stream) : Prop := stream.available = [] ∧ stream.eof = true

/-- `::readv`: the vectors are filled in order, and without any room the
answer is zero bytes. -/
def readv (stream : Stream) (lengths : List ℕ) : ReadvAnswer :=
  if lengths.sum = 0 then .delivered []
  else if stream.available = [] then
    if stream.eof then .delivered [] else .failed .EWOULDBLOCK
  else .delivered (stream.available.take lengths.sum)

/-- What is left of the stream after that call. -/
def afterReadv (stream : Stream) (lengths : List ℕ) : Stream :=
  match stream.readv lengths with
  | .delivered data => { stream with available := stream.available.drop data.length }
  | .failed _ => stream

end Stream

structure Incoming where
  site : Site
  stream : Stream

namespace Incoming

def inputBuffer (s : Incoming) : Buffer := s.site.connection.inputBuffer

def withBuffer (s : Incoming) (buffer : Buffer) : Incoming :=
  { s with site := s.site.withInput buffer }

end Incoming

/-- The peer sends or finishes, the loop reports the socket readable, or a
callback uses the buffer it was given. -/
inductive Action where
  | arrive (data : Bytes)
  | finish
  | readEvent
  | use (operation : Operation)

def step (s : Incoming) : Action → Option Incoming
  | .arrive data =>
      if s.stream.eof then none
      else some { s with stream := { s.stream with available := s.stream.available ++ data } }
  | .finish => some { s with stream := { s.stream with eof := true } }
  | .readEvent =>
      match s.site.handleRead s.stream.readv with
      | .ok r => some ⟨r.1, s.stream.afterReadv s.inputBuffer.vectors⟩
      | .error _ => none
  | .use (.readFd _) => none
  | .use operation => (QueueRefinement.step s.inputBuffer operation).map fun r => s.withBuffer r.1

/-- A read event closes the connection at the end of the stream only, and takes
at least one byte, the first ones in order, whenever there are any. -/
def ReadRight (s : Incoming) : Action → Prop
  | .readEvent =>
      (∀ t effects, s.site.handleRead s.stream.readv = .ok (t, effects) →
        .closeCallback ∈ effects → s.stream.AtEnd) ∧
      (s.stream.available ≠ [] → ∃ b n, s.inputBuffer.readFd s.stream.readv = .ok (b, .count n) ∧
        0 < n ∧ n ≤ s.stream.available.length ∧
        b.content = s.inputBuffer.content ++ s.stream.available.take n)
  | .arrive _ | .finish | .use _ => True

/-- The writable space is neither empty nor as large as the side array, unless
the stream has ended anyway. -/
def HasRoom (s : Incoming) : Action → Prop
  | .readEvent => s.stream.AtEnd ∨
      s.inputBuffer.writerIndex < s.inputBuffer.buffer.length ∧
        s.inputBuffer.buffer.length < s.inputBuffer.writerIndex + extrabufSize
  | .arrive _ | .finish | .use _ => True

def start (c : Connection) (p : EPollPoller ℕ) (stream : Stream) : Incoming :=
  ⟨Site.established c p, stream⟩

section Vectors
variable {b : Buffer} (h : b.Bounded)
include h

/-- With room, `::readv` gets the writable space and nothing else. -/
theorem vectors_sum_of_room (hw : b.writerIndex < b.buffer.length)
    (hx : b.buffer.length < b.writerIndex + extrabufSize) :
    b.vectors.sum = b.buffer.length - b.writerIndex := by
  have hs := h.sized
  have hspace : b.writableBytes = b.buffer.length - b.writerIndex :=
    subSize_eq hw.le (by unfold maxSize at hs; omega)
  unfold Buffer.vectors
  rw [hspace, if_pos (by omega)]
  exact List.sum_singleton

/-- Without room, or with too much of it, `::readv` gets nothing to fill. A
writer index past the vector counts as too much: the space wraps. -/
theorem vectors_sum_of_no_room (hr : ¬ (b.writerIndex < b.buffer.length ∧
    b.buffer.length < b.writerIndex + extrabufSize)) : b.vectors.sum = 0 := by
  have hw := h.written
  have hs := h.sized
  unfold maxSize at hw hs
  unfold extrabufSize at hr
  unfold Buffer.vectors extrabufSize
  rcases Nat.lt_or_ge b.buffer.length b.writerIndex with hlt | hge
  · have hspace : b.writableBytes = b.buffer.length + (2 ^ 64 - b.writerIndex) :=
      subSize_wrap hlt (by omega)
    rw [hspace, if_neg (by omega)]
    rfl
  · have hspace : b.writableBytes = b.buffer.length - b.writerIndex :=
      subSize_eq hge (by omega)
    rw [hspace]
    split_ifs with hx
    · exact List.sum_singleton.trans (by omega)
    · rfl

end Vectors

/-- A `::readv` that delivers nothing has `readFd` return zero. -/
theorem readFd_zero {b : Buffer} {readv : List ℕ → ReadvAnswer}
    (hr : readv b.vectors = .delivered []) : ∃ b', b.readFd readv = .ok (b', .count 0) := by
  rw [Buffer.readFd_delivered hr (Nat.zero_le _)]
  exact ⟨_, rfl⟩

/-- A `::readv` within the writable space appends what it delivers. -/
theorem readFd_room {b : Buffer} (h : b.Bounded) {readv : List ℕ → ReadvAnswer} {data : Bytes}
    (hr : readv b.vectors = .delivered data) (hd : data.length ≤ b.vectors.sum)
    (hfit : b.writerIndex + data.length ≤ b.buffer.length) :
    ∃ b', b.readFd readv = .ok (b', .count data.length) ∧ b'.content = b.content ++ data := by
  have hs := h.sized
  have hadd : addSize b.writerIndex data.length = b.writerIndex + data.length :=
    addSize_eq (by unfold maxSize at hs; omega)
  refine ⟨⟨b.readerIndex, b.writerIndex + data.length, put b.buffer b.writerIndex data⟩, ?_, ?_⟩
  · rw [Buffer.readFd_delivered hr hd, store_eq _ hfit, hadd]
    rfl
  · exact window_put _ h.ordered hfit

theorem handleRead_zero {s : Site} {readv : List ℕ → ReadvAnswer} {b : Buffer}
    (hb : s.connection.inputBuffer.readFd readv = .ok (b, .count 0)) :
    ∃ t effects, s.handleRead readv = .ok (t, effects) ∧ .closeCallback ∈ effects :=
  ⟨_, _, Site.handleRead_eq_ok.mpr ⟨b, .count 0, hb, rfl⟩, by simp⟩

/-- Only a `readFd` that returned zero makes `handleRead` close. -/
theorem handleRead_not_zero {s t : Site} {effects : List Effect} {readv : List ℕ → ReadvAnswer}
    {b : Buffer} {n : ReadResult} (hb : s.connection.inputBuffer.readFd readv = .ok (b, n))
    (hn : n ≠ .count 0) (h : s.handleRead readv = .ok (t, effects)) :
    .closeCallback ∉ effects := by
  obtain ⟨b', n', hb', hr⟩ := Site.handleRead_eq_ok.mp h
  cases hb.symm.trans hb'
  rcases n with ⟨_ | n⟩ | errno
  · exact absurd rfl hn
  · cases hr
    simp
  · cases hr
    simp

/-- With room in the buffer a read event is right. -/
theorem readRight_of_room {s : Incoming} (h : s.inputBuffer.Bounded)
    (hw : s.inputBuffer.writerIndex < s.inputBuffer.buffer.length)
    (hx : s.inputBuffer.buffer.length < s.inputBuffer.writerIndex + extrabufSize) :
    ReadRight s .readEvent := by
  have hsum := vectors_sum_of_room h hw hx
  by_cases ha : s.stream.available = []
  · refine ⟨?_, fun hne => absurd ha hne⟩
    intro t effects ht hclose
    by_cases he : s.stream.eof = true
    · exact ⟨ha, he⟩
    · have hr : s.stream.readv s.inputBuffer.vectors = .failed .EWOULDBLOCK := by
        rw [Stream.readv, if_neg (by omega), if_pos ha, if_neg he]
      exact absurd hclose (handleRead_not_zero (Buffer.readFd_failed hr) (by simp) ht)
  · have hr : s.stream.readv s.inputBuffer.vectors =
        .delivered (s.stream.available.take s.inputBuffer.vectors.sum) := by
      rw [Stream.readv, if_neg (by omega), if_neg ha]
    have hlen : (s.stream.available.take s.inputBuffer.vectors.sum).length =
        min s.inputBuffer.vectors.sum s.stream.available.length := List.length_take
    have hpos := List.length_pos_of_ne_nil ha
    obtain ⟨b, hb, hc⟩ := readFd_room h hr (by omega) (by omega)
    have hn : 0 < (s.stream.available.take s.inputBuffer.vectors.sum).length := by omega
    constructor
    · intro t effects ht hclose
      exact absurd hclose (handleRead_not_zero hb (by simpa using hn.ne') ht)
    · intro _
      refine ⟨b, _, hb, hn, by omega, ?_⟩
      rw [hc, hlen, ← List.take_eq_take_min]

/-- Without it the event closes the connection, wherever the stream stands. -/
theorem handleRead_of_no_room {s : Incoming} (h : s.inputBuffer.Bounded)
    (hr : ¬ (s.inputBuffer.writerIndex < s.inputBuffer.buffer.length ∧
      s.inputBuffer.buffer.length < s.inputBuffer.writerIndex + extrabufSize)) :
    ∃ t effects, s.site.handleRead s.stream.readv = .ok (t, effects) ∧
      .closeCallback ∈ effects := by
  have hanswer : s.stream.readv s.inputBuffer.vectors = .delivered [] := by
    rw [Stream.readv, if_pos (vectors_sum_of_no_room h hr)]
  obtain ⟨b, hb⟩ := readFd_zero hanswer
  exact handleRead_zero hb

/-- At the end of the stream a read event closes, with or without room. -/
theorem readRight_of_atEnd {s : Incoming} (h : s.stream.AtEnd) : ReadRight s .readEvent :=
  ⟨fun _ _ _ _ => h, fun hne => absurd h.1 hne⟩

theorem readRight_iff {s : Incoming} (h : s.inputBuffer.Bounded) (a : Action) :
    ReadRight s a ↔ HasRoom s a := by
  cases a with
  | readEvent =>
      constructor
      · intro hright
        by_contra hno
        simp only [HasRoom, not_or] at hno
        obtain ⟨t, effects, ht, hclose⟩ := handleRead_of_no_room h hno.2
        exact hno.1 (hright.1 t effects ht hclose)
      · rintro (hend | ⟨hw, hx⟩)
        · exact readRight_of_atEnd hend
        · exact readRight_of_room h hw hx
  | arrive data => exact Iff.rfl
  | finish => exact Iff.rfl
  | use operation => exact Iff.rfl

/-- A call that settles leaves the bounds, whether it returns or throws. -/
theorem settles_bounded {b b' : Buffer} {r : Except Fault Buffer} {out : Outcome}
    (h : b.Bounded) (hr : b.Settles r)
    (hs : (match r.map (·, Outcome.done) with
      | .ok r => some r
      | .error (.lengthError left) => some (left, .threw)
      | .error .outOfBounds => none) = some (b', out)) : b'.Bounded := by
  cases r with
  | ok b₁ =>
      cases hs
      exact hr.1 b' rfl
  | error fault =>
      cases fault with
      | outOfBounds => cases hs
      | lengthError left =>
          cases hs
          rw [hr.2 b' rfl]
          exact h

theorem retrieveAsString_bounded {b b' : Buffer} {len : ℕ} {out : Outcome} (h : b.Bounded)
    (hs : QueueRefinement.step b (.retrieveAsString len) = some (b', out)) : b'.Bounded := by
  rcases b.retrieveAsString_spec len with ⟨text, -, htext⟩ | hfault | hthrown
  · rw [QueueRefinement.step, perform, htext] at hs
    cases hs
    exact h.retrieve len
  · rw [QueueRefinement.step, perform, hfault] at hs
    cases hs
  · rw [QueueRefinement.step, perform, hthrown] at hs
    cases hs
    exact h

theorem readv_length_le {stream : Stream} {lengths : List ℕ} {data : Bytes}
    (h : stream.readv lengths = .delivered data) : data.length ≤ lengths.sum := by
  unfold Stream.readv at h
  split_ifs at h
  · cases h
    exact Nat.zero_le _
  · cases h
    exact Nat.zero_le _
  · cases h
    exact List.length_take_le _ _

theorem handleRead_inputBuffer {s t : Site} {readv : List ℕ → ReadvAnswer} {effects : List Effect}
    (h : s.handleRead readv = .ok (t, effects)) :
    ∃ b n, s.connection.inputBuffer.readFd readv = .ok (b, n) ∧ t.connection.inputBuffer = b := by
  obtain ⟨b, n, hb, hr⟩ := Site.handleRead_eq_ok.mp h
  refine ⟨b, n, hb, ?_⟩
  rcases n with ⟨_ | n⟩ | errno <;> cases hr <;> rfl

/-- A call on the buffer is any operation but `readFd`. -/
theorem step_use {s t : Incoming} {operation : Operation} (h : step s (.use operation) = some t) :
    (∀ readv, operation ≠ .readFd readv) ∧ ∃ b out,
      QueueRefinement.step s.inputBuffer operation = some (b, out) ∧ t.inputBuffer = b := by
  have hop : ∀ readv, operation ≠ .readFd readv := by
    rintro readv rfl
    cases h
  have hs : ((QueueRefinement.step s.inputBuffer operation).map fun r => s.withBuffer r.1) =
      some t := by
    cases operation with
    | readFd readv => exact absurd rfl (hop readv)
    | append _ | ensureWriteableBytes _ | retrieve _ | retrieveAll | retrieveAsString _
    | retrieveAllAsString => exact h
  obtain ⟨r, hr, rfl⟩ := Option.map_eq_some_iff.mp hs
  exact ⟨hop, r.1, r.2, hr, rfl⟩

/-- A call a callback makes keeps the bounds, also when it throws. -/
theorem use_bounded {b b' : Buffer} {operation : Operation} {out : Outcome} (h : b.Bounded)
    (hop : ∀ readv, operation ≠ .readFd readv)
    (hs : QueueRefinement.step b operation = some (b', out)) : b'.Bounded := by
  cases operation with
  | append data => exact settles_bounded h (h.append data) hs
  | ensureWriteableBytes len => exact settles_bounded h (h.ensureWriteableBytes len) hs
  | retrieve len =>
      cases hs
      exact h.retrieve len
  | retrieveAll =>
      cases hs
      exact h.retrieveAll
  | retrieveAsString len => exact retrieveAsString_bounded h hs
  | retrieveAllAsString => exact retrieveAsString_bounded h hs
  | readFd readv => exact absurd rfl (hop readv)

/-- A read within its vectors keeps the bounds. -/
theorem readFd_bounded {b b' : Buffer} (h : b.Bounded) {readv : List ℕ → ReadvAnswer}
    {n : ReadResult} (hd : ∀ data, readv b.vectors = .delivered data → data.length ≤ b.vectors.sum)
    (hs : b.readFd readv = .ok (b', n)) : b'.Bounded := by
  cases hr : readv b.vectors with
  | failed errno =>
      rw [Buffer.readFd_failed hr] at hs
      cases hs
      exact h
  | delivered data =>
      rw [Buffer.readFd_delivered hr (hd data hr)] at hs
      cases hst : BoundedMemory.store b.buffer b.writerIndex data with
      | none =>
          rw [hst] at hs
          cases hs
      | some m =>
          rw [hst] at hs
          cases hs
          exact h.store hst

theorem step_bounded (s : Incoming) (a : Action) (t : Incoming) (h : s.inputBuffer.Bounded)
    (hs : step s a = some t) : t.inputBuffer.Bounded := by
  cases a with
  | arrive data =>
      simp only [step] at hs
      split_ifs at hs
      cases hs
      exact h
  | finish =>
      cases hs
      exact h
  | readEvent =>
      simp only [step] at hs
      cases hr : s.site.handleRead s.stream.readv with
      | error fault =>
          rw [hr] at hs
          cases hs
      | ok r =>
          rw [hr] at hs
          cases hs
          obtain ⟨b, n, hb, ht⟩ := handleRead_inputBuffer hr
          rw [Incoming.inputBuffer, ht]
          exact readFd_bounded h (fun _ => readv_length_le) hb
  | use operation =>
      obtain ⟨hop, b, out, hu, ht⟩ := step_use hs
      rw [ht]
      exact use_bounded h hop hu

/-- On every established connection, whatever the peer sends and however the
callbacks use the buffer, the read events of a run are all right exactly if
each finds room in the buffer or the stream at its end. -/
theorem reads_right_iff {c : Connection} (hc : c.Fresh) (p : EPollPoller ℕ) (stream : Stream)
    (actions : List Action) :
    Meets step ReadRight (start c p stream) actions ↔
      Meets step HasRoom (start c p stream) actions := by
  apply meets_congr step_bounded
  · intro s a hs
    exact readRight_iff hs a
  · show (Site.established c p).connection.inputBuffer.Bounded
    rw [Site.established_inputBuffer, hc.input]
    exact Buffer.initial_valid.1.bounded

/-- A message that fills the buffer to its last byte, which the callback leaves
there, and one byte after it. -/
def fullMessage : Stream := ⟨List.replicate kInitialSize 7, false⟩

def fullStart : Incoming := start (Connection.create "c" 3 0) EPollPoller.create fullMessage

def fullReads : List Action := [.readEvent, .arrive [8], .readEvent]

theorem reads_right_iff_full :
    Meets step ReadRight fullStart fullReads ↔ Meets step HasRoom fullStart fullReads :=
  reads_right_iff (Connection.create_fresh _ _ _) _ _ _

/-- The second read finds no room and closes, with a byte still to be read. -/
theorem full_buffer_closes :
    ¬ Meets step ReadRight fullStart fullReads := by
  intro h
  change Meets step ReadRight fullStart ([.readEvent, .arrive [8]] ++ [.readEvent]) at h
  obtain ⟨t, ht, hstream, r, hr, hclose⟩ : ∃ t ∈ run step fullStart [.readEvent, .arrive [8]],
      t.stream = ⟨[8], false⟩ ∧
        ∃ r ∈ (t.site.handleRead t.stream.readv).toOption, .closeCallback ∈ r.2 := by
    decide +kernel
  have hright := (h.append ht).1
  cases hread : t.site.handleRead t.stream.readv with
  | error fault =>
      rw [hread] at hr
      cases hr
  | ok q =>
      rw [hread] at hr
      cases hr
      have hend := hright.1 _ _ hread hclose
      rw [hstream] at hend
      exact absurd hend.2 Bool.false_ne_true

end Netmux.ConnectionInput
