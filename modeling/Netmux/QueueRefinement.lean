import Netmux.ActionRuns
import Netmux.SocketBuffer

/-!
# The buffer as a byte queue

The operations of `Buffer` as one machine with outputs, refined against a
plain list of bytes. The abstraction is the content of
`[readerIndex, writerIndex)`. An access outside the vector stops the machine,
so a run that goes through has touched only cells of the vector.

A call that would need a vector larger than `maxSize` throws; the queue then
answers `threw` and stays as it is. All other calls are those of a queue.
-/
namespace Netmux.QueueRefinement
open ActionRuns SocketBuffer

inductive Operation where
  | append (data : Bytes)
  | ensureWriteableBytes (len : ℕ)
  | retrieve (len : ℕ)
  | retrieveAll
  | retrieveAsString (len : ℕ)
  | retrieveAllAsString
  | readFd (readv : List ℕ → ReadvAnswer)

inductive Outcome where
  | done
  | string (s : Bytes)
  | read (result : ReadResult)
  | threw
  deriving DecidableEq, Repr

def perform (b : Buffer) : Operation → Except Fault (Buffer × Outcome)
  | .append data => (b.append data).map (·, .done)
  | .ensureWriteableBytes len => (b.ensureWriteableBytes len).map (·, .done)
  | .retrieve len => .ok (b.retrieve len, .done)
  | .retrieveAll => .ok (b.retrieveAll, .done)
  | .retrieveAsString len => (b.retrieveAsString len).map fun r => (r.1, .string r.2)
  | .retrieveAllAsString => b.retrieveAllAsString.map fun r => (r.1, .string r.2)
  | .readFd readv => (b.readFd readv).map fun r => (r.1, .read r.2)

/-- One call. An exception leaves a buffer to go on with; an access outside
the vector does not. -/
def step (b : Buffer) (op : Operation) : Option (Buffer × Outcome) :=
  match perform b op with
  | .ok r => some r
  | .error (.lengthError left) => some (left, .threw)
  | .error .outOfBounds => none

/-- What the caller and the kernel promise: no sum of sizes wraps, no more is
read as a string than is readable, and `::readv` fills only its vectors. -/
def Legal (b : Buffer) : Operation → Prop
  | .append data => b.NoWrap data.length
  | .ensureWriteableBytes len => b.NoWrap len
  | .retrieveAsString len => len ≤ b.readableBytes
  | .readFd readv => ∀ data, readv b.vectors = .delivered data → data.length ≤ b.vectors.sum
  | .retrieve _ | .retrieveAll | .retrieveAllAsString => True

inductive QueueAction where
  | push (data : Bytes)
  | receive (data : Bytes)
  | drop (len : ℕ)
  | take (len : ℕ)
  | clear
  | takeAll
  | keep
  | fail (errno : Errno)
  | refuse
  deriving DecidableEq, Repr

/-- The abstract queue: bytes enter at the back and leave at the front. -/
def queueStep (q : Bytes) : QueueAction → Bytes × Outcome
  | .push data => (q ++ data, .done)
  | .receive data => (q ++ data, .read (.count data.length))
  | .drop len => (q.drop len, .done)
  | .take len => (q.drop len, .string (q.take len))
  | .clear => ([], .done)
  | .takeAll => ([], .string q)
  | .keep => (q, .done)
  | .fail errno => (q, .read (.failed errno))
  | .refuse => (q, .threw)

/-- The queue's view of a call. -/
def queueAction (b : Buffer) : Operation → QueueAction
  | .append data => if b.Refuses data.length then .refuse else .push data
  | .ensureWriteableBytes len => if b.Refuses len then .refuse else .keep
  | .retrieve len => .drop len
  | .retrieveAll => .clear
  | .retrieveAsString len => .take len
  | .retrieveAllAsString => .takeAll
  | .readFd readv =>
      match readv b.vectors with
      | .delivered data => .receive data
      | .failed errno => .fail errno

theorem retrieveAsString_eq {b : Buffer} (h : b.Valid) {len : ℕ} (hl : len ≤ b.readableBytes) :
    b.retrieveAsString len = .ok (b.retrieve len, b.content.take len) := by
  unfold Buffer.retrieveAsString
  rw [h.peekString_eq hl]
  rfl

/-- One legal call is one step of the queue, with the same answer. -/
theorem step_refines (b : Buffer) (op : Operation) (h : b.Valid) (hl : Legal b op) :
    ∃ b' out, step b op = some (b', out) ∧ b'.Valid ∧
      queueStep b.content (queueAction b op) = (b'.content, out) := by
  cases op with
  | append data =>
      rcases h.append hl with ⟨hr, he⟩ | ⟨hr, b', he, hv, hc⟩
      · exact ⟨b, .threw, by simp [step, perform, he, Except.map], h,
          by simp [queueAction, hr, queueStep]⟩
      · exact ⟨b', .done, by simp [step, perform, he, Except.map], hv,
          by simp [queueAction, hr, queueStep, hc]⟩
  | ensureWriteableBytes len =>
      rcases h.ensureWriteableBytes hl with ⟨hr, he⟩ | ⟨hr, b', he, hv, hc, -⟩
      · exact ⟨b, .threw, by simp [step, perform, he, Except.map], h,
          by simp [queueAction, hr, queueStep]⟩
      · exact ⟨b', .done, by simp [step, perform, he, Except.map], hv,
          by simp [queueAction, hr, queueStep, hc]⟩
  | retrieve len =>
      obtain ⟨hv, hc⟩ := h.retrieve len
      exact ⟨_, _, rfl, hv, by simp [queueAction, queueStep, hc]⟩
  | retrieveAll =>
      obtain ⟨hv, hc⟩ := h.retrieveAll
      exact ⟨_, _, rfl, hv, by simp [queueAction, queueStep, hc]⟩
  | retrieveAsString len =>
      obtain ⟨hv, hc⟩ := h.retrieve len
      refine ⟨_, _, ?_, hv, by rw [hc]; rfl⟩
      simp [step, perform, retrieveAsString_eq h hl, Except.map]
  | retrieveAllAsString =>
      obtain ⟨hv, hc⟩ := h.retrieve b.readableBytes
      have hlen := h.length_content
      have hnil : b.content.drop b.readableBytes = [] := List.drop_eq_nil_of_le hlen.le
      have htake : b.content.take b.readableBytes = b.content := List.take_of_length_le hlen.le
      refine ⟨_, .string b.content, ?_, hv, by rw [hc, hnil]; rfl⟩
      simp [step, perform, Buffer.retrieveAllAsString, retrieveAsString_eq h le_rfl, htake,
        Except.map]
  | readFd readv =>
      cases hr : readv b.vectors with
      | delivered data =>
          obtain ⟨b', he, hv, hc⟩ := h.readFd hr (hl data hr)
          exact ⟨b', .read (.count data.length), by simp [step, perform, he, Except.map], hv,
            by simp [queueAction, hr, queueStep, hc]⟩
      | failed errno =>
          exact ⟨b, .read (.failed errno),
            by simp [step, perform, Buffer.readFd_failed hr, Except.map], h,
            by simp [queueAction, hr, queueStep]⟩

/-- A returning `ensureWriteableBytes` has made the room it was asked for. -/
theorem ensureWriteableBytes_room {b b' : Buffer} (h : b.Valid) {len : ℕ} (hw : b.NoWrap len)
    (hs : step b (.ensureWriteableBytes len) = some (b', .done)) : len ≤ b'.writableBytes := by
  rcases h.ensureWriteableBytes hw with ⟨-, he⟩ | ⟨-, b'', he, -, -, hroom⟩
  · simp [step, perform, he, Except.map] at hs
  · simp only [step, perform, he, Except.map, Option.some.injEq, Prod.mk.injEq, and_true] at hs
    exact hs ▸ hroom

/-- Every legal run of a fresh buffer goes through, keeps the index invariant
and answers, call by call, as the queue does. -/
theorem buffer_refines_queue {initialSize : ℕ} {b₀ : Buffer} {ops : List Operation}
    (hsize : initialSize + kCheapPrepend < 2 ^ 64) (hb : Buffer.create initialSize = some b₀)
    (hops : Meets (next step) Legal b₀ ops) :
    ∃ b outs, trace step b₀ ops = some (b, outs) ∧ b.Valid ∧
      specTrace queueStep [] (labels step queueAction b₀ ops) = (b.content, outs) ∧
      ∀ len b', b.NoWrap len → step b (.ensureWriteableBytes len) = some (b', .done) →
        len ≤ b'.writableBytes := by
  obtain ⟨hv, hc⟩ := Buffer.create_valid hsize hb
  obtain ⟨b, outs, ht, hvb, hq⟩ := trace_refines queueStep Buffer.content queueAction
    step_refines hv hops
  rw [hc] at hq
  exact ⟨b, outs, ht, hvb, hq, fun len b' hw hs => ensureWriteableBytes_room hvb hw hs⟩

/-- Four bytes of initial space, outgrown by the second `append`. -/
def sampleCalls : List Operation :=
  [.append [1, 2, 3, 4], .retrieve 1, .append [5, 6, 7], .retrieveAllAsString]

theorem buffer_refines_queue_sample :
    ∃ b outs, trace step ⟨8, 8, List.replicate 12 0⟩ sampleCalls = some (b, outs) ∧ b.Valid ∧
      specTrace queueStep []
        (labels step queueAction ⟨8, 8, List.replicate 12 0⟩ sampleCalls) = (b.content, outs) ∧
      ∀ len b', b.NoWrap len → step b (.ensureWriteableBytes len) = some (b', .done) →
        len ≤ b'.writableBytes := by
  apply buffer_refines_queue (show 4 + kCheapPrepend < 2 ^ 64 by decide) rfl
  refine Meets.cons ?_ rfl (Meets.cons trivial rfl (Meets.cons ?_ rfl ?_))
  · constructor <;> decide
  · constructor <;> decide
  · exact Meets.cons trivial rfl trivial

end Netmux.QueueRefinement
