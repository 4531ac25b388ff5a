import Netmux.BoundedMemory
import Mathlib.Tactic.SplitIfs

/-!
# The user-space socket buffer

`Buffer` of `Buffer.h` and `Buffer.cc`: one vector of bytes, a consumed prefix,
the readable bytes `[readerIndex, writerIndex)` and the writable rest. Sizes
are 64-bit and wrap; every access to the vector is checked. An access outside
it is the undefined behaviour `outOfBounds`; `lengthError` is the exception that
`vector::resize` and the constructor of a string throw past their maximum size,
with the buffer it leaves.

The kernel is a parameter of `readFd` and `writeFd`. It answers `::readv` for
the lengths of the vectors it was given and scatters the delivered bytes over
them in order. `std::copy` to an earlier position is an ordinary copy of the
bytes it reads. The vector starts out and grows with zero bytes.
-/
namespace Netmux.SocketBuffer
open BoundedMemory

abbrev Bytes := List UInt8

inductive Errno where
  | EWOULDBLOCK | EPIPE | ECONNRESET
  | other (code : ℕ)
  deriving DecidableEq, Repr

def kCheapPrepend : ℕ := 8
def kInitialSize : ℕ := 1024

/-- `sizeof(extrabuf)` of `readFd`. -/
def extrabufSize : ℕ := 65536

/-- The largest size a vector of characters, or a string, can have. -/
def maxSize : ℕ := 2 ^ 63 - 1

structure Buffer where
  readerIndex : ℕ
  writerIndex : ℕ
  buffer : Bytes
  deriving DecidableEq, Repr

inductive Fault where
  | outOfBounds
  | lengthError (left : Buffer)
  deriving DecidableEq, Repr

/-- A checked access of the vector. -/
def access {α : Type} : Option α → Except Fault α
  | some a => .ok a
  | none => .error .outOfBounds

inductive ReadvAnswer where
  | delivered (data : Bytes)
  | failed (errno : Errno)
  deriving DecidableEq, Repr

/-- How many bytes `::write` took, or why it took none. -/
inductive WriteAnswer where
  | accepted (count : ℕ)
  | failed (errno : Errno)
  deriving DecidableEq, Repr

/-- The bytes the kernel took of those offered to it. -/
def WriteAnswer.taken (offered : Bytes) : WriteAnswer → Bytes
  | .accepted count => offered.take count
  | .failed _ => []

/-- The value `readFd` returns; a failure carries `*saveErrno`. -/
inductive ReadResult where
  | count (n : ℕ)
  | failed (errno : Errno)
  deriving DecidableEq, Repr

namespace Buffer

/-- The constructor; `none` when the vector cannot be that large. -/
def create (initialSize : ℕ) : Option Buffer :=
  let size := addSize initialSize kCheapPrepend
  if size ≤ maxSize then
    some ⟨kCheapPrepend, kCheapPrepend, List.replicate size 0⟩
  else none

/-- The buffers a connection is constructed with: `Buffer(kInitialSize)`. -/
def initial : Buffer :=
  ⟨kCheapPrepend, kCheapPrepend, List.replicate (kInitialSize + kCheapPrepend) 0⟩

theorem create_initial : create kInitialSize = some initial := rfl

def readableBytes (b : Buffer) : ℕ := subSize b.writerIndex b.readerIndex
def writableBytes (b : Buffer) : ℕ := subSize b.buffer.length b.writerIndex
def prependableBytes (b : Buffer) : ℕ := b.readerIndex

/-- The range of `len` bytes that starts at `peek()`. -/
def peek (b : Buffer) (len : ℕ) : Except Fault Bytes := access (load b.buffer b.readerIndex len)

/-- `std::string(peek(), len)`. -/
def peekString (b : Buffer) (len : ℕ) : Except Fault Bytes :=
  if len ≤ maxSize then b.peek len else .error (.lengthError b)

def retrieveAll (b : Buffer) : Buffer :=
  { b with readerIndex := kCheapPrepend, writerIndex := kCheapPrepend }

def retrieve (b : Buffer) (len : ℕ) : Buffer :=
  if len < b.readableBytes then { b with readerIndex := addSize b.readerIndex len }
  else b.retrieveAll

def retrieveAsString (b : Buffer) (len : ℕ) : Except Fault (Buffer × Bytes) := do
  let result ← b.peekString len
  return (b.retrieve len, result)

def retrieveAllAsString (b : Buffer) : Except Fault (Buffer × Bytes) :=
  b.retrieveAsString b.readableBytes

/-- `buffer_.resize(n)`. -/
def resizeTo (b : Buffer) (n : ℕ) : Except Fault Buffer :=
  if n ≤ maxSize then .ok { b with buffer := resize b.buffer n 0 } else .error (.lengthError b)

def makeSpace (b : Buffer) (len : ℕ) : Except Fault Buffer :=
  if addSize b.writableBytes b.prependableBytes < addSize kCheapPrepend len then
    b.resizeTo (addSize b.writerIndex len)
  else do
    let readable := b.readableBytes
    let moved ← access (load b.buffer b.readerIndex readable)
    let buffer ← access (store b.buffer kCheapPrepend moved)
    return ⟨kCheapPrepend, addSize kCheapPrepend readable, buffer⟩

def ensureWriteableBytes (b : Buffer) (len : ℕ) : Except Fault Buffer :=
  if b.writableBytes < len then b.makeSpace len else .ok b

def append (b : Buffer) (data : Bytes) : Except Fault Buffer := do
  let b ← b.ensureWriteableBytes data.length
  let buffer ← access (store b.buffer b.writerIndex data)
  return { b with buffer := buffer, writerIndex := addSize b.writerIndex data.length }

/-- The lengths of the vectors handed to `::readv`. The count passed is the
value of the comparison `writable < sizeof(extrabuf)`, that is one or zero. -/
def vectors (b : Buffer) : List ℕ :=
  [b.writableBytes, extrabufSize].take (if b.writableBytes < extrabufSize then 1 else 0)

def readFd (b : Buffer) (readv : List ℕ → ReadvAnswer) : Except Fault (Buffer × ReadResult) :=
  let writable := b.writableBytes
  match readv b.vectors with
  | .failed errno => .ok (b, .failed errno)
  | .delivered data => do
      let n := data.length
      let filled ← access (store b.buffer b.writerIndex (data.take writable))
      if n ≤ writable then
        return ({ b with buffer := filled, writerIndex := addSize b.writerIndex n }, .count n)
      else
        let spilled : Buffer := { b with buffer := filled, writerIndex := filled.length }
        let extrabuf := data.drop writable ++ List.replicate (extrabufSize - (n - writable)) 0
        let b ← spilled.append (extrabuf.take (subSize n writable))
        return (b, .count n)

/-- What `::write` returned and the bytes it took; the buffer stays as it is. -/
def writeFd (b : Buffer) (write : Bytes → WriteAnswer) : Except Fault (WriteAnswer × Bytes) := do
  let offered ← b.peek b.readableBytes
  return (write offered, (write offered).taken offered)

/-- The readable bytes, as the vector holds them. -/
def content (b : Buffer) : Bytes := window b.buffer b.readerIndex b.writerIndex

/-- The index invariant, with the bound every vector size obeys. -/
structure Valid (b : Buffer) : Prop where
  prepend : kCheapPrepend ≤ b.readerIndex
  ordered : b.readerIndex ≤ b.writerIndex
  inside : b.writerIndex ≤ b.buffer.length
  sized : b.buffer.length ≤ maxSize

theorem create_valid {n : ℕ} {b : Buffer} (hn : n + kCheapPrepend < 2 ^ 64)
    (h : create n = some b) : b.Valid ∧ b.content = [] := by
  simp only [create, addSize_eq hn] at h
  split_ifs at h with hs
  obtain rfl := Option.some.inj h
  refine ⟨⟨le_rfl, le_rfl, ?_, ?_⟩, window_self _ _⟩
  · simp
  · simpa using hs

section Indices
variable {b : Buffer} (h : b.Valid)
include h

theorem Valid.length_lt : b.buffer.length < 2 ^ 64 := by
  have hs := h.sized
  unfold maxSize at hs
  omega

theorem Valid.readableBytes_eq : b.readableBytes = b.writerIndex - b.readerIndex :=
  subSize_eq h.ordered (h.inside.trans_lt h.length_lt)

theorem Valid.writableBytes_eq : b.writableBytes = b.buffer.length - b.writerIndex :=
  subSize_eq h.inside h.length_lt

theorem Valid.length_content : b.content.length = b.readableBytes := by
  rw [h.readableBytes_eq, content, length_window _ _ h.inside]

/-- What both `retrieve` and `retrieveAsString` see of the readable bytes. -/
theorem Valid.peek_eq {len : ℕ} (hl : len ≤ b.readableBytes) :
    b.peek len = .ok (b.content.take len) := by
  have hr := h.readableBytes_eq
  have ho := h.ordered
  have hi := h.inside
  rw [peek, load_eq _ (by omega), content, take_window _ (by omega)]
  rfl

theorem Valid.peekString_eq {len : ℕ} (hl : len ≤ b.readableBytes) :
    b.peekString len = .ok (b.content.take len) := by
  have hsize : b.readableBytes ≤ maxSize := by
    rw [h.readableBytes_eq]
    exact (Nat.sub_le _ _).trans (h.inside.trans h.sized)
  rw [peekString, if_pos (hl.trans hsize), h.peek_eq hl]

theorem Valid.retrieveAll : b.retrieveAll.Valid ∧ b.retrieveAll.content = [] := by
  refine ⟨⟨le_rfl, le_rfl, ?_, h.sized⟩, window_self _ _⟩
  exact h.prepend.trans (h.ordered.trans h.inside)

/-- `retrieve` drops `len` bytes from the front, or all of them. -/
theorem Valid.retrieve (len : ℕ) :
    (b.retrieve len).Valid ∧ (b.retrieve len).content = b.content.drop len := by
  have hlen := h.length_content
  unfold Buffer.retrieve
  split_ifs with hl
  · have hr := h.readableBytes_eq
    have hi := h.inside.trans_lt h.length_lt
    have hadd : addSize b.readerIndex len = b.readerIndex + len := addSize_eq (by omega)
    refine ⟨⟨?_, ?_, h.inside, h.sized⟩, ?_⟩
    · exact h.prepend.trans (by simp only [hadd]; omega)
    · simp only [hadd]; omega
    · simp only [content, hadd, drop_window]
  · obtain ⟨hv, hc⟩ := h.retrieveAll
    exact ⟨hv, by rw [hc, List.drop_eq_nil_of_le (by omega)]⟩

end Indices

/-- A string that is returned has the length asked for; an exception leaves the buffer
as it was. -/
theorem retrieveAsString_spec (b : Buffer) (len : ℕ) :
    (∃ text, text.length = len ∧ b.retrieveAsString len = .ok (b.retrieve len, text)) ∨
      b.retrieveAsString len = .error .outOfBounds ∨
      b.retrieveAsString len = .error (.lengthError b) := by
  unfold Buffer.retrieveAsString peekString peek
  split_ifs
  · cases hload : load b.buffer b.readerIndex len with
    | none => exact .inr (.inl rfl)
    | some text => exact .inl ⟨text, load_length hload, rfl⟩
  · exact .inr (.inr rfl)

/-- The two sums `makeSpace` forms do not wrap. -/
def NoWrap (b : Buffer) (len : ℕ) : Prop :=
  kCheapPrepend + len < 2 ^ 64 ∧ b.writerIndex + len < 2 ^ 64

/-- The buffer has to grow past the largest vector: `resize` throws. -/
def Refuses (b : Buffer) (len : ℕ) : Prop :=
  b.writableBytes < len ∧ b.writableBytes + b.prependableBytes < kCheapPrepend + len ∧
    maxSize < b.writerIndex + len

instance (b : Buffer) (len : ℕ) : Decidable (b.Refuses len) :=
  inferInstanceAs (Decidable (_ ∧ _ ∧ _))

theorem Valid.space_sum {b : Buffer} (h : b.Valid) :
    addSize b.writableBytes b.prependableBytes = b.writableBytes + b.prependableBytes := by
  have hw := h.writableBytes_eq
  have hl := h.length_lt
  have ho := h.ordered
  have hi := h.inside
  exact addSize_eq (by unfold prependableBytes; omega)

/-- Growing keeps every index and the bytes below the old end. -/
theorem Valid.grow {b : Buffer} (h : b.Valid) {len : ℕ} (hm : b.writerIndex + len ≤ maxSize) :
    ∃ b', b.resizeTo (b.writerIndex + len) = .ok b' ∧ b'.Valid ∧ b'.content = b.content ∧
      len ≤ b'.writableBytes := by
  have hv : ({ b with buffer := resize b.buffer (b.writerIndex + len) 0 } : Buffer).Valid :=
    ⟨h.prepend, h.ordered, by simp [length_resize], by simpa [length_resize] using hm⟩
  refine ⟨_, if_pos hm, hv, ?_, ?_⟩
  · exact window_resize _ _ _ h.inside (Nat.le_add_right _ _)
  · rw [hv.writableBytes_eq, length_resize]
    exact (Nat.add_sub_cancel_left _ _).ge

/-- Compaction moves the readable bytes to the prepend mark. -/
theorem Valid.compact {b : Buffer} (h : b.Valid) :
    ∃ b', (do
        let moved ← access (load b.buffer b.readerIndex b.readableBytes)
        let buffer ← access (store b.buffer kCheapPrepend moved)
        return (⟨kCheapPrepend, addSize kCheapPrepend b.readableBytes, buffer⟩ : Buffer)) = .ok b' ∧
      b'.Valid ∧ b'.content = b.content ∧
      b'.writableBytes + kCheapPrepend = b.writableBytes + b.prependableBytes := by
  have hr := h.readableBytes_eq
  have hp := h.prepend
  have ho := h.ordered
  have hi := h.inside
  have hl := h.length_lt
  have hadd : addSize kCheapPrepend b.readableBytes = kCheapPrepend + b.readableBytes :=
    addSize_eq (by omega)
  have hload : load b.buffer b.readerIndex b.readableBytes = some b.content := by
    rw [load_eq _ (by omega), content, hr, Nat.add_sub_cancel' ho]
  have hfit : kCheapPrepend + b.content.length ≤ b.buffer.length := by
    rw [h.length_content]; omega
  have hv : (⟨kCheapPrepend, kCheapPrepend + b.readableBytes,
      put b.buffer kCheapPrepend b.content⟩ : Buffer).Valid := by
    refine ⟨le_rfl, Nat.le_add_right _ _, ?_, ?_⟩
    · rw [length_put _ hfit, ← h.length_content]; exact hfit
    · rw [length_put _ hfit]; exact h.sized
  refine ⟨_, ?_, hv, ?_, ?_⟩
  · rw [hload, hadd]
    simp only [access, bind, Except.bind, store_eq _ hfit]
    rfl
  · rw [content, ← h.length_content, window_put _ le_rfl hfit, window_self, List.nil_append]
  · have hc := hv.writableBytes_eq
    simp only [length_put _ hfit] at hc
    rw [hc, h.writableBytes_eq, prependableBytes]
    omega

/-- `ensureWriteableBytes` makes room without touching the readable bytes, or
the vector refuses to grow and nothing has changed. -/
theorem Valid.ensureWriteableBytes {b : Buffer} (h : b.Valid) {len : ℕ} (hw : b.NoWrap len) :
    (b.Refuses len ∧ b.ensureWriteableBytes len = .error (.lengthError b)) ∨
    (¬ b.Refuses len ∧ ∃ b', b.ensureWriteableBytes len = .ok b' ∧ b'.Valid ∧
      b'.content = b.content ∧ len ≤ b'.writableBytes) := by
  unfold Buffer.ensureWriteableBytes
  split_ifs with hlen
  · unfold makeSpace
    rw [h.space_sum, addSize_eq hw.1, addSize_eq hw.2]
    have hwe := h.writableBytes_eq
    have hi := h.inside
    split_ifs with hgrow
    · by_cases hm : b.writerIndex + len ≤ maxSize
      · exact .inr ⟨fun hn => absurd hm (not_le.mpr hn.2.2), h.grow hm⟩
      · exact .inl ⟨⟨hlen, hgrow, not_le.mp hm⟩, if_neg hm⟩
    · obtain ⟨b', hb', hv, hc, hs⟩ := h.compact
      exact .inr ⟨fun hn => hgrow hn.2.1, b', hb', hv, hc, by omega⟩
  · exact .inr ⟨fun hn => hlen hn.1, b, rfl, h, rfl, not_lt.mp hlen⟩

/-- Storing bytes at `writerIndex` and advancing it appends them. -/
theorem Valid.fill {b : Buffer} (h : b.Valid) {data : Bytes}
    (hd : data.length ≤ b.writableBytes) :
    store b.buffer b.writerIndex data = some (put b.buffer b.writerIndex data) ∧
    (⟨b.readerIndex, addSize b.writerIndex data.length,
      put b.buffer b.writerIndex data⟩ : Buffer).Valid ∧
    (⟨b.readerIndex, addSize b.writerIndex data.length,
      put b.buffer b.writerIndex data⟩ : Buffer).content = b.content ++ data := by
  have hw := h.writableBytes_eq
  have hi := h.inside
  have hl := h.length_lt
  have hfit : b.writerIndex + data.length ≤ b.buffer.length := by omega
  rw [addSize_eq (by omega)]
  refine ⟨store_eq _ hfit, ⟨h.prepend, h.ordered.trans (Nat.le_add_right _ _), ?_, ?_⟩, ?_⟩
  · simpa only [length_put _ hfit] using hfit
  · simpa only [length_put _ hfit] using h.sized
  · exact window_put _ h.ordered hfit

theorem Valid.append {b : Buffer} (h : b.Valid) {data : Bytes} (hw : b.NoWrap data.length) :
    (b.Refuses data.length ∧ b.append data = .error (.lengthError b)) ∨
    (¬ b.Refuses data.length ∧ ∃ b', b.append data = .ok b' ∧ b'.Valid ∧
      b'.content = b.content ++ data) := by
  unfold Buffer.append
  rcases h.ensureWriteableBytes hw with ⟨hr, he⟩ | ⟨hr, b', he, hv, hc, hs⟩
  · exact .inl ⟨hr, by rw [he]; rfl⟩
  · obtain ⟨hst, hv', hc'⟩ := hv.fill hs
    refine .inr ⟨hr, _, ?_, hv', by rw [hc', hc]⟩
    rw [he]
    simp only [bind, Except.bind, hst, access]
    rfl

/-- The vectors handed to `::readv` never reach past the writable bytes. -/
theorem vectors_sum_le (b : Buffer) : b.vectors.sum ≤ b.writableBytes := by
  unfold vectors
  split_ifs
  · exact (List.sum_singleton).le
  · exact Nat.zero_le _

/-- Bytes the kernel can deliver into its vectors never spill into `extrabuf`. -/
theorem readFd_delivered {b : Buffer} {readv : List ℕ → ReadvAnswer} {data : Bytes}
    (hr : readv b.vectors = .delivered data) (hd : data.length ≤ b.vectors.sum) :
    b.readFd readv = (access (store b.buffer b.writerIndex data)).map fun m =>
      (⟨b.readerIndex, addSize b.writerIndex data.length, m⟩, .count data.length) := by
  have hle := hd.trans b.vectors_sum_le
  simp only [readFd, hr, List.take_of_length_le hle, if_pos hle]
  cases store b.buffer b.writerIndex data <;> rfl

theorem readFd_failed {b : Buffer} {readv : List ℕ → ReadvAnswer} {errno : Errno}
    (hr : readv b.vectors = .failed errno) : b.readFd readv = .ok (b, .failed errno) := by
  simp only [readFd, hr]

theorem Valid.readFd {b : Buffer} (h : b.Valid) {readv : List ℕ → ReadvAnswer} {data : Bytes}
    (hr : readv b.vectors = .delivered data) (hd : data.length ≤ b.vectors.sum) :
    ∃ b', b.readFd readv = .ok (b', .count data.length) ∧ b'.Valid ∧
      b'.content = b.content ++ data := by
  obtain ⟨hs, hv, hc⟩ := h.fill (hd.trans b.vectors_sum_le)
  refine ⟨_, ?_, hv, hc⟩
  rw [readFd_delivered hr hd, hs]
  rfl

/-- The bounds that survive calls with any lengths, wrapped sums included. -/
structure Bounded (b : Buffer) : Prop where
  ordered : b.readerIndex ≤ b.writerIndex
  written : b.writerIndex ≤ maxSize
  sized : b.buffer.length ≤ maxSize

theorem Valid.bounded {b : Buffer} (h : b.Valid) : b.Bounded :=
  ⟨h.ordered, h.inside.trans h.sized, h.sized⟩

theorem initial_valid : initial.Valid ∧ initial.content = [] :=
  create_valid (by decide) create_initial

theorem Bounded.retrieveAll {b : Buffer} (h : b.Bounded) : b.retrieveAll.Bounded :=
  ⟨le_rfl, show kCheapPrepend ≤ maxSize by decide, h.sized⟩

theorem Bounded.readableBytes_eq {b : Buffer} (h : b.Bounded) :
    b.readableBytes = b.writerIndex - b.readerIndex := by
  have hw := h.written
  unfold maxSize at hw
  exact subSize_eq h.ordered (by omega)

theorem Bounded.retrieve {b : Buffer} (h : b.Bounded) (len : ℕ) : (b.retrieve len).Bounded := by
  have hr := h.readableBytes_eq
  have hw := h.written
  unfold Buffer.retrieve
  split_ifs with hl
  · have hadd : addSize b.readerIndex len = b.readerIndex + len :=
      addSize_eq (by unfold maxSize at hw; omega)
    refine ⟨?_, hw, h.sized⟩
    simp only [hadd]
    omega
  · exact h.retrieveAll

/-- Storing at `writerIndex` and advancing it, whatever came before. -/
theorem Bounded.store {b : Buffer} (h : b.Bounded) {data m : Bytes}
    (hs : BoundedMemory.store b.buffer b.writerIndex data = some m) :
    (⟨b.readerIndex, addSize b.writerIndex data.length, m⟩ : Buffer).Bounded := by
  have ho := h.ordered
  have hw := h.written
  have hm := store_length hs
  have hsum : b.writerIndex + data.length ≤ maxSize := by
    cases data with
    | nil => simpa using hw
    | cons x xs => exact (store_bound hs (List.cons_ne_nil x xs)).trans h.sized
  have hadd : addSize b.writerIndex data.length = b.writerIndex + data.length :=
    addSize_eq (by unfold maxSize at hsum; omega)
  refine ⟨?_, ?_, hm.trans_le h.sized⟩
  · simp only [hadd]
    omega
  · simpa only [hadd] using hsum

/-- A call that returned kept the bounds; one that threw left the buffer. -/
def Settles (b : Buffer) (r : Except Fault Buffer) : Prop :=
  (∀ b', r = .ok b' → b'.Bounded) ∧ ∀ left, r = .error (.lengthError left) → left = b

theorem settles_ok {b b' : Buffer} (h : b'.Bounded) : b.Settles (.ok b') := by
  constructor
  · intro b'' h
    cases h
    exact h
  · intro left h
    cases h

theorem settles_outOfBounds (b : Buffer) : b.Settles (.error .outOfBounds) := by
  constructor
  · intro b' h
    cases h
  · intro left h
    cases h

theorem settles_lengthError (b : Buffer) : b.Settles (.error (.lengthError b)) := by
  constructor
  · intro b' h
    cases h
  · intro left h
    cases h
    rfl

theorem Bounded.makeSpace {b : Buffer} (h : b.Bounded) (len : ℕ) :
    b.Settles (b.makeSpace len) := by
  unfold Buffer.makeSpace resizeTo
  split_ifs with hspace hmax
  · exact settles_ok ⟨h.ordered, h.written, by simpa only [length_resize] using hmax⟩
  · exact settles_lengthError b
  · cases hload : load b.buffer b.readerIndex b.readableBytes with
    | none =>
        simp only [access, bind, Except.bind, hload]
        exact settles_outOfBounds b
    | some moved =>
        cases hstore : BoundedMemory.store b.buffer kCheapPrepend moved with
        | none =>
            simp only [access, bind, Except.bind, hload, hstore]
            exact settles_outOfBounds b
        | some m =>
            simp only [access, bind, Except.bind, hload, hstore]
            have hbase : (⟨kCheapPrepend, kCheapPrepend, b.buffer⟩ : Buffer).Bounded :=
              ⟨le_rfl, show kCheapPrepend ≤ maxSize by decide, h.sized⟩
            have hb := hbase.store hstore
            rw [load_length hload] at hb
            exact settles_ok hb

theorem Bounded.ensureWriteableBytes {b : Buffer} (h : b.Bounded) (len : ℕ) :
    b.Settles (b.ensureWriteableBytes len) := by
  unfold Buffer.ensureWriteableBytes
  split_ifs with hl
  · exact h.makeSpace len
  · exact settles_ok h

theorem Bounded.append {b : Buffer} (h : b.Bounded) (data : Bytes) :
    b.Settles (b.append data) := by
  have hs := h.ensureWriteableBytes data.length
  unfold Buffer.append
  cases he : b.ensureWriteableBytes data.length with
  | error fault =>
      rw [he] at hs
      constructor
      · intro b' h
        cases h
      · intro left h
        cases h
        exact hs.2 left rfl
  | ok b₁ =>
      cases hstore : BoundedMemory.store b₁.buffer b₁.writerIndex data with
      | none =>
          simp only [access, bind, Except.bind, hstore]
          exact settles_outOfBounds b
      | some m =>
          simp only [access, bind, Except.bind, hstore]
          exact settles_ok ((hs.1 b₁ he).store hstore)

end Buffer

end Netmux.SocketBuffer
