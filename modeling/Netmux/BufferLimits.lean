import Netmux.QueueRefinement

/-!
# Buffer calls with any length

`retrieveAsString` and `ensureWriteableBytes` take any `size_t`. `retrieve` takes
a length past the readable bytes to mean all of them; `retrieveAsString` copies
that many cells first, so that bytes left behind by earlier messages, or none of
the vector's, go out with the readable ones. Only a length that no string can have
makes it throw instead.

`makeSpace` forms two sums. As long as `writerIndex_ + len` does not wrap neither
does, and room is made or the vector refuses to grow. Past that the test takes
the way of compaction, or `resize` gets a size below `writerIndex_`.
-/
namespace Netmux.BufferLimits
open BoundedMemory SocketBuffer QueueRefinement

/-- Two buffers that a user cannot tell apart by what is readable. -/
structure SameView (b₁ b₂ : Buffer) : Prop where
  readerIndex : b₂.readerIndex = b₁.readerIndex
  writerIndex : b₂.writerIndex = b₁.writerIndex
  size : b₂.buffer.length = b₁.buffer.length
  content : b₂.content = b₁.content

/-- Both return the first readable bytes, as many of `len` as there are, and are
left as `retrieve` leaves them, with the rest. -/
structure Confined (b₁ b₂ : Buffer) (len : ℕ) : Prop where
  first : b₁.retrieveAsString len =
    .ok (b₁.retrieve len, b₁.content.take (min len b₁.readableBytes))
  second : b₂.retrieveAsString len =
    .ok (b₂.retrieve len, b₁.content.take (min len b₁.readableBytes))
  rest : (b₁.retrieve len).content = b₁.content.drop (min len b₁.readableBytes) ∧
    (b₂.retrieve len).content = b₁.content.drop (min len b₁.readableBytes)

theorem retrieve_content {b : Buffer} (h : b.Valid) (len : ℕ) :
    (b.retrieve len).content = b.content.drop (min len b.readableBytes) := by
  rw [(h.retrieve len).2, ← h.length_content]
  rcases Nat.le_total len b.content.length with hle | hle
  · rw [Nat.min_eq_left hle]
  · rw [Nat.min_eq_right hle, List.drop_eq_nil_of_le hle, List.drop_length]

theorem SameView.readableBytes {b₁ b₂ : Buffer} (h : SameView b₁ b₂) :
    b₂.readableBytes = b₁.readableBytes := by
  unfold Buffer.readableBytes
  rw [h.readerIndex, h.writerIndex]

/-- The string has the length asked for, whatever is readable. -/
theorem retrieveAsString_length {b : Buffer} {len : ℕ} {r : Buffer × Bytes}
    (h : b.retrieveAsString len = .ok r) : r.2.length = len := by
  rcases b.retrieveAsString_spec len with ⟨text, hlen, htext⟩ | hfault | hthrown
  · cases htext.symm.trans h
    exact hlen
  · cases hfault.symm.trans h
  · cases hthrown.symm.trans h

/-- For every two valid buffers with the same view and every length, the call
discloses the readable bytes and nothing else exactly if it asks for no more than
are readable. -/
theorem retrieveAsString_confined_iff {b₁ b₂ : Buffer} (h₁ : b₁.Valid) (h₂ : b₂.Valid)
    (h : SameView b₁ b₂) (len : ℕ) : Confined b₁ b₂ len ↔ len ≤ b₁.readableBytes := by
  constructor
  · intro hc
    have hlen : (b₁.content.take (min len b₁.readableBytes)).length = len :=
      retrieveAsString_length hc.first
    rw [List.length_take, h₁.length_content] at hlen
    omega
  · intro hl
    have hmin : min len b₁.readableBytes = len := Nat.min_eq_left hl
    constructor
    · rw [hmin]
      exact retrieveAsString_eq h₁ hl
    · rw [hmin, ← h.content]
      exact retrieveAsString_eq h₂ (h.readableBytes ▸ hl)
    · refine ⟨retrieve_content h₁ len, ?_⟩
      rw [retrieve_content h₂, h.content, h.readableBytes]

/-- A message of one byte behind an earlier one of two, which ended in `old`. -/
def reused (old : UInt8) : Buffer := ⟨8, 9, [0, 0, 0, 0, 0, 0, 0, 0, 1, old]⟩

theorem reused_valid (old : UInt8) : (reused old).Valid := by
  constructor <;> simp [reused, kCheapPrepend, maxSize]

theorem retrieveAsString_confined_iff_reused :
    Confined (reused 2) (reused 3) 1 ↔ 1 ≤ (reused 2).readableBytes :=
  retrieveAsString_confined_iff (reused_valid 2) (reused_valid 3) ⟨rfl, rfl, rfl, rfl⟩ 1

/-- A length of two returns the old byte as well. -/
theorem reused_discloses :
    (∃ b₁ b₂, (reused 2).retrieveAsString 2 = .ok (b₁, [1, 2]) ∧
      (reused 3).retrieveAsString 2 = .ok (b₂, [1, 3])) ∧ ¬ Confined (reused 2) (reused 3) 2 := by
  refine ⟨⟨_, _, rfl, rfl⟩, ?_⟩
  intro hc
  have hfirst : (reused 2).retrieveAsString 2 = .ok (⟨8, 8, (reused 2).buffer⟩, [1, 2]) := rfl
  cases hfirst.symm.trans hc.first

/-- The call throws and leaves the buffer, or it makes the room it was asked for
and keeps the invariant and the readable bytes. -/
def Safe (b : Buffer) (len : ℕ) : Prop :=
  b.ensureWriteableBytes len = .error (.lengthError b) ∨
    ∃ b', b.ensureWriteableBytes len = .ok b' ∧ len ≤ b'.writableBytes ∧ b'.Valid ∧
      b'.content = b.content

theorem writableBytes_le {b : Buffer} (h : b.Valid) : b.writableBytes ≤ maxSize := by
  rw [h.writableBytes_eq]
  exact (Nat.sub_le _ _).trans h.sized

/-- The size handed to `resize` wraps: the vector shrinks below `writerIndex_`. -/
theorem ensureWriteableBytes_shrinks {b : Buffer} (h : b.Valid) {len : ℕ}
    (hsum : kCheapPrepend + len < 2 ^ 64) (hwrap : 2 ^ 64 ≤ b.writerIndex + len) :
    ∃ b', b.ensureWriteableBytes len = .ok b' ∧ b'.buffer.length < b'.writerIndex := by
  have hwritable := writableBytes_le h
  have hspace := h.space_sum
  have hw := h.writableBytes_eq
  have ho := h.ordered
  have hi := h.inside
  have hs := h.sized
  unfold maxSize at hwritable hs
  have hsize : addSize b.writerIndex len = b.writerIndex + len - 2 ^ 64 := by
    unfold addSize
    unfold kCheapPrepend at hsum
    omega
  have hfull : b.writableBytes < len := by omega
  have hgrow : b.writableBytes + b.prependableBytes < kCheapPrepend + len := by
    unfold Buffer.prependableBytes
    omega
  refine ⟨{ b with buffer := resize b.buffer (b.writerIndex + len - 2 ^ 64) 0 }, ?_, ?_⟩
  · unfold Buffer.ensureWriteableBytes Buffer.makeSpace Buffer.resizeTo
    rw [if_pos hfull, hspace, addSize_eq hsum, if_pos hgrow, hsize, if_pos]
    unfold maxSize
    unfold kCheapPrepend at hsum
    omega
  · show (resize b.buffer (b.writerIndex + len - 2 ^ 64) 0).length < b.writerIndex
    rw [length_resize]
    unfold kCheapPrepend at hsum
    omega

/-- The sum of the test wraps: the buffer is compacted and returned too small. -/
theorem ensureWriteableBytes_compacts {b : Buffer} (h : b.Valid) {len : ℕ} (hlen : len < 2 ^ 64)
    (hsum : 2 ^ 64 ≤ kCheapPrepend + len) :
    ∃ b', b.ensureWriteableBytes len = .ok b' ∧ b'.writableBytes < len := by
  obtain ⟨b', hb', hv, -⟩ := h.compact
  have hwritable := writableBytes_le h
  have hwritable' := writableBytes_le hv
  have hp := h.prepend
  unfold maxSize at hwritable hwritable'
  unfold kCheapPrepend at hsum hp
  have hfull : b.writableBytes < len := by omega
  have hroom : ¬ addSize b.writableBytes b.prependableBytes < addSize kCheapPrepend len := by
    rw [h.space_sum]
    unfold addSize kCheapPrepend Buffer.prependableBytes
    omega
  refine ⟨b', ?_, by omega⟩
  unfold Buffer.ensureWriteableBytes Buffer.makeSpace
  rw [if_pos hfull, if_neg hroom]
  exact hb'

/-- For every valid buffer and every 64-bit length, `ensureWriteableBytes` is safe
exactly if the new end does not wrap. -/
theorem ensureWriteableBytes_safe_iff {b : Buffer} (h : b.Valid) {len : ℕ} (hlen : len < 2 ^ 64) :
    Safe b len ↔ b.writerIndex + len < 2 ^ 64 := by
  have hp := h.prepend
  have ho := h.ordered
  constructor
  · intro hsafe
    by_contra hwrap
    have hwrap := Nat.le_of_not_lt hwrap
    by_cases hsum : kCheapPrepend + len < 2 ^ 64
    · obtain ⟨b', hb', hshort⟩ := ensureWriteableBytes_shrinks h hsum hwrap
      rcases hsafe with hthrow | ⟨b'', hb'', -, hv, -⟩
      · cases hb'.symm.trans hthrow
      · cases hb'.symm.trans hb''
        exact Nat.not_lt.mpr hv.inside hshort
    · obtain ⟨b', hb', hsmall⟩ := ensureWriteableBytes_compacts h hlen (Nat.le_of_not_lt hsum)
      rcases hsafe with hthrow | ⟨b'', hb'', hroom, -, -⟩
      · cases hb'.symm.trans hthrow
      · cases hb'.symm.trans hb''
        exact Nat.not_lt.mpr hroom hsmall
  · intro hend
    have hnowrap : b.NoWrap len := ⟨by omega, hend⟩
    rcases h.ensureWriteableBytes hnowrap with ⟨-, hthrow⟩ | ⟨-, b', hb', hv, hc, hroom⟩
    · exact .inl hthrow
    · exact .inr ⟨b', hb', hroom, hv, hc⟩

theorem ensureWriteableBytes_safe_iff_initial :
    Safe .initial 4096 ↔ Buffer.initial.writerIndex + 4096 < 2 ^ 64 :=
  ensureWriteableBytes_safe_iff Buffer.initial_valid.1 (by decide)

/-- The largest length leaves a new buffer as it is and returns. -/
theorem ensureWriteableBytes_unsafe : ¬ Safe .initial (2 ^ 64 - 1) := by
  have hsmall : Buffer.initial.ensureWriteableBytes (2 ^ 64 - 1) = .ok .initial := by
    decide +kernel
  rintro (hthrow | ⟨b', hb', hroom, -, -⟩)
  · cases hsmall.symm.trans hthrow
  · cases hsmall.symm.trans hb'
    revert hroom
    decide +kernel

end Netmux.BufferLimits
