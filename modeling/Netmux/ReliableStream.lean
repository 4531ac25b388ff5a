import Mathlib.Order.MinMax
import Mathlib.Data.Nat.Notation
import Mathlib.Data.List.Basic

/-!
# One direction of a reliable stream

What has been written to a stream, in order, and how much of it has been read.
The transport loses and reorders nothing. A read takes the oldest items in
flight, as many as the transport hands over.
-/
namespace Netmux.ReliableStream

structure Flow (α : Type*) where
  written : List α
  taken : ℕ
  taken_le : taken ≤ written.length

namespace Flow
variable {α : Type*}

def empty : Flow α := ⟨[], 0, le_rfl⟩

def delivered (f : Flow α) : List α := f.written.take f.taken
def inFlight (f : Flow α) : List α := f.written.drop f.taken

def write (f : Flow α) (data : List α) : Flow α where
  written := f.written ++ data
  taken := f.taken
  taken_le := by
    have h := f.taken_le
    rw [List.length_append]
    omega

/-- The oldest `n` items in flight leave, or all if there are fewer. -/
def read (f : Flow α) (n : ℕ) : Flow α where
  written := f.written
  taken := min (f.taken + n) f.written.length
  taken_le := min_le_right _ _

@[simp] theorem inFlight_empty : (empty : Flow α).inFlight = [] := rfl
@[simp] theorem delivered_empty : (empty : Flow α).delivered = [] := rfl
@[simp] theorem written_empty : (empty : Flow α).written = [] := rfl
@[simp] theorem written_write (f : Flow α) (data : List α) :
    (f.write data).written = f.written ++ data := rfl
@[simp] theorem written_read (f : Flow α) (n : ℕ) : (f.read n).written = f.written := rfl

theorem delivered_isPrefix (f : Flow α) : f.delivered <+: f.written := List.take_prefix _ _

@[simp] theorem inFlight_write (f : Flow α) (data : List α) :
    (f.write data).inFlight = f.inFlight ++ data :=
  List.drop_append_of_le_length f.taken_le

@[simp] theorem delivered_write (f : Flow α) (data : List α) :
    (f.write data).delivered = f.delivered :=
  List.take_append_of_le_length f.taken_le

@[simp] theorem inFlight_read (f : Flow α) (n : ℕ) : (f.read n).inFlight = f.inFlight.drop n := by
  show f.written.drop (min (f.taken + n) f.written.length) = (f.written.drop f.taken).drop n
  rw [List.drop_drop]
  rcases le_total (f.taken + n) f.written.length with h | h
  · rw [min_eq_left h]
  · rw [min_eq_right h, List.drop_length, List.drop_eq_nil_of_le h]

/-- What was in flight is delivered, not one item twice. -/
@[simp] theorem delivered_read (f : Flow α) (n : ℕ) :
    (f.read n).delivered = f.delivered ++ f.inFlight.take n := by
  show f.written.take (min (f.taken + n) f.written.length) =
    f.written.take f.taken ++ (f.written.drop f.taken).take n
  rw [← List.take_add]
  rcases le_total (f.taken + n) f.written.length with h | h
  · rw [min_eq_left h]
  · rw [min_eq_right h, List.take_length, List.take_of_length_le h]

end Flow

section Blocks
variable {α : Type*}

/-- The block of this index, of a list cut into blocks of one size. -/
def block (size : ℕ) (l : List α) (index : ℕ) : List α := (l.drop (size * index)).take size

/-- Blocks that are there stay when more is written. -/
theorem block_append_left {size index count : ℕ} {l : List α} (hl : l.length = size * count)
    (hi : index < count) (m : List α) : block size (l ++ m) index = block size l index := by
  have hend : size * index + size ≤ l.length := by
    rw [hl, ← Nat.mul_succ]
    exact Nat.mul_le_mul_left size hi
  unfold block
  rw [List.drop_append_of_le_length (by omega), List.take_append_of_le_length]
  rw [List.length_drop]
  omega

theorem block_append_right {size count : ℕ} {l m : List α} (hl : l.length = size * count)
    (hm : m.length = size) : block size (l ++ m) count = m := by
  rw [block, ← hl, List.drop_left, ← hm, List.take_length]

end Blocks

end Netmux.ReliableStream
