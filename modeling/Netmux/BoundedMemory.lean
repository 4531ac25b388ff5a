import Mathlib.Algebra.Order.Ring.Nat
import Mathlib.Data.List.Basic

/-!
# Machine sizes and checked cell ranges

Unsigned 64-bit sizes are natural numbers with the reduction written out, and
a block of memory is the list of its cells. `load` and `store` access a range
only if it lies inside the block; an empty range accesses nothing and asks
nothing of its position. The window lemmas say which cells a store or a change
of length leaves in a range.
-/
namespace Netmux.BoundedMemory

/-- Sum of two sizes modulo `2 ^ 64`. -/
def addSize (a b : ℕ) : ℕ := (a + b) % 2 ^ 64

/-- Difference of two sizes modulo `2 ^ 64`. -/
def subSize (a b : ℕ) : ℕ := (a + (2 ^ 64 - b)) % 2 ^ 64

theorem addSize_eq {a b : ℕ} (h : a + b < 2 ^ 64) : addSize a b = a + b := by
  rw [addSize, Nat.mod_eq_of_lt h]

theorem subSize_eq {a b : ℕ} (hb : b ≤ a) (ha : a < 2 ^ 64) : subSize a b = a - b := by
  rw [subSize, show a + (2 ^ 64 - b) = (a - b) + 2 ^ 64 by omega, Nat.add_mod_right]
  exact Nat.mod_eq_of_lt (by omega)

/-- A difference below zero wraps to the top of the range. -/
theorem subSize_wrap {a b : ℕ} (hb : a < b) (h : b ≤ 2 ^ 64) :
    subSize a b = a + (2 ^ 64 - b) := by
  rw [subSize, Nat.mod_eq_of_lt (by omega)]

/-- An `int` as a `size_t`. -/
def toSize (i : ℤ) : ℕ := (i % 2 ^ 64).toNat

/-- A `size_t` as an `int`. -/
def toInt (n : ℕ) : ℤ := (n : ℤ).bmod (2 ^ 32)

theorem toSize_natCast {n : ℕ} (h : n < 2 ^ 64) : toSize n = n := by
  unfold toSize
  omega

theorem toInt_eq {n : ℕ} (h : n < 2 ^ 31) : toInt n = n :=
  Int.bmod_eq_of_le_mul_two (by omega) (by omega)

theorem toInt_le (n : ℕ) : toInt n ≤ n ∧ toInt n < 2 ^ 31 := by
  unfold toInt
  rw [Int.bmod_eq_emod]
  split_ifs <;> omega

section Cells
variable {α : Type*}

/-- The cells at positions `i`, ..., `j - 1`. -/
def window (m : List α) (i j : ℕ) : List α := (m.take j).drop i

theorem length_window (m : List α) (i : ℕ) {j : ℕ} (h : j ≤ m.length) :
    (window m i j).length = j - i := by
  simp [window, Nat.min_eq_left h]

@[simp] theorem window_self (m : List α) (i : ℕ) : window m i i = [] := by
  simp only [window, List.drop_eq_nil_iff, List.length_take]
  omega

theorem take_window (m : List α) {i n j : ℕ} (h : i + n ≤ j) :
    (window m i j).take n = window m i (i + n) := by
  simp only [window, List.take_drop, List.take_take, Nat.min_eq_left h]

theorem drop_window (m : List α) (i n j : ℕ) : (window m i j).drop n = window m (i + n) j := by
  simp only [window, List.drop_drop]

/-- Overwrite the cells from `pos` on. -/
def put (m : List α) (pos : ℕ) (xs : List α) : List α :=
  m.take pos ++ xs ++ m.drop (pos + xs.length)

theorem length_put (m : List α) {pos : ℕ} {xs : List α} (h : pos + xs.length ≤ m.length) :
    (put m pos xs).length = m.length := by
  simp only [put, List.length_append, List.length_take, List.length_drop]
  omega

/-- Everything between `i` and the end of the overwritten range. -/
theorem window_put (m : List α) {i pos : ℕ} {xs : List α} (hi : i ≤ pos)
    (h : pos + xs.length ≤ m.length) :
    window (put m pos xs) i (pos + xs.length) = window m i pos ++ xs := by
  have hlen : (m.take pos ++ xs).length = pos + xs.length := by
    simp only [List.length_append, List.length_take]
    omega
  unfold window put
  rw [List.take_append_of_le_length hlen.ge, List.take_of_length_le hlen.le,
    List.drop_append_of_le_length (by rw [List.length_take]; omega)]

/-- Change the number of cells, filling new ones with `x`. -/
def resize (m : List α) (n : ℕ) (x : α) : List α := m.take n ++ List.replicate (n - m.length) x

theorem length_resize (m : List α) (n : ℕ) (x : α) : (resize m n x).length = n := by
  simp only [resize, List.length_append, List.length_take, List.length_replicate]
  omega

/-- A cell below the new length keeps its content. -/
theorem getElem?_resize {m : List α} {i n : ℕ} {a : α} (x : α) (h : m[i]? = some a)
    (hn : i < n) : (resize m n x)[i]? = some a := by
  have hi : i < (m.take n).length := by
    rw [List.length_take]
    exact lt_min hn (List.getElem?_eq_some_iff.mp h).choose
  rw [resize, List.getElem?_append_left hi, List.getElem?_take_of_lt hn, h]

theorem window_resize (m : List α) (i : ℕ) {j n : ℕ} (x : α) (hj : j ≤ m.length) (hn : j ≤ n) :
    window (resize m n x) i j = window m i j := by
  unfold window resize
  rw [List.take_append_of_le_length (by rw [List.length_take]; omega), List.take_take,
    Nat.min_eq_left hn]

/-- Read `len` cells from `pos` on. -/
def load (m : List α) (pos len : ℕ) : Option (List α) :=
  if len = 0 then some []
  else if pos + len ≤ m.length then some (window m pos (pos + len)) else none

/-- Write the cells `xs` from `pos` on. -/
def store (m : List α) (pos : ℕ) (xs : List α) : Option (List α) :=
  match xs with
  | [] => some m
  | x :: xs => if pos + (xs.length + 1) ≤ m.length then some (put m pos (x :: xs)) else none

theorem load_eq (m : List α) {pos len : ℕ} (h : pos + len ≤ m.length) :
    load m pos len = some (window m pos (pos + len)) := by
  unfold load
  split_ifs with hl
  · simp [hl]
  · rfl

theorem load_length {m xs : List α} {pos len : ℕ} (h : load m pos len = some xs) :
    xs.length = len := by
  unfold load at h
  split_ifs at h with hl hb
  · simpa [hl] using congrArg List.length (Option.some.inj h).symm
  · rw [← Option.some.inj h, length_window m pos hb]
    omega

theorem store_eq (m : List α) {pos : ℕ} {xs : List α} (h : pos + xs.length ≤ m.length) :
    store m pos xs = some (put m pos xs) := by
  cases xs with
  | nil => simp [store, put]
  | cons x xs => exact if_pos (by simpa using h)

theorem store_length {m m' xs : List α} {pos : ℕ} (h : store m pos xs = some m') :
    m'.length = m.length := by
  cases xs with
  | nil => rw [← Option.some.inj h]
  | cons x xs =>
      simp only [store] at h
      split_ifs at h with hb
      rw [← Option.some.inj h, length_put m (by simpa using hb)]

theorem store_bound {m m' xs : List α} {pos : ℕ} (h : store m pos xs = some m') (hx : xs ≠ []) :
    pos + xs.length ≤ m.length := by
  cases xs with
  | nil => exact absurd rfl hx
  | cons x xs =>
      simp only [store] at h
      split_ifs at h with hb
      simpa using hb

end Cells

end Netmux.BoundedMemory
