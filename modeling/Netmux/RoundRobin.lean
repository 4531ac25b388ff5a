import Mathlib.Data.List.Rotate

/-!
# Taking turns

The members of a list take turns in cyclic order. As many turns in a row as there
are members are a rotation of the list, so that each member has one; after any
number of turns two members' counts differ by one at most. Nothing here refers to
a particular program.
-/
namespace Netmux.RoundRobin

variable {α : Type*} {l : List α} (hl : 0 < l.length)

/-- Whose turn has the given number. -/
def turn (i : ℕ) : α := l.get ⟨i % l.length, Nat.mod_lt i hl⟩

/-- The `k` turns from a number on. -/
def turns (start k : ℕ) : List α := (List.range' start k).map (turn hl)

@[simp] theorem length_turns (start k : ℕ) : (turns hl start k).length = k := by
  rw [turns, List.length_map, List.length_range']

theorem turn_mod (i : ℕ) : turn hl (i % l.length) = turn hl i := by
  unfold turn
  simp only [Nat.mod_mod]

theorem turn_add_length (i : ℕ) : turn hl (i + l.length) = turn hl i := by
  rw [← turn_mod, Nat.add_mod_right, turn_mod]

theorem turns_succ (start k : ℕ) :
    turns hl start (k + 1) = turn hl start :: turns hl (start + 1) k := rfl

theorem turns_add (start j k : ℕ) :
    turns hl start (j + k) = turns hl start j ++ turns hl (start + j) k := by
  unfold turns
  rw [← List.map_append, List.range'_append_1]

theorem getElem?_turns (start : ℕ) {i k : ℕ} (h : i < k) :
    (turns hl start k)[i]? = some (turn hl (start + i)) := by
  unfold turns
  rw [List.getElem?_map, List.getElem?_range' h, Nat.one_mul]
  rfl

/-- The turns depend on the starting number through the member it points at. -/
theorem turns_mod (start k : ℕ) : turns hl (start % l.length) k = turns hl start k := by
  induction k generalizing start with
  | zero => rfl
  | succ k ih => rw [turns_succ, turns_succ, turn_mod, ← ih (start + 1), ← ih, Nat.mod_add_mod]

/-- A round is a rotation. -/
theorem turns_round (start : ℕ) : turns hl start l.length = l.rotate start := by
  apply List.ext_getElem
  · rw [length_turns, List.length_rotate]
  · intro i hi hr
    simp only [turns, List.getElem_map, List.getElem_range', Nat.one_mul, turn, List.get_eq_getElem,
      List.getElem_rotate, Nat.add_comm i start]

theorem turns_window (start : ℕ) {i k : ℕ} (h : i + l.length ≤ k) :
    ((turns hl start k).drop i).take l.length = l.rotate (start + i) := by
  obtain ⟨rest, rfl⟩ := Nat.exists_eq_add_of_le h
  have hdrop : (turns hl start (i + l.length + rest)).drop i =
      turns hl (start + i) l.length ++ turns hl (start + i + l.length) rest := by
    rw [Nat.add_assoc, turns_add, turns_add]
    exact List.drop_left' (length_turns hl start i)
  rw [hdrop, List.take_left' (length_turns ..), turns_round]

section Counts
variable [DecidableEq α]

theorem count_round (start : ℕ) (x : α) : (turns hl start l.length).count x = l.count x := by
  rw [turns_round]
  exact (List.rotate_perm l start).count_eq x

theorem count_rounds (start q : ℕ) (x : α) :
    (turns hl start (q * l.length)).count x = q * l.count x := by
  induction q with
  | zero => simp [turns]
  | succ q ih =>
      rw [Nat.add_one_mul, turns_add, List.count_append, ih, count_round, Nat.add_one_mul]

theorem count_turns_le (start : ℕ) {k : ℕ} (h : k ≤ l.length) (x : α) :
    (turns hl start k).count x ≤ l.count x := by
  obtain ⟨rest, hrest⟩ := Nat.exists_eq_add_of_le h
  calc (turns hl start k).count x
      ≤ (turns hl start k ++ turns hl (start + k) rest).count x := by
        rw [List.count_append]
        exact Nat.le_add_right ..
    _ = l.count x := by rw [← turns_add, ← hrest, count_round]

/-- The rounds completed give each member its turns, and the one under way at most
as many as a round. -/
theorem count_turns (start k : ℕ) (x : α) :
    k / l.length * l.count x ≤ (turns hl start k).count x ∧
      (turns hl start k).count x ≤ (k / l.length + 1) * l.count x := by
  have hsplit : k / l.length * l.length + k % l.length = k := Nat.div_add_mod' k l.length
  have hpartial := count_turns_le hl (start + k / l.length * l.length) (Nat.mod_lt k hl).le x
  have hcount : (turns hl start k).count x = k / l.length * l.count x +
      (turns hl (start + k / l.length * l.length) (k % l.length)).count x := by
    conv_lhs => rw [← hsplit]
    rw [turns_add, List.count_append, count_rounds]
  rw [hcount, Nat.add_one_mul]
  omega

/-- What a fair allotment of turns to the members of a list looks like. -/
structure Fair (l : List α) (out : List α) : Prop where
  periodic : ∀ i, i + l.length < out.length → out[i + l.length]? = out[i]?
  rounds : ∀ i, i + l.length ≤ out.length → ((out.drop i).take l.length).Perm l
  balanced : ∀ x ∈ l, ∀ y ∈ l, out.count x ≤ out.count y + 1

theorem turns_fair (hd : l.Nodup) (start k : ℕ) : Fair l (turns hl start k) := by
  constructor
  · intro i hi
    rw [length_turns] at hi
    rw [getElem?_turns hl start hi, getElem?_turns hl start (Nat.lt_of_add_right_lt hi),
      ← Nat.add_assoc, turn_add_length]
  · intro i hi
    rw [length_turns] at hi
    rw [turns_window hl start hi]
    exact List.rotate_perm l (start + i)
  · intro x hx y hy
    have hmost := (count_turns hl start k x).2
    have hleast := (count_turns hl start k y).1
    rw [List.count_eq_one_of_mem hd hx, Nat.mul_one] at hmost
    rw [List.count_eq_one_of_mem hd hy, Nat.mul_one] at hleast
    omega

end Counts

end Netmux.RoundRobin
