import Mathlib.Logic.Function.Basic
import Mathlib.Data.List.Basic

/-!
# Tables keyed by numbered names

Entries are numbered as they come, and each is put under the name of its number
and may be erased under that name, at any time and also more than once. When
different numbers have different names, the table is exactly the set of entries
that have come and have not been erased. Nothing here refers to a particular
program.
-/
namespace Netmux.NumberedTable

variable {K : Type*} {key : ℕ → K} {table : K → Option ℕ} {count : ℕ} {erased : List ℕ}

/-- The table holds, under their keys, those of the first `count` entries that
have not been erased. -/
structure Exact (key : ℕ → K) (table : K → Option ℕ) (count : ℕ) (erased : List ℕ) : Prop where
  erased_lt : ∀ i ∈ erased, i < count
  eq_some : ∀ k i, table k = some i ↔ i < count ∧ key i = k ∧ i ∉ erased

theorem Exact.empty (key : ℕ → K) : Exact key (fun _ => none) 0 [] := by
  constructor
  · intro i hi
    cases hi
  · simp

theorem Exact.eq_key (h : Exact key table count erased) {k : K} {i : ℕ} (hk : table k = some i) :
    key i = k := ((h.eq_some k i).mp hk).2.1

section Injective
variable (hkey : Function.Injective key)
include hkey

/-- The next key is new. -/
theorem Exact.fresh (h : Exact key table count erased) : table (key count) = none := by
  cases hk : table (key count) with
  | none => rfl
  | some i =>
      have hlt : i < count := ((h.eq_some _ i).mp hk).1
      exact absurd (hkey (h.eq_key hk)) (Nat.ne_of_lt hlt)

variable [DecidableEq K]

theorem Exact.insert (h : Exact key table count erased) :
    Exact key (Function.update table (key count) (some count)) (count + 1) erased := by
  constructor
  · intro i hi
    exact Nat.lt_succ_of_lt (h.erased_lt i hi)
  · intro k i
    by_cases hk : k = key count
    · subst hk
      have hnew : count ∉ erased := fun hmem => Nat.lt_irrefl count (h.erased_lt count hmem)
      rw [Function.update_self, hkey.eq_iff, Option.some.injEq]
      constructor
      · rintro rfl
        exact ⟨Nat.lt_succ_self _, rfl, hnew⟩
      · exact fun hi => hi.2.1.symm
    · rw [Function.update_of_ne hk, h.eq_some]
      constructor
      · exact fun hi => ⟨Nat.lt_succ_of_lt hi.1, hi.2⟩
      · rintro ⟨hlt, rfl, hi⟩
        have hne : i ≠ count := fun heq => hk (congrArg key heq)
        exact ⟨Nat.lt_of_le_of_ne (Nat.le_of_lt_succ hlt) hne, rfl, hi⟩

/-- To erase an entry takes that entry out and no other. -/
theorem Exact.erase_eq (h : Exact key table count erased) (i : ℕ) (k : K) :
    Function.update table (key i) none k = if table k = some i then none else table k := by
  by_cases hk : k = key i
  · subst hk
    rw [Function.update_self]
    cases ht : table (key i) with
    | none => simp
    | some j => rw [if_pos (congrArg some (hkey (h.eq_key ht)))]
  · rw [Function.update_of_ne hk, if_neg fun ht => hk (h.eq_key ht).symm]

theorem Exact.erase (h : Exact key table count erased) {i : ℕ} (hi : i < count) :
    Exact key (Function.update table (key i) none) count (i :: erased) := by
  constructor
  · intro j hj
    rcases List.mem_cons.mp hj with rfl | hold
    · exact hi
    · exact h.erased_lt j hold
  · intro k j
    rw [h.erase_eq hkey]
    by_cases ht : table k = some i
    · have hother : ∀ j, table k = some j → j = i := fun j hj =>
        Option.some.inj (hj.symm.trans ht)
      rw [if_pos ht]
      simp only [reduceCtorEq, List.mem_cons, not_or, false_iff]
      rintro ⟨hlt, hj, hne, hmem⟩
      exact hne (hother j ((h.eq_some k j).mpr ⟨hlt, hj, hmem⟩))
    · rw [if_neg ht]
      constructor
      · intro hj
        obtain ⟨hlt, hk, hmem⟩ := (h.eq_some k j).mp hj
        have hne : j ≠ i := fun heq => ht (heq ▸ hj)
        exact ⟨hlt, hk, fun hcons => (List.mem_cons.mp hcons).elim hne hmem⟩
      · rintro ⟨hlt, hk, hmem⟩
        exact (h.eq_some k j).mpr ⟨hlt, hk, fun hold => hmem (List.mem_cons_of_mem i hold)⟩

end Injective

end Netmux.NumberedTable
