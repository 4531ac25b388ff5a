import Mathlib.Data.Finset.Basic
import Mathlib.Logic.Function.Basic

/-!
# Handles with one owner each

Owners hold at most one handle each; the handles that are open are held by an
owner, or somebody else answers for them. A ledger is balanced if nothing is held
twice and nothing open is left without a holder. The operations on it are to
acquire a handle, to take one over from elsewhere, to hand one on and to release
one; each keeps the ledger balanced under what it requires. Nothing here refers to
a particular program.
-/
namespace Netmux.UniqueOwnership

variable {O H : Type*}

@[ext]
structure Ledger (O H : Type*) where
  held : O → Option H
  opened : Finset H
  elsewhere : Finset H

structure Balanced (l : Ledger O H) : Prop where
  one : ∀ i j h, l.held i = some h → l.held j = some h → i = j
  apart : ∀ i h, l.held i = some h → h ∉ l.elsewhere
  accounted : ∀ h, h ∈ l.opened ↔ h ∈ l.elsewhere ∨ ∃ i, l.held i = some h

theorem Balanced.open_of_held {l : Ledger O H} (hl : Balanced l) {i : O} {h : H}
    (hi : l.held i = some h) : h ∈ l.opened := (hl.accounted h).mpr (Or.inr ⟨i, hi⟩)

theorem Balanced.not_held {l : Ledger O H} (hl : Balanced l) {h : H} (hout : h ∉ l.opened) (i : O) :
    l.held i ≠ some h := fun hi => hout (hl.open_of_held hi)

section Operations
variable [DecidableEq O] {l : Ledger O H} {i j k : O} {h g : H}

/-- The first owner gets what the second one holds. -/
def Ledger.handOn (l : Ledger O H) (i j : O) : Ledger O H where
  held := Function.update (Function.update l.held i (l.held j)) j none
  opened := l.opened
  elsewhere := l.elsewhere

/-- Who holds what once a handle was handed on. -/
theorem held_handOn (hne : i ≠ j) (hfree : l.held i = none) :
    (l.handOn i j).held k = some g ↔ k = i ∧ l.held j = some g ∨ k ≠ j ∧ l.held k = some g := by
  simp only [Ledger.handOn]
  by_cases hkj : k = j
  · subst hkj
    simp [hne.symm]
  · rw [Function.update_of_ne hkj]
    by_cases hki : k = i
    · subst hki
      simp [hfree]
    · simp [hki, hkj]

theorem Balanced.handOn (hl : Balanced l) (hne : i ≠ j) (hfree : l.held i = none) :
    Balanced (l.handOn i j) where
  one := by
    intro a b g ha hb
    rcases (held_handOn hne hfree).mp ha with ⟨hai, hja⟩ | ⟨haj, hla⟩
    · rcases (held_handOn hne hfree).mp hb with ⟨hbi, -⟩ | ⟨hbj, hlb⟩
      · exact hai.trans hbi.symm
      · exact absurd (hl.one b j g hlb hja) hbj
    · rcases (held_handOn hne hfree).mp hb with ⟨-, hjb⟩ | ⟨-, hlb⟩
      · exact absurd (hl.one a j g hla hjb) haj
      · exact hl.one a b g hla hlb
  apart := by
    intro a g ha
    rcases (held_handOn hne hfree).mp ha with ⟨-, ha⟩ | ⟨-, ha⟩
    · exact hl.apart j g ha
    · exact hl.apart a g ha
  accounted := by
    intro g
    refine (hl.accounted g).trans (or_congr_right ⟨?_, ?_⟩)
    · rintro ⟨a, ha⟩
      by_cases haj : a = j
      · exact ⟨i, (held_handOn hne hfree).mpr (Or.inl ⟨rfl, haj ▸ ha⟩)⟩
      · exact ⟨a, (held_handOn hne hfree).mpr (Or.inr ⟨haj, ha⟩)⟩
    · rintro ⟨a, ha⟩
      rcases (held_handOn hne hfree).mp ha with ⟨-, ha⟩ | ⟨-, ha⟩
      · exact ⟨j, ha⟩
      · exact ⟨a, ha⟩

/-- Who holds what after an owner without a handle got one. -/
theorem held_update (hfree : l.held i = none) :
    Function.update l.held i (some h) k = some g ↔ k = i ∧ g = h ∨ l.held k = some g := by
  by_cases hk : k = i
  · subst hk
    simp [hfree, eq_comm]
  · simp [hk]

/-- An owner gets a handle nobody holds; from now on it answers for it. -/
theorem Balanced.give (hl : Balanced l) (hfree : l.held i = none) (hnone : ∀ a, l.held a ≠ some h)
    {opened elsewhere : Finset H} (hopened : ∀ g, g ∈ opened ↔ g = h ∨ g ∈ l.opened)
    (helse : ∀ g, g ∈ elsewhere ↔ g ≠ h ∧ g ∈ l.elsewhere) :
    Balanced ⟨Function.update l.held i (some h), opened, elsewhere⟩ where
  one := by
    intro a b g ha hb
    rcases (held_update hfree).mp ha with ⟨hai, hgh⟩ | hla
    · rcases (held_update hfree).mp hb with ⟨hbi, -⟩ | hlb
      · exact hai.trans hbi.symm
      · exact absurd (hgh ▸ hlb) (hnone b)
    · rcases (held_update hfree).mp hb with ⟨-, hgh⟩ | hlb
      · exact absurd (hgh ▸ hla) (hnone a)
      · exact hl.one a b g hla hlb
  apart := by
    intro a g ha hg
    obtain ⟨hne, hg⟩ := (helse g).mp hg
    rcases (held_update hfree).mp ha with ⟨-, rfl⟩ | ha
    · exact hne rfl
    · exact hl.apart a g ha hg
  accounted := by
    intro g
    have hheld : (∃ a, Function.update l.held i (some h) a = some g) ↔
        g = h ∨ ∃ a, l.held a = some g := by
      simp only [held_update hfree, exists_or, exists_eq_left]
    rw [hopened, helse, hheld, hl.accounted]
    by_cases hgh : g = h
    · simp [hgh]
    · simp [hgh]

variable [DecidableEq H]

def Ledger.acquire (l : Ledger O H) (i : O) (h : H) : Ledger O H where
  held := Function.update l.held i (some h)
  opened := insert h l.opened
  elsewhere := l.elsewhere

/-- Somebody else answered for the handle so far. -/
def Ledger.claim (l : Ledger O H) (i : O) (h : H) : Ledger O H where
  held := Function.update l.held i (some h)
  opened := l.opened
  elsewhere := l.elsewhere.erase h

def Ledger.release (l : Ledger O H) (i : O) : Ledger O H where
  held := Function.update l.held i none
  opened := match l.held i with
    | some h => l.opened.erase h
    | none => l.opened
  elsewhere := l.elsewhere

theorem Balanced.acquire (hl : Balanced l) (hfree : l.held i = none) (hnew : h ∉ l.opened) :
    Balanced (l.acquire i h) := by
  refine hl.give hfree (hl.not_held hnew) (fun g => Finset.mem_insert) fun g => ?_
  refine (and_iff_right_of_imp fun hg => ?_).symm
  rintro rfl
  exact hnew ((hl.accounted g).mpr (Or.inl hg))

theorem Balanced.claim (hl : Balanced l) (hfree : l.held i = none) (helse : h ∈ l.elsewhere) :
    Balanced (l.claim i h) := by
  refine hl.give hfree (fun a ha => hl.apart a h ha helse) (fun g => ?_) fun g => Finset.mem_erase
  refine (or_iff_right_of_imp ?_).symm
  rintro rfl
  exact (hl.accounted g).mpr (Or.inl helse)

theorem held_release : (l.release i).held k = some g ↔ k ≠ i ∧ l.held k = some g := by
  by_cases hk : k = i
  · simp [Ledger.release, hk]
  · simp [Ledger.release, hk]

theorem mem_opened_release : g ∈ (l.release i).opened ↔ g ∈ l.opened ∧ l.held i ≠ some g := by
  simp only [Ledger.release]
  split
  · rename_i h hi
    rw [Finset.mem_erase, hi, and_comm]
    simp [eq_comm]
  · rename_i hi
    simp [hi]

theorem Balanced.release (hl : Balanced l) : Balanced (l.release i) where
  one := fun a b g ha hb => hl.one a b g (held_release.mp ha).2 (held_release.mp hb).2
  apart := fun a g ha => hl.apart a g (held_release.mp ha).2
  accounted := by
    intro g
    rw [mem_opened_release, hl.accounted g]
    constructor
    · rintro ⟨hg | ⟨a, ha⟩, hi⟩
      · exact Or.inl hg
      · exact Or.inr ⟨a, held_release.mpr ⟨fun heq => hi (heq ▸ ha), ha⟩⟩
    · rintro (hg | ⟨a, ha⟩)
      · exact ⟨Or.inl hg, fun hi => hl.apart i g hi hg⟩
      · obtain ⟨hai, ha⟩ := held_release.mp ha
        exact ⟨Or.inr ⟨a, ha⟩, fun hi => hai (hl.one a i g ha hi)⟩

end Operations

section Elsewhere
variable [DecidableEq H] {l : Ledger O H} {h : H}

def Ledger.acquireElsewhere (l : Ledger O H) (h : H) : Ledger O H where
  held := l.held
  opened := insert h l.opened
  elsewhere := insert h l.elsewhere

def Ledger.releaseElsewhere (l : Ledger O H) (h : H) : Ledger O H where
  held := l.held
  opened := l.opened.erase h
  elsewhere := l.elsewhere.erase h

theorem Balanced.acquireElsewhere (hl : Balanced l) (hnew : h ∉ l.opened) :
    Balanced (l.acquireElsewhere h) where
  one := hl.one
  apart := by
    intro a g ha hg
    rcases Finset.mem_insert.mp hg with rfl | hg
    · exact hl.not_held hnew a ha
    · exact hl.apart a g ha hg
  accounted := by
    intro g
    simp only [Ledger.acquireElsewhere, Finset.mem_insert, hl.accounted g, or_assoc]

theorem Balanced.releaseElsewhere (hl : Balanced l) (helse : h ∈ l.elsewhere) :
    Balanced (l.releaseElsewhere h) where
  one := hl.one
  apart := fun a g ha hg => hl.apart a g ha (Finset.mem_of_mem_erase hg)
  accounted := by
    intro g
    simp only [Ledger.releaseElsewhere, Finset.mem_erase, hl.accounted g]
    by_cases hgh : g = h
    · subst hgh
      simpa using fun a ha => hl.apart a g ha helse
    · simp [hgh]

end Elsewhere

end Netmux.UniqueOwnership
