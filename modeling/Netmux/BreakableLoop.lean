import Netmux.ActionRuns

/-!
# Loops that may be left early

A `for` loop over the positions of a list whose body may break out of it. The
body is partial, as a machine's step is; each turn returns the state, what it
emitted and whether the loop goes on.

One induction on the positions serves every rule: the emissions simulate a
specification, or they are those of the positions up to the first that stops.
Nothing here refers to a particular program.
-/
namespace Netmux.BreakableLoop
open ActionRuns

variable {S P E Q : Type*}

structure Turn (S E : Type*) where
  state : S
  emitted : List E
  goesOn : Bool

def loop (body : S → P → Option (Turn S E)) : S → List P → Option (S × List E)
  | s, [] => some (s, [])
  | s, p :: ps =>
      (body s p).bind fun r =>
        if r.goesOn then (loop body r.state ps).map fun u => (u.1, r.emitted ++ u.2)
        else some (r.state, r.emitted)

variable {body : S → P → Option (Turn S E)}

theorem loop_cons_eq_some {s u : S} {p : P} {ps : List P} {es : List E} :
    loop body s (p :: ps) = some (u, es) ↔ ∃ r, body s p = some r ∧
      if r.goesOn then ∃ fs, loop body r.state ps = some (u, fs) ∧ es = r.emitted ++ fs
      else u = r.state ∧ es = r.emitted := by
  rw [loop, Option.bind_eq_some_iff]
  refine exists_congr fun r => and_congr_right fun _ => ?_
  by_cases hgo : r.goesOn
  · simp [hgo, eq_comm]
  · simp [hgo, eq_comm]

/-- What every turn establishes, from what it leaves to the next, holds at the end. -/
theorem loop_establishes {I : S → List P → Prop} {J : S → Prop}
    (hbody : ∀ s p ps r, I s (p :: ps) → body s p = some r →
      J r.state ∧ (r.goesOn → I r.state ps))
    {s t : S} {ps : List P} {es : List E} (hs : I s ps) (hj : J s)
    (h : loop body s ps = some (t, es)) : J t := by
  induction ps generalizing s es with
  | nil =>
      cases h
      exact hj
  | cons p ps ih =>
      obtain ⟨r, hr, hu⟩ := loop_cons_eq_some.mp h
      obtain ⟨hj, hi⟩ := hbody s p ps r hs hr
      split at hu
      · rename_i hgo
        obtain ⟨fs, hu, -⟩ := hu
        exact ih (hi hgo) hj hu
      · exact hu.1 ▸ hj

/-- If every turn's emissions run through the specification, the loop's do. -/
theorem loop_simulates (spec : Q → E → Option Q) (view : S → Q) {I : S → List P → Prop}
    (hbody : ∀ s p ps r, I s (p :: ps) → body s p = some r →
      run spec (view s) r.emitted = some (view r.state) ∧ (r.goesOn → I r.state ps))
    {s t : S} {ps : List P} {es : List E} (hs : I s ps)
    (h : loop body s ps = some (t, es)) : run spec (view s) es = some (view t) := by
  induction ps generalizing s es with
  | nil =>
      cases h
      rfl
  | cons p ps ih =>
      obtain ⟨r, hr, hu⟩ := loop_cons_eq_some.mp h
      obtain ⟨hspec, hi⟩ := hbody s p ps r hs hr
      split at hu
      · rename_i hgo
        obtain ⟨fs, hu, rfl⟩ := hu
        exact run_append hspec (ih (hi hgo) hu)
      · rw [hu.1, hu.2]
        exact hspec

/-- What is true of every turn's emissions is true of the loop's. -/
theorem loop_emits_only {G : E → Prop} {I : S → List P → Prop}
    (hbody : ∀ s p ps r, I s (p :: ps) → body s p = some r →
      (∀ e ∈ r.emitted, G e) ∧ (r.goesOn → I r.state ps))
    {s t : S} {ps : List P} {es : List E} (hs : I s ps)
    (h : loop body s ps = some (t, es)) : ∀ e ∈ es, G e := by
  induction ps generalizing s es with
  | nil =>
      cases h
      exact fun e he => absurd he List.not_mem_nil
  | cons p ps ih =>
      obtain ⟨r, hr, hu⟩ := loop_cons_eq_some.mp h
      obtain ⟨hgood, hi⟩ := hbody s p ps r hs hr
      split at hu
      · rename_i hgo
        obtain ⟨fs, hu, rfl⟩ := hu
        intro e he
        exact (List.mem_append.mp he).elim (hgood e) (ih (hi hgo) hu e)
      · exact hu.2 ▸ hgood

/-- The positions up to and including the first that stops. -/
def upTo (stops : P → Bool) : List P → List P
  | [] => []
  | p :: ps => if stops p then [p] else p :: upTo stops ps

theorem upTo_isPrefix (stops : P → Bool) (ps : List P) : upTo stops ps <+: ps := by
  induction ps with
  | nil => exact List.prefix_rfl
  | cons p ps ih =>
      rw [upTo]
      split
      · exact ⟨ps, rfl⟩
      · exact List.prefix_cons_inj p |>.mpr ih

theorem upTo_eq_self {stops : P → Bool} {ps : List P} (h : ∀ p ∈ ps, stops p = false) :
    upTo stops ps = ps := by
  induction ps with
  | nil => rfl
  | cons p ps ih =>
      rw [upTo, if_neg (by simp [h p]), ih fun q hq => h q (List.mem_cons_of_mem p hq)]

theorem upTo_congr {f g : P → Bool} {ps : List P} (h : ∀ p ∈ ps, f p = g p) :
    upTo f ps = upTo g ps := by
  induction ps with
  | nil => rfl
  | cons p ps ih =>
      rw [upTo, upTo, h p List.mem_cons_self, ih fun q hq => h q (List.mem_cons_of_mem p hq)]

theorem upTo_append (stops : P → Bool) (ps qs : List P) :
    upTo stops (ps ++ qs) = upTo stops ps ++ if ps.any stops then [] else upTo stops qs := by
  induction ps with
  | nil => simp [upTo]
  | cons p ps ih =>
      by_cases hs : stops p
      · simp [upTo, hs]
      · simp [upTo, hs, ih]

/-- Positions that do not count, and so neither stop nor emit, may be dropped. -/
theorem upTo_flatMap_filter (counts stops : P → Bool) (emits : P → List E) (ps : List P) :
    (upTo (fun p => counts p && stops p) ps).flatMap (fun p => if counts p then emits p else []) =
      (upTo stops (ps.filter counts)).flatMap emits := by
  induction ps with
  | nil => rfl
  | cons p ps ih =>
      by_cases hc : counts p
      · by_cases hs : stops p
        · simp [upTo, hc, hs]
        · simp [upTo, hc, hs, ih]
      · simp [upTo, hc, ih]

/-- The loop emits for the positions up to the first that stops, if a turn that
leaves the loop elsewhere leaves nothing to emit. -/
theorem loop_emits (emits : P → List E) (stops : P → Bool) {I : S → List P → Prop}
    (hbody : ∀ s p ps r, I s (p :: ps) → body s p = some r → r.emitted = emits p ∧
      (r.goesOn → stops p = false ∧ I r.state ps) ∧
      (r.goesOn = false → stops p ∨ ∀ q ∈ ps, emits q = []))
    {s t : S} {ps : List P} {es : List E} (hs : I s ps)
    (h : loop body s ps = some (t, es)) : es = (upTo stops ps).flatMap emits := by
  induction ps generalizing s es with
  | nil =>
      cases h
      rfl
  | cons p ps ih =>
      obtain ⟨r, hr, hu⟩ := loop_cons_eq_some.mp h
      obtain ⟨he, hgo, hstop⟩ := hbody s p ps r hs hr
      by_cases hon : r.goesOn
      · rw [if_pos hon] at hu
        obtain ⟨fs, hu, rfl⟩ := hu
        rw [upTo, if_neg (by simp [(hgo hon).1]), List.flatMap_cons, he, ih (hgo hon).2 hu]
      · rw [if_neg hon] at hu
        rw [hu.2, he, upTo]
        split
        · simp
        · rename_i hnot
          have hnone : ∀ q ∈ upTo stops ps, emits q = [] := fun q hq =>
            (hstop (by simpa using hon)).resolve_left hnot q ((upTo_isPrefix stops ps).subset hq)
          rw [List.flatMap_cons, List.flatMap_eq_nil_iff.mpr hnone, List.append_nil]

end Netmux.BreakableLoop
