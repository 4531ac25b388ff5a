import Netmux.BreakableLoop
import Netmux.ClientCalls
import Mathlib.Logic.Function.Basic
import Mathlib.Order.Nat

/-!
# The server over `poll`

The loop of `poll_server.c`. Slot 0 of the table holds the listening socket; a
client takes the first free slot behind it, and is lost if there is none: it
stays open, in no slot. A client that has closed is closed and frees its slot; one
that fails ends the pass and keeps it.

`poll` fills in `revents` for the slots up to `maxPos` and nobody initialises it
elsewhere, so the table starts with whatever the stack held. `opened` is the
kernel's side, the clients that are open.
-/
namespace Netmux.PollServer
open ActionRuns BreakableLoop ClientCalls

/-- The length of `fds`. -/
def slots : ℕ := 1024

/-- The table by position: `fd`, nothing for -1, and whether `revents` has `POLLIN`. -/
structure Server where
  fds : ℕ → Option ℕ
  revents : ℕ → Bool
  maxPos : ℕ
  running : Bool
  opened : Finset ℕ

/-- One pass: the slots `poll` reports readable, nothing if it fails. -/
structure Pass where
  report : Option (ℕ → Bool)
  answers : Answers

def start (fd : ℕ) (garbage : ℕ → Bool) : Server where
  fds i := if i = 0 then some fd else none
  revents := garbage
  maxPos := 0
  running := true
  opened := ∅

/-- `poll` writes `revents` of the slots it is given. -/
def poll (s : Server) (report : ℕ → Bool) : Server :=
  { s with revents := fun i => if i ≤ s.maxPos then report i else s.revents i }

theorem poll_revents_of_le {s : Server} {report : ℕ → Bool} {i : ℕ} (h : i ≤ s.maxPos) :
    (poll s report).revents i = report i := if_pos h

theorem poll_revents_of_lt {s : Server} {report : ℕ → Bool} {i : ℕ} (h : s.maxPos < i) :
    (poll s report).revents i = s.revents i := if_neg (by omega)

def freeSlot (s : Server) : Option ℕ :=
  (List.range' 1 (slots - 1)).find? fun i => (s.fds i).isNone

/-- The loop that puts a new descriptor into the first free slot. -/
def place (s : Server) (cfd : Option ℕ) : Server :=
  match freeSlot s with
  | some i => { s with
      fds := Function.update s.fds i cfd
      maxPos := if s.maxPos > i then s.maxPos else i }
  | none => s

/-- The part of a pass before the loop over the clients. -/
def accept (k : Answers) (s : Server) : Option (Server × List Call) :=
  if s.revents 0 then
    match k.accept with
    | none => some (place s none, [])
    | some cfd =>
        -- the kernel hands out no descriptor that is open
        if cfd ∈ s.opened ∨ s.fds 0 = some cfd then none
        else some (place { s with opened := insert cfd s.opened } (some cfd), [.accepted cfd])
  else some (s, [])

/-- The body of the loop over the clients. -/
def visit (k : Answers) (s : Server) (i : ℕ) : Option (Turn Server Call) :=
  match s.fds i with
  | none => some ⟨s, [], true⟩
  | some fd =>
      if s.revents i then
        match k.recv fd with
        | .data chunk => some ⟨s, [.answered fd chunk (chunk.over (k.stack fd))], true⟩
        | .closed => some ⟨{ s with
            fds := Function.update s.fds i none
            opened := s.opened.erase fd }, [.left fd], true⟩
        | .failed => some ⟨s, [.failed fd], false⟩
      else some ⟨s, [], true⟩

def step (s : Server) (p : Pass) : Option (Server × List Call) :=
  if s.running then
    match p.report with
    | none => some ({ s with running := false }, [])
    | some report =>
        -- `poll` reports nothing for a slot without a descriptor
        if ∀ i < s.maxPos + 1, report i → (s.fds i).isSome then
          (accept p.answers (poll s report)).bind fun u =>
            (loop (visit p.answers) u.1 (List.range' 1 u.1.maxPos)).map fun v => (v.1, u.2 ++ v.2)
        else none
  else none

/-- Every slot but the first holds an open client, no client is in two of them, and
`poll` is given all that are taken. -/
structure Held (s : Server) : Prop where
  listens : ∃ fd, s.fds 0 = some fd ∧ fd ∉ s.opened
  opened : ∀ i fd, 0 < i → s.fds i = some fd → fd ∈ s.opened
  distinct : ∀ i j fd, s.fds i = some fd → s.fds j = some fd → i = j
  within : ∀ i, s.maxPos < i → s.fds i = none
  fits : s.maxPos < slots

variable {k : Answers} {s t : Server} {i : ℕ}

theorem held_start (fd : ℕ) (garbage : ℕ → Bool) : Held (start fd garbage) where
  listens := ⟨fd, rfl, by simp [start]⟩
  opened := by
    intro i gd hi h
    simp [start, Nat.ne_of_gt hi] at h
  distinct := by
    intro i j gd hi hj
    simp only [start] at hi hj
    split_ifs at hi hj
    omega
  within := by
    intro i hi
    have hpos : 0 < i := hi
    simp [start, hpos.ne']
  fits := by simp [start, slots]

/-- The first free slot follows the last that was ever taken, or lies before it. -/
theorem freeSlot_spec (hs : Held s) (h : freeSlot s = some i) :
    0 < i ∧ i < slots ∧ i ≤ s.maxPos + 1 ∧ s.fds i = none := by
  obtain ⟨hnone, hmem, hfirst⟩ := List.find?_range'_eq_some.mp h
  rw [List.mem_range'_1] at hmem
  have hslots : 1 + (slots - 1) = slots := rfl
  refine ⟨by omega, by omega, ?_, by simpa using hnone⟩
  by_contra hlt
  have hbefore := hfirst (s.maxPos + 1) (by omega) (by omega)
  simp [hs.within] at hbefore

theorem Held.poll (hs : Held s) (report : ℕ → Bool) : Held (poll s report) :=
  ⟨hs.listens, hs.opened, hs.distinct, hs.within, hs.fits⟩

/-- A descriptor that is new to the process is in no slot. -/
theorem Held.fds_ne {fd : ℕ} (hs : Held s) (hfresh : fd ∉ s.opened) (hother : s.fds 0 ≠ some fd)
    (i : ℕ) : s.fds i ≠ some fd := by
  intro hi
  rcases Nat.eq_zero_or_pos i with rfl | hpos
  · exact hother hi
  · exact hfresh (hs.opened i fd hpos hi)

/-- An open client in a slot that was free. -/
theorem Held.put {fd : ℕ} (hs : Held s) (hi : 0 < i) (hsmall : i < slots) (hfree : s.fds i = none)
    (hfresh : fd ∉ s.opened) (hother : s.fds 0 ≠ some fd) : Held { s with
      fds := Function.update s.fds i (some fd)
      maxPos := max s.maxPos i
      opened := insert fd s.opened } where
  listens := by
    obtain ⟨gd, hgd, hout⟩ := hs.listens
    refine ⟨gd, by simpa [Function.update_of_ne hi.ne] using hgd, ?_⟩
    have hne : gd ≠ fd := fun heq => hother (heq ▸ hgd)
    simp [hne, hout]
  opened := by
    intro j gd hj h
    by_cases hji : j = i
    · subst hji
      simp only [Function.update_self] at h
      simp [Option.some.inj h]
    · simp only [Function.update_of_ne hji] at h
      exact Finset.mem_insert_of_mem (hs.opened j gd hj h)
  distinct := by
    have hnot := hs.fds_ne hfresh hother
    intro j l gd hj hl
    by_cases hji : j = i
    · by_cases hli : l = i
      · omega
      · simp only [hji, Function.update_self, Function.update_of_ne hli] at hj hl
        exact absurd (hl.trans hj.symm) (hnot l)
    · by_cases hli : l = i
      · simp only [hli, Function.update_self, Function.update_of_ne hji] at hj hl
        exact absurd (hj.trans hl.symm) (hnot j)
      · simp only [Function.update_of_ne hji, Function.update_of_ne hli] at hj hl
        exact hs.distinct j l gd hj hl
  within := by
    intro j hj
    have hlt : max s.maxPos i < j := hj
    have hji : j ≠ i := by omega
    exact (Function.update_of_ne hji _ _).trans (hs.within j (by omega))
  fits := max_lt hs.fits hsmall

/-- A client that finds no free slot is open all the same. -/
theorem Held.lose {fd : ℕ} (hs : Held s) (hother : s.fds 0 ≠ some fd) :
    Held { s with opened := insert fd s.opened } where
  listens := by
    obtain ⟨gd, hgd, hout⟩ := hs.listens
    have hne : gd ≠ fd := fun heq => hother (heq ▸ hgd)
    exact ⟨gd, hgd, by simp [hne, hout]⟩
  opened := fun j gd hj h => Finset.mem_insert_of_mem (hs.opened j gd hj h)
  distinct := hs.distinct
  within := hs.within
  fits := hs.fits

theorem place_some {cfd : ℕ} (h : freeSlot s = some i) : place s (some cfd) = { s with
    fds := Function.update s.fds i (some cfd)
    maxPos := max s.maxPos i } := by
  have hmax : (if s.maxPos > i then s.maxPos else i) = max s.maxPos i := by
    split_ifs <;> omega
  simp only [place, h, hmax]

/-- A descriptor of -1 leaves the table as it was. -/
theorem place_none (hs : Held s) : ∃ m, place s none = { s with maxPos := m } ∧
    s.maxPos ≤ m ∧ m < slots := by
  cases h : freeSlot s with
  | none => exact ⟨s.maxPos, by simp [place, h], Nat.le_refl _, hs.fits⟩
  | some i =>
      obtain ⟨hi, hsmall, hle, hfree⟩ := freeSlot_spec hs h
      have hsame : Function.update s.fds i none = s.fds := by rw [← hfree, Function.update_eq_self]
      refine ⟨if s.maxPos > i then s.maxPos else i, by simp only [place, h, hsame], ?_⟩
      have hfits := hs.fits
      split_ifs <;> omega

/-- What the part before the loop can do. -/
inductive AcceptMove (k : Answers) (s : Server) : Server → List Call → Prop
  | idle : s.revents 0 = false → AcceptMove k s s []
  | refused (m : ℕ) : s.revents 0 → k.accept = none → s.maxPos ≤ m → m < slots →
      AcceptMove k s { s with maxPos := m } []
  | placed (cfd i : ℕ) : s.revents 0 → k.accept = some cfd → cfd ∉ s.opened →
      s.fds 0 ≠ some cfd → freeSlot s = some i →
      AcceptMove k s { s with
        fds := Function.update s.fds i (some cfd)
        maxPos := max s.maxPos i
        opened := insert cfd s.opened } [.accepted cfd]
  | lost (cfd : ℕ) : s.revents 0 → k.accept = some cfd → cfd ∉ s.opened →
      s.fds 0 ≠ some cfd → freeSlot s = none →
      AcceptMove k s { s with opened := insert cfd s.opened } [.accepted cfd]

theorem accept_cases {calls : List Call} (hs : Held s) (h : accept k s = some (t, calls)) :
    AcceptMove k s t calls := by
  simp only [accept] at h
  split_ifs at h with hready
  · cases haccept : k.accept with
    | none =>
        obtain ⟨m, hm, hle, hsmall⟩ := place_none hs
        simp only [haccept, hm] at h
        cases h
        exact .refused m hready haccept hle hsmall
    | some cfd =>
        simp only [haccept] at h
        split_ifs at h with hopen
        push Not at hopen
        cases hslot : freeSlot s with
        | none =>
            have hplace : place { s with opened := insert cfd s.opened } (some cfd) =
                { s with opened := insert cfd s.opened } := by
              have hsame : freeSlot { s with opened := insert cfd s.opened } = none := hslot
              simp only [place, hsame]
            rw [hplace] at h
            cases h
            exact .lost cfd hready haccept hopen.1 hopen.2 hslot
        | some i =>
            rw [place_some (s := { s with opened := insert cfd s.opened }) hslot] at h
            cases h
            exact .placed cfd i hready haccept hopen.1 hopen.2 hslot
  · cases h
    exact .idle (by simpa using hready)

theorem AcceptMove.spec {calls : List Call} (h : AcceptMove k s t calls) (hs : Held s) :
    Held t ∧ run permit s.opened calls = some t.opened := by
  cases h with
  | idle hready => exact ⟨hs, rfl⟩
  | refused m hready hacc hle hsmall =>
      exact ⟨⟨hs.listens, hs.opened, hs.distinct, fun i hi => hs.within i (hle.trans_lt hi),
        hsmall⟩, rfl⟩
  | placed cfd i hready hacc hfresh hother hslot =>
      obtain ⟨hi, hsmall, -, hfree⟩ := freeSlot_spec hs hslot
      exact ⟨hs.put hi hsmall hfree hfresh hother, run_permit_accepted hfresh⟩
  | lost cfd hready hacc hfresh hother hslot =>
      exact ⟨hs.lose hother, run_permit_accepted hfresh⟩

theorem AcceptMove.frame {calls : List Call} (h : AcceptMove k s t calls) :
    t.revents = s.revents ∧ s.maxPos ≤ t.maxPos := by
  cases h with
  | idle hready => exact ⟨rfl, Nat.le_refl _⟩
  | refused m hready hacc hle hsmall => exact ⟨rfl, hle⟩
  | placed cfd i hready hacc hfresh hother hslot => exact ⟨rfl, Nat.le_max_left _ _⟩
  | lost cfd hready hacc hfresh hother hslot => exact ⟨rfl, Nat.le_refl _⟩

/-- What one visit can do. -/
inductive VisitMove (k : Answers) (s : Server) (i : ℕ) : Turn Server Call → Prop
  | empty : s.fds i = none → VisitMove k s i ⟨s, [], true⟩
  | quiet : s.revents i = false → VisitMove k s i ⟨s, [], true⟩
  | stay (fd : ℕ) : s.fds i = some fd → s.revents i → k.recv fd ≠ .closed →
      VisitMove k s i ⟨s, [k.called fd], !k.isFailed fd⟩
  | leave (fd : ℕ) : s.fds i = some fd → s.revents i → k.recv fd = .closed →
      VisitMove k s i ⟨{ s with
        fds := Function.update s.fds i none
        opened := s.opened.erase fd }, [k.called fd], true⟩

theorem visit_cases {r : Turn Server Call} (h : visit k s i = some r) : VisitMove k s i r := by
  simp only [visit] at h
  split at h
  · rename_i hslot
    cases h
    exact .empty hslot
  · rename_i fd hslot
    split_ifs at h with hready
    · cases hrecv : k.recv fd with
      | data chunk =>
          simp only [hrecv] at h
          cases h
          have hmove := VisitMove.stay (k := k) fd hslot hready (by simp [hrecv])
          simpa only [Answers.called, Answers.isFailed, hrecv, Bool.not_false] using hmove
      | closed =>
          simp only [hrecv] at h
          cases h
          have hmove := VisitMove.leave fd hslot hready hrecv
          simpa only [Answers.called, hrecv] using hmove
      | failed =>
          simp only [hrecv] at h
          cases h
          have hmove := VisitMove.stay (k := k) fd hslot hready (by simp [hrecv])
          simpa only [Answers.called, Answers.isFailed, hrecv, Bool.not_true] using hmove
    · cases h
      exact .quiet (by simpa using hready)

/-- A client that has closed leaves its slot. -/
theorem Held.free {fd : ℕ} (hs : Held s) (hi : 0 < i) (h : s.fds i = some fd) : Held { s with
    fds := Function.update s.fds i none
    opened := s.opened.erase fd } where
  listens := by
    obtain ⟨gd, hgd, hout⟩ := hs.listens
    refine ⟨gd, (Function.update_of_ne hi.ne _ _).trans hgd, fun hc => ?_⟩
    exact hout (Finset.mem_of_mem_erase hc)
  opened := by
    intro j gd hj hgd
    by_cases hji : j = i
    · simp [hji] at hgd
    · simp only [Function.update_of_ne hji] at hgd
      have hne : gd ≠ fd := fun heq => hji (hs.distinct j i gd hgd (heq ▸ h))
      exact Finset.mem_erase_of_ne_of_mem hne (hs.opened j gd hj hgd)
  distinct := by
    intro j l gd hj hl
    by_cases hji : j = i
    · simp [hji] at hj
    · by_cases hli : l = i
      · simp [hli] at hl
      · simp only [Function.update_of_ne hji, Function.update_of_ne hli] at hj hl
        exact hs.distinct j l gd hj hl
  within := by
    intro j hj
    by_cases hji : j = i
    · simp [hji]
    · exact (Function.update_of_ne hji _ _).trans (hs.within j hj)
  fits := hs.fits

theorem VisitMove.spec {r : Turn Server Call} (h : VisitMove k s i r) (hs : Held s) (hi : 0 < i) :
    Held r.state ∧ run permit s.opened r.emitted = some r.state.opened := by
  cases h with
  | empty hslot => exact ⟨hs, rfl⟩
  | quiet hready => exact ⟨hs, rfl⟩
  | stay fd hslot hready hrecv =>
      refine ⟨hs, (run_permit_called (hs.opened i fd hi hslot)).trans ?_⟩
      rw [k.after_of_ne_closed hrecv]
  | leave fd hslot hready hrecv =>
      refine ⟨hs.free hi hslot, (run_permit_called (hs.opened i fd hi hslot)).trans ?_⟩
      rw [k.after_of_closed hrecv]

theorem VisitMove.frame {r : Turn Server Call} (h : VisitMove k s i r) :
    r.state.revents = s.revents ∧ r.state.maxPos = s.maxPos := by
  cases h with
  | empty hslot => exact ⟨rfl, rfl⟩
  | quiet hready => exact ⟨rfl, rfl⟩
  | stay fd hslot hready hrecv => exact ⟨rfl, rfl⟩
  | leave fd hslot hready hrecv => exact ⟨rfl, rfl⟩

/-- The part before the loop, and the loop, of a pass in which `poll` succeeds. -/
theorem step_cases {p : Pass} {calls : List Call} (h : step s p = some (t, calls)) :
    (p.report = none ∧ t = { s with running := false } ∧ calls = []) ∨
    ∃ report u first rest, p.report = some report ∧
      (∀ i ≤ s.maxPos, report i → (s.fds i).isSome) ∧
      accept p.answers (poll s report) = some (u, first) ∧
      loop (visit p.answers) u (List.range' 1 u.maxPos) = some (t, rest) ∧
      calls = first ++ rest := by
  unfold step at h
  split_ifs at h
  split at h
  · rename_i hreport
    cases h
    exact Or.inl ⟨hreport, rfl, rfl⟩
  · rename_i report hreport
    split_ifs at h with hguard
    obtain ⟨⟨u, first⟩, hu, hloop⟩ := Option.bind_eq_some_iff.mp h
    obtain ⟨⟨v, rest⟩, hv, heq⟩ := Option.map_eq_some_iff.mp hloop
    cases heq
    exact Or.inr ⟨report, u, first, rest, hreport, fun i hi => hguard i (by omega), hu, hv, rfl⟩

theorem loop_spec {n : ℕ} {calls : List Call} (hs : Held s)
    (h : loop (visit k) s (List.range' 1 n) = some (t, calls)) :
    Held t ∧ run permit s.opened calls = some t.opened := by
  have hpos : ∀ i ∈ List.range' 1 n, 0 < i := fun i hi => (List.mem_range'_1.mp hi).1
  constructor
  · refine loop_establishes (I := fun u is => Held u ∧ ∀ i ∈ is, 0 < i) (J := Held) ?_
      ⟨hs, hpos⟩ hs h
    intro u i is r hu hr
    have hspec := (visit_cases hr).spec hu.1 (hu.2 i List.mem_cons_self)
    exact ⟨hspec.1, fun _ => ⟨hspec.1, fun j hj => hu.2 j (List.mem_cons_of_mem i hj)⟩⟩
  · refine loop_simulates permit Server.opened (I := fun u is => Held u ∧ ∀ i ∈ is, 0 < i) ?_
      ⟨hs, hpos⟩ h
    intro u i is r hu hr
    have hspec := (visit_cases hr).spec hu.1 (hu.2 i List.mem_cons_self)
    exact ⟨hspec.2, fun _ => ⟨hspec.1, fun j hj => hu.2 j (List.mem_cons_of_mem i hj)⟩⟩

theorem step_spec {p : Pass} {calls : List Call} (hs : Held s) (h : step s p = some (t, calls)) :
    Held t ∧ run permit s.opened calls = some t.opened := by
  rcases step_cases h with ⟨-, rfl, rfl⟩ | ⟨report, u, first, rest, -, -, hu, hv, rfl⟩
  · exact ⟨⟨hs.listens, hs.opened, hs.distinct, hs.within, hs.fits⟩, rfl⟩
  · obtain ⟨hheld, hfirst⟩ := (accept_cases (hs.poll report) hu).spec (hs.poll report)
    obtain ⟨hend, hrest⟩ := loop_spec hheld hv
    exact ⟨hend, run_append hfirst hrest⟩

/-- Over every run, whatever the table held, the calls are those of a server
that accepts on fresh descriptors and calls nothing but open ones; after each pass
the slots behind the first hold open clients, each in one slot, within `maxPos`. -/
theorem clients_held {fd : ℕ} {garbage : ℕ → Bool} {ps : List Pass} {calls : List (List Call)}
    {t : Server} (h : trace step (start fd garbage) ps = some (t, calls)) :
    run permit ∅ calls.flatten = some t.opened ∧
      (∀ i gd, 0 < i → t.fds i = some gd → gd ∈ t.opened ∧ i ≤ t.maxPos) ∧
      (∀ i j gd, t.fds i = some gd → t.fds j = some gd → i = j) ∧ t.maxPos < slots := by
  obtain ⟨hs, hrun⟩ := trace_simulates permit Server.opened (I := Held)
    (fun s p t es => step_spec) (held_start fd garbage) h
  refine ⟨hrun, fun i gd hi hgd => ⟨hs.opened i gd hi hgd, ?_⟩, hs.distinct, hs.fits⟩
  by_contra hlt
  simp [hs.within i (by omega)] at hgd

/-- A client connects, and writes while another one connects. -/
def arriving : List Pass := [
  ⟨some fun i => i == 0, writing 4⟩, ⟨some fun i => i ≤ 1, writing 5⟩]

/-- Only the slot behind the first client looks readable. -/
def litter (i : ℕ) : Bool := i == 2

theorem clients_held_arriving : ∃ t calls, trace step (start 3 litter) arriving = some (t, calls) ∧
    run permit ∅ calls.flatten = some t.opened ∧
      (∀ i gd, 0 < i → t.fds i = some gd → gd ∈ t.opened ∧ i ≤ t.maxPos) ∧
      (∀ i j gd, t.fds i = some gd → t.fds j = some gd → i = j) ∧ t.maxPos < slots := by
  obtain ⟨⟨t, calls⟩, h⟩ := Option.isSome_iff_exists.mp
    (by decide +kernel : (trace step (start 3 litter) arriving).isSome = true)
  exact ⟨t, calls, h, clients_held h⟩

/-- Every open client is in a slot. -/
def Holding (s : Server) : Prop := ∀ fd ∈ s.opened, ∃ i, 0 < i ∧ s.fds i = some fd

/-- The client is open, and in no slot. -/
def Lost (cfd : ℕ) (s : Server) : Prop := cfd ∈ s.opened ∧ ∀ i, s.fds i ≠ some cfd

/-- A pass that accepts a client finds a free slot for it. -/
def Room (s : Server) (p : Pass) : Prop :=
  ∀ report, p.report = some report → report 0 → p.answers.accept.isSome → (freeSlot s).isSome

theorem Holding.accept {calls : List Call} (hs : Holding s) (hheld : Held s)
    (h : AcceptMove k s t calls)
    (hroom : s.revents 0 → k.accept.isSome → (freeSlot s).isSome) : Holding t := by
  cases h with
  | idle hready => exact hs
  | refused m hready hacc hle hsmall => exact hs
  | placed cfd i hready hacc hfresh hother hslot =>
      obtain ⟨hi, -, -, hfree⟩ := freeSlot_spec hheld hslot
      intro fd hfd
      rcases Finset.mem_insert.mp hfd with rfl | hfd
      · exact ⟨i, hi, Function.update_self ..⟩
      · obtain ⟨j, hj, hjfd⟩ := hs fd hfd
        have hji : j ≠ i := fun heq => by simp [heq, hfree] at hjfd
        exact ⟨j, hj, (Function.update_of_ne hji _ _).trans hjfd⟩
  | lost cfd hready hacc hfresh hother hslot =>
      have hsome := hroom hready (by simp [hacc])
      simp [hslot] at hsome

theorem Holding.visit {r : Turn Server Call} (hs : Holding s) (h : VisitMove k s i r) :
    Holding r.state := by
  cases h with
  | empty hslot => exact hs
  | quiet hready => exact hs
  | stay fd hslot hready hrecv => exact hs
  | leave fd hslot hready hrecv =>
      intro gd hgd
      obtain ⟨hne, hgd⟩ := Finset.mem_erase.mp hgd
      obtain ⟨j, hj, hjgd⟩ := hs gd hgd
      have hji : j ≠ i := fun heq => hne (Option.some.inj (hjgd.symm.trans (heq ▸ hslot)))
      exact ⟨j, hj, (Function.update_of_ne hji _ _).trans hjgd⟩

theorem Lost.accept {cfd : ℕ} {calls : List Call} (hs : Lost cfd s) (h : AcceptMove k s t calls) :
    Lost cfd t := by
  cases h with
  | idle hready => exact hs
  | refused m hready hacc hle hsmall => exact hs
  | placed dfd i hready hacc hfresh hother hslot =>
      refine ⟨Finset.mem_insert_of_mem hs.1, fun j => ?_⟩
      by_cases hji : j = i
      · have hne : dfd ≠ cfd := fun heq => hfresh (heq ▸ hs.1)
        simp [hji, hne]
      · simpa only [Function.update_of_ne hji] using hs.2 j
  | lost dfd hready hacc hfresh hother hslot =>
      exact ⟨Finset.mem_insert_of_mem hs.1, hs.2⟩

theorem Lost.visit {cfd : ℕ} {r : Turn Server Call} (hs : Lost cfd s) (h : VisitMove k s i r) :
    Lost cfd r.state := by
  cases h with
  | empty hslot => exact hs
  | quiet hready => exact hs
  | stay fd hslot hready hrecv => exact hs
  | leave fd hslot hready hrecv =>
      have hne : cfd ≠ fd := fun heq => hs.2 i (heq ▸ hslot)
      refine ⟨Finset.mem_erase_of_ne_of_mem hne hs.1, fun j => ?_⟩
      by_cases hji : j = i
      · simp [hji]
      · simpa only [Function.update_of_ne hji] using hs.2 j

/-- What every visit keeps, the loop keeps. -/
theorem loop_keeps {P : Server → Prop} (hvisit : ∀ u i r, P u → VisitMove k u i r → P r.state)
    {is : List ℕ} {calls : List Call} (hs : P s) (h : loop (visit k) s is = some (t, calls)) :
    P t := by
  refine loop_establishes (I := fun u _ => P u) (J := P) ?_ hs hs h
  intro u i is r hu hr
  have hr := hvisit u i r hu (visit_cases hr)
  exact ⟨hr, fun _ => hr⟩

theorem Holding.step {p : Pass} {calls : List Call} (hs : Holding s) (hheld : Held s)
    (hroom : Room s p) (h : step s p = some (t, calls)) : Holding t := by
  rcases step_cases h with ⟨-, rfl, -⟩ | ⟨report, u, first, rest, hreport, -, hu, hv, -⟩
  · exact hs
  · have hmove := accept_cases (hheld.poll report) hu
    have hroom' : (poll s report).revents 0 → p.answers.accept.isSome →
        (freeSlot (poll s report)).isSome := by
      intro hready hacc
      have hready : report 0 := by simpa [poll] using hready
      exact hroom report hreport hready hacc
    have hpolled : Holding (poll s report) := hs
    exact loop_keeps (fun v i r => Holding.visit)
      (hpolled.accept (hheld.poll report) hmove hroom') hv

theorem Lost.step {cfd : ℕ} {p : Pass} {calls : List Call} (hs : Lost cfd s) (hheld : Held s)
    (h : step s p = some (t, calls)) : Lost cfd t := by
  rcases step_cases h with ⟨-, rfl, -⟩ | ⟨report, u, first, rest, -, -, hu, hv, -⟩
  · exact hs
  · have hmove := accept_cases (hheld.poll report) hu
    have hpolled : Lost cfd (poll s report) := hs
    exact loop_keeps (fun v i r => Lost.visit) (hpolled.accept hmove) hv

theorem Held.next {p : Pass} (hs : Held s) (h : next step s p = some t) : Held t := by
  obtain ⟨calls, hstep⟩ := next_eq_some.mp h
  exact (step_spec hs hstep).1

/-- Once lost, the client stays open and in no slot, whatever passes follow. -/
theorem lost_of_run {cfd : ℕ} {ps : List Pass} (hheld : Held s) (hs : Lost cfd s)
    (h : run (next step) s ps = some t) : Lost cfd t := by
  refine (run_preserves (P := fun u => Held u ∧ Lost cfd u) ?_ ⟨hheld, hs⟩ h).2
  intro u p v hu huv
  obtain ⟨calls, hstep⟩ := next_eq_some.mp huv
  exact ⟨hu.1.next huv, hu.2.step hu.1 hstep⟩

/-- A pass without room loses the client it accepts. -/
theorem accepted_lost {p : Pass} {calls : List Call} (hheld : Held s) (hroom : ¬ Room s p)
    (h : step s p = some (t, calls)) : ∃ cfd, p.answers.accept = some cfd ∧ Lost cfd t := by
  rcases step_cases h with ⟨hnone, -, -⟩ | ⟨report, u, first, rest, hreport, -, hu, hv, -⟩
  · exact absurd (fun report hreport => by simp [hnone] at hreport) hroom
  · have hmove := accept_cases (hheld.poll report) hu
    have hneed : report 0 ∧ p.answers.accept.isSome ∧ freeSlot s = none := by
      by_contra hnot
      refine hroom fun report' hreport' hready hacc => ?_
      cases hreport.symm.trans hreport'
      by_contra hslot
      exact hnot ⟨hready, hacc, by simpa using hslot⟩
    obtain ⟨hready, hacc, hfull⟩ := hneed
    cases hmove with
    | idle hidle => simp [poll, hready] at hidle
    | refused m hrev hnone hle hsmall => simp [hnone] at hacc
    | placed cfd i hrev hsome hfresh hother hslot => exact absurd (hfull.symm.trans hslot) (by simp)
    | lost cfd hrev hsome hfresh hother hslot =>
        have hlost : Lost cfd { poll s report with opened := insert cfd (poll s report).opened } :=
          ⟨Finset.mem_insert_self cfd _, hheld.fds_ne hfresh hother⟩
        exact ⟨cfd, hsome, loop_keeps (fun v i r => Lost.visit) hlost hv⟩

/-- The table with its invariant, and a client that it has lost. -/
def Leaking (s : Server) : Prop := Held s ∧ ∃ cfd, Lost cfd s

/-- In every run, every open client is in a slot exactly if each pass that accepted
one found a free slot. The client of a pass that finds none is open and in no slot
from then on, after whatever passes follow. -/
theorem holding_iff {fd : ℕ} {garbage : ℕ → Bool} {ps : List Pass}
    (h : run (next step) (start fd garbage) ps = some t) :
    (Holding t ↔ Meets (next step) Room (start fd garbage) ps) ∧
      ∀ p u, ¬ Room t p → next step t p = some u → ∃ cfd, p.answers.accept = some cfd ∧
        ∀ qs v, run (next step) u qs = some v → Lost cfd v := by
  have hstart : Held (start fd garbage) ∧ Holding (start fd garbage) :=
    ⟨held_start fd garbage, fun gd hgd => by simp [start] at hgd⟩
  have hkeep : ∀ u p v, Held u ∧ Holding u → Room u p → next step u p = some v →
      Held v ∧ Holding v := by
    intro u p v hu hroom huv
    obtain ⟨calls, hstep⟩ := next_eq_some.mp huv
    exact ⟨hu.1.next huv, hu.2.step hu.1 hroom hstep⟩
  have hspoil : ∀ u p v, Held u ∧ Holding u → ¬ Room u p → next step u p = some v → Leaking v := by
    intro u p v hu hroom huv
    obtain ⟨calls, hstep⟩ := next_eq_some.mp huv
    obtain ⟨cfd, -, hlost⟩ := accepted_lost hu.1 hroom hstep
    exact ⟨hu.1.next huv, cfd, hlost⟩
  have hstay : ∀ u p v, Leaking u → next step u p = some v → Leaking v := by
    rintro u p v ⟨hheld, cfd, hlost⟩ huv
    obtain ⟨calls, hstep⟩ := next_eq_some.mp huv
    exact ⟨hheld.next huv, cfd, hlost.step hheld hstep⟩
  refine ⟨⟨fun hall => ?_, fun hm => (run_preserves_of_meets hkeep hstart hm h).2⟩, ?_⟩
  · refine meets_of_run hkeep hspoil hstay hstart h ?_
    rintro ⟨-, cfd, hopen, hout⟩
    obtain ⟨i, -, hi⟩ := hall cfd hopen
    exact hout i hi
  · intro p u hroom hu
    have hheld := run_preserves (fun v p w hv => hv.next) hstart.1 h
    obtain ⟨calls, hstep⟩ := next_eq_some.mp hu
    obtain ⟨cfd, hacc, hlost⟩ := accepted_lost hheld hroom hstep
    exact ⟨cfd, hacc, fun qs v hv => lost_of_run (hheld.next hu) hlost hv⟩

theorem holding_iff_arriving : ∃ t, run (next step) (start 3 litter) arriving = some t ∧
    (Holding t ↔ Meets (next step) Room (start 3 litter) arriving) ∧
      ∀ p u, ¬ Room t p → next step t p = some u → ∃ cfd, p.answers.accept = some cfd ∧
        ∀ qs v, run (next step) u qs = some v → Lost cfd v := by
  obtain ⟨t, h⟩ := Option.isSome_iff_exists.mp
    (by decide +kernel : (run (next step) (start 3 litter) arriving).isSome = true)
  exact ⟨t, h, holding_iff h⟩

/-- The slots that `poll` reports, in the order of the loop. -/
def reported (s : Server) (report : ℕ → Bool) : List ℕ := (List.range' 1 s.maxPos).filter report

/-- The slots the loop does something for. -/
def active (s : Server) : List ℕ :=
  (List.range' 1 s.maxPos).filter fun i => s.revents i && (s.fds i).isSome

def callsAt (k : Answers) (s : Server) (i : ℕ) : List Call := (s.fds i).toList.map k.called

/-- The loop ends at this slot. -/
def fails (k : Answers) (s : Server) (i : ℕ) : Bool := (s.fds i).any k.isFailed

/-- The calls for what `poll` reports: those of the listening socket, and of the
other slots up to the first client that fails. -/
def serves (k : Answers) (s : Server) (report : ℕ → Bool) : List Call :=
  (if report 0 then k.accepted else []) ++
    (upTo (fails k s) (reported s report)).flatMap (callsAt k s)

theorem VisitMove.emits {r : Turn Server Call} (h : VisitMove k s i r) :
    r.emitted = (if s.revents i && (s.fds i).isSome then callsAt k s i else []) ∧
      r.goesOn = !((s.revents i && (s.fds i).isSome) && fails k s i) ∧
      r.state.revents = s.revents ∧ ∀ j, j ≠ i → r.state.fds j = s.fds j := by
  cases h with
  | empty hslot => simp [hslot]
  | quiet hready => simp [hready]
  | stay fd hslot hready hrecv => simp [hslot, hready, callsAt, fails]
  | leave fd hslot hready hrecv =>
      have hok : k.isFailed fd = false := by simp [Answers.isFailed, hrecv]
      refine ⟨?_, ?_, rfl, fun j hj => Function.update_of_ne hj _ _⟩
      · simp [hslot, hready, callsAt]
      · simp [hslot, hready, fails, hok]

theorem loop_calls {calls : List Call}
    (h : loop (visit k) s (List.range' 1 s.maxPos) = some (t, calls)) :
    calls = (upTo (fails k s) (active s)).flatMap (callsAt k s) := by
  have hemits := loop_emits
    (fun i => if s.revents i && (s.fds i).isSome then callsAt k s i else [])
    (fun i => (s.revents i && (s.fds i).isSome) && fails k s i)
    (I := fun u is => is.Nodup ∧ u.revents = s.revents ∧ ∀ i ∈ is, u.fds i = s.fds i) ?_
    ⟨List.nodup_range', rfl, fun _ _ => rfl⟩ h
  · rw [hemits, upTo_flatMap_filter]
    rfl
  · rintro u i is r ⟨hnodup, hrev, hfds⟩ hr
    obtain ⟨hout, hnodup⟩ := List.nodup_cons.mp hnodup
    obtain ⟨hem, hgo, hrev', hframe⟩ := (visit_cases hr).emits
    have hi := hfds i List.mem_cons_self
    simp only [callsAt, fails, hrev, hi] at hem hgo
    refine ⟨hem, fun hon => ⟨?_, hnodup, hrev'.trans hrev, ?_⟩, fun hoff => Or.inl ?_⟩
    · simpa only [hgo, fails, Bool.not_eq_true'] using hon
    · intro j hj
      have hne : j ≠ i := fun heq => hout (heq ▸ hj)
      rw [hframe j hne, hfds j (List.mem_cons_of_mem i hj)]
    · simpa only [hgo, fails, Bool.not_eq_false'] using hoff

/-- A pass that takes a slot `poll` has not written yet, and that the table's
old contents mark as readable. -/
def StaleSlot (garbage : ℕ → Bool) (s : Server) (report : ℕ → Bool) (k : Answers) : Prop :=
  report 0 ∧ k.accept.isSome ∧ freeSlot s = some (s.maxPos + 1) ∧ garbage (s.maxPos + 1)

/-- Such a pass, in which no client fails before the loop gets to that slot. -/
def ReadsAccepted (garbage : ℕ → Bool) (s : Server) (report : ℕ → Bool) (k : Answers) : Prop :=
  StaleSlot garbage s report k ∧ ∀ i ∈ reported s report, fails k s i = false

/-- What is left to the loop by the part before it: the slots `poll` reported,
unchanged, and then those it did not know of. -/
structure Prepared (s : Server) (report : ℕ → Bool) (u : Server) (tail : List ℕ) : Prop where
  active : active u = reported s report ++ tail
  same : ∀ i ∈ reported s report, u.fds i = s.fds i

section Preparation
variable {report garbage : ℕ → Bool} {u : Server}

theorem prepared_of (hle : s.maxPos ≤ u.maxPos) (hrev : u.revents = (poll s report).revents)
    (hguard : ∀ i ≤ s.maxPos, report i → (s.fds i).isSome)
    (hsame : ∀ i, 0 < i → i ≤ s.maxPos → report i → u.fds i = s.fds i) :
    Prepared s report u ((List.range' (1 + s.maxPos) (u.maxPos - s.maxPos)).filter
      fun i => u.revents i && (u.fds i).isSome) where
  active := by
    have happend := @List.range'_append 1 s.maxPos (u.maxPos - s.maxPos) 1
    rw [Nat.one_mul, Nat.add_sub_cancel' hle] at happend
    rw [active, ← happend, List.filter_append, reported]
    congr 1
    refine List.filter_congr fun i hi => ?_
    have hi := List.mem_range'_1.mp hi
    rw [hrev, poll_revents_of_le (by omega)]
    cases hr : report i with
    | false => rfl
    | true => simpa [hsame i (by omega) (by omega) hr] using hguard i (by omega) hr
  same := by
    intro i hi
    obtain ⟨hmem, hr⟩ := List.mem_filter.mp hi
    have hmem := List.mem_range'_1.mp hmem
    exact hsame i (by omega) (by omega) hr

/-- A slot beyond `maxPos` takes part only if it holds a client. -/
theorem prepared_nil (hle : s.maxPos ≤ u.maxPos) (hrev : u.revents = (poll s report).revents)
    (hguard : ∀ i ≤ s.maxPos, report i → (s.fds i).isSome)
    (hsame : ∀ i, 0 < i → i ≤ s.maxPos → report i → u.fds i = s.fds i)
    (hbeyond : ∀ i, s.maxPos < i → i ≤ u.maxPos → u.revents i → u.fds i = none) :
    Prepared s report u [] := by
  have hprepared := prepared_of hle hrev hguard hsame
  rwa [List.filter_eq_nil_iff.mpr] at hprepared
  intro i hi hon
  have hi := List.mem_range'_1.mp hi
  obtain ⟨hready, hsome⟩ := Bool.and_eq_true_iff.mp hon
  simp [hbeyond i (by omega) (by omega) hready] at hsome

/-- The slot after `maxPos`, if it was taken and looks readable. -/
theorem prepared_next {cfd : ℕ} (hnext : u.maxPos = s.maxPos + 1)
    (hrev : u.revents = (poll s report).revents)
    (hguard : ∀ i ≤ s.maxPos, report i → (s.fds i).isSome)
    (hsame : ∀ i, 0 < i → i ≤ s.maxPos → report i → u.fds i = s.fds i)
    (hready : u.revents (s.maxPos + 1)) (hslot : u.fds (s.maxPos + 1) = some cfd) :
    Prepared s report u [s.maxPos + 1] := by
  have hprepared := prepared_of (by omega) hrev hguard hsame
  have hone : u.maxPos - s.maxPos = 1 := by omega
  rw [hone, List.range'_one, Nat.add_comm 1] at hprepared
  simpa [hready, hslot] using hprepared

theorem AcceptMove.first {first : List Call} (h : AcceptMove k (poll s report) u first) :
    first = if report 0 then k.accepted else [] := by
  have hzero : (poll s report).revents 0 = report 0 := poll_revents_of_le (Nat.zero_le _)
  cases h with
  | idle hready => simp [← hzero, hready]
  | refused m hready hacc hle hsmall => simp [Answers.accepted, hacc]
  | placed cfd i hready hacc hfresh hother hslot => simp [← hzero, hready, Answers.accepted, hacc]
  | lost cfd hready hacc hfresh hother hslot => simp [← hzero, hready, Answers.accepted, hacc]

theorem AcceptMove.prepared {first : List Call} (h : AcceptMove k (poll s report) u first)
    (hs : Held s) (hguard : ∀ i ≤ s.maxPos, report i → (s.fds i).isSome)
    (hgarbage : ∀ i, s.maxPos < i → s.revents i = garbage i) :
    (Prepared s report u [] ∧ ¬ StaleSlot garbage s report k) ∨
      StaleSlot garbage s report k ∧ Prepared s report u [s.maxPos + 1] ∧
        ∃ cfd, k.accept = some cfd ∧ (∀ i, s.fds i ≠ some cfd) ∧
          u.fds (s.maxPos + 1) = some cfd := by
  have hzero : (poll s report).revents 0 = report 0 := poll_revents_of_le (Nat.zero_le _)
  cases h with
  | idle hready =>
      refine Or.inl ⟨prepared_nil (Nat.le_refl _) rfl hguard (fun _ _ _ _ => rfl)
        (fun i hi _ _ => hs.within i hi), fun hstale => ?_⟩
      exact absurd (hzero.trans hstale.1) (by simp [hready])
  | refused m hready hacc hle hsmall =>
      refine Or.inl ⟨prepared_nil hle rfl hguard (fun _ _ _ _ => rfl)
        (fun i hi _ _ => hs.within i hi), fun hstale => ?_⟩
      have hsome := hstale.2.1
      simp [hacc] at hsome
  | placed cfd i hready hacc hfresh hother hslot =>
      obtain ⟨hi, hsmall, hnext, hfree⟩ := freeSlot_spec hs hslot
      have hsame : ∀ j, 0 < j → j ≤ s.maxPos → report j →
          Function.update s.fds i (some cfd) j = s.fds j := by
        intro j hj hle hr
        have hne : j ≠ i := by
          rintro rfl
          have hsome := hguard j hle hr
          have hnone : s.fds j = none := hfree
          simp [hnone] at hsome
        exact Function.update_of_ne hne _ _
      by_cases hknown : i ≤ s.maxPos
      · refine Or.inl ⟨prepared_nil (Nat.le_max_left _ _) rfl hguard hsame ?_, fun hstale => ?_⟩
        · intro j hj hle
          have hle : j ≤ max s.maxPos i := hle
          omega
        · have heq := Option.some.inj (hslot.symm.trans hstale.2.2.1)
          omega
      · have hi : i = s.maxPos + 1 := by omega
        subst hi
        cases hg : garbage (s.maxPos + 1) with
        | true =>
            have hstale : StaleSlot garbage s report k :=
              ⟨hzero ▸ hready, by simp [hacc], hslot, hg⟩
            have hself := Function.update_self (s.maxPos + 1) (some cfd) s.fds
            refine Or.inr ⟨hstale, prepared_next ?_ rfl hguard hsame ?_ hself, cfd, hacc,
              hs.fds_ne hfresh hother, hself⟩
            · exact Nat.max_eq_right (Nat.le_succ s.maxPos)
            · have hlt := Nat.lt_succ_self s.maxPos
              exact (poll_revents_of_lt hlt).trans ((hgarbage _ hlt).trans hg)
        | false =>
            refine Or.inl ⟨prepared_nil (Nat.le_max_left _ _) rfl hguard hsame ?_, fun hstale => ?_⟩
            · intro j hj hle hon
              have hle : j ≤ max s.maxPos (s.maxPos + 1) := hle
              have heq : j = s.maxPos + 1 := by omega
              subst heq
              have hrev : (poll s report).revents (s.maxPos + 1) := hon
              rw [poll_revents_of_lt hj, hgarbage _ hj, hg] at hrev
              exact absurd hrev (by simp)
            · exact absurd hstale.2.2.2 (by simp [hg])
  | lost cfd hready hacc hfresh hother hslot =>
      refine Or.inl ⟨prepared_nil (Nat.le_refl _) rfl hguard (fun _ _ _ _ => rfl)
        (fun i hi _ _ => hs.within i hi), fun hstale => ?_⟩
      exact absurd (hslot.symm.trans hstale.2.2.1) (by simp)

/-- The calls of the loop: for the reported slots, then for the others. -/
theorem Prepared.calls {tail : List ℕ} (h : Prepared s report u tail) (k : Answers) :
    (upTo (fails k u) (PollServer.active u)).flatMap (callsAt k u) =
      (upTo (fails k s) (reported s report)).flatMap (callsAt k s) ++
        if (reported s report).any (fails k s) then []
        else (upTo (fails k u) tail).flatMap (callsAt k u) := by
  have hfails : ∀ i ∈ reported s report, fails k u i = fails k s i := fun i hi => by
    simp only [fails, h.same i hi]
  have hany : (reported s report).any (fails k u) = (reported s report).any (fails k s) := by
    rw [Bool.eq_iff_iff, List.any_eq_true, List.any_eq_true]
    exact exists_congr fun i => and_congr_right fun hi => by rw [hfails i hi]
  have hcalls : ∀ i ∈ upTo (fails k s) (reported s report), callsAt k u i = callsAt k s i :=
    fun i hi => by simp only [callsAt, h.same i ((upTo_isPrefix _ _).subset hi)]
  rw [h.active, upTo_append, upTo_congr hfails, List.flatMap_append, hany,
    List.flatMap_congr hcalls]
  congr 1
  split <;> rfl

/-- Slots that have never been polled still hold what the table started with. -/
theorem garbage_of_reaches {fd : ℕ} (h : Reaches (next step) (start fd garbage) s) :
    Held s ∧ ∀ i, s.maxPos < i → s.revents i = garbage i := by
  refine h.preserves (P := fun s => Held s ∧ ∀ i, s.maxPos < i → s.revents i = garbage i) ?_
    ⟨held_start fd garbage, fun _ _ => rfl⟩
  intro v p w hv hw
  obtain ⟨calls, hstep⟩ := next_eq_some.mp hw
  refine ⟨(step_spec hv.1 hstep).1, ?_⟩
  rcases step_cases hstep with ⟨-, rfl, -⟩ | ⟨report, u, first, rest, -, -, hu, hloop, -⟩
  · exact hv.2
  · obtain ⟨hrev, hle⟩ := (accept_cases (hv.1.poll report) hu).frame
    obtain ⟨hrev', hmax⟩ := loop_keeps
      (P := fun x => x.revents = (poll v report).revents ∧ x.maxPos = u.maxPos)
      (fun x i r hx hr => ⟨hr.frame.1.trans hx.1, hr.frame.2.trans hx.2⟩) ⟨hrev, rfl⟩ hloop
    intro i hi
    have hi : w.maxPos < i := hi
    have hle : v.maxPos ≤ u.maxPos := hle
    have hlt : v.maxPos < i := by omega
    rw [hrev', poll_revents_of_lt hlt, hv.2 i hlt]

end Preparation

/-- In every reachable state, a pass accepts if the listening socket is reported and
serves exactly the slots that `poll` reported, up to the first client that fails,
unless the client it has just accepted takes a slot that `poll` never wrote, the old
contents of the slot look readable and no client reported before it fails: then it
reads from that client as well, which was in no slot that `poll` was given. -/
theorem pass_serves_reported_iff {fd : ℕ} {garbage report : ℕ → Bool} {calls : List Call}
    (hs : Reaches (next step) (start fd garbage) s)
    (h : step s ⟨some report, k⟩ = some (t, calls)) :
    (calls = serves k s report ↔ ¬ ReadsAccepted garbage s report k) ∧
      (ReadsAccepted garbage s report k → ∃ cfd, k.accept = some cfd ∧
        (∀ i, s.fds i ≠ some cfd) ∧ calls = serves k s report ++ [k.called cfd]) := by
  obtain ⟨hheld, hgarbage⟩ := garbage_of_reaches hs
  rcases step_cases h with ⟨hnone, -, -⟩ | ⟨report', u, first, rest, hreport, hguard, hu, hv, rfl⟩
  · simp at hnone
  cases hreport
  have hmove := accept_cases (hheld.poll report) hu
  rw [hmove.first, loop_calls hv]
  rcases hmove.prepared hheld hguard hgarbage with
    ⟨hprep, hnot⟩ | ⟨hstale, hprep, cfd, hacc, hnew, hcfd⟩
  · have hquiet : ¬ ReadsAccepted garbage s report k := fun hreads => hnot hreads.1
    have hcalls : (upTo (fails k u) (active u)).flatMap (callsAt k u) =
        (upTo (fails k s) (reported s report)).flatMap (callsAt k s) := by
      simp [hprep.calls k, upTo]
    exact ⟨⟨fun _ => hquiet, fun _ => by rw [hcalls, serves]⟩, fun hreads => absurd hreads hquiet⟩
  · have hlast : (upTo (fails k u) [s.maxPos + 1]).flatMap (callsAt k u) = [k.called cfd] := by
      simp [upTo, callsAt, hcfd]
    have hreads : ReadsAccepted garbage s report k ↔
        (reported s report).any (fails k s) = false := by
      rw [List.any_eq_false]
      simp [ReadsAccepted, hstale]
    rw [hprep.calls k, hlast, ← List.append_assoc, ← serves, hreads]
    refine ⟨by simp, fun hgo => ⟨cfd, hacc, hnew, by simp [hgo]⟩⟩

theorem pass_serves_reported_iff_litter : ∃ s t calls, Reaches (next step) (start 3 litter) s ∧
    step s ⟨some fun i => i ≤ 1, writing 5⟩ = some (t, calls) ∧
    (calls = serves (writing 5) s (fun i => i ≤ 1) ↔
      ¬ ReadsAccepted litter s (fun i => i ≤ 1) (writing 5)) ∧
    (ReadsAccepted litter s (fun i => i ≤ 1) (writing 5) → ∃ cfd, (writing 5).accept = some cfd ∧
      (∀ i, s.fds i ≠ some cfd) ∧
        calls = serves (writing 5) s (fun i => i ≤ 1) ++ [(writing 5).called cfd]) := by
  obtain ⟨s, t, calls, hs, h⟩ := exists_reached step (start 3 litter) (arriving.take 1)
    ⟨some fun i => i ≤ 1, writing 5⟩ (by decide +kernel)
  exact ⟨s, t, calls, hs, h, pass_serves_reported_iff hs h⟩

/-- The second client is read from in the pass that accepts it. -/
example : ((trace step (start 3 litter) arriving).map Prod.snd) = some [[.accepted 4],
    [.accepted 5, .answered 4 oneByte (oneByte.over zeroed),
      .answered 5 oneByte (oneByte.over zeroed)]] := by decide +kernel

end Netmux.PollServer
