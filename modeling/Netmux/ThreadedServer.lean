import Netmux.ActionRuns
import Mathlib.Data.Finset.Card
import Mathlib.Data.Nat.Notation
import Mathlib.Logic.Function.Basic

/-!
# One thread for each client

`mulServer.c`: the main thread looks for a free entry of `infos`, accepts a
connection into it and creates a thread, which serves the connection and gives
the entry back. `infos` is shared without a lock; every read and write of a
`cfd`, and every call, is a step of its own here.

A scan that finds no free entry leaves `pinfo` without a value, and accepting
through it is undefined; here it may hit any entry. `pthread_create` may fail,
which goes unnoticed: the thread then never runs, its entry stays taken, and
`pthread_detach` is called with a `tid` that has no value, which is taken to return
without effect. When `accept` fails the main thread returns and the process ends.
-/
namespace Netmux.ThreadedServer
open ActionRuns

/-- The length of `infos`. -/
def slots : ℕ := 512

/-- `none` stands for a `cfd` of -1. -/
structure SockInfo where
  cfd : Option ℕ
  caddr : ℕ
  deriving DecidableEq, Repr

/-- The call or access the main thread makes next; `none` for a variable that has
no value. -/
inductive Main where
  | scanning (index : ℕ)
  | accepting (pinfo : Option ℕ)
  | storing (pinfo cfd caddr : ℕ)
  | creating
  | detaching (tid : Option ℕ)
  | returned
  deriving DecidableEq, Repr

/-- The call or access a thread makes next. -/
inductive Point where
  | notCreated | printing | receiving | sending | closing | resetting | ended
  deriving DecidableEq, Repr

/-- A thread, from the moment its entry is filled; `cfd` and `caddr` record
which connection it is for, and no step reads them. -/
structure Worker where
  pinfo : ℕ
  point : Point
  cfd : ℕ
  caddr : ℕ
  deriving DecidableEq, Repr

/-- Whether the thread still has its entry. -/
def Worker.holds (w : Worker) : Bool := w.point != .ended

/-- Whether the thread still has its descriptor. -/
def Worker.serves (w : Worker) : Bool := w.point != .resetting && w.point != .ended

structure Process where
  infos : ℕ → SockInfo
  main : Main
  workers : ℕ → Option Worker
  count : ℕ
  opened : ℕ → Bool

namespace Process

def info (s : Process) (pinfo : ℕ) : SockInfo := s.infos pinfo

def setInfo (s : Process) (pinfo : ℕ) (info : SockInfo) : Process :=
  { s with infos := Function.update s.infos pinfo info }

def setWorker (s : Process) (thread : ℕ) (w : Worker) : Process :=
  { s with workers := Function.update s.workers thread (some w) }

/-- One pass of the loop that looks for a free entry. -/
def tested (s : Process) (index : ℕ) : Main :=
  if slots ≤ index then .accepting none
  else if (s.info index).cfd = none then .accepting (some index)
  else .scanning (index + 1)

/-- A step of a thread at this point, while the process lasts. -/
def perform (s : Process) (thread : ℕ) (point : Point) (f : Worker → Process) : Option Process :=
  match s.workers thread with
  | some w => if s.main ≠ .returned ∧ w.point = point then some (f w) else none
  | none => none

end Process

inductive Action where
  | scan
  | accept (cfd caddr : ℕ)
  | acceptAnywhere (entry cfd caddr : ℕ)
  | acceptFails
  | store
  | create (succeeds : Bool)
  | detach
  | print (thread : ℕ)
  | recv (thread : ℕ) (received : Bool)
  | send (thread : ℕ)
  | close (thread : ℕ)
  | reset (thread : ℕ)

/-- `accept` fills in the address and returns the descriptor. -/
def Process.accepted (s : Process) (pinfo cfd caddr : ℕ) : Option Process :=
  if s.opened cfd = false then
    some { s.setInfo pinfo { s.info pinfo with caddr := caddr } with
      opened := Function.update s.opened cfd true
      main := .storing pinfo cfd caddr }
  else none

def step (s : Process) : Action → Option Process
  | .scan =>
      match s.main with
      | .scanning index =>
          some { s with main := s.tested index }
      | _ => none
  | .accept cfd caddr =>
      match s.main with
      | .accepting (some pinfo) => s.accepted pinfo cfd caddr
      | _ => none
  | .acceptAnywhere entry cfd caddr =>
      match s.main with
      | .accepting none => s.accepted entry cfd caddr
      | _ => none
  | .acceptFails =>
      match s.main with
      | .accepting _ => some { s with main := .returned }
      | _ => none
  | .store =>
      match s.main with
      | .storing pinfo cfd caddr =>
          some { (s.setInfo pinfo { s.info pinfo with cfd := some cfd }).setWorker s.count
            ⟨pinfo, .notCreated, cfd, caddr⟩ with main := .creating }
      | _ => none
  | .create succeeds =>
      match s.main, s.workers s.count with
      | .creating, some w =>
          some { s.setWorker s.count { w with
              point := if succeeds then .printing else .notCreated } with
            count := s.count + 1
            main := .detaching (if succeeds then some s.count else none) }
      | _, _ => none
  | .detach =>
      match s.main with
      | .detaching _ => some { s with main := .scanning 0 }
      | _ => none
  | .print thread =>
      s.perform thread .printing fun w => s.setWorker thread { w with point := .receiving }
  | .recv thread received =>
      s.perform thread .receiving fun w =>
        s.setWorker thread { w with point := if received then .sending else .closing }
  | .send thread =>
      s.perform thread .sending fun w => s.setWorker thread { w with point := .receiving }
  | .close thread =>
      s.perform thread .closing fun w =>
        { s.setWorker thread { w with point := .resetting } with
          opened := match (s.info w.pinfo).cfd with
            | some cfd => Function.update s.opened cfd false
            | none => s.opened }
  | .reset thread =>
      s.perform thread .resetting fun w =>
        (s.setInfo w.pinfo { s.info w.pinfo with cfd := none }).setWorker thread
          { w with point := .ended }

/-- `pinfo` has a value wherever it is used. -/
def PinfoDefined (s : Process) : Prop := s.main ≠ .accepting none

instance (s : Process) : Decidable (PinfoDefined s) := inferInstanceAs (Decidable (_ ≠ _))

/-- The loop is about to start; only the listening socket is open. -/
def start (listening : ℕ) : Process where
  infos := fun _ => ⟨none, 0⟩
  main := .scanning 0
  workers := fun _ => none
  count := 0
  opened := Function.update (fun _ => false) listening true

/-- What a thread finds at its next access, and that no other thread has part of
it: its entry names its own connection, whose descriptor is open, and neither is
another thread's. Every open descriptor is somebody's. -/
structure Separate (listening : ℕ) (s : Process) : Prop where
  entry : ∀ i w, s.workers i = some w → w.serves = true →
    s.info w.pinfo = ⟨some w.cfd, w.caddr⟩ ∧ s.opened w.cfd = true ∧ w.cfd ≠ listening
  apart : ∀ i j v w, s.workers i = some v → s.workers j = some w → i ≠ j →
    v.serves = true → w.serves = true → v.pinfo ≠ w.pinfo ∧ v.cfd ≠ w.cfd
  owned : ∀ cfd, s.opened cfd = true → cfd = listening ∨
    (∃ pinfo caddr, s.main = .storing pinfo cfd caddr) ∨
    ∃ i w, s.workers i = some w ∧ w.serves = true ∧ w.cfd = cfd

theorem Worker.holds_of_serves {w : Worker} (h : w.serves = true) : w.holds = true := by
  simp only [Worker.serves, Bool.and_eq_true] at h
  exact h.2

/-- The invariant of a run. -/
structure Kept (listening : ℕ) (s : Process) : Prop where
  entry : ∀ i w, s.workers i = some w → w.holds = true →
    s.info w.pinfo = ⟨some w.cfd, w.caddr⟩
  opened : ∀ i w, s.workers i = some w → w.serves = true →
    s.opened w.cfd = true ∧ w.cfd ≠ listening
  slotsApart : ∀ i j v w, s.workers i = some v → s.workers j = some w → i ≠ j →
    v.holds = true → w.holds = true → v.pinfo ≠ w.pinfo
  cfdsApart : ∀ i j v w, s.workers i = some v → s.workers j = some w → i ≠ j →
    v.serves = true → w.serves = true → v.cfd ≠ w.cfd
  owned : ∀ cfd, s.opened cfd = true → cfd = listening ∨
    (∃ pinfo caddr, s.main = .storing pinfo cfd caddr) ∨
    ∃ i w, s.workers i = some w ∧ w.serves = true ∧ w.cfd = cfd
  held : ∀ pinfo cfd, (s.info pinfo).cfd = some cfd →
    ∃ i w, s.workers i = some w ∧ w.holds = true ∧ w.pinfo = pinfo
  numbered : ∀ i w, s.workers i = some w → i < s.count ∨
    (i = s.count ∧ s.main = .creating ∧ w.point = .notCreated)
  listens : s.opened listening = true
  accepting : ∀ pinfo, s.main = .accepting (some pinfo) → (s.info pinfo).cfd = none
  storing : ∀ pinfo cfd caddr, s.main = .storing pinfo cfd caddr →
    s.info pinfo = ⟨none, caddr⟩ ∧ s.opened cfd = true ∧ cfd ≠ listening ∧
      ∀ i w, s.workers i = some w → w.serves = true → w.cfd ≠ cfd

theorem Kept.separate {listening : ℕ} {s : Process} (h : Kept listening s) :
    Separate listening s where
  entry i w hw hserves :=
    ⟨h.entry i w hw (Worker.holds_of_serves hserves), h.opened i w hw hserves⟩
  apart i j v w hv hw hij hvs hws :=
    ⟨h.slotsApart i j v w hv hw hij (Worker.holds_of_serves hvs) (Worker.holds_of_serves hws),
      h.cfdsApart i j v w hv hw hij hvs hws⟩
  owned := h.owned

/-- A free entry is nobody's. -/
theorem Kept.free {listening : ℕ} {s : Process} (h : Kept listening s) {pinfo : ℕ}
    (hfree : (s.info pinfo).cfd = none) {i : ℕ} {w : Worker} (hw : s.workers i = some w)
    (hholds : w.holds = true) : w.pinfo ≠ pinfo := by
  intro heq
  have hentry := h.entry i w hw hholds
  rw [heq] at hentry
  rw [hentry] at hfree
  cases hfree

/-- Every thread of the later state was one of the earlier, for the same entry
and connection, and has nothing it did not have then. -/
def Shadows (s t : Process) : Prop :=
  ∀ i w, t.workers i = some w → ∃ v, s.workers i = some v ∧ v.pinfo = w.pinfo ∧ v.cfd = w.cfd ∧
    v.caddr = w.caddr ∧ (w.holds = true → v.holds = true) ∧ (w.serves = true → v.serves = true)

theorem Kept.slotsApart_of_shadows {listening : ℕ} {s t : Process} (h : Kept listening s)
    (hst : Shadows s t) : ∀ i j v w, t.workers i = some v → t.workers j = some w → i ≠ j →
      v.holds = true → w.holds = true → v.pinfo ≠ w.pinfo := by
  intro i j v w hv hw hij hvh hwh
  obtain ⟨v', hv', hvp, -, -, hvholds, -⟩ := hst i v hv
  obtain ⟨w', hw', hwp, -, -, hwholds, -⟩ := hst j w hw
  rw [← hvp, ← hwp]
  exact h.slotsApart i j v' w' hv' hw' hij (hvholds hvh) (hwholds hwh)

theorem Kept.cfdsApart_of_shadows {listening : ℕ} {s t : Process} (h : Kept listening s)
    (hst : Shadows s t) : ∀ i j v w, t.workers i = some v → t.workers j = some w → i ≠ j →
      v.serves = true → w.serves = true → v.cfd ≠ w.cfd := by
  intro i j v w hv hw hij hvs hws
  obtain ⟨v', hv', -, hvc, -, -, hvserves⟩ := hst i v hv
  obtain ⟨w', hw', -, hwc, -, -, hwserves⟩ := hst j w hw
  rw [← hvc, ← hwc]
  exact h.cfdsApart i j v' w' hv' hw' hij (hvserves hvs) (hwserves hws)

theorem Kept.entry_of_shadows {listening : ℕ} {s t : Process} (h : Kept listening s)
    (hst : Shadows s t) : ∀ i w, t.workers i = some w → w.holds = true →
      s.info w.pinfo = ⟨some w.cfd, w.caddr⟩ := by
  intro i w hw hholds
  obtain ⟨v, hv, hpinfo, hcfd, hcaddr, hvholds, -⟩ := hst i w hw
  have hentry := h.entry i v hv (hvholds hholds)
  rw [hpinfo, hcfd, hcaddr] at hentry
  exact hentry

theorem setWorker_workers {s : Process} {thread i : ℕ} {v w : Worker}
    (h : (s.setWorker thread w).workers i = some v) :
    (i = thread ∧ v = w) ∨ (i ≠ thread ∧ s.workers i = some v) := by
  unfold Process.setWorker at h
  by_cases hi : i = thread
  · subst hi
    simp only [Function.update_self, Option.some.injEq] at h
    exact .inl ⟨rfl, h.symm⟩
  · simp only [Function.update_of_ne hi] at h
    exact .inr ⟨hi, h⟩

/-- A thread moves on, with what it has or less. -/
theorem shadows_setWorker {s : Process} {thread : ℕ} {w : Worker} (hw : s.workers thread = some w)
    (point : Point) (hholds : ({ w with point := point } : Worker).holds = true → w.holds = true)
    (hserves : ({ w with point := point } : Worker).serves = true → w.serves = true) :
    Shadows s (s.setWorker thread { w with point := point }) := by
  intro i v hv
  rcases setWorker_workers hv with ⟨rfl, rfl⟩ | ⟨-, hold⟩
  · exact ⟨w, hw, rfl, rfl, rfl, hholds, hserves⟩
  · exact ⟨v, hold, rfl, rfl, rfl, id, id⟩

theorem setWorker_self {s : Process} {thread : ℕ} {w : Worker} :
    (s.setWorker thread w).workers thread = some w := Function.update_self ..

theorem setWorker_of_ne {s : Process} {thread i : ℕ} {w : Worker} (h : i ≠ thread) :
    (s.setWorker thread w).workers i = s.workers i := Function.update_of_ne h ..

section Steps
variable {listening : ℕ} {s : Process}

/-- The main thread goes on and has nothing in its hands, before or after. -/
theorem Kept.setMain (h : Kept listening s) {m : Main}
    (hstoring : ∀ pinfo cfd caddr, s.main ≠ .storing pinfo cfd caddr)
    (hcreating : s.main ≠ .creating)
    (haccepting : ∀ pinfo, m = .accepting (some pinfo) → (s.info pinfo).cfd = none)
    (hm : ∀ pinfo cfd caddr, m ≠ .storing pinfo cfd caddr) :
    Kept listening { s with main := m } where
  entry := h.entry
  opened := h.opened
  slotsApart := h.slotsApart
  cfdsApart := h.cfdsApart
  owned cfd hcfd := by
    rcases h.owned cfd hcfd with hl | ⟨pinfo, caddr, hmain⟩ | hworker
    · exact .inl hl
    · exact absurd hmain (hstoring pinfo cfd caddr)
    · exact .inr (.inr hworker)
  held := h.held
  numbered i w hw := by
    rcases h.numbered i w hw with hlt | ⟨-, hmain, -⟩
    · exact .inl hlt
    · exact absurd hmain hcreating
  listens := h.listens
  accepting := haccepting
  storing pinfo cfd caddr hmain := absurd hmain (hm pinfo cfd caddr)

theorem Kept.scan (h : Kept listening s) {index : ℕ} (hmain : s.main = .scanning index) :
    Kept listening { s with main := s.tested index } := by
  unfold Process.tested
  apply h.setMain
  · simp [hmain]
  · simp [hmain]
  · intro pinfo hpinfo
    split_ifs at hpinfo with hend hfree
    · cases hpinfo
    · obtain rfl := Option.some.inj (Main.accepting.inj hpinfo)
      exact hfree
  · intro pinfo cfd caddr
    split_ifs <;> simp

/-- The connection goes into an entry that no thread has, and its descriptor was
nobody's. -/
theorem Kept.accept (h : Kept listening s) {pinfo : ℕ} (hmain : s.main = .accepting (some pinfo))
    {cfd : ℕ} (hcfd : s.opened cfd = false) (caddr : ℕ) :
    Kept listening { s.setInfo pinfo { s.info pinfo with caddr := caddr } with
      opened := Function.update s.opened cfd true
      main := .storing pinfo cfd caddr } := by
  have hfree := h.accepting pinfo hmain
  have hnew : ∀ d, s.opened d = true → d ≠ cfd := by
    intro d hd heq
    rw [heq, hcfd] at hd
    cases hd
  constructor
  case entry =>
    intro i w hw hholds
    show Function.update s.infos pinfo _ w.pinfo = _
    rw [Function.update_of_ne (h.free hfree hw hholds)]
    exact h.entry i w hw hholds
  case opened =>
    intro i w hw hserves
    have hopen := h.opened i w hw hserves
    show Function.update s.opened cfd true w.cfd = true ∧ _
    rw [Function.update_of_ne (hnew w.cfd hopen.1)]
    exact hopen
  case slotsApart => exact h.slotsApart
  case cfdsApart => exact h.cfdsApart
  case owned =>
    intro d hd
    by_cases hdc : d = cfd
    · exact .inr (.inl ⟨pinfo, caddr, by rw [hdc]⟩)
    · simp only [Function.update_of_ne hdc] at hd
      rcases h.owned d hd with hl | ⟨_, _, hstoring⟩ | hworker
      · exact .inl hl
      · rw [hmain] at hstoring
        cases hstoring
      · exact .inr (.inr hworker)
  case held =>
    intro p d hd
    by_cases hp : p = pinfo
    · subst hp
      simp only [Process.info, Process.setInfo, Function.update_self] at hd
      exact h.held p d hd
    · simp only [Process.info, Process.setInfo, Function.update_of_ne hp] at hd
      exact h.held p d hd
  case numbered =>
    intro i w hw
    rcases h.numbered i w hw with hlt | ⟨-, hcreating, -⟩
    · exact .inl hlt
    · rw [hmain] at hcreating
      cases hcreating
  case listens =>
    show Function.update s.opened cfd true listening = true
    rw [Function.update_of_ne (hnew listening h.listens), h.listens]
  case accepting => simp
  case storing =>
    intro p d a heq
    cases heq
    refine ⟨?_, Function.update_self .., (hnew listening h.listens).symm, ?_⟩
    · simp [Process.info, Process.setInfo] at hfree ⊢
      exact hfree
    · intro i w hw hserves
      exact hnew w.cfd (h.opened i w hw hserves).1

theorem Kept.none_beyond (h : Kept listening s) (hmain : s.main ≠ .creating) :
    s.workers s.count = none := by
  by_contra hsome
  obtain ⟨w, hw⟩ := Option.ne_none_iff_exists'.mp hsome
  rcases h.numbered s.count w hw with hlt | ⟨-, hcreating, -⟩
  · omega
  · exact hmain hcreating

/-- The entry is filled, and from now on it is the thread's about to be created. -/
theorem Kept.store (h : Kept listening s) {pinfo cfd caddr : ℕ}
    (hmain : s.main = .storing pinfo cfd caddr) :
    Kept listening { (s.setInfo pinfo { s.info pinfo with cfd := some cfd }).setWorker s.count
      ⟨pinfo, .notCreated, cfd, caddr⟩ with main := .creating } := by
  obtain ⟨hinfo, hopen, hlistening, hnew⟩ := h.storing pinfo cfd caddr hmain
  have hnone : s.workers s.count = none := h.none_beyond (by simp [hmain])
  have hfree : (s.info pinfo).cfd = none := by rw [hinfo]
  have hcases : ∀ {i v}, ((s.setInfo pinfo { s.info pinfo with cfd := some cfd }).setWorker s.count
      ⟨pinfo, .notCreated, cfd, caddr⟩).workers i = some v →
      (i = s.count ∧ v = ⟨pinfo, .notCreated, cfd, caddr⟩) ∨ s.workers i = some v := by
    intro i v hv
    rcases setWorker_workers hv with hlast | ⟨-, hold⟩
    · exact .inl hlast
    · exact .inr hold
  have hstays : ∀ {i v}, s.workers i = some v →
      ((s.setInfo pinfo { s.info pinfo with cfd := some cfd }).setWorker s.count
        ⟨pinfo, .notCreated, cfd, caddr⟩).workers i = some v := by
    intro i v hv
    have hi : i ≠ s.count := by
      rintro rfl
      rw [hnone] at hv
      cases hv
    rw [setWorker_of_ne hi]
    exact hv
  constructor
  case entry =>
    intro i w hw hholds
    show Function.update s.infos pinfo _ w.pinfo = _
    rcases hcases hw with ⟨-, rfl⟩ | hold
    · rw [Function.update_self, hinfo]
    · rw [Function.update_of_ne (h.free hfree hold hholds)]
      exact h.entry i w hold hholds
  case opened =>
    intro i w hw hserves
    rcases hcases hw with ⟨-, rfl⟩ | hold
    · exact ⟨hopen, hlistening⟩
    · exact h.opened i w hold hserves
  case slotsApart =>
    intro i j v w hv hw hij hvh hwh
    rcases hcases hv with ⟨rfl, rfl⟩ | hvold
    · rcases hcases hw with ⟨rfl, -⟩ | hwold
      · exact absurd rfl hij
      · exact (h.free hfree hwold hwh).symm
    · rcases hcases hw with ⟨rfl, rfl⟩ | hwold
      · exact h.free hfree hvold hvh
      · exact h.slotsApart i j v w hvold hwold hij hvh hwh
  case cfdsApart =>
    intro i j v w hv hw hij hvs hws
    rcases hcases hv with ⟨rfl, rfl⟩ | hvold
    · rcases hcases hw with ⟨rfl, -⟩ | hwold
      · exact absurd rfl hij
      · exact (hnew j w hwold hws).symm
    · rcases hcases hw with ⟨rfl, rfl⟩ | hwold
      · exact hnew i v hvold hvs
      · exact h.cfdsApart i j v w hvold hwold hij hvs hws
  case owned =>
    intro d hd
    rcases h.owned d hd with hl | ⟨p, a, hstoring⟩ | ⟨i, w, hw, hserves, hcfd⟩
    · exact .inl hl
    · rw [hmain] at hstoring
      obtain ⟨rfl, rfl, rfl⟩ := Main.storing.inj hstoring
      exact .inr (.inr ⟨s.count, _, setWorker_self, rfl, rfl⟩)
    · exact .inr (.inr ⟨i, w, hstays hw, hserves, hcfd⟩)
  case held =>
    intro p d hd
    by_cases hp : p = pinfo
    · exact ⟨s.count, _, setWorker_self, rfl, hp.symm⟩
    · simp only [Process.info, Process.setInfo, Process.setWorker, Function.update_of_ne hp] at hd
      obtain ⟨i, w, hw, hholds, hpinfo⟩ := h.held p d hd
      exact ⟨i, w, hstays hw, hholds, hpinfo⟩
  case numbered =>
    intro i w hw
    rcases hcases hw with ⟨rfl, rfl⟩ | hold
    · exact .inr ⟨rfl, rfl, rfl⟩
    · rcases h.numbered i w hold with hlt | ⟨-, hcreating, -⟩
      · exact .inl hlt
      · rw [hmain] at hcreating
        cases hcreating
  case listens => exact h.listens
  case accepting => simp
  case storing => simp

/-- A thread that runs has been created. -/
theorem Kept.created (h : Kept listening s) {thread : ℕ} {w : Worker}
    (hw : s.workers thread = some w) (hpoint : w.point ≠ .notCreated) : thread < s.count := by
  rcases h.numbered thread w hw with hlt | ⟨-, -, hnot⟩
  · exact hlt
  · exact absurd hnot hpoint

/-- A thread that goes on is still the one of its number. -/
theorem Kept.numbered_setWorker (h : Kept listening s) {thread : ℕ} (hthread : thread < s.count)
    (w : Worker) : ∀ i v, (s.setWorker thread w).workers i = some v → i < s.count ∨
      (i = s.count ∧ s.main = .creating ∧ v.point = .notCreated) := by
  intro i v hv
  rcases setWorker_workers hv with ⟨rfl, -⟩ | ⟨-, hold⟩
  · exact .inl hthread
  · exact h.numbered i v hold

/-- A filled entry stays the thread's that has it. -/
theorem Kept.held_setWorker (h : Kept listening s) {thread : ℕ} {w : Worker}
    (hw : s.workers thread = some w) {point : Point}
    (hpoint : ({ w with point := point } : Worker).holds = true) :
    ∀ pinfo cfd, (s.info pinfo).cfd = some cfd →
      ∃ i v, (s.setWorker thread { w with point := point }).workers i = some v ∧
        v.holds = true ∧ v.pinfo = pinfo := by
  intro pinfo cfd hcfd
  obtain ⟨i, v, hv, hholds, hpinfo⟩ := h.held pinfo cfd hcfd
  by_cases hi : i = thread
  · subst hi
    obtain rfl := Option.some.inj (hw.symm.trans hv)
    exact ⟨i, _, setWorker_self, hpoint, hpinfo⟩
  · exact ⟨i, v, (setWorker_of_ne hi).trans hv, hholds, hpinfo⟩

/-- A thread goes on with all it has. -/
theorem Kept.setWorker (h : Kept listening s) {thread : ℕ} {w : Worker}
    (hw : s.workers thread = some w) (hthread : thread < s.count) (point : Point)
    (hserves : w.serves = true) (hpoint : ({ w with point := point } : Worker).serves = true) :
    Kept listening (s.setWorker thread { w with point := point }) := by
  have hshadows : Shadows s (s.setWorker thread { w with point := point }) :=
    shadows_setWorker hw point (fun _ => Worker.holds_of_serves hserves) (fun _ => hserves)
  constructor
  case entry => exact h.entry_of_shadows hshadows
  case opened =>
    intro i v hv hvs
    obtain ⟨u, hu, -, hcfd, -, -, huserves⟩ := hshadows i v hv
    have hopened := h.opened i u hu (huserves hvs)
    rw [hcfd] at hopened
    exact hopened
  case slotsApart => exact h.slotsApart_of_shadows hshadows
  case cfdsApart => exact h.cfdsApart_of_shadows hshadows
  case owned =>
    intro d hd
    rcases h.owned d hd with hl | hstoring | ⟨i, v, hv, hvs, hcfd⟩
    · exact .inl hl
    · exact .inr (.inl hstoring)
    · right; right
      by_cases hi : i = thread
      · subst hi
        obtain rfl := Option.some.inj (hw.symm.trans hv)
        exact ⟨i, _, setWorker_self, hpoint, hcfd⟩
      · exact ⟨i, v, (setWorker_of_ne hi).trans hv, hvs, hcfd⟩
  case held => exact h.held_setWorker hw (Worker.holds_of_serves hpoint)
  case numbered => exact h.numbered_setWorker hthread _
  case listens => exact h.listens
  case accepting => exact h.accepting
  case storing =>
    intro p d a hmain
    obtain ⟨hinfo, hopen, hlistening, hnew⟩ := h.storing p d a hmain
    refine ⟨hinfo, hopen, hlistening, ?_⟩
    intro i v hv hvs
    obtain ⟨u, hu, -, hcfd, -, -, huserves⟩ := hshadows i v hv
    rw [← hcfd]
    exact hnew i u hu (huserves hvs)

/-- The main thread has a thread to detach, or none. -/
theorem Kept.turn (h : Kept listening s) (hmain : s.main = .creating) (tid : Option ℕ) :
    Kept listening { s with count := s.count + 1, main := .detaching tid } where
  entry := h.entry
  opened := h.opened
  slotsApart := h.slotsApart
  cfdsApart := h.cfdsApart
  owned cfd hcfd := by
    rcases h.owned cfd hcfd with hl | ⟨pinfo, caddr, hstoring⟩ | hworker
    · exact .inl hl
    · rw [hmain] at hstoring
      cases hstoring
    · exact .inr (.inr hworker)
  held := h.held
  numbered i w hw := by
    left
    show i < s.count + 1
    rcases h.numbered i w hw with hlt | ⟨hlast, -⟩ <;> omega
  listens := h.listens
  accepting := by simp
  storing := by simp

theorem Kept.create (h : Kept listening s) (hmain : s.main = .creating) {w : Worker}
    (hw : s.workers s.count = some w) (succeeds : Bool) (tid : Option ℕ) :
    Kept listening { s.setWorker s.count { w with
        point := if succeeds then .printing else .notCreated } with
      count := s.count + 1
      main := .detaching tid } := by
  have hserves : w.serves = true := by
    rcases h.numbered s.count w hw with hlt | ⟨-, -, hpoint⟩
    · omega
    · simp [Worker.serves, hpoint]
  exact (h.turn hmain tid).setWorker hw (Nat.lt_succ_self _) _ hserves (by cases succeeds <;> rfl)

/-- The thread closes its own descriptor, the one its entry names. -/
theorem Kept.close (h : Kept listening s) {thread : ℕ} {w : Worker}
    (hw : s.workers thread = some w) (hpoint : w.point = .closing) :
    Kept listening { s.setWorker thread { w with point := .resetting } with
      opened := match (s.info w.pinfo).cfd with
        | some cfd => Function.update s.opened cfd false
        | none => s.opened } := by
  have hserves : w.serves = true := by simp [Worker.serves, hpoint]
  have hholds := Worker.holds_of_serves hserves
  have hshadows : Shadows s (s.setWorker thread { w with point := .resetting }) :=
    shadows_setWorker hw .resetting (fun _ => hholds) (fun _ => hserves)
  have hentry := h.entry thread w hw hholds
  simp only [hentry]
  have hother : ∀ {i v}, (s.setWorker thread { w with point := .resetting }).workers i = some v →
      v.serves = true → s.workers i = some v ∧ v.cfd ≠ w.cfd := by
    intro i v hv hvs
    rcases setWorker_workers hv with ⟨-, rfl⟩ | ⟨hi, hold⟩
    · simp [Worker.serves] at hvs
    · exact ⟨hold, h.cfdsApart i thread v w hold hw hi hvs hserves⟩
  constructor
  case entry => exact h.entry_of_shadows hshadows
  case opened =>
    intro i v hv hvs
    obtain ⟨hold, hne⟩ := hother hv hvs
    show Function.update s.opened w.cfd false v.cfd = true ∧ _
    rw [Function.update_of_ne hne]
    exact h.opened i v hold hvs
  case slotsApart => exact h.slotsApart_of_shadows hshadows
  case cfdsApart => exact h.cfdsApart_of_shadows hshadows
  case owned =>
    intro d hd
    have hd : Function.update s.opened w.cfd false d = true := hd
    have hne : d ≠ w.cfd := by
      rintro rfl
      rw [Function.update_self] at hd
      cases hd
    rw [Function.update_of_ne hne] at hd
    rcases h.owned d hd with hl | hstoring | ⟨i, v, hv, hvs, hcfd⟩
    · exact .inl hl
    · exact .inr (.inl hstoring)
    · have hi : i ≠ thread := by
        rintro rfl
        obtain rfl := Option.some.inj (hw.symm.trans hv)
        exact hne hcfd.symm
      exact .inr (.inr ⟨i, v, (setWorker_of_ne hi).trans hv, hvs, hcfd⟩)
  case held => exact h.held_setWorker hw rfl
  case numbered => exact h.numbered_setWorker (h.created hw (by simp [hpoint])) _
  case listens =>
    show Function.update s.opened w.cfd false listening = true
    rw [Function.update_of_ne (h.opened thread w hw hserves).2.symm, h.listens]
  case accepting => exact h.accepting
  case storing =>
    intro p d a hmain
    obtain ⟨hinfo, hopen, hlistening, hnew⟩ := h.storing p d a hmain
    refine ⟨hinfo, ?_, hlistening, ?_⟩
    · show Function.update s.opened w.cfd false d = true
      rw [Function.update_of_ne (hnew thread w hw hserves).symm, hopen]
    · intro i v hv hvs
      exact hnew i v (hother hv hvs).1 hvs

/-- The thread gives its entry back; the other threads have other entries. -/
theorem Kept.reset (h : Kept listening s) {thread : ℕ} {w : Worker}
    (hw : s.workers thread = some w) (hpoint : w.point = .resetting) :
    Kept listening ((s.setInfo w.pinfo { s.info w.pinfo with cfd := none }).setWorker thread
      { w with point := .ended }) := by
  have hholds : w.holds = true := by simp [Worker.holds, hpoint]
  have hentry := h.entry thread w hw hholds
  have hother : ∀ {i v}, ((s.setInfo w.pinfo { s.info w.pinfo with cfd := none }).setWorker thread
      { w with point := .ended }).workers i = some v → v.holds = true →
      s.workers i = some v ∧ i ≠ thread := by
    intro i v hv hvh
    rcases setWorker_workers hv with ⟨-, rfl⟩ | ⟨hi, hold⟩
    · simp [Worker.holds] at hvh
    · exact ⟨hold, hi⟩
  have hserver : ∀ {i v}, ((s.setInfo w.pinfo { s.info w.pinfo with cfd := none }).setWorker thread
      { w with point := .ended }).workers i = some v → v.serves = true →
      s.workers i = some v ∧ i ≠ thread :=
    fun hv hvs => hother hv (Worker.holds_of_serves hvs)
  have hstays : ∀ {i v}, s.workers i = some v → i ≠ thread →
      ((s.setInfo w.pinfo { s.info w.pinfo with cfd := none }).setWorker thread
        { w with point := .ended }).workers i = some v := by
    intro i v hv hi
    rw [setWorker_of_ne hi]
    exact hv
  constructor
  case entry =>
    intro i v hv hvh
    obtain ⟨hold, hi⟩ := hother hv hvh
    show Function.update s.infos w.pinfo _ v.pinfo = _
    rw [Function.update_of_ne (h.slotsApart i thread v w hold hw hi hvh hholds)]
    exact h.entry i v hold hvh
  case opened =>
    intro i v hv hvs
    exact h.opened i v (hserver hv hvs).1 hvs
  case slotsApart =>
    intro i j v u hv hu hij hvh huh
    exact h.slotsApart i j v u (hother hv hvh).1 (hother hu huh).1 hij hvh huh
  case cfdsApart =>
    intro i j v u hv hu hij hvs hus
    exact h.cfdsApart i j v u (hserver hv hvs).1 (hserver hu hus).1 hij hvs hus
  case owned =>
    intro d hd
    rcases h.owned d hd with hl | hstoring | ⟨i, v, hv, hvs, hcfd⟩
    · exact .inl hl
    · exact .inr (.inl hstoring)
    · have hi : i ≠ thread := by
        rintro rfl
        obtain rfl := Option.some.inj (hw.symm.trans hv)
        simp [Worker.serves, hpoint] at hvs
      exact .inr (.inr ⟨i, v, hstays hv hi, hvs, hcfd⟩)
  case held =>
    intro p d hd
    have hp : p ≠ w.pinfo := by
      rintro rfl
      simp [Process.info, Process.setInfo, Process.setWorker] at hd
    simp only [Process.info, Process.setInfo, Process.setWorker, Function.update_of_ne hp] at hd
    obtain ⟨i, v, hv, hvh, hpinfo⟩ := h.held p d hd
    have hi : i ≠ thread := by
      rintro rfl
      obtain rfl := Option.some.inj (hw.symm.trans hv)
      exact hp hpinfo.symm
    exact ⟨i, v, hstays hv hi, hvh, hpinfo⟩
  case numbered => exact h.numbered_setWorker (h.created hw (by simp [hpoint])) _
  case listens => exact h.listens
  case accepting =>
    intro p hmain
    by_cases hp : p = w.pinfo
    · subst hp
      simp [Process.info, Process.setInfo, Process.setWorker]
    · simp only [Process.info, Process.setInfo, Process.setWorker, Function.update_of_ne hp]
      exact h.accepting p hmain
  case storing =>
    intro p d a hmain
    obtain ⟨hinfo, hopen, hlistening, hnew⟩ := h.storing p d a hmain
    have hp : p ≠ w.pinfo := by
      rintro rfl
      rw [hentry] at hinfo
      cases hinfo
    refine ⟨?_, hopen, hlistening, ?_⟩
    · simp only [Process.info, Process.setInfo, Process.setWorker, Function.update_of_ne hp]
      exact hinfo
    · intro i v hv hvs
      exact hnew i v (hserver hv hvs).1 hvs

end Steps

theorem perform_eq_some {s t : Process} {thread : ℕ} {point : Point} {f : Worker → Process}
    (h : s.perform thread point f = some t) :
    ∃ w, s.workers thread = some w ∧ s.main ≠ .returned ∧ w.point = point ∧ f w = t := by
  unfold Process.perform at h
  cases hw : s.workers thread with
  | none =>
      rw [hw] at h
      cases h
  | some w =>
      rw [hw] at h
      simp only [Option.ite_none_right_eq_some, Option.some.injEq] at h
      exact ⟨w, rfl, h.1.1, h.1.2, h.2⟩

theorem start_kept (listening : ℕ) : Kept listening (start listening) where
  entry := by simp [start]
  opened := by simp [start]
  slotsApart := by simp [start]
  cfdsApart := by simp [start]
  owned cfd hcfd := by
    left
    by_contra hne
    simp [start, Function.update_of_ne hne] at hcfd
  held := by simp [start, Process.info]
  numbered := by simp [start]
  listens := by simp [start]
  accepting := by simp [start]
  storing := by simp [start]

theorem step_kept (listening : ℕ) (s : Process) (a : Action) (t : Process)
    (h : Kept listening s) (hp : PinfoDefined s) (ht : step s a = some t) : Kept listening t := by
  cases a with
  | scan =>
      simp only [step] at ht
      split at ht
      · next index hmain =>
          rw [← Option.some.inj ht]
          exact h.scan hmain
      · cases ht
  | accept cfd caddr =>
      simp only [step] at ht
      split at ht
      · next pinfo hmain =>
          simp only [Process.accepted, Option.ite_none_right_eq_some, Option.some.injEq] at ht
          rw [← ht.2]
          exact h.accept hmain ht.1 caddr
      · cases ht
  | acceptAnywhere entry cfd caddr =>
      simp only [step] at ht
      split at ht
      · next hmain => exact absurd hmain hp
      · cases ht
  | acceptFails =>
      simp only [step] at ht
      split at ht
      · next pinfo hmain =>
          rw [← Option.some.inj ht]
          exact h.setMain (by simp [hmain]) (by simp [hmain]) (by simp) (by simp)
      · cases ht
  | store =>
      simp only [step] at ht
      split at ht
      · next pinfo cfd caddr hmain =>
          rw [← Option.some.inj ht]
          exact h.store hmain
      · cases ht
  | create succeeds =>
      simp only [step] at ht
      split at ht
      · next w hmain hw =>
          rw [← Option.some.inj ht]
          exact h.create hmain hw succeeds _
      · cases ht
  | detach =>
      simp only [step] at ht
      split at ht
      · next tid hmain =>
          rw [← Option.some.inj ht]
          exact h.setMain (by simp [hmain]) (by simp [hmain]) (by simp) (by simp)
      · cases ht
  | print thread | send thread =>
      obtain ⟨w, hw, -, hpoint, rfl⟩ := perform_eq_some ht
      exact h.setWorker hw (h.created hw (by simp [hpoint])) _ (by simp [Worker.serves, hpoint]) rfl
  | recv thread received =>
      obtain ⟨w, hw, -, hpoint, rfl⟩ := perform_eq_some ht
      exact h.setWorker hw (h.created hw (by simp [hpoint])) _ (by simp [Worker.serves, hpoint])
        (by cases received <;> rfl)
  | close thread =>
      obtain ⟨w, hw, -, hpoint, rfl⟩ := perform_eq_some ht
      exact h.close hw hpoint
  | reset thread =>
      obtain ⟨w, hw, -, hpoint, rfl⟩ := perform_eq_some ht
      exact h.reset hw hpoint

/-- A second client is accepted while the first is being served. -/
def secondClient : List Action :=
  [.scan, .accept 4 100, .store, .create true, .detach, .print 0, .scan, .scan, .recv 0 true,
    .accept 5 101, .store, .create true, .detach, .print 1, .recv 1 false]

/-- The threads that still have an entry of `infos`. -/
def Process.holding (s : Process) : Finset ℕ :=
  (Finset.range s.count).filter fun i => (s.workers i).any Worker.holds = true

/-- A scan that begins finds fewer threads with an entry than there are entries. -/
def BeginsWithRoom (s : Process) : Action → Prop
  | .scan => s.main = .scanning 0 → s.holding.card < slots
  | _ => True

instance (s : Process) : (a : Action) → Decidable (BeginsWithRoom s a)
  | .scan => inferInstanceAs (Decidable (_ → _))
  | .accept .. | .acceptAnywhere .. | .acceptFails | .store | .create _ | .detach | .print _
  | .recv .. | .send _ | .close _ | .reset _ => isTrue trivial

/-- With fewer threads than entries, an entry is free. -/
theorem Kept.exists_free {listening : ℕ} {s : Process} (h : Kept listening s)
    (hmain : s.main ≠ .creating) (hroom : s.holding.card < slots) :
    ∃ p < slots, (s.info p).cfd = none := by
  by_contra hfull
  push Not at hfull
  have hholder : ∀ p ∈ Finset.range slots, ∃ i ∈ s.holding,
      ∃ w, s.workers i = some w ∧ w.pinfo = p := by
    intro p hp
    obtain ⟨cfd, hcfd⟩ := Option.ne_none_iff_exists'.mp (hfull p (Finset.mem_range.mp hp))
    obtain ⟨i, w, hw, hholds, hpinfo⟩ := h.held p cfd hcfd
    have hi : i < s.count := by
      rcases h.numbered i w hw with hlt | ⟨-, hcreating, -⟩
      · exact hlt
      · exact absurd hcreating hmain
    refine ⟨i, ?_, w, hw, hpinfo⟩
    simp [Process.holding, hi, hw, hholds]
  choose! holder hmem hpinfo using hholder
  have hinj : Set.InjOn holder (Finset.range slots) := by
    intro p hp q hq heq
    obtain ⟨v, hv, hvp⟩ := hpinfo p hp
    obtain ⟨w, hw, hwq⟩ := hpinfo q hq
    rw [heq, hw] at hv
    rw [← hvp, ← hwq, Option.some.inj hv]
  have hcard := Finset.card_le_card_of_injOn holder hmem hinj
  rw [Finset.card_range] at hcard
  omega

/-- A scan under way has a free entry before it. -/
structure Roomy (listening : ℕ) (s : Process) : Prop where
  kept : Kept listening s
  ahead : ∀ index, s.main = .scanning (index + 1) →
    ∃ p, index + 1 ≤ p ∧ p < slots ∧ (s.info p).cfd = none
  defined : PinfoDefined s

theorem roomy_scan {listening : ℕ} {s : Process} {index p : ℕ}
    (hkept : Kept listening { s with main := s.tested index })
    (hle : index ≤ p) (hp : p < slots) (hfree : (s.info p).cfd = none) :
    Roomy listening { s with main := s.tested index } := by
  have hinside : ¬ slots ≤ index := by omega
  refine ⟨hkept, ?_, ?_⟩
  · intro next hnext
    simp only [Process.tested, if_neg hinside] at hnext
    split_ifs at hnext with htest
    have hsucc : index + 1 = next + 1 := Main.scanning.inj hnext
    have hne : index ≠ p := by
      rintro rfl
      exact htest hfree
    exact ⟨p, by omega, hp, hfree⟩
  · simp only [PinfoDefined, Process.tested, if_neg hinside]
    split_ifs <;> simp

/-- A step of a thread frees entries and takes none. -/
theorem Roomy.work {listening : ℕ} {s t : Process} (h : Roomy listening s)
    (hkept : Kept listening t) (hmain : t.main = s.main)
    (hfree : ∀ p, (s.info p).cfd = none → (t.info p).cfd = none) : Roomy listening t := by
  refine ⟨hkept, ?_, ?_⟩
  · intro index hindex
    rw [hmain] at hindex
    obtain ⟨p, hle, hlt, hp⟩ := h.ahead index hindex
    exact ⟨p, hle, hlt, hfree p hp⟩
  · unfold PinfoDefined
    rw [hmain]
    exact h.defined

theorem step_roomy (listening : ℕ) (s : Process) (a : Action) (t : Process)
    (h : Roomy listening s) (ha : BeginsWithRoom s a) (ht : step s a = some t) :
    Roomy listening t := by
  have hkept := step_kept listening s a t h.kept h.defined ht
  cases a with
  | scan =>
      simp only [step] at ht
      split at ht
      · next index hmain =>
          obtain rfl := Option.some.inj ht
          cases index with
          | zero =>
              obtain ⟨p, hp, hfree⟩ := h.kept.exists_free (by simp [hmain]) (ha hmain)
              exact roomy_scan hkept (Nat.zero_le p) hp hfree
          | succ index =>
              obtain ⟨p, hle, hp, hfree⟩ := h.ahead index hmain
              exact roomy_scan hkept hle hp hfree
      · cases ht
  | accept cfd caddr =>
      simp only [step] at ht
      split at ht
      · simp only [Process.accepted, Option.ite_none_right_eq_some, Option.some.injEq] at ht
        obtain ⟨-, rfl⟩ := ht
        exact ⟨hkept, by simp, by simp [PinfoDefined]⟩
      · cases ht
  | acceptAnywhere entry cfd caddr =>
      simp only [step] at ht
      split at ht
      · next hmain => exact absurd hmain h.defined
      · cases ht
  | detach =>
      simp only [step] at ht
      split at ht
      · obtain rfl := Option.some.inj ht
        exact ⟨hkept, by simp, by simp [PinfoDefined]⟩
      · cases ht
  | acceptFails =>
      simp only [step] at ht
      split at ht
      · obtain rfl := Option.some.inj ht
        exact ⟨hkept, by simp, by simp [PinfoDefined]⟩
      · cases ht
  | store =>
      simp only [step] at ht
      split at ht
      · obtain rfl := Option.some.inj ht
        exact ⟨hkept, by simp, by simp [PinfoDefined]⟩
      · cases ht
  | create succeeds =>
      simp only [step] at ht
      split at ht
      · obtain rfl := Option.some.inj ht
        exact ⟨hkept, by simp, by simp [PinfoDefined]⟩
      · cases ht
  | print thread | recv thread _ | send thread | close thread =>
      obtain ⟨w, hw, -, hpoint, rfl⟩ := perform_eq_some ht
      exact h.work hkept rfl fun _ => id
  | reset thread =>
      obtain ⟨w, hw, -, hpoint, rfl⟩ := perform_eq_some ht
      apply h.work hkept rfl
      intro p hp
      by_cases hpinfo : p = w.pinfo
      · simp [Process.info, Process.setInfo, Process.setWorker, hpinfo]
      · simp only [Process.info, Process.setInfo, Process.setWorker, Function.update_of_ne hpinfo]
        exact hp

end Netmux.ThreadedServer
