import Netmux.BreakableLoop
import Netmux.ClientCalls
import Mathlib.Data.List.Nodup

/-!
# The server over `epoll`

The loop of `epoll_server.c`. The kernel keeps the set of descriptors the server
is interested in and each pass goes over all the events it returns, at most as many
as the array holds. A client that has closed leaves the set and is closed; one
that fails is only reported. A failed `epoll_wait` is a pass without events, and
to add the result of a failed `accept` changes nothing. To add a new client, or to
take out an open one, succeeds: a failing `EPOLL_CTL_ADD`, after which the client
would be open and not watched, is left out.

`opened` is the kernel's side of the clients; `interest` is that of `epfd`.
-/
namespace Netmux.EpollServer
open ActionRuns BreakableLoop ClientCalls

/-- The length of `events`. -/
def size : ℕ := 1024

structure Server where
  lfd : ℕ
  interest : Finset ℕ
  opened : Finset ℕ

/-- One pass: the readable descriptors, in the order of the events. -/
structure Pass where
  events : List ℕ
  answers : Answers

def start (lfd : ℕ) : Server where
  lfd := lfd
  interest := {lfd}
  opened := ∅

/-- The body of the loop over the events. -/
def visit (k : Answers) (s : Server) (fd : ℕ) : Option (Turn Server Call) :=
  if fd = s.lfd then
    match k.accept with
    | none => some ⟨s, [], true⟩
    | some newcfd =>
        -- the kernel hands out no descriptor that is open
        if newcfd ∈ s.opened ∨ newcfd = s.lfd then none
        else some ⟨{ s with
          interest := insert newcfd s.interest
          opened := insert newcfd s.opened }, [.accepted newcfd], true⟩
  else
    match k.recv fd with
    | .data chunk => some ⟨s, [.answered fd chunk (chunk.over (k.stack fd))], true⟩
    | .closed => some ⟨{ s with
        interest := s.interest.erase fd
        opened := s.opened.erase fd }, [.left fd], true⟩
    | .failed => some ⟨s, [.failed fd], true⟩

/-- A descriptor has one entry in the interest list, so one event in a pass. -/
def Reports (s : Server) (events : List ℕ) : Prop :=
  events.Nodup ∧ events.length ≤ size ∧ ∀ fd ∈ events, fd ∈ s.interest

instance (s : Server) (events : List ℕ) : Decidable (Reports s events) :=
  inferInstanceAs (Decidable (_ ∧ _ ∧ _))

def step (s : Server) (p : Pass) : Option (Server × List Call) :=
  if Reports s p.events then loop (visit p.answers) s p.events else none

/-- The kernel watches the listening socket and exactly the open clients. -/
structure Watching (s : Server) : Prop where
  watched : s.interest = insert s.lfd s.opened
  apart : s.lfd ∉ s.opened

theorem watching_start (lfd : ℕ) : Watching (start lfd) where
  watched := rfl
  apart := by simp [start]

variable {k : Answers} {s t : Server} {fd : ℕ}

/-- What one visit can do. -/
inductive VisitMove (k : Answers) (s : Server) (fd : ℕ) : Turn Server Call → Prop
  | refuse : fd = s.lfd → k.accept = none → VisitMove k s fd ⟨s, [], true⟩
  | accept (newcfd : ℕ) : fd = s.lfd → k.accept = some newcfd → newcfd ∉ s.opened →
      newcfd ≠ s.lfd → VisitMove k s fd ⟨{ s with
        interest := insert newcfd s.interest
        opened := insert newcfd s.opened }, [.accepted newcfd], true⟩
  | recv : fd ≠ s.lfd → VisitMove k s fd ⟨{ s with
      interest := k.after s.interest fd
      opened := k.after s.opened fd }, [k.called fd], true⟩

theorem visit_cases {r : Turn Server Call} (h : visit k s fd = some r) : VisitMove k s fd r := by
  simp only [visit] at h
  split_ifs at h with hlisten
  · cases haccept : k.accept with
    | none =>
        simp only [haccept] at h
        cases h
        exact .refuse hlisten haccept
    | some newcfd =>
        simp only [haccept] at h
        split_ifs at h with hopen
        push Not at hopen
        cases h
        exact .accept newcfd hlisten haccept hopen.1 hopen.2
  · have hmove := VisitMove.recv (k := k) hlisten
    cases hrecv : k.recv fd with
    | data chunk =>
        simp only [hrecv] at h
        cases h
        simpa only [Answers.called, Answers.after, hrecv] using hmove
    | closed =>
        simp only [hrecv] at h
        cases h
        simpa only [Answers.called, Answers.after, hrecv] using hmove
    | failed =>
        simp only [hrecv] at h
        cases h
        simpa only [Answers.called, Answers.after, hrecv] using hmove

/-- What a visit keeps, given the events still to come. -/
structure Visiting (s : Server) (events : List ℕ) : Prop where
  watching : Watching s
  once : events.Nodup
  wanted : ∀ fd ∈ events, fd ∈ s.interest

/-- One visit: the call is one that may be made, and the events still to come are
of descriptors that the kernel still watches. -/
theorem VisitMove.spec {events : List ℕ} {r : Turn Server Call} (h : VisitMove k s fd r)
    (hs : Visiting s (fd :: events)) : Visiting r.state events ∧
      run permit s.opened r.emitted = some r.state.opened ∧ r.state.lfd = s.lfd ∧
      r.emitted = k.calls s.lfd fd ∧ r.goesOn := by
  obtain ⟨hout, honce⟩ := List.nodup_cons.mp hs.once
  have hrest : ∀ gd ∈ events, gd ∈ s.interest := fun gd hgd =>
    hs.wanted gd (List.mem_cons_of_mem fd hgd)
  cases h with
  | refuse hfd hacc =>
      refine ⟨⟨hs.watching, honce, hrest⟩, rfl, rfl, ?_, rfl⟩
      simp [Answers.calls, hfd, Answers.accepted, hacc]
  | accept newcfd hfd hacc hfresh hne =>
      refine ⟨⟨⟨?_, ?_⟩, honce, ?_⟩, run_permit_accepted hfresh, rfl, ?_, rfl⟩
      · simp only [hs.watching.watched, Finset.insert_comm]
      · simp [hs.watching.apart, hne.symm]
      · exact fun gd hgd => Finset.mem_insert_of_mem (hrest gd hgd)
      · simp [Answers.calls, hfd, Answers.accepted, hacc]
  | recv hfd =>
      have hwanted := hs.wanted fd List.mem_cons_self
      rw [hs.watching.watched] at hwanted
      have hopen := Finset.mem_of_mem_insert_of_ne hwanted hfd
      refine ⟨⟨⟨?_, ?_⟩, honce, ?_⟩, run_permit_called hopen, rfl, ?_, rfl⟩
      · simp only [hs.watching.watched, k.after_insert hfd]
      · exact fun hc => hs.watching.apart (k.after_subset hc)
      · intro gd hgd
        have hne : gd ≠ fd := fun heq => hout (heq ▸ hgd)
        exact k.mem_after (hrest gd hgd) hne
      · simp [Answers.calls, hfd]

theorem reports_of_step {p : Pass} {calls : List Call} (h : step s p = some (t, calls)) :
    Reports s p.events := by
  unfold step at h
  split_ifs at h with hreports
  exact hreports

theorem step_spec {p : Pass} {calls : List Call} (hs : Watching s)
    (h : step s p = some (t, calls)) :
    Watching t ∧ run permit s.opened calls = some t.opened ∧ t.lfd = s.lfd ∧
      calls = p.events.flatMap (p.answers.calls s.lfd) := by
  have hreports := reports_of_step h
  rw [step, if_pos hreports] at h
  have hvisit : Visiting s p.events := ⟨hs, hreports.1, hreports.2.2⟩
  have hkeep : Watching t ∧ t.lfd = s.lfd := by
    refine loop_establishes (I := fun u es => Visiting u es ∧ u.lfd = s.lfd)
      (J := fun u => Watching u ∧ u.lfd = s.lfd) ?_ ⟨hvisit, rfl⟩ ⟨hs, rfl⟩ h
    intro u fd es r hu hr
    obtain ⟨hv, -, hfd, -, -⟩ := (visit_cases hr).spec hu.1
    exact ⟨⟨hv.watching, hfd.trans hu.2⟩, fun _ => ⟨hv, hfd.trans hu.2⟩⟩
  refine ⟨hkeep.1, ?_, hkeep.2, ?_⟩
  · refine loop_simulates permit Server.opened (I := Visiting) ?_ hvisit h
    intro u fd es r hu hr
    obtain ⟨hv, hpermit, -, -, -⟩ := (visit_cases hr).spec hu
    exact ⟨hpermit, fun _ => hv⟩
  · have hemits := loop_emits (p.answers.calls s.lfd) (fun _ => false)
      (I := fun u es => Visiting u es ∧ u.lfd = s.lfd) ?_ ⟨hvisit, rfl⟩ h
    · rwa [upTo_eq_self (fun _ _ => rfl)] at hemits
    · intro u fd es r hu hr
      obtain ⟨hv, -, hfd, hem, hgo⟩ := (visit_cases hr).spec hu.1
      rw [hu.2] at hem
      exact ⟨hem, fun _ => ⟨rfl, hv, hfd.trans hu.2⟩, fun hoff => absurd hgo (by simp [hoff])⟩

/-- Over every run, the calls are those of a server that accepts on fresh
descriptors and calls nothing but open ones, and after each pass the kernel
watches the listening socket and exactly the clients that are open. -/
theorem interest_watched {lfd : ℕ} {ps : List Pass} {calls : List (List Call)} {t : Server}
    (h : trace step (start lfd) ps = some (t, calls)) :
    run permit ∅ calls.flatten = some t.opened ∧ t.interest = insert t.lfd t.opened ∧
      t.lfd ∉ t.opened := by
  have hrun := trace_simulates permit Server.opened (I := Watching)
    (fun s p t es hs hp => ⟨(step_spec hs hp).1, (step_spec hs hp).2.1⟩) (watching_start lfd) h
  exact ⟨hrun.2, hrun.1.watched, hrun.1.apart⟩

theorem watching_of_reaches {lfd : ℕ} (h : Reaches (next step) (start lfd) s) :
    Watching s ∧ s.lfd = lfd := by
  refine h.preserves (P := fun s => Watching s ∧ s.lfd = lfd) ?_ ⟨watching_start lfd, rfl⟩
  intro u p v hu hv
  obtain ⟨calls, hstep⟩ := next_eq_some.mp hv
  have hspec := step_spec hu.1 hstep
  exact ⟨hspec.1, hspec.2.2.1.trans hu.2⟩

/-- A client connects, and writes while another one connects. -/
def arriving : List Pass := [⟨[3], writing 4⟩, ⟨[4, 3], writing 5⟩]

/-- One of two clients leaves while the other one writes. -/
def leaving : Pass :=
  ⟨[4, 5], ⟨none, fun fd => if fd = 4 then .closed else .data oneByte, fun _ => zeroed⟩⟩

theorem interest_watched_leaving : ∃ t calls,
    trace step (start 3) (arriving ++ [leaving]) = some (t, calls) ∧
    run permit ∅ calls.flatten = some t.opened ∧ t.interest = insert t.lfd t.opened ∧
      t.lfd ∉ t.opened := by
  obtain ⟨⟨t, calls⟩, h⟩ := Option.isSome_iff_exists.mp
    (by decide +kernel : (trace step (start 3) (arriving ++ [leaving])).isSome = true)
  exact ⟨t, calls, h, interest_watched h⟩

/-- In every reachable state, the events of a pass are of distinct descriptors, and it
serves each of them once, in their order, whichever clients close or fail in it. -/
theorem pass_serves_all {lfd : ℕ} {events : List ℕ} {calls : List Call}
    (hs : Reaches (next step) (start lfd) s) (h : step s ⟨events, k⟩ = some (t, calls)) :
    events.Nodup ∧ calls = events.flatMap (k.calls lfd) := by
  obtain ⟨hw, rfl⟩ := watching_of_reaches hs
  exact ⟨(reports_of_step h).1, (step_spec hw h).2.2.2⟩

theorem pass_serves_all_leaving : ∃ s t calls, Reaches (next step) (start 3) s ∧
    step s leaving = some (t, calls) ∧
    leaving.events.Nodup ∧ calls = [.left 4, .answered 5 oneByte (oneByte.over zeroed)] := by
  obtain ⟨s, t, calls, hs, h⟩ := exists_reached step (start 3) arriving leaving (by decide +kernel)
  obtain ⟨honce, hcalls⟩ := pass_serves_all hs h
  exact ⟨s, t, calls, hs, h, honce, hcalls.trans (by decide +kernel)⟩

end Netmux.EpollServer
