import Netmux.BreakableLoop
import Netmux.ClientCalls

/-!
# The server over `select`

The loop of `select_server.c`. `readfds` is what the server wants to read from;
each pass copies it, asks the kernel which of it is readable and visits the
descriptors up to `maxFd` in ascending order. The first client found closed or
failed ends the pass: the rest of the reported descriptors is left to the next.

`opened` is the kernel's side, the clients that are open. An `fd_set` has room
for the descriptors below `FD_SETSIZE`; `FD_SET` on another one, or on the
result of an `accept` that failed, is undefined, and so is the step.
-/
namespace Netmux.SelectServer
open ActionRuns BreakableLoop ClientCalls

/-- `FD_SETSIZE`. -/
def setSize : ℕ := 1024

structure Server where
  fd : ℕ
  readfds : Finset ℕ
  maxFd : ℕ
  running : Bool
  opened : Finset ℕ

/-- One pass: what `select` leaves in `tmp`, nothing if it fails. -/
structure Pass where
  tmp : Option (Finset ℕ)
  answers : Answers

def start (fd : ℕ) : Server where
  fd := fd
  readfds := {fd}
  maxFd := fd
  running := true
  opened := ∅

/-- The body of the loop over the descriptors. -/
def visit (tmp : Finset ℕ) (k : Answers) (s : Server) (i : ℕ) : Option (Turn Server Call) :=
  if s.maxFd < i then some ⟨s, [], false⟩
  else if i ∈ tmp then
    if i = s.fd then
      match k.accept with
      | none => none
      | some cfd =>
          -- the kernel hands out no descriptor that is open
          if cfd ∈ s.opened ∨ cfd = s.fd ∨ setSize ≤ cfd then none
          else some ⟨{ s with
            readfds := insert cfd s.readfds
            maxFd := if s.maxFd > cfd then s.maxFd else cfd
            opened := insert cfd s.opened }, [.accepted cfd], true⟩
    else
      match k.recv i with
      | .data chunk => some ⟨s, [.answered i chunk (chunk.over (k.stack i))], true⟩
      | .closed => some ⟨{ s with
          readfds := s.readfds.erase i
          opened := s.opened.erase i }, [.left i], false⟩
      | .failed => some ⟨s, [.failed i], false⟩
  else some ⟨s, [], true⟩

def step (s : Server) (p : Pass) : Option (Server × List Call) :=
  if s.running then
    match p.tmp with
    | none => some ({ s with running := false }, [])
    | some tmp =>
        if tmp ⊆ s.readfds then loop (visit tmp p.answers) s (List.range setSize) else none
  else none

/-- The server wants to read from its listening socket and from the open clients,
and `select` looks at all of them. -/
structure Watching (s : Server) : Prop where
  watched : s.readfds = insert s.fd s.opened
  apart : s.fd ∉ s.opened
  bounded : ∀ i ∈ s.readfds, i ≤ s.maxFd
  small : s.maxFd < setSize

theorem watching_start {fd : ℕ} (hfd : fd < setSize) : Watching (start fd) where
  watched := rfl
  apart := by simp [start]
  bounded := by simp [start]
  small := hfd

/-- What one visit can do. -/
inductive VisitMove (tmp : Finset ℕ) (k : Answers) (s : Server) (i : ℕ) : Turn Server Call → Prop
  | past : s.maxFd < i → VisitMove tmp k s i ⟨s, [], false⟩
  | quiet : i ≤ s.maxFd → i ∉ tmp → VisitMove tmp k s i ⟨s, [], true⟩
  | accept (cfd : ℕ) : i = s.fd → i ∈ tmp → k.accept = some cfd → cfd ∉ s.opened → cfd ≠ s.fd →
      cfd < setSize → VisitMove tmp k s i ⟨{ s with
        readfds := insert cfd s.readfds
        maxFd := max s.maxFd cfd
        opened := insert cfd s.opened }, [.accepted cfd], true⟩
  | recv : i ≠ s.fd → i ∈ tmp → VisitMove tmp k s i ⟨{ s with
      readfds := k.after s.readfds i
      opened := k.after s.opened i }, [k.called i], k.isData i⟩

theorem visit_cases {tmp : Finset ℕ} {k : Answers} {s : Server} {i : ℕ} {r : Turn Server Call}
    (h : visit tmp k s i = some r) : VisitMove tmp k s i r := by
  simp only [visit] at h
  split_ifs at h with hpast htmp hlisten
  · cases h
    exact .past hpast
  · cases haccept : k.accept with
    | none => simp [haccept] at h
    | some cfd =>
        have hmax : (if s.maxFd > cfd then s.maxFd else cfd) = max s.maxFd cfd := by
          split_ifs <;> omega
        simp only [haccept, hmax] at h
        split_ifs at h with hopen
        push Not at hopen
        cases h
        exact .accept cfd hlisten htmp haccept hopen.1 hopen.2.1 hopen.2.2
  · have hmove := VisitMove.recv (k := k) hlisten htmp
    cases hrecv : k.recv i with
    | data chunk =>
        simp only [hrecv] at h
        cases h
        simpa only [Answers.called, Answers.after, Answers.isData, hrecv] using hmove
    | closed =>
        simp only [hrecv] at h
        cases h
        simpa only [Answers.called, Answers.after, Answers.isData, hrecv] using hmove
    | failed =>
        simp only [hrecv] at h
        cases h
        simpa only [Answers.called, Answers.after, Answers.isData, hrecv] using hmove
  · cases h
    exact .quiet (by omega) htmp

variable {tmp : Finset ℕ} {k : Answers} {s : Server}

/-- What a visit keeps, given the descriptors still to be visited. -/
structure Visiting (tmp : Finset ℕ) (s : Server) (is : List ℕ) : Prop where
  watching : Watching s
  ascending : is.Pairwise (· < ·)
  reported : ∀ i ∈ is, i ∈ tmp → i ∈ s.readfds

theorem Watching.insert (h : Watching s) {cfd : ℕ} (hfresh : cfd ≠ s.fd)
    (hsmall : cfd < setSize) : Watching { s with
      readfds := insert cfd s.readfds
      maxFd := max s.maxFd cfd
      opened := insert cfd s.opened } where
  watched := by simp only [h.watched, Finset.insert_comm]
  apart := by simp [h.apart, hfresh.symm]
  bounded := by
    intro i hi
    rcases Finset.mem_insert.mp hi with rfl | hi
    · exact Nat.le_max_right _ _
    · exact (h.bounded i hi).trans (Nat.le_max_left _ _)
  small := max_lt h.small hsmall

theorem Watching.recv (h : Watching s) {i : ℕ} (hi : i ≠ s.fd) : Watching { s with
      readfds := k.after s.readfds i
      opened := k.after s.opened i } where
  watched := by simp only [h.watched, k.after_insert hi]
  apart := fun hc => h.apart (k.after_subset hc)
  bounded := fun j hj => h.bounded j (k.after_subset hj)
  small := h.small

/-- One visit: the server keeps watching its clients, the call is one that may
be made, and what is still to be visited is still wanted. -/
theorem VisitMove.spec {i : ℕ} {is : List ℕ} {r : Turn Server Call} (h : VisitMove tmp k s i r)
    (hs : Visiting tmp s (i :: is)) : Watching r.state ∧
      run permit s.opened r.emitted = some r.state.opened ∧ r.state.fd = s.fd ∧
      (r.goesOn → Visiting tmp r.state is) := by
  have hrest : Visiting tmp s is :=
    ⟨hs.watching, hs.ascending.of_cons, fun j hj => hs.reported j (List.mem_cons_of_mem i hj)⟩
  cases h with
  | past hi => exact ⟨hs.watching, rfl, rfl, by simp⟩
  | quiet hi hout => exact ⟨hs.watching, rfl, rfl, fun _ => hrest⟩
  | accept cfd hi hin hacc hfresh hne hsmall =>
      have hw := hs.watching.insert hne hsmall
      refine ⟨hw, run_permit_accepted hfresh, rfl, fun _ => ⟨hw, hrest.ascending, ?_⟩⟩
      exact fun j hj hjin => Finset.mem_insert_of_mem (hrest.reported j hj hjin)
  | recv hi hin =>
      have hwanted := hs.reported i List.mem_cons_self hin
      rw [hs.watching.watched] at hwanted
      have hopen := Finset.mem_of_mem_insert_of_ne hwanted hi
      have hw := hs.watching.recv (k := k) hi
      refine ⟨hw, run_permit_called hopen, rfl, fun hgo => ⟨hw, hrest.ascending, ?_⟩⟩
      rw [k.after_of_isData hgo]
      exact hrest.reported

theorem visiting_range (hs : Watching s) (htmp : tmp ⊆ s.readfds) :
    Visiting tmp s (List.range setSize) :=
  ⟨hs, List.pairwise_lt_range, fun _ _ hi => htmp hi⟩

/-- The loop of one pass. -/
theorem loop_spec {t : Server} {calls : List Call} (hs : Watching s) (htmp : tmp ⊆ s.readfds)
    (h : loop (visit tmp k) s (List.range setSize) = some (t, calls)) :
    Watching t ∧ run permit s.opened calls = some t.opened ∧ t.fd = s.fd := by
  have hvisit := visiting_range hs htmp
  have hkeep : Watching t ∧ t.fd = s.fd := by
    refine loop_establishes (I := fun u is => Visiting tmp u is ∧ u.fd = s.fd)
      (J := fun u => Watching u ∧ u.fd = s.fd) ?_ ⟨hvisit, rfl⟩ ⟨hs, rfl⟩ h
    intro u i is r hu hr
    obtain ⟨hw, -, hfd, hgo⟩ := (visit_cases hr).spec hu.1
    exact ⟨⟨hw, hfd.trans hu.2⟩, fun hon => ⟨hgo hon, hfd.trans hu.2⟩⟩
  refine ⟨hkeep.1, ?_, hkeep.2⟩
  refine loop_simulates permit Server.opened (I := Visiting tmp) ?_ hvisit h
  intro u i is r hu hr
  obtain ⟨-, hpermit, -, hgo⟩ := (visit_cases hr).spec hu
  exact ⟨hpermit, hgo⟩

theorem step_spec {p : Pass} {t : Server} {calls : List Call} (hs : Watching s)
    (h : step s p = some (t, calls)) :
    Watching t ∧ run permit s.opened calls = some t.opened ∧ t.fd = s.fd := by
  unfold step at h
  split_ifs at h
  split at h
  · cases h
    exact ⟨⟨hs.watched, hs.apart, hs.bounded, hs.small⟩, rfl, rfl⟩
  · split_ifs at h with htmp
    exact loop_spec hs htmp h

/-- Over every run, the calls are those of a server that accepts on fresh
descriptors and calls nothing but open ones, and after each pass `readfds` holds
the listening socket and exactly the clients that are open, none beyond `maxFd`. -/
theorem readfds_watched {fd : ℕ} {ps : List Pass} {calls : List (List Call)} {t : Server}
    (hfd : fd < setSize) (h : trace step (start fd) ps = some (t, calls)) :
    run permit ∅ calls.flatten = some t.opened ∧ t.readfds = insert t.fd t.opened ∧
      t.fd ∉ t.opened ∧ ∀ i ∈ t.readfds, i ≤ t.maxFd := by
  have hrun := trace_simulates permit Server.opened (I := Watching)
    (fun s p t es hs hp => ⟨(step_spec hs hp).1, (step_spec hs hp).2.1⟩) (watching_start hfd) h
  exact ⟨hrun.2, hrun.1.watched, hrun.1.apart, hrun.1.bounded⟩

/-- A client connects, and writes while another one connects. -/
def arriving : List Pass := [
  ⟨some {3}, writing 4⟩, ⟨some {3, 4}, writing 5⟩]

/-- One of two clients leaves while the other one writes. -/
def leaving : Pass :=
  ⟨some {4, 5}, ⟨none, fun fd => if fd = 4 then .closed else .data oneByte, fun _ => zeroed⟩⟩

theorem readfds_watched_leaving : ∃ t calls,
    trace step (start 3) (arriving ++ [leaving]) = some (t, calls) ∧
    run permit ∅ calls.flatten = some t.opened ∧ t.readfds = insert t.fd t.opened ∧
      t.fd ∉ t.opened ∧ ∀ i ∈ t.readfds, i ≤ t.maxFd := by
  obtain ⟨⟨t, calls⟩, h⟩ := Option.isSome_iff_exists.mp
    (by decide +kernel : (trace step (start 3) (arriving ++ [leaving])).isSome = true)
  exact ⟨t, calls, h, readfds_watched (by decide) h⟩

/-- What `select` reports, in the order of the loop. -/
def reported (tmp : Finset ℕ) : List ℕ := (List.range setSize).filter (· ∈ tmp)

/-- The pass ends at this descriptor. -/
def ends (k : Answers) (fd i : ℕ) : Bool := i != fd && !k.isData i

theorem VisitMove.emits {i : ℕ} {is : List ℕ} {r : Turn Server Call} (h : VisitMove tmp k s i r)
    (hs : Visiting tmp s (i :: is)) :
    r.emitted = (if decide (i ∈ tmp) then k.calls s.fd i else []) ∧
      (r.goesOn → (decide (i ∈ tmp) && ends k s.fd i) = false) ∧
      (r.goesOn = false → (decide (i ∈ tmp) && ends k s.fd i) ∨
        ∀ j ∈ is, (if decide (j ∈ tmp) then k.calls s.fd j else []) = []) := by
  -- no descriptor beyond `maxFd` is reported
  have hbeyond : ∀ j ∈ i :: is, s.maxFd < j → j ∉ tmp := fun j hj hlt hin =>
    absurd (hs.watching.bounded j (hs.reported j hj hin)) (by omega)
  cases h with
  | past hi =>
      refine ⟨by simp [hbeyond i List.mem_cons_self hi], by simp, fun _ => Or.inr ?_⟩
      intro j hj
      have hlt : i < j := List.rel_of_pairwise_cons hs.ascending hj
      simp [hbeyond j (List.mem_cons_of_mem i hj) (by omega)]
  | quiet hi hout => simp [hout]
  | accept cfd hi hin hacc hfresh hne hsmall =>
      subst hi
      simp [hin, ends, Answers.calls, Answers.accepted, hacc]
  | recv hi hin =>
      have hends : ends k s.fd i = !k.isData i := by simp [ends, hi]
      simp only [hends, decide_eq_true hin, Bool.true_and, Bool.not_eq_false']
      exact ⟨by simp [hi, Answers.calls], id, fun hoff => Or.inl (by simp_all)⟩

theorem step_calls {calls : List Call} (hw : Watching s)
    (h : step s ⟨some tmp, k⟩ = some (t, calls)) :
    tmp ⊆ s.readfds ∧ calls = (upTo (ends k s.fd) (reported tmp)).flatMap (k.calls s.fd) := by
  simp only [step] at h
  split_ifs at h with hrunning htmp
  refine ⟨htmp, ?_⟩
  have hemits := loop_emits (fun i => if decide (i ∈ tmp) then k.calls s.fd i else [])
    (fun i => decide (i ∈ tmp) && ends k s.fd i)
    (I := fun u is => Visiting tmp u is ∧ u.fd = s.fd) ?_ ⟨visiting_range hw htmp, rfl⟩ h
  · rw [hemits, upTo_flatMap_filter]
    rfl
  · intro u i is r hu hr
    have hmove := visit_cases hr
    obtain ⟨-, -, hfd, hgo⟩ := hmove.spec hu.1
    obtain ⟨hem, hon, hoff⟩ := hmove.emits hu.1
    rw [hu.2] at hem hon hoff
    exact ⟨hem, fun hgoes => ⟨hon hgoes, hgo hgoes, hfd.trans hu.2⟩, hoff⟩

theorem watching_of_reaches {fd : ℕ} (hfd : fd < setSize) (hs : Reaches (next step) (start fd) s) :
    Watching s ∧ s.fd = fd := by
  refine hs.preserves (P := fun s => Watching s ∧ s.fd = fd) ?_ ⟨watching_start hfd, rfl⟩
  intro u p v hu hv
  obtain ⟨es, hstep⟩ := next_eq_some.mp hv
  have hspec := step_spec hu.1 hstep
  exact ⟨hspec.1, hspec.2.2.trans hu.2⟩

/-- A client accepted in a pass was not reported in it: its descriptor is new. -/
theorem accepted_not_mem {calls : List Call} {cfd : ℕ} (hw : Watching s)
    (h : step s ⟨some tmp, k⟩ = some (t, calls)) (hcfd : .accepted cfd ∈ calls) : cfd ∉ tmp := by
  simp only [step] at h
  split_ifs at h with hrunning htmp
  -- no client leaves before the last visit of a pass, so until then `readfds` only grows
  have hfresh := loop_emits_only (G := fun c => ∀ dfd, c = .accepted dfd → dfd ∉ s.readfds)
    (I := fun u is => Visiting tmp u is ∧ s.readfds ⊆ u.readfds) ?_
    ⟨visiting_range hw htmp, subset_rfl⟩ h
  · exact fun hin => hfresh _ hcfd cfd rfl (htmp hin)
  · rintro u i is r ⟨hu, hsub⟩ hr
    have hmove := visit_cases hr
    obtain ⟨-, -, -, hgo⟩ := hmove.spec hu
    cases hmove with
    | past hi => exact ⟨by simp, fun hon => ⟨hgo hon, hsub⟩⟩
    | quiet hi hout => exact ⟨by simp, fun hon => ⟨hgo hon, hsub⟩⟩
    | accept dfd hi hin hacc hnew hne hsmall =>
        have hout : dfd ∉ u.readfds := by simp [hu.watching.watched, hnew, hne]
        refine ⟨?_, fun hon => ⟨hgo hon, hsub.trans (Finset.subset_insert dfd u.readfds)⟩⟩
        intro c hc efd heq
        cases (List.mem_singleton.mp hc).symm.trans heq
        exact fun hin => hout (hsub hin)
    | recv hi hin =>
        refine ⟨?_, fun hon => ⟨hgo hon, ?_⟩⟩
        · intro c hc efd heq
          have hcalled : k.called i = .accepted efd := (List.mem_singleton.mp hc).symm.trans heq
          simp only [Answers.called] at hcalled
          split at hcalled <;> cases hcalled
        · simpa only [k.after_of_isData hon] using hsub

/-- In every reachable state, a pass serves exactly what `select` reported, in
ascending order, up to and including the first client that has closed or failed. A
client accepted in it was not reported, and no other call of the pass is about it. -/
theorem pass_serves_in_order {fd : ℕ} {calls : List Call} (hfd : fd < setSize)
    (hs : Reaches (next step) (start fd) s) (h : step s ⟨some tmp, k⟩ = some (t, calls)) :
    calls = (upTo (ends k fd) (reported tmp)).flatMap (k.calls fd) ∧
      ∀ cfd, .accepted cfd ∈ calls →
        cfd ∉ tmp ∧ ∀ c ∈ calls, c.client = cfd → c = .accepted cfd := by
  obtain ⟨hw, rfl⟩ := watching_of_reaches hfd hs
  obtain ⟨-, hcalls⟩ := step_calls hw h
  refine ⟨hcalls, fun cfd hcfd => ?_⟩
  have hout := accepted_not_mem hw h hcfd
  refine ⟨hout, fun c hc hclient => ?_⟩
  rw [hcalls] at hc
  obtain ⟨i, hi, hc⟩ := List.mem_flatMap.mp hc
  have hreported := List.mem_filter.mp ((upTo_isPrefix _ _).subset hi)
  rcases Answers.mem_calls hc with hacc | hcalled
  · rw [hacc, hclient]
  · have hin : i ∈ tmp := of_decide_eq_true hreported.2
    exact absurd (hcalled.symm.trans hclient ▸ hin) hout

theorem pass_serves_in_order_arriving : ∃ s t calls, Reaches (next step) (start 3) s ∧
    step s ⟨some {3, 4}, writing 5⟩ = some (t, calls) ∧
    calls = [.accepted 5, .answered 4 oneByte (oneByte.over zeroed)] ∧
    ∀ cfd, .accepted cfd ∈ calls →
      cfd ∉ ({3, 4} : Finset ℕ) ∧ ∀ c ∈ calls, c.client = cfd → c = .accepted cfd := by
  obtain ⟨s, t, calls, hs, h⟩ := exists_reached step (start 3) (arriving.take 1)
    ⟨some {3, 4}, writing 5⟩ (by decide +kernel)
  obtain ⟨hcalls, hother⟩ := pass_serves_in_order (by decide) hs h
  exact ⟨s, t, calls, hs, h, hcalls.trans (by decide +kernel), hother⟩

end Netmux.SelectServer
