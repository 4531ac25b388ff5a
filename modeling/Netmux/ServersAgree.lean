import Netmux.EpollServer
import Netmux.SelectServer
import Mathlib.Data.List.Perm.Lattice

/-!
# One service over two interfaces

`select_server.c` and `epoll_server.c` told the same by the kernel. The order in
which the descriptors are visited differs, and the first client found closed or
failed ends a pass over `select`. Where no pass is cut short, both servers make
the same calls and keep the same clients.
-/
namespace Netmux.ServersAgree
open ActionRuns BreakableLoop ClientCalls

/-- The two passes report the same descriptors, the calls return the same, and no
reported client but the last one visited closes or fails. -/
def Matches (fd : ℕ) (p : SelectServer.Pass) (q : EpollServer.Pass) : Prop :=
  ∃ tmp, p.tmp = some tmp ∧ q.events.toFinset = tmp ∧ q.answers = p.answers ∧
    upTo (SelectServer.ends p.answers fd) (SelectServer.reported tmp) = SelectServer.reported tmp

/-- Calls in another order leave the same descriptors open. -/
theorem opened_eq_of_perm {opened a b : Finset ℕ} {cs ds : List Call} (hperm : cs.Perm ds)
    (ha : run permit opened cs = some a) (hb : run permit opened ds = some b) : a = b := by
  ext fd
  have hcs := count_accepted fd ha
  have hds := count_accepted fd hb
  rw [hperm.count_eq, hperm.count_eq] at hcs
  have hsame : (if fd ∈ a then 1 else 0) = if fd ∈ b then 1 else 0 := by omega
  by_cases hina : fd ∈ a <;> by_cases hinb : fd ∈ b <;> simp [hina, hinb] at hsame ⊢

/-- Both servers watch the same clients. -/
def Agree (fd : ℕ) (s : SelectServer.Server) (e : EpollServer.Server) : Prop :=
  SelectServer.Watching s ∧ EpollServer.Watching e ∧ s.fd = fd ∧ e.lfd = fd ∧ s.opened = e.opened

theorem agree_start {fd : ℕ} (hfd : fd < SelectServer.setSize) :
    Agree fd (SelectServer.start fd) (EpollServer.start fd) :=
  ⟨SelectServer.watching_start hfd, EpollServer.watching_start fd, rfl, rfl, rfl⟩

/-- The events are what the loop over `tmp` visits. -/
theorem events_perm {s : SelectServer.Server} {tmp : Finset ℕ} {events : List ℕ}
    (hw : SelectServer.Watching s) (htmp : tmp ⊆ s.readfds) (honce : events.Nodup)
    (hevents : events.toFinset = tmp) : (SelectServer.reported tmp).Perm events := by
  refine (List.perm_ext_iff_of_nodup (List.nodup_range.filter _) honce).mpr fun i => ?_
  rw [List.mem_filter, List.mem_range, ← List.mem_toFinset (l := events), hevents,
    decide_eq_true_iff]
  refine and_iff_right_of_imp fun hi => ?_
  exact (hw.bounded i (htmp hi)).trans_lt hw.small

theorem Agree.step {fd : ℕ} {s t : SelectServer.Server} {e u : EpollServer.Server}
    {p : SelectServer.Pass} {q : EpollServer.Pass} {cs ds : List Call} (h : Agree fd s e)
    (hm : Matches fd p q) (hs : SelectServer.step s p = some (t, cs))
    (he : EpollServer.step e q = some (u, ds)) : Agree fd t u ∧ cs.Perm ds := by
  obtain ⟨hw, hv, rfl, hlfd, hopened⟩ := h
  obtain ⟨tmp, htmp, hevents, hanswers, hwhole⟩ := hm
  obtain ⟨hw', hpermit, hfd⟩ := SelectServer.step_spec hw hs
  obtain ⟨hv', hpermit', hlfd', hds⟩ := EpollServer.step_spec hv he
  have honce := (EpollServer.reports_of_step he).1
  have hp : p = ⟨some tmp, p.answers⟩ := by rw [← htmp]
  rw [hp] at hs
  obtain ⟨hsub, hcs⟩ := SelectServer.step_calls hw hs
  rw [hwhole] at hcs
  have hperm : cs.Perm ds := by
    rw [hcs, hds, hanswers, hlfd]
    exact (events_perm hw hsub honce hevents).flatMap_right _
  rw [← hopened] at hpermit'
  exact ⟨⟨hw', hv', hfd, hlfd'.trans hlfd, opened_eq_of_perm hperm hpermit hpermit'⟩, hperm⟩

/-- In every pair of runs in which the kernel tells both servers the same and no
pass over `select` is cut short, the servers make the same calls in each pass, up
to their order, and have the same clients. -/
theorem same_calls {fd : ℕ} {ps : List SelectServer.Pass} {qs : List EpollServer.Pass}
    {s : SelectServer.Server} {e : EpollServer.Server} {cs ds : List (List Call)}
    (hfd : fd < SelectServer.setSize) (hm : List.Forall₂ (Matches fd) ps qs)
    (hs : trace SelectServer.step (SelectServer.start fd) ps = some (s, cs))
    (he : trace EpollServer.step (EpollServer.start fd) qs = some (e, ds)) :
    List.Forall₂ List.Perm cs ds ∧ s.opened = e.opened := by
  have hstep : ∀ s e p q t u cs ds, Agree fd s e → Matches fd p q →
      SelectServer.step s p = some (t, cs) → EpollServer.step e q = some (u, ds) →
      Agree fd t u ∧ cs.Perm ds := fun s e p q t u cs ds => Agree.step
  obtain ⟨hend, hperm⟩ := trace_lockstep hstep (agree_start hfd) hm hs he
  exact ⟨hperm, hend.2.2.2.2⟩

/-- A client connects, then writes while another one connects: in the other order
for `epoll`. -/
theorem same_calls_arriving : ∃ s e cs ds,
    trace SelectServer.step (SelectServer.start 3) SelectServer.arriving = some (s, cs) ∧
    trace EpollServer.step (EpollServer.start 3) EpollServer.arriving = some (e, ds) ∧
    List.Forall₂ List.Perm cs ds ∧ s.opened = e.opened := by
  obtain ⟨⟨s, cs⟩, hs⟩ := Option.isSome_iff_exists.mp (by decide +kernel :
    (trace SelectServer.step (SelectServer.start 3) SelectServer.arriving).isSome = true)
  obtain ⟨⟨e, ds⟩, he⟩ := Option.isSome_iff_exists.mp (by decide +kernel :
    (trace EpollServer.step (EpollServer.start 3) EpollServer.arriving).isSome = true)
  have hfirst : Matches 3 ⟨some {3}, writing 4⟩ ⟨[3], writing 4⟩ :=
    ⟨{3}, rfl, by decide, rfl, by decide +kernel⟩
  have hsecond : Matches 3 ⟨some {3, 4}, writing 5⟩ ⟨[4, 3], writing 5⟩ :=
    ⟨{3, 4}, rfl, by decide, rfl, by decide +kernel⟩
  exact ⟨s, e, cs, ds, hs, he,
    same_calls (by decide) (.cons hfirst (.cons hsecond .nil)) hs he⟩

end Netmux.ServersAgree
