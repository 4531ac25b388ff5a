import Mathlib.Data.Finset.Card
import Mathlib.Data.List.Nodup
import Netmux.BoundedMemory
import Netmux.PollerRegistration

/-!
# What a poll hands to the loop

Iterations of a loop up to their dispatch, among registrations, removals and
closes of descriptors. `epoll_wait` writes the front of the result array,
`fillActiveChannels` copies from there what was reported, and an array that was
filled is doubled. The channels to be served are those of this call whether it
reported, timed out or failed, because the loop has emptied the list before.

A cell of the array carries the number of the call that wrote it. The array is
filled by distinct descriptors, so that it is doubled only below the number of
registered ones.
-/
namespace Netmux.PollResults
open ActionRuns BoundedMemory ChannelPoller ChannelTeardown

variable {P : Type}

/-- A written cell of `Resultevents_`, and the call of `epoll_wait` that wrote it. -/
structure Cell (P : Type) where
  writer : ℕ
  event : EpollEvent P
  deriving DecidableEq, Repr

/-- A loop's channels, its poller and the list of channels to be served. A cell of
the array that was never written is `none`. -/
structure Polled (P : Type) where
  registry : Registry P
  results : List (Option (Cell P))
  calls : ℕ
  activeChannel : List P

/-- What `epoll_wait` returns: ready descriptors with their masks, none of them
after a timeout, or `-1`. -/
inductive WaitAnswer where
  | ready (reports : List (ℕ × EventMask))
  | failed
  deriving DecidableEq, Repr

inductive Action (P : Type) where
  | registry (a : PollerRegistration.Action P)
  | close (fd : ℕ)
  | iterate (answer : WaitAnswer)

def kInitEventListSize : ℕ := 16

def start (fd : P → ℕ) : Polled P :=
  ⟨fresh fd, List.replicate kInitEventListSize none, 0, []⟩

/-- The events of the reports: each descriptor's pointer with the ready mask. -/
def events (set : InterestSet P) (reports : List (ℕ × EventMask)) : List (EpollEvent P) :=
  reports.filterMap fun r => (set r.1).map fun e => ⟨r.2, e.ptr⟩

/-- The array after `epoll_wait` has written the events of one call. -/
def written (results : List (Option (Cell P))) (writer : ℕ) (events : List (EpollEvent P)) :
    List (Option (Cell P)) :=
  events.map (fun e => some ⟨writer, e⟩) ++ results.drop events.length

/-- `Resultevents_.resize(Resultevents_.size()*2)`. -/
def doubled (results : List (Option (Cell P))) : List (Option (Cell P)) :=
  resize results (results.length * 2 % 2 ^ 64) none

variable [DecidableEq P]

def setRevents (channels : P → Channel P) (e : EpollEvent P) : P → Channel P :=
  Function.update channels e.ptr ((channels e.ptr).setRevents e.events)

/-- `fillActiveChannels` from index `i` on, with `numEvents` cells still to be
read; `none` if one is outside the array or points to no channel. -/
def fillActiveChannels (results : List (Option (Cell P))) :
    ℕ → ℕ → (P → Channel P) → List P → Option ((P → Channel P) × List P)
  | 0, _, channels, activeChannels => some (channels, activeChannels)
  | numEvents + 1, i, channels, activeChannels => do
      let cell ← results[i]?.join
      fillActiveChannels results numEvents (i + 1) (setRevents channels cell.event)
        (activeChannels ++ [cell.event.ptr])

def poll (s : Polled P) : WaitAnswer → Option (Polled P)
  | .failed => some { s with calls := s.calls + 1 }
  | .ready reports =>
      let numEvents := reports.length
      let results := written s.results s.calls (events s.registry.poller.interest reports)
      if 0 < numEvents then do
        let (channels, activeChannels) ←
          fillActiveChannels results numEvents 0 s.registry.channels s.activeChannel
        return {
          registry := ⟨channels, s.registry.poller⟩
          results := if numEvents = results.length then doubled results else results
          calls := s.calls + 1
          activeChannel := activeChannels }
      else some { s with results := results, calls := s.calls + 1 }

/-- One pass of `loop()` as far as the dispatch. -/
def iterate (s : Polled P) (answer : WaitAnswer) : Option (Polled P) :=
  poll { s with activeChannel := [] } answer

/-- Closing a descriptor takes it out of the interest set. -/
def close (s : Polled P) (fd : ℕ) : Polled P :=
  { s with registry := ⟨s.registry.channels,
    { s.registry.poller with interest := Function.update s.registry.poller.interest fd none }⟩ }

def step (s : Polled P) : Action P → Option (Polled P)
  | .registry a => some { s with registry := PollerRegistration.act s.registry a }
  | .close fd => some (close s fd)
  | .iterate answer => iterate s answer

/-- `static_cast<int>(Resultevents_.size())`, the capacity passed to `epoll_wait`. -/
def maxevents (s : Polled P) : ℤ := toInt s.results.length

/-- At most `bound` descriptors are registered. -/
def Few (bound : ℕ) (set : InterestSet P) : Prop :=
  ∀ fds : Finset ℕ, (∀ fd ∈ fds, (set fd).isSome = true) → fds.card ≤ bound

/-- `epoll_wait` reports distinct registered descriptors, no more of them than its
capacity; at most `bound` are registered. -/
structure Reports (bound : ℕ) (s : Polled P) (reports : List (ℕ × EventMask)) : Prop where
  few : Few bound s.registry.poller.interest
  registered : ∀ r ∈ reports, (s.registry.poller.interest r.1).isSome = true
  distinct : (reports.map Prod.fst).Nodup
  count : reports.length ≤ maxevents s

def Legal (bound : ℕ) (s : Polled P) : Action P → Prop
  | .iterate (.ready reports) => Reports bound s reports
  | .iterate .failed | .registry _ | .close _ => True

/-- What has been reported by the answer to a call. -/
def reported (set : InterestSet P) : WaitAnswer → List (EpollEvent P)
  | .ready reports => events set reports
  | .failed => []

/-- The channels about to be served are those of the last call's events, each once
and with its mask, and what was read of the array this call had written. -/
structure Dispatches (s : Polled P) (reported : List (EpollEvent P)) (writer : ℕ) : Prop where
  active : s.activeChannel = reported.map EpollEvent.ptr
  once : s.activeChannel.Nodup
  masks : ∀ e ∈ reported, (s.registry.channels e.ptr).revents = e.events
  read : ∀ (i : ℕ) (e : EpollEvent P), reported[i]? = some e →
    s.results[i]? = some (some ⟨writer, e⟩)

/-- Every iteration dispatches what its `epoll_wait` reported: all of it and
nothing else. -/
def Exact (s : Polled P) : Action P → Prop
  | .iterate answer => ∀ t, step s (.iterate answer) = some t →
      Dispatches t (reported s.registry.poller.interest answer) s.calls ∧
        ∀ reports, answer = .ready reports →
          (reported s.registry.poller.interest answer).length = reports.length
  | .registry _ | .close _ => True

/-- The size of the array: sixteen times a power of two, bounded, and an `int`. -/
structure Sized (bound : ℕ) (s : Polled P) : Prop where
  doubling : ∃ j, s.results.length = 16 * 2 ^ j
  bounded : s.results.length ≤ max 16 (2 * bound)
  exact : bound < 2 ^ 30 → maxevents s = s.results.length ∧ 0 < maxevents s

omit [DecidableEq P] in
theorem sized_of_doubling {bound : ℕ} {s : Polled P} {j : ℕ} (hj : s.results.length = 16 * 2 ^ j)
    (hb : s.results.length ≤ max 16 (2 * bound)) : Sized bound s := by
  have hpos := Nat.two_pow_pos j
  refine ⟨⟨j, hj⟩, hb, ?_⟩
  intro hbound
  unfold maxevents
  rw [toInt_eq (by omega)]
  omega

omit [DecidableEq P] in
theorem Sized.of_results {bound : ℕ} {s t : Polled P} (h : Sized bound s)
    (ht : t.results = s.results) : Sized bound t := by
  obtain ⟨j, hj⟩ := h.doubling
  exact sized_of_doubling (ht ▸ hj) (ht ▸ h.bounded)

section Filling

omit [DecidableEq P] in
/-- The reported events point to the channels of the reported descriptors. -/
theorem events_descriptors {set : InterestSet P} {channels : P → Channel P}
    (h : ∀ fd e, set fd = some e → (channels e.ptr).fd = fd) {reports : List (ℕ × EventMask)}
    (hr : ∀ r ∈ reports, (set r.1).isSome = true) :
    (events set reports).map (fun e => (channels e.ptr).fd) = reports.map Prod.fst := by
  induction reports with
  | nil => rfl
  | cons r reports ih =>
      obtain ⟨e, he⟩ := Option.isSome_iff_exists.mp (hr r List.mem_cons_self)
      have hrest := ih fun q hq => hr q (List.mem_cons_of_mem r hq)
      have hcons : events set (r :: reports) = ⟨r.2, e.ptr⟩ :: events set reports := by
        unfold events
        rw [List.filterMap_cons_some]
        rw [he]
        rfl
      rw [hcons, List.map_cons, List.map_cons, hrest, h r.1 e he]

theorem foldl_setRevents_of_notMem (events : List (EpollEvent P)) (channels : P → Channel P)
    {c : P} (h : c ∉ events.map EpollEvent.ptr) :
    events.foldl setRevents channels c = channels c := by
  induction events generalizing channels with
  | nil => rfl
  | cons e events ih =>
      rw [List.map_cons, List.mem_cons, not_or] at h
      rw [List.foldl_cons, ih _ h.2]
      exact Function.update_of_ne h.1 _ _

/-- Of a channel only `revents` is set. -/
theorem foldl_setRevents_fields (events : List (EpollEvent P)) (channels : P → Channel P) (c : P) :
    (events.foldl setRevents channels c).fd = (channels c).fd ∧
      (events.foldl setRevents channels c).address = (channels c).address := by
  induction events generalizing channels with
  | nil => exact ⟨rfl, rfl⟩
  | cons e events ih =>
      rw [List.foldl_cons, (ih _).1, (ih _).2]
      unfold setRevents
      by_cases hc : c = e.ptr
      · rw [hc, Function.update_self]
        exact ⟨rfl, rfl⟩
      · rw [Function.update_of_ne hc]
        exact ⟨rfl, rfl⟩

theorem foldl_setRevents_revents {events : List (EpollEvent P)} (channels : P → Channel P)
    (hd : (events.map EpollEvent.ptr).Nodup) {e : EpollEvent P} (he : e ∈ events) :
    (events.foldl setRevents channels e.ptr).revents = e.events := by
  induction events generalizing channels with
  | nil => cases he
  | cons d events ih =>
      rw [List.map_cons, List.nodup_cons] at hd
      rw [List.foldl_cons]
      rcases List.mem_cons.mp he with rfl | hrest
      · rw [foldl_setRevents_of_notMem events _ hd.1]
        unfold setRevents
        rw [Function.update_self]
        rfl
      · exact ih _ hd.2 hrest

/-- Reading what stands in the array from `i` on. -/
theorem fillActiveChannels_eq {results rest : List (Option (Cell P))} {writer i : ℕ}
    {events : List (EpollEvent P)}
    (h : results.drop i = events.map (fun e => some ⟨writer, e⟩) ++ rest)
    (channels : P → Channel P) (activeChannels : List P) :
    fillActiveChannels results events.length i channels activeChannels =
      some (events.foldl setRevents channels, activeChannels ++ events.map EpollEvent.ptr) := by
  induction events generalizing i channels activeChannels with
  | nil => simp [fillActiveChannels]
  | cons e events ih =>
      have hcell : results[i]? = some (some ⟨writer, e⟩) := by
        have hhead := congrArg (fun l => l[0]?) h
        simpa using hhead
      have hdrop : results.drop (i + 1) = events.map (fun e => some ⟨writer, e⟩) ++ rest := by
        have htail := congrArg List.tail h
        simpa using htail
      rw [List.length_cons, fillActiveChannels, hcell]
      simp only [Option.join_some, bind, Option.bind]
      rw [ih hdrop]
      simp

end Filling

/-- Channels know their addresses, and entries point to channels of their descriptors. -/
structure Pointed (r : Registry P) : Prop where
  pointer : ∀ c, (r.channels c).address = c
  entries : ∀ fd e, r.poller.interest fd = some e → (r.channels e.ptr).fd = fd

/-- Storing a channel back with its descriptor and address keeps them so. -/
theorem put_pointed {r : Registry P} (h : Pointed r) {c : P} {q : EPollPoller P × Channel P}
    (hfd : q.2.fd = (r.channels c).fd) (haddress : q.2.address = c)
    (hentry : ∀ fd e, q.1.interest fd = some e →
      r.poller.interest fd = some e ∨ (fd = (r.channels c).fd ∧ e.ptr = c)) :
    Pointed (r.put c q) := by
  have hkept : ∀ d, ((r.put c q).channels d).fd = (r.channels d).fd := by
    intro d
    by_cases hd : d = c
    · subst hd
      rw [r.put_self, hfd]
    · rw [r.put_of_ne q hd]
  constructor
  · intro d
    by_cases hd : d = c
    · subst hd
      rw [r.put_self, haddress]
    · rw [r.put_of_ne q hd]
      exact h.pointer d
  · intro fd e he
    rw [hkept]
    rcases hentry fd e he with hold | ⟨rfl, rfl⟩
    · exact h.entries fd e hold
    · rfl

theorem act_pointed {r : Registry P} (h : Pointed r) (a : PollerRegistration.Action P) :
    Pointed (PollerRegistration.act r a) := by
  cases a with
  | channel a =>
      obtain ⟨status, hc, -⟩ := EPollPoller.updateChannel_channel epollCtl r.poller
        ((r.channels a.channel).withEvents (a.mask (r.channels a.channel).events))
      rw [PollerRegistration.act, ChannelTeardown.act_eq]
      apply put_pointed h
      · rw [hc]
        rfl
      · rw [hc]
        exact h.pointer a.channel
      · intro fd e he
        rcases EPollPoller.updateChannel_entry he with hold | ⟨hfd, hptr⟩
        · exact .inl hold
        · exact .inr ⟨hfd, hptr.trans (h.pointer a.channel)⟩
  | removeChannel c =>
      apply put_pointed h
      · rfl
      · exact h.pointer c
      · intro fd e he
        rcases EPollPoller.removeChannel_entry he with hold | ⟨hfd, hptr⟩
        · exact .inl hold
        · exact .inr ⟨hfd, hptr.trans (h.pointer c)⟩

/-- The invariant of a run. -/
structure Sound (bound : ℕ) (s : Polled P) : Prop where
  pointed : Pointed s.registry
  sized : Sized bound s

omit [DecidableEq P] in
theorem start_sound (fd : P → ℕ) (bound : ℕ) : Sound bound (start fd) := by
  have hlength : (start fd).results.length = 16 * 2 ^ 0 := List.length_replicate
  refine ⟨⟨fun _ => rfl, fun _ _ he => absurd he (by simp [start, fresh, EPollPoller.create])⟩, ?_⟩
  exact sized_of_doubling hlength (hlength.trans_le (le_max_left _ _))

section Iterations
variable {bound : ℕ} {s : Polled P} {reports : List (ℕ × EventMask)}

omit [DecidableEq P] in
/-- A call reports no more than there are registered and than fits the array. -/
theorem Reports.bounds (h : Reports bound s reports) :
    reports.length ≤ bound ∧ reports.length ≤ s.results.length ∧
      (s.results.length = reports.length → s.results.length < 2 ^ 31) := by
  obtain ⟨hle, hlt⟩ := toInt_le s.results.length
  have hcount : (reports.length : ℤ) ≤ toInt s.results.length := h.count
  refine ⟨?_, by omega, by omega⟩
  have hfew := h.few (reports.map Prod.fst).toFinset ?_
  · rwa [List.toFinset_card_of_nodup h.distinct, List.length_map] at hfew
  · intro fd hfd
    obtain ⟨r, hr, rfl⟩ := List.mem_map.mp (List.mem_toFinset.mp hfd)
    exact h.registered r hr

omit [DecidableEq P] in
/-- Each report is an event, and no two of them point to one channel. -/
theorem Reports.events_distinct (h : Reports bound s reports) (hp : Pointed s.registry) :
    (events s.registry.poller.interest reports).length = reports.length ∧
      ((events s.registry.poller.interest reports).map EpollEvent.ptr).Nodup := by
  have hfds := events_descriptors hp.entries h.registered
  constructor
  · simpa using congrArg List.length hfds
  · have hnodup := h.distinct
    rw [← hfds] at hnodup
    apply List.Nodup.of_map (fun c => (s.registry.channels c).fd)
    rwa [List.map_map]

omit [DecidableEq P] in
theorem Reports.length_written (h : Reports bound s reports) (hp : Pointed s.registry) :
    (written s.results s.calls (events s.registry.poller.interest reports)).length =
      s.results.length := by
  have hfit := h.bounds.2.1
  rw [← (h.events_distinct hp).1] at hfit
  unfold written
  rw [List.length_append, List.length_map, List.length_drop]
  omega

/-- The array after a call that reported. -/
def resultsAfter (s : Polled P) (reports : List (ℕ × EventMask)) : List (Option (Cell P)) :=
  let results := written s.results s.calls (events s.registry.poller.interest reports)
  if reports.length = s.results.length then doubled results else results

/-- What an iteration comes to. -/
def after (s : Polled P) (reports : List (ℕ × EventMask)) : Polled P where
  registry := ⟨(events s.registry.poller.interest reports).foldl setRevents s.registry.channels,
    s.registry.poller⟩
  results := resultsAfter s reports
  calls := s.calls + 1
  activeChannel := (events s.registry.poller.interest reports).map EpollEvent.ptr

theorem iterate_ready (h : Reports bound s reports) (hs : Sound bound s) :
    iterate s (.ready reports) = some (after s reports) := by
  have hlength := h.length_written hs.pointed
  have hevents := (h.events_distinct hs.pointed).1
  obtain ⟨j, hj⟩ := hs.sized.doubling
  have hpos := Nat.two_pow_pos j
  unfold iterate poll after resultsAfter
  have hdrop : (written s.results s.calls (events s.registry.poller.interest reports)).drop 0 =
      (events s.registry.poller.interest reports).map (fun e => some ⟨s.calls, e⟩) ++
        s.results.drop (events s.registry.poller.interest reports).length := rfl
  have hfill := fillActiveChannels_eq hdrop s.registry.channels []
  rw [hevents, List.nil_append] at hfill
  dsimp only
  rw [hlength, hfill]
  split_ifs with hsome hfull hfull
  · rfl
  · rfl
  · omega
  · have hnone : reports = [] := List.eq_nil_of_length_eq_zero (by omega)
    rw [hnone]
    rfl

/-- The array keeps its size or is doubled, below the number of registered descriptors. -/
theorem after_sized (h : Reports bound s reports) (hs : Sound bound s) :
    Sized bound (after s reports) := by
  obtain ⟨hbound, -, hint⟩ := h.bounds
  obtain ⟨j, hj⟩ := hs.sized.doubling
  have hlength := h.length_written hs.pointed
  by_cases hfull : reports.length = s.results.length
  · have hsize : (after s reports).results.length = s.results.length * 2 := by
      have hlt := hint hfull.symm
      simp only [after, resultsAfter, if_pos hfull, doubled, hlength, length_resize]
      omega
    apply sized_of_doubling (j := j + 1)
    · rw [hsize, hj, Nat.pow_succ, Nat.mul_assoc]
    · rw [hsize]
      omega
  · have hsize : (after s reports).results.length = s.results.length := by
      simp only [after, resultsAfter, if_neg hfull, hlength]
    exact sized_of_doubling (hsize.trans hj) (hsize.trans_le hs.sized.bounded)

omit [DecidableEq P] in
/-- What `fillActiveChannels` has read of the array is still there. -/
theorem resultsAfter_read (h : Reports bound s reports) (hs : Sound bound s) {i : ℕ}
    {e : EpollEvent P} (he : (events s.registry.poller.interest reports)[i]? = some e) :
    (resultsAfter s reports)[i]? = some (some ⟨s.calls, e⟩) := by
  have hwritten : (written s.results s.calls (events s.registry.poller.interest reports))[i]? =
      some (some ⟨s.calls, e⟩) := by
    have hi : i < ((events s.registry.poller.interest reports).map
        fun e => some (Cell.mk s.calls e)).length := by
      rw [List.length_map]
      exact (List.getElem?_eq_some_iff.mp he).choose
    unfold written
    rw [List.getElem?_append_left hi, List.getElem?_map, he]
    rfl
  unfold resultsAfter
  dsimp only
  split_ifs with hfull
  · apply getElem?_resize none hwritten
    have hlt := h.bounds.2.2 hfull.symm
    have hi := (List.getElem?_eq_some_iff.mp he).choose
    rw [(h.events_distinct hs.pointed).1] at hi
    rw [h.length_written hs.pointed]
    omega
  · exact hwritten

theorem after_dispatches (h : Reports bound s reports) (hs : Sound bound s) :
    Dispatches (after s reports) (events s.registry.poller.interest reports) s.calls := by
  obtain ⟨-, hnodup⟩ := h.events_distinct hs.pointed
  constructor
  · rfl
  · exact hnodup
  · intro e he
    exact foldl_setRevents_revents s.registry.channels hnodup he
  · intro i e he
    exact resultsAfter_read h hs he

theorem after_pointed (hp : Pointed s.registry) : Pointed (after s reports).registry := by
  constructor
  · intro c
    exact (foldl_setRevents_fields _ _ c).2.trans (hp.pointer c)
  · intro fd e he
    exact (foldl_setRevents_fields _ _ e.ptr).1.trans (hp.entries fd e he)

end Iterations

omit [DecidableEq P] in
theorem close_pointed {s : Polled P} (h : Pointed s.registry) (fd : ℕ) :
    Pointed (close s fd).registry := by
  refine ⟨h.pointer, fun n e he => h.entries n e ?_⟩
  by_cases hn : n = fd
  · subst hn
    cases he.symm.trans (Function.update_self ..)
  · exact (Function.update_of_ne hn _ _).symm.trans he

/-- A legal action can be taken, keeps the invariant and dispatches what it should. -/
theorem step_sound {bound : ℕ} (s : Polled P) (a : Action P) (hs : Sound bound s)
    (ha : Legal bound s a) :
    (∃ t, step s a = some t ∧ Sound bound t) ∧ Exact s a := by
  cases a with
  | registry a =>
      exact ⟨⟨_, rfl, act_pointed hs.pointed a, hs.sized.of_results rfl⟩, trivial⟩
  | close fd =>
      exact ⟨⟨_, rfl, close_pointed hs.pointed fd, hs.sized.of_results rfl⟩, trivial⟩
  | iterate answer =>
      cases answer with
      | failed =>
          refine ⟨⟨_, rfl, hs.pointed, hs.sized.of_results rfl⟩, ?_⟩
          rintro t ht
          cases ht
          refine ⟨⟨rfl, List.nodup_nil, ?_, ?_⟩, ?_⟩
          · intro e he
            cases he
          · intro i e he
            cases he
          · intro reports hr
            cases hr
      | ready reports =>
          have hstep := iterate_ready ha hs
          refine ⟨⟨_, hstep, after_pointed hs.pointed, after_sized ha hs⟩, ?_⟩
          rintro t ht
          obtain rfl := Option.some.inj (hstep.symm.trans ht)
          refine ⟨after_dispatches ha hs, ?_⟩
          rintro reports' hr
          cases hr
          exact (ha.events_distinct hs.pointed).1

/-- For every family of channels and every run in which `epoll_wait` answers as it
may, the run goes through, every iteration dispatches exactly what was reported to
it, and the array stays sized by the largest number of registered descriptors. -/
theorem poll_results_exact {fd : P → ℕ} {bound : ℕ} {actions : List (Action P)}
    (h : Meets step (Legal bound) (start fd) actions) :
    (∃ s, run step (start fd) actions = some s) ∧
      Meets step Exact (start fd) actions ∧
      Throughout step (Sized bound) (start fd) actions := by
  have hstart := start_sound fd bound
  have hkeep : ∀ (s : Polled P) a t, Sound bound s → Legal bound s a → step s a = some t →
      Sound bound t := by
    intro s a t hs ha ht
    obtain ⟨u, hu, hsound⟩ := (step_sound s a hs ha).1
    exact Option.some.inj (hu.symm.trans ht) ▸ hsound
  have hruns : ∀ (s : Polled P) a, Sound bound s → Legal bound s a →
      ∃ t, step s a = some t ∧ Sound bound t := fun s a hs ha => (step_sound s a hs ha).1
  obtain ⟨s, hs, -⟩ := exists_run_of_meets hruns hstart h
  refine ⟨⟨s, hs⟩, ?_, ?_⟩
  · exact h.imp hkeep (fun s a hs ha => (step_sound s a hs ha).2) hstart
  · exact throughout_of_meets hkeep (fun s hs => hs.sized) hstart h

/-- One channel that reads: an event, a timeout and an error. -/
def sampleRun : List (Action ℕ) :=
  [.registry (.channel (.enableReading 0)), .iterate (.ready [(0, EPOLLIN)]),
    .iterate (.ready []), .iterate .failed]

theorem few_single {P : Type} {set : InterestSet P} {fd : ℕ}
    (h : ∀ n, (set n).isSome = true → n = fd) : Few 1 set := by
  intro fds hfds
  have hsub : fds ⊆ {fd} := by
    intro n hn
    exact Finset.mem_singleton.mpr (h n (hfds n hn))
  exact Finset.card_le_card hsub

theorem poll_results_exact_sample :
    (∃ s, run step (start id) sampleRun = some s) ∧
      Meets step Exact (start id) sampleRun ∧
      Throughout step (Sized 1) (start id) sampleRun := by
  have hone : ∀ n, ((Function.update (fun _ => none) 0 (some ⟨kReadEvent, 0⟩) :
      InterestSet ℕ) n).isSome = true → n = 0 := by
    intro n hn
    by_contra hne
    rw [Function.update_of_ne hne] at hn
    cases hn
  have hlegal : Meets step (Legal 1) (start id) sampleRun := by
    refine Meets.cons trivial rfl (Meets.cons ?_ rfl (Meets.cons ?_ rfl ?_))
    · exact ⟨few_single hone, by decide, by decide, by decide⟩
    · exact ⟨few_single hone, by decide, by decide, by decide⟩
    · exact Meets.cons trivial rfl trivial
  exact poll_results_exact hlegal

end Netmux.PollResults
