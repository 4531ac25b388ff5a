import Netmux.PollResults

/-!
# Pointers to channels that are gone

The kernel keeps a raw pointer to every channel it watches, `poll` writes through
those it gets back, and `loop()` walks over a list of them. A connection owns its
channel and its socket and lives as long as some `TcpConnectionPtr` to it; the
destructor deletes the channel first and closes the socket last, which takes the
entry out of the interest set. A tied channel is served under a pointer of the
loop's own, one that is not tied is served as it is.

A last pointer dropped on the loop's thread runs the destructor there and then.
One dropped on another thread runs it beside the loop, statement by statement.
Descriptors are given out again, objects are not. What happens after a channel
that is gone has been used is not described; `touched` lists the channels used and
whether they existed.

Of the loop this is `poll` and the dispatch. Functors that are bound to a raw `this`
are left out, and `epoll_ctl` fails for no other reason than that a descriptor is
watched already, or is not.
-/
namespace Netmux.ChannelLifetime
open ActionRuns ChannelPoller ChannelTeardown PollResults

variable {P : Type}

/-- What there is of a connection. -/
inductive Life where
  | unmade | alive | dying | channelGone | gone
  deriving DecidableEq, Repr

namespace Life

def hasChannel : Life → Bool
  | alive | dying => true
  | unmade | channelGone | gone => false

def hasSocket : Life → Bool
  | alive | dying | channelGone => true
  | unmade | gone => false

end Life

/-- A loop with the connections it serves. `descriptors` says whose socket is open
on a descriptor, `toServe` is the rest of the list of active channels, and
`serving` the channel whose callbacks run, with whether `tie_` is held. -/
structure Lifetimes (P : Type) where
  polled : Polled P
  descriptors : ℕ → Option P
  life : P → Life
  toServe : List P
  serving : Option (P × Bool)
  touched : List (P × Bool)

inductive Action (P : Type) where
  | make (c : P)
  | tie (c : P)
  | channel (a : ChannelTeardown.Action P)
  | poll (answer : WaitAnswer)
  | serve
  | leave
  | release (c : P) (onLoop : Bool)
  | destruct (c : P)

/-- Every connection has a descriptor that it will get when it is made. -/
def start (fd : P → ℕ) : Lifetimes P where
  polled := PollResults.start fd
  descriptors _ := none
  life _ := .unmade
  toServe := []
  serving := none
  touched := []

/-- What `epoll_wait` can report: watched descriptors, each once, with events that
were asked for, errors and hang-ups. -/
def Answerable (set : InterestSet P) : WaitAnswer → Prop
  | .ready reports => (reports.map Prod.fst).Nodup ∧ ∀ r ∈ reports,
      ((set r.1).any fun e =>
        r.2 != 0#32 && r.2 &&& ~~~(e.events ||| EPOLLERR ||| EPOLLHUP) == 0#32) = true
  | .failed => True

instance (set : InterestSet P) : (answer : WaitAnswer) → Decidable (Answerable set answer)
  | .ready _ => inferInstanceAs (Decidable (_ ∧ _))
  | .failed => isTrue trivial

namespace Lifetimes

def channel (s : Lifetimes P) (c : P) : Channel P := s.polled.registry.channels c

def fd (s : Lifetimes P) (c : P) : ℕ := (s.channel c).fd

def interest (s : Lifetimes P) : InterestSet P := s.polled.registry.poller.interest

/-- The kernel watches the descriptor of a connection. -/
def watches (s : Lifetimes P) (c : P) : Bool := (s.interest (s.fd c)).isSome

def setRegistry (s : Lifetimes P) (registry : Registry P) : Lifetimes P :=
  { s with polled := { s.polled with registry := registry } }

/-- A use of channels through raw pointers. -/
def touch (s : Lifetimes P) (cs : List P) : Lifetimes P :=
  { s with touched := s.touched ++ cs.map fun c => (c, (s.life c).hasChannel) }

variable [DecidableEq P]

def setLife (s : Lifetimes P) (c : P) (life : Life) : Lifetimes P :=
  { s with life := Function.update s.life c life }

/-- The end of the destructor; closing takes the descriptor out of the interest set. -/
def closeSocket (s : Lifetimes P) (c : P) : Lifetimes P :=
  { s.setLife c .gone with
    polled := PollResults.close s.polled (s.fd c)
    descriptors := Function.update s.descriptors (s.fd c) none }

/-- The head of `Channel::handleEvent`: what is served, and whether under a guard. -/
def handleEvent (s : Lifetimes P) (c : P) : Option (P × Bool) :=
  if (s.channel c).tied then if s.life c = .alive then some (c, true) else none
  else some (c, false)

end Lifetimes

variable [DecidableEq P]

def step (s : Lifetimes P) : Action P → Option (Lifetimes P)
  | .make c =>
      if s.life c = .unmade ∧ s.descriptors (s.fd c) = none then
        some { s.setLife c .alive with
          descriptors := Function.update s.descriptors (s.fd c) (some c) }
      else none
  | .tie c =>
      if s.life c = .alive then
        some (s.setRegistry (s.polled.registry.put c (s.polled.registry.poller, (s.channel c).tie)))
      else none
  | .channel a =>
      if s.life a.channel = .alive then some (s.setRegistry (act s.polled.registry a)) else none
  | .poll answer =>
      if s.toServe = [] ∧ s.serving = none ∧ Answerable s.interest answer then
        (iterate s.polled answer).map fun polled =>
          { s.touch polled.activeChannel with
            polled := polled
            toServe := polled.activeChannel }
      else none
  | .serve =>
      match s.serving, s.toServe with
      | none, c :: rest =>
          some { s.touch [c] with toServe := rest, serving := s.handleEvent c }
      | _, _ => none
  | .leave =>
      match s.serving with
      | some (c, _) => some { s.touch [c] with serving := none }
      | none => none
  | .release c onLoop =>
      if s.life c = .alive ∧ s.serving ≠ some (c, true) then
        some (if onLoop then s.closeSocket c else s.setLife c .dying)
      else none
  | .destruct c =>
      match s.life c with
      | .dying => some (s.setLife c .channelGone)
      | .channelGone => some (s.closeSocket c)
      | .unmade | .alive | .gone => none

/-- A last pointer is dropped while the loop is not about to use the channel, and
on another thread only if the kernel does not have it. -/
def Careful (s : Lifetimes P) : Action P → Prop
  | .release c onLoop =>
      c ∉ s.toServe ∧ s.serving ≠ some (c, false) ∧ (onLoop = true ∨ s.watches c = false)
  | .make _ | .tie _ | .channel _ | .poll _ | .serve | .leave | .destruct _ => True

instance (s : Lifetimes P) : (a : Action P) → Decidable (Careful s a)
  | .release _ _ => inferInstanceAs (Decidable (_ ∧ _ ∧ _))
  | .make _ | .tie _ | .channel _ | .poll _ | .serve | .leave | .destruct _ => isTrue trivial

/-- Every channel that was used existed. -/
def Clean (s : Lifetimes P) : Prop := ∀ c ∈ s.touched, c.2 = true

/-- No channel was used that was gone, and what the kernel points to is alive and
owns the descriptor it is watched on. -/
def Sound (s : Lifetimes P) : Prop :=
  Clean s ∧ ∀ fd e, s.interest fd = some e →
    s.descriptors fd = some e.ptr ∧ s.life e.ptr = .alive

/-- What the kernel has of a channel is what the channel's status says. -/
def Recorded (s : Lifetimes P) (c : P) : Prop :=
  s.interest (s.fd c) =
    if (s.channel c).status = .kAdded then some ⟨(s.channel c).events, c⟩ else none

/-- The invariant: descriptors have one owner, and what the kernel and the loop
point to is alive. -/
structure Held (s : Lifetimes P) : Prop where
  pointed : Pointed s.polled.registry
  owned : ∀ fd c, s.descriptors fd = some c ↔ s.fd c = fd ∧ (s.life c).hasSocket = true
  isNew : ∀ c, s.life c = .unmade → (s.channel c).status = .kNew
  recorded : ∀ c, (s.life c).hasSocket = true → Recorded s c
  watched : ∀ fd e, s.interest fd = some e → s.life e.ptr = .alive
  due : ∀ c ∈ s.toServe, s.life c = .alive
  served : ∀ c guard, s.serving = some (c, guard) → s.life c = .alive
  clean : Clean s

section Frames
omit [DecidableEq P]
variable {s t : Lifetimes P}

/-- Nothing has changed that the kernel and the poller record of channels. -/
structure SameRecords (s t : Lifetimes P) : Prop where
  interest : t.interest = s.interest
  address : ∀ c, (t.channel c).address = (s.channel c).address
  fd : ∀ c, t.fd c = s.fd c
  status : ∀ c, (t.channel c).status = (s.channel c).status
  events : ∀ c, (t.channel c).events = (s.channel c).events

theorem SameRecords.of_polled (h : t.polled = s.polled) : SameRecords s t := by
  obtain ⟨polled, descriptors, life, toServe, serving, touched⟩ := t
  cases h
  exact ⟨rfl, fun _ => rfl, fun _ => rfl, fun _ => rfl, fun _ => rfl⟩

theorem SameRecords.pointed (h : SameRecords s t) (hp : Pointed s.polled.registry) :
    Pointed t.polled.registry := by
  constructor
  · intro c
    exact (h.address c).trans (hp.pointer c)
  · intro fd e he
    exact (h.fd e.ptr).trans (hp.entries fd e ((congrFun h.interest fd).symm.trans he))

theorem SameRecords.recorded (h : SameRecords s t) {c : P} (hc : Recorded s c) :
    Recorded t c := by
  unfold Recorded at hc ⊢
  rw [h.interest, h.fd, h.status, h.events]
  exact hc

/-- The watched descriptors belong to the connections the kernel points to. -/
theorem Held.watched_owner (h : Held s) {fd : ℕ} {e : EpollEvent P}
    (he : s.interest fd = some e) : s.fd e.ptr = fd ∧ s.descriptors fd = some e.ptr := by
  have hfd : s.fd e.ptr = fd := h.pointed.entries fd e he
  refine ⟨hfd, (h.owned fd e.ptr).mpr ⟨hfd, ?_⟩⟩
  rw [h.watched fd e he]
  rfl

/-- The kernel has lost sight of a connection that is not alive. -/
theorem Held.unwatched (h : Held s) {c : P} (hopen : (s.life c).hasSocket = true)
    (hc : s.life c ≠ .alive) : s.watches c = false := by
  unfold Lifetimes.watches
  cases he : s.interest (s.fd c) with
  | none => rfl
  | some e =>
      have hself := (h.owned (s.fd c) c).mpr ⟨rfl, hopen⟩
      have hptr : e.ptr = c := Option.some.inj ((h.watched_owner he).2.symm.trans hself)
      exact absurd (hptr ▸ h.watched _ e he) hc

theorem Held.watches_iff (h : Held s) {c : P} (hopen : (s.life c).hasSocket = true) :
    s.watches c = true ↔ (s.channel c).status = .kAdded := by
  have hrecorded := h.recorded c hopen
  unfold Recorded at hrecorded
  unfold Lifetimes.watches
  rw [hrecorded]
  split_ifs with hadded
  · exact iff_of_true rfl hadded
  · simp [hadded]

theorem Held.owner_unique (h : Held s) {c d : P} (hc : (s.life c).hasSocket = true)
    (hd : (s.life d).hasSocket = true) (hfd : s.fd c = s.fd d) : c = d := by
  have hcOwner := (h.owned (s.fd d) c).mpr ⟨hfd, hc⟩
  have hdOwner := (h.owned (s.fd d) d).mpr ⟨rfl, hd⟩
  exact Option.some.inj (hcOwner.symm.trans hdOwner)

/-- A step that leaves the records and the connections as they are. -/
theorem Held.frame (h : Held s) (hr : SameRecords s t) (hd : t.descriptors = s.descriptors)
    (hl : t.life = s.life) (hdue : ∀ c ∈ t.toServe, s.life c = .alive)
    (hserved : ∀ c guard, t.serving = some (c, guard) → s.life c = .alive) (hclean : Clean t) :
    Held t := by
  constructor
  · exact hr.pointed h.pointed
  · intro fd c
    rw [hd, hr.fd, hl]
    exact h.owned fd c
  · intro c hc
    rw [hl] at hc
    exact (hr.status c).trans (h.isNew c hc)
  · intro c hc
    rw [hl] at hc
    exact hr.recorded (h.recorded c hc)
  · intro fd e he
    rw [hr.interest] at he
    rw [hl]
    exact h.watched fd e he
  · rwa [hl]
  · rwa [hl]
  · exact hclean

theorem clean_touch {cs : List P} (h : Clean s) (hcs : ∀ c ∈ cs, s.life c = .alive) :
    Clean (s.touch cs) := by
  intro x hx
  rcases List.mem_append.mp hx with hold | hnew
  · exact h x hold
  · obtain ⟨c, hc, rfl⟩ := List.mem_map.mp hnew
    show (s.life c).hasChannel = true
    rw [hcs c hc]
    rfl

end Frames

section Ends
variable {s : Lifetimes P} {c : P}

omit [DecidableEq P] in
/-- What the loop points to stays alive when the life of another connection changes. -/
theorem Held.alive_apart (h : Held s) {life : P → Life} (hlife : ∀ d, d ≠ c → life d = s.life d)
    (hdue : c ∉ s.toServe) (hserved : ∀ guard, s.serving ≠ some (c, guard)) :
    (∀ d ∈ s.toServe, life d = .alive) ∧
      ∀ d guard, s.serving = some (d, guard) → life d = .alive := by
  constructor
  · intro d hd
    have hne : d ≠ c := fun heq => hdue (heq ▸ hd)
    rw [hlife d hne]
    exact h.due d hd
  · intro d guard hd
    have hne : d ≠ c := fun heq => hserved guard (heq ▸ hd)
    rw [hlife d hne]
    exact h.served d guard hd

/-- Nothing points to the connection any more, and its socket is still open. -/
theorem setLife_held (h : Held s) {life : Life} (hold : (s.life c).hasSocket = true)
    (hnew : life.hasSocket = true) (hwatched : s.watches c = false) (hdue : c ∉ s.toServe)
    (hserved : ∀ guard, s.serving ≠ some (c, guard)) : Held (s.setLife c life) := by
  have hlife : ∀ d, d ≠ c → (s.setLife c life).life d = s.life d :=
    fun d hd => Function.update_of_ne hd _ _
  have hself : (s.setLife c life).life c = life := Function.update_self ..
  have hsocket : ∀ d, ((s.setLife c life).life d).hasSocket = (s.life d).hasSocket := by
    intro d
    by_cases hd : d = c
    · rw [hd, hself, hnew, hold]
    · rw [hlife d hd]
  constructor
  · exact h.pointed
  · intro fd d
    rw [hsocket]
    exact h.owned fd d
  · intro d hd
    have hne : d ≠ c := by
      rintro rfl
      rw [hself] at hd
      rw [hd] at hnew
      cases hnew
    rw [hlife d hne] at hd
    exact h.isNew d hd
  · intro d hd
    rw [hsocket] at hd
    exact h.recorded d hd
  · intro fd e he
    have hne : e.ptr ≠ c := by
      intro heq
      have hentry : s.interest (s.fd c) = some e := heq ▸ (h.watched_owner he).1 ▸ he
      rw [Lifetimes.watches, hentry] at hwatched
      cases hwatched
    rw [hlife e.ptr hne]
    exact h.watched fd e he
  · exact (h.alive_apart hlife hdue hserved).1
  · exact (h.alive_apart hlife hdue hserved).2
  · exact h.clean

/-- The same when its socket is closed, which ends the watching. -/
theorem closeSocket_held (h : Held s) (hold : (s.life c).hasSocket = true) (hdue : c ∉ s.toServe)
    (hserved : ∀ guard, s.serving ≠ some (c, guard)) : Held (s.closeSocket c) := by
  have hlife : ∀ d, d ≠ c → (s.closeSocket c).life d = s.life d :=
    fun d hd => Function.update_of_ne hd _ _
  have hself : (s.closeSocket c).life c = .gone := Function.update_self ..
  have hentry : ∀ fd, fd ≠ s.fd c → (s.closeSocket c).interest fd = s.interest fd :=
    fun fd hfd => Function.update_of_ne hfd _ _
  have hclosed : (s.closeSocket c).interest (s.fd c) = none := Function.update_self ..
  constructor
  · exact close_pointed h.pointed (s.fd c)
  · intro fd d
    show Function.update s.descriptors (s.fd c) none fd = some d ↔ s.fd d = fd ∧ _
    by_cases hd : d = c
    · subst hd
      rw [hself]
      constructor
      · intro howner
        by_cases hfd : fd = s.fd d
        · rw [hfd, Function.update_self] at howner
          cases howner
        · rw [Function.update_of_ne hfd] at howner
          exact absurd ((h.owned fd d).mp howner).1.symm hfd
      · rintro ⟨-, hopen⟩
        cases hopen
    · rw [hlife d hd]
      by_cases hfd : fd = s.fd c
      · rw [hfd, Function.update_self]
        constructor
        · intro hnone
          cases hnone
        · rintro ⟨hsame, hopen⟩
          exact absurd (h.owner_unique hopen hold hsame) hd
      · rw [Function.update_of_ne hfd]
        exact h.owned fd d
  · intro d hd
    have hne : d ≠ c := by
      rintro rfl
      rw [hself] at hd
      cases hd
    rw [hlife d hne] at hd
    exact h.isNew d hd
  · intro d hd
    have hne : d ≠ c := by
      rintro rfl
      rw [hself] at hd
      cases hd
    rw [hlife d hne] at hd
    have hfd : s.fd d ≠ s.fd c := fun hsame => hne (h.owner_unique hd hold hsame)
    exact (hentry (s.fd d) hfd).trans (h.recorded d hd)
  · intro fd e he
    have hfd : fd ≠ s.fd c := by
      rintro rfl
      rw [hclosed] at he
      cases he
    rw [hentry fd hfd] at he
    have hne : e.ptr ≠ c := fun heq => hfd (heq ▸ (h.watched_owner he).1).symm
    rw [hlife e.ptr hne]
    exact h.watched fd e he
  · exact (h.alive_apart hlife hdue hserved).1
  · exact (h.alive_apart hlife hdue hserved).2
  · exact h.clean

end Ends

section Operations
variable {s : Lifetimes P} {c : P}

omit [DecidableEq P] in
theorem updateChannel_channel_eq (p q : EPollPoller P) (c : Channel P) :
    (p.updateChannel epollCtl c).2 = (q.updateChannel epollCtl c).2 := by
  unfold EPollPoller.updateChannel
  cases c.status with
  | kNew => rfl
  | kDeleted => rfl
  | kAdded =>
      dsimp only
      split_ifs <;> rfl

omit [DecidableEq P] in
/-- What `updateChannel` leaves with the kernel and in the status does not depend on
the hash, where a closed connection may still stand. -/
theorem updateChannel_records {p : EPollPoller P} {c : Channel P} {events : EventMask}
    {status : Status}
    (h : p.interest c.fd = if c.status = .kAdded then some ⟨c.events, c.address⟩ else none)
    (hc : (p.updateChannel epollCtl (c.withEvents events)).2 =
      (c.withEvents events).setStatus status) :
    (p.updateChannel epollCtl (c.withEvents events)).1.interest c.fd =
      if status = .kAdded then some ⟨events, c.address⟩ else none := by
  let clean : EPollPoller P :=
    ⟨fun _ => if c.status = .kNew then none else some c.address, p.interest⟩
  have htracks : Tracks clean c := ⟨rfl, h⟩
  have hinterest : (clean.updateChannel epollCtl (c.withEvents events)).1.interest =
      (p.updateChannel epollCtl (c.withEvents events)).1.interest := by
    rw [PollerRegistration.updateChannel_interest, PollerRegistration.updateChannel_interest]
  have hafter := (EPollPoller.updateChannel_tracks htracks events).interest
  rw [hinterest, updateChannel_channel_eq clean p, hc] at hafter
  exact hafter

theorem make_held (h : Held s) (hc : s.life c = .unmade) (hfree : s.descriptors (s.fd c) = none) :
    Held { s.setLife c .alive with
      descriptors := Function.update s.descriptors (s.fd c) (some c) } := by
  have hlife : ∀ d, d ≠ c → (s.setLife c .alive).life d = s.life d :=
    fun d hd => Function.update_of_ne hd _ _
  have hself : (s.setLife c .alive).life c = .alive := Function.update_self ..
  have hkept : ∀ d, s.life d = .alive → (s.setLife c .alive).life d = .alive := by
    intro d hd
    by_cases hne : d = c
    · rw [hne, hself]
    · rw [hlife d hne, hd]
  constructor
  · exact h.pointed
  · intro fd d
    show Function.update s.descriptors (s.fd c) (some c) fd = some d ↔
      s.fd d = fd ∧ ((s.setLife c .alive).life d).hasSocket = true
    by_cases hd : d = c
    · rw [hd, hself]
      by_cases hfd : fd = s.fd c
      · rw [hfd, Function.update_self]
        exact iff_of_true rfl ⟨rfl, rfl⟩
      · rw [Function.update_of_ne hfd, h.owned fd c, hc]
        constructor
        · rintro ⟨-, hopen⟩
          cases hopen
        · rintro ⟨hsame, -⟩
          exact absurd hsame.symm hfd
    · rw [hlife d hd]
      by_cases hfd : fd = s.fd c
      · rw [hfd, Function.update_self, ← h.owned, hfree]
        constructor
        · intro hsame
          exact absurd (Option.some.inj hsame).symm hd
        · intro hnone
          cases hnone
      · rw [Function.update_of_ne hfd]
        exact h.owned fd d
  · intro d hd
    have hne : d ≠ c := by
      rintro rfl
      cases hself.symm.trans hd
    exact h.isNew d ((hlife d hne).symm.trans hd)
  · intro d hd
    by_cases hne : d = c
    · show s.interest (s.fd d) = if (s.channel d).status = .kAdded then _ else none
      rw [hne, h.isNew c hc, if_neg (by decide)]
      cases he : s.interest (s.fd c) with
      | none => rfl
      | some e => cases hfree.symm.trans (h.watched_owner he).2
    · have hopen : ((s.setLife c .alive).life d).hasSocket = true := hd
      rw [hlife d hne] at hopen
      exact h.recorded d hopen
  · intro fd e he
    exact hkept e.ptr (h.watched fd e he)
  · intro d hd
    exact hkept d (h.due d hd)
  · intro d guard hd
    exact hkept d (h.served d guard hd)
  · exact h.clean

/-- An operation of a channel that exists. -/
theorem channel_held (h : Held s) {a : ChannelTeardown.Action P} (ha : s.life a.channel = .alive) :
    Held (s.setRegistry (act s.polled.registry a)) := by
  have hopen : (s.life a.channel).hasSocket = true := by rw [ha]; rfl
  have haddress : (s.channel a.channel).address = a.channel := h.pointed.pointer a.channel
  have hother : ∀ d, d ≠ a.channel →
      (s.setRegistry (act s.polled.registry a)).channel d = s.channel d := by
    intro d hd
    show (act s.polled.registry a).channels d = _
    rw [act_eq, Registry.put_of_ne _ _ hd]
    rfl
  obtain ⟨status, hstatus, -⟩ := EPollPoller.updateChannel_channel epollCtl s.polled.registry.poller
    (PollerRegistration.changed s.polled.registry a)
  have hself : (s.setRegistry (act s.polled.registry a)).channel a.channel =
      (PollerRegistration.changed s.polled.registry a).setStatus status := by
    show (act s.polled.registry a).channels a.channel = _
    rw [act_eq, Registry.put_self]
    exact hstatus
  have hfd : ∀ d, (s.setRegistry (act s.polled.registry a)).fd d = s.fd d := by
    intro d
    unfold Lifetimes.fd
    by_cases hd : d = a.channel
    · rw [hd, hself]
      rfl
    · rw [hother d hd]
  have hinterest : (s.setRegistry (act s.polled.registry a)).interest =
      (s.polled.registry.poller.updateChannel epollCtl
        (PollerRegistration.changed s.polled.registry a)).1.interest := by
    show (act s.polled.registry a).poller.interest = _
    rw [act_eq]
    rfl
  constructor
  · exact act_pointed h.pointed (.channel a)
  · intro fd d
    rw [hfd]
    exact h.owned fd d
  · intro d hd
    have hne : d ≠ a.channel := by
      rintro rfl
      cases ha.symm.trans hd
    rw [hother d hne]
    exact h.isNew d hd
  · intro d hd
    have hd' : (s.life d).hasSocket = true := hd
    unfold Recorded
    rw [hfd, hinterest]
    by_cases hne : d = a.channel
    · have hold : s.interest (s.fd a.channel) = if (s.channel a.channel).status = .kAdded
          then some ⟨(s.channel a.channel).events, (s.channel a.channel).address⟩ else none := by
        rw [haddress]
        exact h.recorded a.channel hopen
      rw [hne]
      have hnew := updateChannel_records hold hstatus
      rw [haddress] at hnew
      rw [hself]
      exact hnew
    · rw [hother d hne]
      have hapart : s.fd d ≠ s.fd a.channel := fun hsame => hne (h.owner_unique hd' hopen hsame)
      have hkept := (EPollPoller.updateChannel_of_ne s.polled.registry.poller
        (PollerRegistration.changed s.polled.registry a) hapart).2
      exact hkept.trans (h.recorded d hd')
  · intro fd e he
    rw [hinterest] at he
    rcases EPollPoller.updateChannel_entry he with hold | ⟨-, hptr⟩
    · exact h.watched fd e hold
    · exact (hptr.trans haddress) ▸ ha
  · exact h.due
  · exact h.served
  · exact h.clean

theorem tie_held (h : Held s) (c : P) :
    Held (s.setRegistry
      (s.polled.registry.put c (s.polled.registry.poller, (s.channel c).tie))) := by
  refine h.frame ⟨rfl, ?_, ?_, ?_, ?_⟩ rfl rfl h.due h.served h.clean
  all_goals
    intro d
    by_cases hd : d = c
    · rw [hd]
      simp [Lifetimes.setRegistry, Lifetimes.channel, Lifetimes.fd, Channel.tie]
    · simp [Lifetimes.setRegistry, Lifetimes.channel, Lifetimes.fd, Registry.put_of_ne _ _ hd]

end Operations

section Polls
variable {s : Lifetimes P}

omit [DecidableEq P] in
theorem Answerable.registered {set : InterestSet P} {reports : List (ℕ × EventMask)}
    (h : Answerable set (.ready reports)) : ∀ r ∈ reports, (set r.1).isSome = true := by
  intro r hr
  have hany := h.2 r hr
  cases he : set r.1 with
  | none =>
      rw [he] at hany
      cases hany
  | some e => rfl

omit [DecidableEq P] in
theorem mem_pointers {set : InterestSet P} {reports : List (ℕ × EventMask)} {c : P} :
    c ∈ (events set reports).map EpollEvent.ptr ↔
      ∃ r ∈ reports, ∃ e, set r.1 = some e ∧ e.ptr = c := by
  unfold events
  simp only [List.mem_map, List.mem_filterMap, Option.map_eq_some_iff]
  constructor
  · rintro ⟨d, ⟨r, hr, e, he, rfl⟩, rfl⟩
    exact ⟨r, hr, e, he, rfl⟩
  · rintro ⟨r, hr, e, he, rfl⟩
    exact ⟨⟨r.2, e.ptr⟩, ⟨r, hr, e, he, rfl⟩, rfl⟩

/-- Writing back what was reported changes `revents` and nothing else. -/
theorem foldl_setRevents_channel (events : List (EpollEvent P)) (channels : P → Channel P) (c : P) :
    ∃ revents, events.foldl setRevents channels c = (channels c).setRevents revents := by
  induction events generalizing channels with
  | nil => exact ⟨(channels c).revents, rfl⟩
  | cons e events ih =>
      obtain ⟨revents, hrest⟩ := ih (setRevents channels e)
      rw [List.foldl_cons, hrest]
      by_cases hc : c = e.ptr
      · refine ⟨revents, ?_⟩
        rw [setRevents, hc, Function.update_self]
        rfl
      · refine ⟨revents, ?_⟩
        rw [setRevents, Function.update_of_ne hc]

/-- A poll that reports what is watched goes through, whatever the size of the
result array. -/
theorem iterate_registered {p : Polled P} {reports : List (ℕ × EventMask)}
    (hp : Pointed p.registry) (h : ∀ r ∈ reports, (p.registry.poller.interest r.1).isSome = true) :
    ∃ q, iterate p (.ready reports) = some q ∧
      q.registry = ⟨(events p.registry.poller.interest reports).foldl setRevents
        p.registry.channels, p.registry.poller⟩ ∧
      q.activeChannel = (events p.registry.poller.interest reports).map EpollEvent.ptr := by
  have hlength : (events p.registry.poller.interest reports).length = reports.length := by
    simpa using congrArg List.length (events_descriptors hp.entries h)
  have hdrop : (written p.results p.calls (events p.registry.poller.interest reports)).drop 0 =
      (events p.registry.poller.interest reports).map (fun e => some ⟨p.calls, e⟩) ++
        p.results.drop (events p.registry.poller.interest reports).length := rfl
  have hfill := fillActiveChannels_eq hdrop p.registry.channels []
  rw [hlength, List.nil_append] at hfill
  unfold iterate poll
  dsimp only
  rw [hfill]
  by_cases hsome : 0 < reports.length
  · rw [if_pos hsome]
    exact ⟨_, rfl, rfl, rfl⟩
  · obtain rfl : reports = [] := List.eq_nil_of_length_eq_zero (by omega)
    exact ⟨_, rfl, rfl, rfl⟩

theorem iterate_eq_some {answer : WaitAnswer} {q : Polled P} (hp : Pointed s.polled.registry)
    (ha : Answerable s.interest answer) (hq : iterate s.polled answer = some q) :
    SameRecords s { s with polled := q } ∧
      q.activeChannel = (reported s.interest answer).map EpollEvent.ptr := by
  cases answer with
  | failed =>
      cases hq
      exact ⟨⟨rfl, fun _ => rfl, fun _ => rfl, fun _ => rfl, fun _ => rfl⟩, rfl⟩
  | ready reports =>
      obtain ⟨r, hr, hregistry, hactive⟩ := iterate_registered hp ha.registered
      obtain rfl := Option.some.inj (hq.symm.trans hr)
      have hchannel : ∀ c, ∃ revents,
          ({ s with polled := q } : Lifetimes P).channel c = (s.channel c).setRevents revents := by
        intro c
        show ∃ revents, q.registry.channels c = _
        rw [hregistry]
        exact foldl_setRevents_channel _ _ c
      have hinterest : ({ s with polled := q } : Lifetimes P).interest = s.interest := by
        show q.registry.poller.interest = _
        rw [hregistry]
        rfl
      refine ⟨⟨hinterest, ?_, ?_, ?_, ?_⟩, hactive⟩
      all_goals
        intro c
        obtain ⟨revents, hc⟩ := hchannel c
      · rw [hc]
        rfl
      · unfold Lifetimes.fd
        rw [hc]
        rfl
      · rw [hc]
        rfl
      · rw [hc]
        rfl

theorem poll_held (h : Held s) {answer : WaitAnswer} {q : Polled P} (hserving : s.serving = none)
    (ha : Answerable s.interest answer) (hq : iterate s.polled answer = some q) :
    Held { s.touch q.activeChannel with polled := q, toServe := q.activeChannel } := by
  obtain ⟨hrecords, hactive⟩ := iterate_eq_some h.pointed ha hq
  have hdue : ∀ c ∈ q.activeChannel, s.life c = .alive := by
    intro c hc
    rw [hactive] at hc
    cases answer with
    | failed => cases hc
    | ready reports =>
        obtain ⟨r, -, e, he, rfl⟩ := mem_pointers.mp hc
        exact h.watched r.1 e he
  refine h.frame ⟨hrecords.interest, hrecords.address, hrecords.fd, hrecords.status,
    hrecords.events⟩ rfl rfl hdue ?_ (clean_touch h.clean hdue)
  intro c guard hc
  cases hserving.symm.trans hc

end Polls

section Steps
variable {s t : Lifetimes P}

omit [DecidableEq P] in
theorem handleEvent_some {c d : P} {guard : Bool} (h : s.handleEvent c = some (d, guard)) :
    d = c := by
  unfold Lifetimes.handleEvent at h
  split_ifs at h <;> cases h <;> rfl

theorem serve_held (h : Held s) (ht : step s .serve = some t) : Held t := by
  cases hserving : s.serving with
  | some serving => simp [step, hserving] at ht
  | none =>
      cases hdue : s.toServe with
      | nil => simp [step, hserving, hdue] at ht
      | cons c rest =>
          simp only [step, hserving, hdue, Option.some.injEq] at ht
          subst ht
          have hc : s.life c = .alive := h.due c (hdue ▸ List.mem_cons_self)
          refine h.frame (.of_polled rfl) rfl rfl ?_ ?_ ?_
          · intro d hd
            exact h.due d (hdue ▸ List.mem_cons_of_mem c hd)
          · intro d guard hd
            rw [handleEvent_some hd, hc]
          · exact clean_touch h.clean fun d hd => List.mem_singleton.mp hd ▸ hc

theorem leave_held (h : Held s) (ht : step s .leave = some t) : Held t := by
  cases hserving : s.serving with
  | none => simp [step, hserving] at ht
  | some serving =>
      simp only [step, hserving, Option.some.injEq] at ht
      subst ht
      have hc : s.life serving.1 = .alive := h.served serving.1 serving.2 hserving
      refine h.frame (.of_polled rfl) rfl rfl h.due ?_ ?_
      · intro d guard hd
        cases hd
      · exact clean_touch h.clean fun d hd => List.mem_singleton.mp hd ▸ hc

theorem release_held (h : Held s) {c : P} {onLoop : Bool} (hcareful : Careful s (.release c onLoop))
    (ht : step s (.release c onLoop) = some t) : Held t := by
  obtain ⟨hdue, hraw, hkernel⟩ := hcareful
  simp only [step, Option.ite_none_right_eq_some, Option.some.injEq] at ht
  obtain ⟨⟨halive, hguard⟩, rfl⟩ := ht
  have hopen : (s.life c).hasSocket = true := by rw [halive]; rfl
  have hserved : ∀ guard, s.serving ≠ some (c, guard) := by
    intro guard
    cases guard with
    | true => exact hguard
    | false => exact hraw
  cases onLoop with
  | true => exact closeSocket_held h hopen hdue hserved
  | false =>
      have hwatched : s.watches c = false := hkernel.resolve_left (by decide)
      exact setLife_held h hopen rfl hwatched hdue hserved

theorem destruct_held (h : Held s) {c : P} (ht : step s (.destruct c) = some t) : Held t := by
  have hdue : s.life c ≠ .alive → c ∉ s.toServe := fun hne hc => hne (h.due c hc)
  have hserved : s.life c ≠ .alive → ∀ guard, s.serving ≠ some (c, guard) :=
    fun hne guard hc => hne (h.served c guard hc)
  cases hlife : s.life c with
  | dying =>
      have hne : s.life c ≠ .alive := by rw [hlife]; decide
      have hopen : (s.life c).hasSocket = true := by rw [hlife]; rfl
      simp only [step, hlife, Option.some.injEq] at ht
      exact ht ▸ setLife_held h hopen rfl (h.unwatched hopen hne) (hdue hne) (hserved hne)
  | channelGone =>
      have hne : s.life c ≠ .alive := by rw [hlife]; decide
      have hopen : (s.life c).hasSocket = true := by rw [hlife]; rfl
      simp only [step, hlife, Option.some.injEq] at ht
      exact ht ▸ closeSocket_held h hopen (hdue hne) (hserved hne)
  | unmade => simp [step, hlife] at ht
  | alive => simp [step, hlife] at ht
  | gone => simp [step, hlife] at ht

theorem step_held (s : Lifetimes P) (a : Action P) (t : Lifetimes P) (h : Held s)
    (hcareful : Careful s a) (ht : step s a = some t) : Held t := by
  cases a with
  | make c =>
      simp only [step, Option.ite_none_right_eq_some, Option.some.injEq] at ht
      obtain ⟨⟨hc, hfree⟩, rfl⟩ := ht
      exact make_held h hc hfree
  | tie c =>
      simp only [step, Option.ite_none_right_eq_some, Option.some.injEq] at ht
      obtain ⟨-, rfl⟩ := ht
      exact tie_held h c
  | channel a =>
      simp only [step, Option.ite_none_right_eq_some, Option.some.injEq] at ht
      obtain ⟨ha, rfl⟩ := ht
      exact channel_held h ha
  | poll answer =>
      simp only [step, Option.ite_none_right_eq_some, Option.map_eq_some_iff] at ht
      obtain ⟨⟨-, hserving, ha⟩, q, hq, rfl⟩ := ht
      exact poll_held h hserving ha hq
  | serve => exact serve_held h ht
  | leave => exact leave_held h ht
  | release c onLoop => exact release_held h hcareful ht
  | destruct c => exact destruct_held h ht

omit [DecidableEq P] in
theorem start_held (fd : P → ℕ) : Held (start fd) where
  pointed := (start_sound fd 0).pointed
  owned n c := by
    constructor
    · intro hn
      cases hn
    · rintro ⟨-, hopen⟩
      cases hopen
  isNew _ _ := rfl
  recorded c hc := by cases hc
  watched n e he := by cases he
  due c hc := by cases hc
  served c guard hc := by cases hc
  clean c hc := by cases hc

end Steps

section Harm
variable {s t u : Lifetimes P}

def Action.isRelease : Action P → Bool
  | .release _ _ => true
  | .make _ | .tie _ | .channel _ | .poll _ | .serve | .leave | .destruct _ => false

theorem meets_of_quiet {as : List (Action P)} (h : ∀ a ∈ as, a.isRelease = false)
    (s : Lifetimes P) : Meets step Careful s as := by
  induction as generalizing s with
  | nil => trivial
  | cons a as ih =>
      refine ⟨?_, fun t _ => ih (fun b hb => h b (List.mem_cons_of_mem a hb)) t⟩
      cases a with
      | release c onLoop => cases h _ List.mem_cons_self
      | make c => trivial
      | tie c => trivial
      | channel a => trivial
      | poll answer => trivial
      | serve => trivial
      | leave => trivial
      | destruct c => trivial

/-- The loop has gone on with its list, and nothing else has happened. -/
structure Proceeds (s u : Lifetimes P) : Prop where
  polled : u.polled = s.polled
  life : u.life = s.life
  touched : s.touched ⊆ u.touched

omit [DecidableEq P] in
theorem Proceeds.trans (h : Proceeds s t) (k : Proceeds t u) : Proceeds s u :=
  ⟨k.polled.trans h.polled, k.life.trans h.life, List.Subset.trans h.touched k.touched⟩

/-- The callbacks under way come to their end. -/
theorem exists_left (s : Lifetimes P) :
    ∃ as u, run step s as = some u ∧ (∀ a ∈ as, a.isRelease = false) ∧ Proceeds s u ∧
      u.serving = none ∧ u.toServe = s.toServe ∧
      ∀ c guard, s.serving = some (c, guard) → (c, (s.life c).hasChannel) ∈ u.touched := by
  cases hserving : s.serving with
  | none =>
      refine ⟨[], s, rfl, by simp, ⟨rfl, rfl, List.Subset.refl _⟩, hserving, rfl, ?_⟩
      intro c guard hc
      cases hc
  | some serving =>
      obtain ⟨d, guard⟩ := serving
      have hstep : step s .leave = some { s.touch [d] with serving := none } := by
        simp only [step, hserving]
      refine ⟨[.leave], _, run_cons_eq_some.mpr ⟨_, hstep, rfl⟩, by simp [Action.isRelease],
        ⟨rfl, rfl, List.subset_append_left _ _⟩, rfl, rfl, ?_⟩
      intro c guard' hc
      cases hc
      exact List.mem_append_right _ (List.mem_map.mpr ⟨d, List.mem_singleton_self d, rfl⟩)

/-- The loop reaches the end of its list, and uses every channel on it. -/
theorem exists_drained (due : List P) (hdue : s.toServe = due) :
    ∃ as u, run step s as = some u ∧ (∀ a ∈ as, a.isRelease = false) ∧ Proceeds s u ∧
      u.serving = none ∧ u.toServe = [] ∧
      ∀ c, (c ∈ due ∨ ∃ guard, s.serving = some (c, guard)) →
        (c, (s.life c).hasChannel) ∈ u.touched := by
  induction due generalizing s with
  | nil =>
      obtain ⟨as, u, hrun, hquiet, hp, hserving, hrest, hused⟩ := exists_left s
      refine ⟨as, u, hrun, hquiet, hp, hserving, hrest.trans hdue, ?_⟩
      rintro c (hc | ⟨guard, hc⟩)
      · cases hc
      · exact hused c guard hc
  | cons d due ih =>
      obtain ⟨as, v, hrun, hquiet, hp, hserving, hrest, hused⟩ := exists_left s
      have hstep : step v .serve =
          some { v.touch [d] with toServe := due, serving := v.handleEvent d } := by
        simp only [step, hserving, hrest, hdue]
      obtain ⟨bs, u, hruns, hquiets, hps, hend, hempty, hall⟩ :=
        ih (s := { v.touch [d] with toServe := due, serving := v.handleEvent d }) rfl
      have hserved : Proceeds v { v.touch [d] with toServe := due, serving := v.handleEvent d } :=
        ⟨rfl, rfl, List.subset_append_left _ _⟩
      refine ⟨as ++ .serve :: bs, u, run_append hrun (run_cons_eq_some.mpr ⟨_, hstep, hruns⟩), ?_,
        (hp.trans hserved).trans hps, hend, hempty, ?_⟩
      · intro a ha
        rcases List.mem_append.mp ha with hin | hin
        · exact hquiet a hin
        · rcases List.mem_cons.mp hin with rfl | hin
          · rfl
          · exact hquiets a hin
      · have hlife : ∀ c, (v.life c).hasChannel = (s.life c).hasChannel :=
          fun c => by rw [hp.life]
        rintro c (hc | ⟨guard, hc⟩)
        · rcases List.mem_cons.mp hc with rfl | hc
          · apply hps.touched
            rw [← hlife]
            exact List.mem_append_right _ (List.mem_map.mpr ⟨c, List.mem_singleton_self c, rfl⟩)
          · rw [← hlife]
            exact hall c (.inl hc)
        · exact hps.touched (hserved.touched (hused c guard hc))

omit [DecidableEq P] in
/-- The kernel reports a hang-up on whatever it watches. -/
theorem answerable_hangUp {set : InterestSet P} {fd : ℕ} {e : EpollEvent P}
    (he : set fd = some e) : Answerable set (.ready [(fd, EPOLLHUP)]) := by
  refine ⟨List.nodup_singleton _, ?_⟩
  intro r hr
  obtain rfl := List.mem_singleton.mp hr
  have hmask : EPOLLHUP &&& ~~~(e.events ||| EPOLLERR ||| EPOLLHUP) = 0#32 := by
    ext i
    simp +contextual
  have hsome : (EPOLLHUP != 0#32) = true := by decide
  simp only [he, Option.any_some, hsome, hmask, Bool.true_and, beq_self_eq_true]

/-- Between two passes, the loop can be handed whatever the kernel points to. -/
theorem exists_reported {fd : ℕ} {e : EpollEvent P} (hp : Pointed s.polled.registry)
    (hserving : s.serving = none) (hempty : s.toServe = []) (he : s.interest fd = some e) :
    ∃ t, step s (.poll (.ready [(fd, EPOLLHUP)])) = some t ∧
      (e.ptr, (s.life e.ptr).hasChannel) ∈ t.touched := by
  have ha := answerable_hangUp he
  obtain ⟨q, hq, -, hactive⟩ := iterate_registered hp ha.registered
  have hstep : step s (.poll (.ready [(fd, EPOLLHUP)])) =
      some { s.touch q.activeChannel with polled := q, toServe := q.activeChannel } := by
    simp only [step, hempty, hserving, ha, and_self, if_true, hq, Option.map_some]
  refine ⟨_, hstep, List.mem_append_right _ (List.mem_map.mpr ⟨e.ptr, ?_, rfl⟩)⟩
  rw [hactive]
  exact mem_pointers.mpr ⟨_, List.mem_singleton_self _, e, he, rfl⟩

theorem hasSocket_of_release {c : P} {onLoop : Bool} (ht : step s (.release c onLoop) = some t) :
    (s.life c).hasSocket = true := by
  simp only [step, Option.ite_none_right_eq_some] at ht
  rw [ht.1.1]
  rfl

/-- The destructor has come past the channel, on whichever thread it runs. -/
theorem exists_channelGone {c : P} {onLoop : Bool} (ht : step s (.release c onLoop) = some t) :
    ∃ as v, run step t as = some v ∧ (∀ a ∈ as, a.isRelease = false) ∧
      (v.life c).hasChannel = false ∧ v.toServe = s.toServe ∧ v.serving = s.serving ∧
      (onLoop = false → v.polled = s.polled) := by
  simp only [step, Option.ite_none_right_eq_some, Option.some.injEq] at ht
  obtain ⟨-, rfl⟩ := ht
  cases onLoop with
  | true =>
      have hgone : (s.closeSocket c).life c = .gone := Function.update_self ..
      refine ⟨[], s.closeSocket c, rfl, by simp, ?_, rfl, rfl, ?_⟩
      · rw [hgone]
        rfl
      · intro hno
        cases hno
  | false =>
      have hdying : (s.setLife c .dying).life c = .dying := Function.update_self ..
      have hstep : step (s.setLife c .dying) (.destruct c) =
          some ((s.setLife c .dying).setLife c .channelGone) := by
        simp only [step, hdying]
      have hgone : ((s.setLife c .dying).setLife c .channelGone).life c = .channelGone :=
        Function.update_self ..
      refine ⟨[.destruct c], _, run_cons_eq_some.mpr ⟨_, hstep, rfl⟩, by simp [Action.isRelease],
        ?_, rfl, rfl, fun _ => rfl⟩
      rw [hgone]
      rfl

/-- After a last pointer was dropped without care, the loop can go on so that it
uses a channel that is gone. -/
theorem release_careless (h : Held s) {c : P} {onLoop : Bool}
    (hcareless : ¬ Careful s (.release c onLoop)) (ht : step s (.release c onLoop) = some t) :
    ∃ as u, Meets step Careful t as ∧ run step t as = some u ∧ ¬ Clean u := by
  obtain ⟨as, v, hrun, hquiet, hgone, hdue, hserving, hpolled⟩ := exists_channelGone ht
  obtain ⟨bs, u, hruns, hquiets, hp, hend, hempty, hall⟩ := exists_drained s.toServe hdue
  have hmeets : ∀ a ∈ as ++ bs, a.isRelease = false := by
    intro a ha
    rcases List.mem_append.mp ha with hin | hin
    · exact hquiet a hin
    · exact hquiets a hin
  have husing : (c, false) ∈ u.touched → ¬ Clean u := by
    intro hin hclean
    cases hclean _ hin
  by_cases hlist : c ∈ s.toServe ∨ ∃ guard, s.serving = some (c, guard)
  · refine ⟨as ++ bs, u, meets_of_quiet hmeets t, run_append hrun hruns, husing ?_⟩
    rw [← hgone]
    exact hall c (hserving ▸ hlist)
  · rw [not_or, not_exists] at hlist
    have hkernel : onLoop = false ∧ s.watches c = true := by
      simp only [Careful, not_and, not_or, Bool.not_eq_true, Bool.not_eq_false] at hcareless
      exact hcareless hlist.1 (hlist.2 false)
    obtain ⟨e, he⟩ := Option.isSome_iff_exists.mp hkernel.2
    have hptr : e.ptr = c := by
      obtain ⟨hfd, howner⟩ := h.watched_owner he
      exact h.owner_unique ((h.owned _ _).mp howner).2 (hasSocket_of_release ht) hfd
    have hsame : SameRecords s u := .of_polled (hp.polled.trans (hpolled hkernel.1))
    obtain ⟨w, hstep, hused⟩ := exists_reported (hsame.pointed h.pointed) hend hempty
      ((congrFun hsame.interest (s.fd c)).trans he)
    refine ⟨(as ++ bs) ++ [.poll (.ready [(s.fd c, EPOLLHUP)])], w, meets_of_quiet ?_ t,
      run_append (run_append hrun hruns) (run_cons_eq_some.mpr ⟨w, hstep, rfl⟩), ?_⟩
    · intro a ha
      rcases List.mem_append.mp ha with hin | hin
      · exact hmeets a hin
      · rw [List.mem_singleton.mp hin]
        rfl
    · intro hclean
      rw [hp.life, hptr, hgone] at hused
      cases hclean _ hused

end Harm

section Releases
variable {fd : P → ℕ} {actions : List (Action P)} {s t u : Lifetimes P} {c : P}

theorem held_of_careful (hm : Meets step Careful (start fd) actions)
    (hrun : run step (start fd) actions = some s) : Held s :=
  run_preserves_of_meets step_held (start_held fd) hm hrun

omit [DecidableEq P] in
theorem Held.sound (h : Held s) : Sound s :=
  ⟨h.clean, fun fd e he => ⟨(h.watched_owner he).2, h.watched fd e he⟩⟩

/-- Runs with care are sound throughout, however descriptors are given out again. -/
theorem sound_throughout (hm : Meets step Careful (start fd) actions) :
    Throughout step Sound (start fd) actions :=
  throughout_of_meets step_held (fun _ h => h.sound) (start_held fd) hm

theorem held_release_safe_iff (h : Held s) {onLoop : Bool}
    (ht : step s (.release c onLoop) = some t) :
    (∀ as u, Meets step Careful t as → run step t as = some u → Sound u) ↔
      Careful s (.release c onLoop) := by
  constructor
  · intro hall
    by_contra hcareless
    obtain ⟨as, u, hm, hrun, hharm⟩ := release_careless h hcareless ht
    exact hharm (hall as u hm hrun).1
  · intro hcareful as u hm hrun
    have hheld : Held t := step_held s _ t h hcareful ht
    exact (run_preserves_of_meets step_held hheld hm hrun).sound

/-- After any run that has been careful so far, the drop of a last pointer leaves
the loop sound however the run goes on with care, exactly if it is careful itself. -/
theorem release_safe_iff (hm : Meets step Careful (start fd) actions)
    (hrun : run step (start fd) actions = some s) {onLoop : Bool}
    (ht : step s (.release c onLoop) = some t) :
    (∀ as u, Meets step Careful t as → run step t as = some u → Sound u) ↔
      Careful s (.release c onLoop) :=
  held_release_safe_iff (held_of_careful hm hrun) ht

/-- A connection is made, established and read from. -/
def readOnce : List (Action ℕ) :=
  [.make 0, .tie 0, .channel (.enableReading 0), .poll (.ready [(0, EPOLLIN)]), .serve, .leave]

def idleOne : Lifetimes ℕ := (run step (start id) readOnce).getD (start id)

theorem idleOne_reached : run step (start id) readOnce = some idleOne := rfl

theorem release_safe_iff_idleOne :
    (∀ as u, Meets step Careful (idleOne.closeSocket 0) as →
      run step (idleOne.closeSocket 0) as = some u → Sound u) ↔
        Careful idleOne (.release 0 true) :=
  release_safe_iff (by decide) idleOne_reached rfl

/-- It is the thread that makes the difference here. -/
example : Careful idleOne (.release 0 true) ∧ ¬ Careful idleOne (.release 0 false) := by decide

/-- `Channel::remove` ends the watching of a channel only if it finds it added and
without interest. -/
theorem remove_unwatches_iff (h : Held s) (ht : step s (.channel (.remove c)) = some t) :
    t.watches c = false ↔
      (s.channel c).status = .kAdded ∧ (s.channel c).events = kNoneEvent := by
  have hheld : Held t := step_held s (.channel (.remove c)) t h trivial ht
  simp only [step, Option.ite_none_right_eq_some, Option.some.injEq] at ht
  obtain ⟨halive, rfl⟩ := ht
  have hopen : (s.life c).hasSocket = true := (congrArg Life.hasSocket halive).trans rfl
  have hstatus : ((s.setRegistry (act s.polled.registry (.remove c))).channel c).status =
      (s.polled.registry.poller.updateChannel epollCtl (s.channel c)).2.status :=
    congrArg Channel.status (Registry.put_self ..)
  have hadded := EPollPoller.updateChannel_added_iff epollCtl s.polled.registry.poller (s.channel c)
  rw [← hstatus] at hadded
  rw [← Bool.not_eq_true, hheld.watches_iff hopen, hadded]
  constructor
  · intro hnot
    obtain ⟨hempty, hkept⟩ := Classical.not_imp.mp hnot
    exact ⟨not_not.mp hkept, hempty⟩
  · rintro ⟨hkept, hempty⟩ hall
    exact hall hempty hkept

/-- `connectDestroyed` ends with the removal of the channel. Once it has run as a
functor, a last pointer may be dropped on another thread, without `poll` or the
dispatch using the channel afterwards, only if the removal found it added and
without interest. -/
theorem removed_release_safe_iff (hm : Meets step Careful (start fd) actions)
    (hrun : run step (start fd) actions = some s) (hidle : s.toServe = [] ∧ s.serving = none)
    (ht : step s (.channel (.remove c)) = some t) (hu : step t (.release c false) = some u) :
    (∀ as w, Meets step Careful u as → run step u as = some w → Sound w) ↔
      (s.channel c).status = .kAdded ∧ (s.channel c).events = kNoneEvent := by
  have hs : Held s := held_of_careful hm hrun
  have hheld : Held t := step_held s (.channel (.remove c)) t hs trivial ht
  rw [held_release_safe_iff hheld hu, ← remove_unwatches_iff hs ht]
  simp only [step, Option.ite_none_right_eq_some, Option.some.injEq] at ht
  obtain ⟨-, rfl⟩ := ht
  have hlist : c ∉ s.toServe ∧ s.serving ≠ some (c, false) := by
    rw [hidle.1, hidle.2]
    exact ⟨List.not_mem_nil, by simp⟩
  constructor
  · rintro ⟨-, -, hkernel⟩
    exact hkernel.resolve_left (by decide)
  · intro hkernel
    exact ⟨hlist.1, hlist.2, .inr hkernel⟩

theorem removed_release_safe_iff_idleOne :
    (∀ as w, Meets step Careful ((idleOne.setRegistry
        (act idleOne.polled.registry (.remove 0))).setLife 0 .dying) as →
      run step ((idleOne.setRegistry (act idleOne.polled.registry (.remove 0))).setLife 0 .dying)
        as = some w → Sound w) ↔
      (idleOne.channel 0).status = .kAdded ∧ (idleOne.channel 0).events = kNoneEvent :=
  removed_release_safe_iff (by decide) idleOne_reached (by decide) rfl rfl

end Releases

end Netmux.ChannelLifetime
