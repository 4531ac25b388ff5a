import Netmux.ActionRuns
import Netmux.UniqueOwnership
import Mathlib.Tactic.SplitIfs

/-!
# The socket class that owns its descriptor

`Socket`, `TcpClient` and `TcpServer` of `TcpSocket.h`: a socket cannot be
copied, it is moved, and whoever holds a descriptor at the end closes it. A
constructor that throws leaves no object, and its base holds no descriptor yet.
Objects are numbered; the rest of the process opens and closes descriptors of its
own, and may hand one over to a socket.

What each call does with the network is left out; `touched` collects the
descriptors that the class passes to the kernel and whether they were open.
-/
namespace Netmux.TcpSocket
open ActionRuns UniqueOwnership

/-- The `fd` of every object that lives, nothing for -1, and the kernel's side. -/
structure Process where
  objects : ℕ → Option (Option ℕ)
  opened : Finset ℕ
  elsewhere : Finset ℕ
  touched : List (ℕ × Bool)

inductive Action where
  | default (this : ℕ)
  | adopt (this fd : ℕ)
  | socket (this : ℕ) (result : Option ℕ)
  | acceptClient (client this : ℕ) (result : Option ℕ)
  | moveConstruct (this other : ℕ)
  | moveAssign (this other : ℕ)
  | destroy (this : ℕ)
  | call (this : ℕ)
  | openElsewhere (fd : ℕ)
  | closeElsewhere (fd : ℕ)

/-- Before any socket is made. -/
def start (others : Finset ℕ) : Process where
  objects _ := none
  opened := others
  elsewhere := others
  touched := []

def Process.put (s : Process) (this : ℕ) (object : Option (Option ℕ)) : Process :=
  { s with objects := Function.update s.objects this object }

/-- A call on a descriptor; -1 is refused whatever the call. -/
def Process.touch (s : Process) : Option ℕ → Process
  | none => s
  | some fd => { s with touched := (fd, decide (fd ∈ s.opened)) :: s.touched }

/-- `if (fd != -1) close(fd)`. -/
def Process.close (s : Process) : Option ℕ → Process
  | none => s
  | some fd => { s.touch (some fd) with opened := s.opened.erase fd }

/-- The object of a constructor that got this result from the kernel, if it does
not throw; the kernel hands out no descriptor that is open. -/
def Process.construct (s : Process) (this : ℕ) : Option ℕ → Option Process
  | none => some s
  | some fd =>
      if fd ∈ s.opened then none
      else some ({ s with opened := insert fd s.opened }.put this (some (some fd)))

def step (s : Process) : Action → Option Process
  | .default this => if s.objects this = none then some (s.put this (some none)) else none
  | .adopt this fd =>
      if s.objects this = none then
        some ({ s with elsewhere := s.elsewhere.erase fd }.put this (some (some fd)))
      else none
  | .socket this result => if s.objects this = none then s.construct this result else none
  | .acceptClient client this result =>
      match s.objects this with
      | none => none
      | some fd =>
          if s.objects client = none ∧ (fd = none → result = none) then
            (s.touch fd).construct client result
          else none
  | .moveConstruct this other =>
      match s.objects other with
      | none => none
      | some fd =>
          if s.objects this = none then some ((s.put this (some fd)).put other (some none))
          else none
  | .moveAssign this other =>
      match s.objects this, s.objects other with
      | some fd, some otherFd =>
          if this = other then some s
          else some (((s.close fd).put this (some otherFd)).put other (some none))
      | _, _ => none
  | .destroy this =>
      match s.objects this with
      | none => none
      | some fd => some ((s.close fd).put this none)
  | .call this =>
      match s.objects this with
      | none => none
      | some fd => some (s.touch fd)
  | .openElsewhere fd =>
      if fd ∈ s.opened then none
      else some { s with opened := insert fd s.opened, elsewhere := insert fd s.elsewhere }
  | .closeElsewhere fd =>
      some { s with opened := s.opened.erase fd, elsewhere := s.elsewhere.erase fd }

/-- The rest of the process hands over and closes only descriptors of its own. -/
def Legal (s : Process) : Action → Prop
  | .adopt _ fd => fd ∈ s.elsewhere
  | .closeElsewhere fd => fd ∈ s.elsewhere
  | _ => True

instance (s : Process) : (a : Action) → Decidable (Legal s a)
  | .adopt _ fd => inferInstanceAs (Decidable (fd ∈ s.elsewhere))
  | .closeElsewhere fd => inferInstanceAs (Decidable (fd ∈ s.elsewhere))
  | .default _ | .socket _ _ | .acceptClient _ _ _ | .moveConstruct _ _ | .moveAssign _ _
  | .destroy _ | .call _ | .openElsewhere _ => isTrue trivial

/-- Objects as owners, descriptors as handles. -/
def ledger (s : Process) : Ledger ℕ ℕ where
  held this := (s.objects this).join
  opened := s.opened
  elsewhere := s.elsewhere

/-- Every descriptor passed to the kernel was open. -/
def Clean (s : Process) : Prop := ∀ c ∈ s.touched, c.2 = true

def Sound (s : Process) : Prop := Balanced (ledger s) ∧ Clean s

variable {s t : Process} {this other : ℕ}

theorem held_eq_some {fd : ℕ} :
    (ledger s).held this = some fd ↔ s.objects this = some (some fd) := Option.join_eq_some_iff

theorem held_put (s : Process) (this : ℕ) (object : Option (Option ℕ)) :
    (ledger (s.put this object)).held = Function.update (ledger s).held this object.join := by
  funext k
  by_cases hk : k = this
  · simp [ledger, Process.put, hk]
  · simp [ledger, Process.put, hk]

theorem ledger_touch (s : Process) (fd : Option ℕ) : ledger (s.touch fd) = ledger s := by
  cases fd with
  | none => rfl
  | some fd => rfl

theorem ledger_close_put {fd : Option ℕ} (hfd : s.objects this = some fd) :
    ledger ((s.close fd).put this none) = (ledger s).release this := by
  have hheld : (ledger s).held this = fd := by simp [ledger, hfd]
  refine Ledger.ext ?_ ?_ ?_
  · rw [held_put]
    cases fd with
    | none => rfl
    | some fd => rfl
  · simp only [Ledger.release, hheld]
    cases fd with
    | none => rfl
    | some fd => rfl
  · cases fd with
    | none => rfl
    | some fd => rfl

/-- The old descriptor is closed, then the other object's is taken over. -/
theorem ledger_moveAssign {fd otherFd : Option ℕ} (hfd : s.objects this = some fd)
    (hother : s.objects other = some otherFd) (hne : this ≠ other) :
    ledger (((s.close fd).put this (some otherFd)).put other (some none)) =
      ((ledger s).release this).handOn this other := by
  have hheld : ((ledger s).release this).held other = otherFd := by
    simp [Ledger.release, Function.update_of_ne hne.symm, ledger, hother]
  have hclosed := ledger_close_put hfd
  refine Ledger.ext ?_ ?_ ?_
  · simp only [held_put, Ledger.handOn, hheld]
    rw [← hclosed, held_put, Function.update_idem]
    rfl
  · have hopened := congrArg Ledger.opened hclosed
    exact hopened
  · have helsewhere := congrArg Ledger.elsewhere hclosed
    exact helsewhere

theorem ledger_moveConstruct {fd : Option ℕ} (hother : s.objects other = some fd) :
    ledger ((s.put this (some fd)).put other (some none)) = (ledger s).handOn this other := by
  have hheld : (ledger s).held other = fd := by simp [ledger, hother]
  refine Ledger.ext ?_ rfl rfl
  simp only [held_put, Ledger.handOn, hheld]
  rfl

/-- A socket touches its own descriptor, which is open. -/
theorem Sound.touch {fd : Option ℕ} (hs : Sound s) (hfd : s.objects this = some fd) :
    Sound (s.touch fd) := by
  refine ⟨(ledger_touch s fd).symm ▸ hs.1, ?_⟩
  cases fd with
  | none => exact hs.2
  | some fd =>
      intro c hc
      rcases List.mem_cons.mp hc with rfl | hc
      · exact decide_eq_true (hs.1.open_of_held (held_eq_some.mpr hfd))
      · exact hs.2 c hc

theorem touched_close (s : Process) (fd : Option ℕ) :
    (s.close fd).touched = (s.touch fd).touched := by
  cases fd with
  | none => rfl
  | some fd => rfl

theorem Sound.close {fd : Option ℕ} (hs : Sound s) (hfd : s.objects this = some fd) :
    Clean (s.close fd) := by
  rw [Clean, touched_close]
  exact (hs.touch hfd).2

theorem Sound.construct {result : Option ℕ} (hs : Sound s) (hdead : s.objects this = none)
    (h : s.construct this result = some t) : Sound t := by
  have hfree : (ledger s).held this = none := by simp [ledger, hdead]
  cases result with
  | none =>
      cases h
      exact hs
  | some fd =>
      simp only [Process.construct] at h
      split_ifs at h with hopen
      cases h
      have hledger : ledger ({ s with opened := insert fd s.opened }.put this (some (some fd))) =
          (ledger s).acquire this fd := Ledger.ext (held_put _ _ _) rfl rfl
      exact ⟨hledger ▸ hs.1.acquire hfree hopen, hs.2⟩

/-- Every step keeps one owner for every descriptor, and touches only open ones. -/
theorem Sound.step {a : Action} (hs : Sound s) (hlegal : Legal s a) (h : step s a = some t) :
    Sound t := by
  cases a with
  | default this =>
      simp only [TcpSocket.step] at h
      split_ifs at h with hdead
      cases h
      have hfree : (ledger s).held this = none := by simp [ledger, hdead]
      have hledger : ledger (s.put this (some none)) = ledger s := by
        refine Ledger.ext ((held_put _ _ _).trans ?_) rfl rfl
        exact Function.update_eq_self_iff.mpr hfree.symm
      exact ⟨hledger ▸ hs.1, hs.2⟩
  | adopt this fd =>
      simp only [TcpSocket.step] at h
      split_ifs at h with hdead
      cases h
      have hfree : (ledger s).held this = none := by simp [ledger, hdead]
      have hledger : ledger ({ s with elsewhere := s.elsewhere.erase fd }.put this
          (some (some fd))) = (ledger s).claim this fd := Ledger.ext (held_put _ _ _) rfl rfl
      exact ⟨hledger ▸ hs.1.claim hfree hlegal, hs.2⟩
  | socket this result =>
      simp only [TcpSocket.step] at h
      split_ifs at h with hdead
      exact hs.construct hdead h
  | acceptClient client this result =>
      simp only [TcpSocket.step] at h
      split at h
      · cases h
      · rename_i fd hfd
        split_ifs at h with hcond
        have hdead : (s.touch fd).objects client = none := by
          cases fd with
          | none => exact hcond.1
          | some fd => exact hcond.1
        exact (hs.touch hfd).construct hdead h
  | moveConstruct this other =>
      simp only [TcpSocket.step] at h
      split at h
      · cases h
      · rename_i fd hother
        split_ifs at h with hdead
        cases h
        have hne : this ≠ other := by
          rintro rfl
          simp [hdead] at hother
        have hfree : (ledger s).held this = none := by simp [ledger, hdead]
        exact ⟨(ledger_moveConstruct hother) ▸ hs.1.handOn hne hfree, hs.2⟩
  | moveAssign this other =>
      simp only [TcpSocket.step] at h
      split at h
      · rename_i fd otherFd hfd hother
        split_ifs at h with hself
        · cases h
          exact hs
        · cases h
          have hfree : ((ledger s).release this).held this = none := Function.update_self ..
          have hbalanced := hs.1.release.handOn hself hfree
          exact ⟨(ledger_moveAssign hfd hother hself) ▸ hbalanced, hs.close hfd⟩
      · cases h
  | destroy this =>
      simp only [TcpSocket.step] at h
      split at h
      · cases h
      · rename_i fd hfd
        cases h
        exact ⟨(ledger_close_put hfd) ▸ hs.1.release, hs.close hfd⟩
  | call this =>
      simp only [TcpSocket.step] at h
      split at h
      · cases h
      · rename_i fd hfd
        cases h
        exact hs.touch hfd
  | openElsewhere fd =>
      simp only [TcpSocket.step] at h
      split_ifs at h with hopen
      cases h
      exact ⟨hs.1.acquireElsewhere hopen, hs.2⟩
  | closeElsewhere fd =>
      cases h
      exact ⟨hs.1.releaseElsewhere hlegal, hs.2⟩

theorem sound_start (others : Finset ℕ) : Sound (start others) := by
  refine ⟨⟨?_, ?_, ?_⟩, ?_⟩
  · intro i j fd hi
    simp [ledger, start] at hi
  · intro i fd hi
    simp [ledger, start] at hi
  · intro fd
    simp [ledger, start]
  · intro c hc
    simp [start] at hc

/-- In every run in which the rest of the process keeps to its own descriptors, no
two sockets ever hold the same one, every open descriptor has a socket or the
rest of the process to close it, and the class closes and uses only open ones. -/
theorem one_owner {others : Finset ℕ} {as : List Action}
    (hm : Meets step Legal (start others) as) (h : run step (start others) as = some t) :
    (∀ i j fd, t.objects i = some (some fd) → t.objects j = some (some fd) → i = j) ∧
      (∀ i fd, t.objects i = some (some fd) → fd ∉ t.elsewhere) ∧
      (∀ fd, fd ∈ t.opened ↔ fd ∈ t.elsewhere ∨ ∃ i, t.objects i = some (some fd)) ∧
      ∀ c ∈ t.touched, c.2 = true := by
  obtain ⟨hl, hclean⟩ := run_preserves_of_meets (fun s a t hs hc ht => Sound.step hs hc ht)
    (sound_start others) hm h
  refine ⟨fun i j fd hi hj => ?_, fun i fd hi => ?_, fun fd => ?_, hclean⟩
  · exact hl.one i j fd (held_eq_some.mpr hi) (held_eq_some.mpr hj)
  · exact hl.apart i fd (held_eq_some.mpr hi)
  · have haccounted := hl.accounted fd
    simp only [held_eq_some] at haccounted
    exact haccounted

/-- A listener accepts two clients; the second one replaces the first, is sent to,
and leaves the number of the first to a descriptor opened elsewhere. -/
def replacing : List Action := [
  .socket 0 (some 3), .acceptClient 1 0 (some 4), .acceptClient 2 0 (some 5), .moveAssign 1 2,
  .openElsewhere 4, .call 1, .destroy 2, .destroy 1, .closeElsewhere 4, .destroy 0]

theorem one_owner_replacing : ∃ t, run step (start {0, 1, 2}) replacing = some t ∧
    (∀ i j fd, t.objects i = some (some fd) → t.objects j = some (some fd) → i = j) ∧
      (∀ i fd, t.objects i = some (some fd) → fd ∉ t.elsewhere) ∧
      (∀ fd, fd ∈ t.opened ↔ fd ∈ t.elsewhere ∨ ∃ i, t.objects i = some (some fd)) ∧
      ∀ c ∈ t.touched, c.2 = true := by
  obtain ⟨t, h⟩ := Option.isSome_iff_exists.mp
    (by decide +kernel : (run step (start {0, 1, 2}) replacing).isSome = true)
  exact ⟨t, h, one_owner (by decide +kernel) h⟩

end Netmux.TcpSocket
