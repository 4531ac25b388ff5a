import Netmux.ActionRuns
import Netmux.BoundedMemory
import Netmux.RoundRobin
import Netmux.TcpServer

/-!
# Choosing a loop

`EventLoopThreadPool`. Each start adds the loops of as many threads as are set,
and `getNextLoop` takes them in turn. The index is an `int`, and the access goes
unchecked; that it stays inside a list which only grows is what makes every call
return one of the loops. The choice of a loop in `TcpServer`, which numbers its
loops, is that of such a pool.
-/
namespace Netmux.ThreadPool
open ActionRuns BoundedMemory RoundRobin

variable {L : Type}

/-- The pool, with loops by their addresses. -/
structure EventLoopThreadPool (L : Type) where
  started : Bool
  threadNum : ℤ
  next : ℤ
  mainLoop : L
  loops : List L
  deriving DecidableEq, Repr

namespace EventLoopThreadPool

def create (mainLoop : L) : EventLoopThreadPool L := ⟨false, 0, 0, mainLoop, []⟩

def setThreadNum (p : EventLoopThreadPool L) (threadNum : ℤ) : EventLoopThreadPool L :=
  { p with threadNum := threadNum }

/-- The next value of an `int`; the largest one has none. -/
def increment (i : ℤ) : Option ℤ := if i + 1 < 2 ^ 31 then some (i + 1) else none

/-- The chosen loop; `none` if the index is outside the list or overflows. -/
def getNextLoop (p : EventLoopThreadPool L) : Option (EventLoopThreadPool L × L) :=
  if p.loops.isEmpty then some (p, p.mainLoop)
  else do
    let loop ← p.loops[toSize p.next]?
    let following ← increment p.next
    return ({ p with next := toInt (toSize following % p.loops.length) }, loop)

/-- `start`, with the loops that the new threads hand out. -/
def start (p : EventLoopThreadPool L) (created : List L) : EventLoopThreadPool L :=
  { p with started := true, loops := p.loops ++ created }

/-- A loop is on the stack of its thread, so that no two are at one address. There
are fewer threads than thread ids, which are of type `int`. -/
structure Creates (p : EventLoopThreadPool L) (created : List L) : Prop where
  count : created.length = p.threadNum.toNat
  distinct : (p.loops ++ created).Nodup
  limit : (p.loops ++ created).length < 2 ^ 31

instance [DecidableEq L] (p : EventLoopThreadPool L) (created : List L) :
    Decidable (p.Creates created) :=
  decidable_of_iff (created.length = p.threadNum.toNat ∧ (p.loops ++ created).Nodup ∧
    (p.loops ++ created).length < 2 ^ 31)
    ⟨fun h => ⟨h.1, h.2.1, h.2.2⟩, fun h => ⟨h.count, h.distinct, h.limit⟩⟩

end EventLoopThreadPool

open EventLoopThreadPool

inductive Action (L : Type) where
  | setThreadNum (threadNum : ℤ)
  | start (created : List L)
  | getNextLoop
  deriving DecidableEq, Repr

variable [DecidableEq L]

def step (p : EventLoopThreadPool L) : Action L → Option (EventLoopThreadPool L)
  | .setThreadNum threadNum => some (p.setThreadNum threadNum)
  | .start created => if p.Creates created then some (p.start created) else none
  | .getNextLoop => p.getNextLoop.map Prod.fst

/-- `k` calls of `getNextLoop` in a row, and the loops they return. -/
def calls (p : EventLoopThreadPool L) (k : ℕ) : Option (EventLoopThreadPool L × List L) :=
  trace (fun p _ => p.getNextLoop) p (List.replicate k ())

/-- Distinct loops, and an index to one of them once there are any. -/
structure InRange (p : EventLoopThreadPool L) (i : ℕ) : Prop where
  distinct : p.loops.Nodup
  limit : p.loops.length < 2 ^ 31
  next : p.next = i
  index : i < max 1 p.loops.length

omit [DecidableEq L] in
/-- A call takes the turn at the index, and the index moves on by one. -/
theorem InRange.getNextLoop {p : EventLoopThreadPool L} {i : ℕ} (h : InRange p i)
    (hl : 0 < p.loops.length) :
    p.getNextLoop = some ({ p with next := ((i + 1) % p.loops.length : ℕ) }, turn hl i) ∧
      InRange { p with next := ((i + 1) % p.loops.length : ℕ) } ((i + 1) % p.loops.length) := by
  have hi : i < p.loops.length := by
    have hmax := h.index
    omega
  have hlimit := h.limit
  have hmod := Nat.mod_lt (i + 1) hl
  refine ⟨?_, ⟨h.distinct, h.limit, rfl, lt_max_of_lt_right hmod⟩⟩
  have hfull : p.loops.isEmpty = false := by
    rw [List.isEmpty_eq_false_iff]
    exact List.ne_nil_of_length_pos hl
  have hloop : p.loops[toSize p.next]? = some (turn hl i) := by
    have hturn : turn hl i = p.loops[i] := by
      simp only [turn, Nat.mod_eq_of_lt hi, List.get_eq_getElem]
    rw [h.next, toSize_natCast (by omega), List.getElem?_eq_getElem hi, hturn]
  have hfollowing : increment p.next = some ((i + 1 : ℕ) : ℤ) := by
    unfold increment
    rw [h.next, if_pos (by omega)]
    rfl
  have hnext : toInt (toSize ((i + 1 : ℕ) : ℤ) % p.loops.length) =
      ((i + 1) % p.loops.length : ℕ) := by
    rw [toSize_natCast (by omega), toInt_eq (hmod.trans hlimit)]
  unfold EventLoopThreadPool.getNextLoop
  simp only [hfull, hloop, hfollowing, Bool.false_eq_true, if_false, bind, Option.bind, hnext]
  rfl

omit [DecidableEq L] in
theorem calls_succ (p : EventLoopThreadPool L) (k : ℕ) :
    calls p (k + 1) = p.getNextLoop.bind fun r => (calls r.1 k).map fun q => (q.1, r.2 :: q.2) :=
  rfl

omit [DecidableEq L] in
/-- Any number of calls in a row goes through and returns that many turns. -/
theorem InRange.calls {p : EventLoopThreadPool L} {i : ℕ} (h : InRange p i)
    (hl : 0 < p.loops.length) (k : ℕ) : ∃ q, calls p k = some (q, turns hl i k) := by
  induction k generalizing p i with
  | zero => exact ⟨p, rfl⟩
  | succ k ih =>
      obtain ⟨hcall, hrange⟩ := h.getNextLoop hl
      obtain ⟨q, hq⟩ := ih hrange hl
      refine ⟨q, ?_⟩
      rw [calls_succ, hcall, Option.bind_some, hq, turns_mod]
      rfl

/-- Every step keeps the index in range, a start because the list only grows. -/
theorem step_inRange (p : EventLoopThreadPool L) (a : Action L) (t : EventLoopThreadPool L)
    (h : ∃ i, InRange p i) (ht : step p a = some t) : ∃ i, InRange t i := by
  obtain ⟨i, h⟩ := h
  cases a with
  | setThreadNum threadNum =>
      cases ht
      exact ⟨i, h.distinct, h.limit, h.next, h.index⟩
  | start created =>
      simp only [step, Option.ite_none_right_eq_some, Option.some.injEq] at ht
      obtain ⟨hcreates, rfl⟩ := ht
      have hgrows : p.loops.length ≤ (p.loops ++ created).length := by
        rw [List.length_append]
        exact Nat.le_add_right ..
      have hindex : i < max 1 (p.loops ++ created).length :=
        h.index.trans_le (max_le_max_left 1 hgrows)
      exact ⟨i, hcreates.distinct, hcreates.limit, h.next, hindex⟩
  | getNextLoop =>
      obtain ⟨r, hr, rfl⟩ := Option.map_eq_some_iff.mp ht
      rcases Nat.eq_zero_or_pos p.loops.length with hempty | hl
      · have hnone : p.getNextLoop = some (p, p.mainLoop) := by
          unfold EventLoopThreadPool.getNextLoop
          rw [List.eq_nil_of_length_eq_zero hempty]
          rfl
        cases hr.symm.trans hnone
        exact ⟨i, h⟩
      · obtain ⟨hcall, hrange⟩ := h.getNextLoop hl
        cases hr.symm.trans hcall
        exact ⟨_, hrange⟩

omit [DecidableEq L] in
theorem create_inRange (mainLoop : L) : InRange (create mainLoop) 0 :=
  ⟨List.nodup_nil, Nat.two_pow_pos 31, rfl, lt_max_of_lt_left Nat.zero_lt_one⟩

/-- The loops are distinct, and any number of calls in a row goes through and
allots the connections to them in turn. -/
structure Balanced (p : EventLoopThreadPool L) : Prop where
  distinct : p.loops.Nodup
  fair : ∀ k, ∃ q out, calls p k = some (q, out) ∧ out.length = k ∧ Fair p.loops out

theorem InRange.balanced {p : EventLoopThreadPool L} {i : ℕ} (h : InRange p i)
    (hl : 0 < p.loops.length) : Balanced p := by
  refine ⟨h.distinct, fun k => ?_⟩
  obtain ⟨q, hq⟩ := h.calls hl k
  exact ⟨q, turns hl i k, hq, length_turns hl i k, turns_fair hl h.distinct i k⟩

/-- In every reachable state a pool with threads is balanced, and again after
another start. -/
theorem round_robin_balanced {mainLoop : L} {p : EventLoopThreadPool L}
    (h : Reaches step (create mainLoop) p) (hl : p.loops ≠ []) :
    Balanced p ∧ ∀ created q, step p (.start created) = some q → Balanced q := by
  obtain ⟨i, hi⟩ := h.preserves step_inRange ⟨0, create_inRange mainLoop⟩
  refine ⟨hi.balanced (List.length_pos_iff.mpr hl), fun created q hq => ?_⟩
  obtain ⟨j, hj⟩ := step_inRange p (.start created) q ⟨i, hi⟩ hq
  apply hj.balanced
  simp only [step, Option.ite_none_right_eq_some, Option.some.injEq] at hq
  obtain ⟨-, rfl⟩ := hq
  exact List.length_pos_iff.mpr (List.append_ne_nil_of_left_ne_nil hl created)

/-- The pool of a server, whose loops are known by their numbers. -/
def poolOf (s : TcpServer.Server) : EventLoopThreadPool TcpServer.LoopId where
  started := true
  threadNum := s.threadNum
  next := s.nextLoop
  mainLoop := .base
  loops := (List.range s.threadNum).map .io

theorem poolOf_inRange {s : TcpServer.Server} (hn : s.threadNum < 2 ^ 31)
    (hi : s.nextLoop < max 1 s.threadNum) : InRange (poolOf s) s.nextLoop := by
  have hlength : (poolOf s).loops.length = s.threadNum := by
    simp only [poolOf, List.length_map, List.length_range]
  have hinjective : Function.Injective TcpServer.LoopId.io := fun _ _ => TcpServer.LoopId.io.inj
  exact ⟨List.nodup_range.map hinjective, hlength.trans_lt hn, rfl, hlength.symm ▸ hi⟩

/-- The server's choice is its pool's. -/
theorem server_getNextLoop {s : TcpServer.Server} (hn : s.threadNum < 2 ^ 31)
    (hi : s.nextLoop < max 1 s.threadNum) :
    (poolOf s).getNextLoop =
      some (poolOf { s with nextLoop := s.getNextLoop.2 }, s.getNextLoop.1) := by
  have hrange := poolOf_inRange hn hi
  unfold TcpServer.Server.getNextLoop
  rcases Nat.eq_zero_or_pos s.threadNum with hzero | hpos
  · rw [if_pos hzero]
    unfold EventLoopThreadPool.getNextLoop poolOf
    rw [hzero]
    rfl
  · have hl : 0 < (poolOf s).loops.length := by
      simpa only [poolOf, List.length_map, List.length_range] using hpos
    have hlt : s.nextLoop < s.threadNum := by omega
    have hturn : turn hl s.nextLoop = .io s.nextLoop := by
      simp [turn, poolOf, Nat.mod_eq_of_lt hlt]
    rw [if_neg hpos.ne', (hrange.getNextLoop hl).1, hturn]
    simp [poolOf]

/-- Two threads, one of which has got a connection. -/
def sample : EventLoopThreadPool ℕ := ⟨true, 2, 1, 0, [10, 20]⟩

theorem sample_reached : Reaches step (create 0) sample :=
  ⟨[.setThreadNum 2, .start [10, 20], .getNextLoop], by decide +kernel⟩

theorem round_robin_balanced_sample :
    Balanced sample ∧ ∀ created q, step sample (.start created) = some q → Balanced q :=
  round_robin_balanced sample_reached (by decide)

end Netmux.ThreadPool
