import Netmux.ActionRuns
import Mathlib.Data.Finset.Basic
import Mathlib.Data.Option.Defs
import Mathlib.Tactic.SplitIfs

/-!
# Calls on the clients of a multiplexed server

What `select_server.c`, `poll_server.c` and `epoll_server.c` share: one thread
asks the kernel which descriptors are readable, accepts on the listening one and
answers each other one with the whole buffer that `recv` wrote into.

`permit` is the specification of such a server, over the set of descriptors
that are open: a client is accepted on a fresh descriptor, and every later call
names one that is open until it is closed. The kernel's results are parameters of
a pass, as is what the buffer held before; a send is taken to go through, and
`epoll_ctl` on an open descriptor to succeed. What is printed is left out.
-/
namespace Netmux.ClientCalls
open ActionRuns

/-- `sizeof(buffer)` of each server. -/
def bufferSize : ℕ := 1024

/-- The result of a `recv` that returns a positive length. -/
structure Chunk where
  bytes : List UInt8
  nonempty : 0 < bytes.length
  fits : bytes.length ≤ bufferSize
  deriving DecidableEq

structure Buffer where
  bytes : List UInt8
  whole : bytes.length = bufferSize

def oneByte : Chunk := ⟨[7], by decide, by decide⟩

def zeroed : Buffer := ⟨List.replicate bufferSize 0, List.length_replicate⟩

inductive Received where
  | data (chunk : Chunk)
  | closed
  | failed

/-- A call on a client's descriptor and what it came to. -/
inductive Call where
  | accepted (cfd : ℕ)
  | answered (fd : ℕ) (chunk : Chunk) (reply : List UInt8)
  | left (fd : ℕ)
  | failed (fd : ℕ)
  deriving DecidableEq

/-- The client the call is about. -/
def Call.client : Call → ℕ
  | .accepted cfd => cfd
  | .answered fd _ _ => fd
  | .left fd => fd
  | .failed fd => fd

/-- What the kernel returns in a pass, and what `buffer` holds before a `recv`. -/
structure Answers where
  accept : Option ℕ
  recv : ℕ → Received
  stack : ℕ → Buffer

/-- Every client writes, and one more connects if the listening socket is readable. -/
def writing (cfd : ℕ) : Answers := ⟨some cfd, fun _ => .data oneByte, fun _ => zeroed⟩

/-- The buffer once the chunk is written into it. -/
def Chunk.over (chunk : Chunk) (stack : Buffer) : List UInt8 :=
  chunk.bytes ++ stack.bytes.drop chunk.bytes.length

theorem Chunk.length_over (chunk : Chunk) (stack : Buffer) :
    (chunk.over stack).length = bufferSize := by
  have hfits := chunk.fits
  have hwhole := stack.whole
  simp only [Chunk.over, List.length_append, List.length_drop]
  omega

theorem Chunk.isPrefix_over (chunk : Chunk) (stack : Buffer) :
    chunk.bytes <+: chunk.over stack := List.prefix_append _ _

/-- The call that a `recv` on this descriptor leads to. -/
def Answers.called (k : Answers) (fd : ℕ) : Call :=
  match k.recv fd with
  | .data chunk => .answered fd chunk (chunk.over (k.stack fd))
  | .closed => .left fd
  | .failed => .failed fd

@[simp] theorem Answers.client_called (k : Answers) (fd : ℕ) : (k.called fd).client = fd := by
  cases hrecv : k.recv fd <;> simp only [Answers.called, hrecv, Call.client]

/-- The call that an `accept` leads to, if it succeeds. -/
def Answers.accepted (k : Answers) : List Call := (k.accept.map Call.accepted).toList

/-- What a pass does for one reported descriptor. -/
def Answers.calls (k : Answers) (listening fd : ℕ) : List Call :=
  if fd = listening then k.accepted else [k.called fd]

/-- A call in a pass is the accept, or one on a reported client. -/
theorem Answers.mem_calls {k : Answers} {listening fd : ℕ} {c : Call}
    (hc : c ∈ k.calls listening fd) : c = .accepted c.client ∨ c.client = fd := by
  simp only [Answers.calls] at hc
  split_ifs at hc
  · left
    obtain ⟨cfd, -, rfl⟩ := Option.map_eq_some_iff.mp (Option.mem_toList.mp hc)
    rfl
  · right
    rw [List.mem_singleton.mp hc, client_called]

def Answers.isData (k : Answers) (fd : ℕ) : Bool :=
  match k.recv fd with
  | .data _ => true
  | .closed | .failed => false

def Answers.isFailed (k : Answers) (fd : ℕ) : Bool :=
  match k.recv fd with
  | .failed => true
  | .data _ | .closed => false

/-- The open descriptors after a call, if the call is one that may be made. -/
def permit (opened : Finset ℕ) : Call → Option (Finset ℕ)
  | .accepted cfd => if cfd ∈ opened then none else some (insert cfd opened)
  | .answered fd chunk reply =>
      if fd ∈ opened ∧ chunk.bytes <+: reply ∧ reply.length = bufferSize then some opened
      else none
  | .left fd => if fd ∈ opened then some (opened.erase fd) else none
  | .failed fd => if fd ∈ opened then some opened else none

/-- The open descriptors after a `recv` and the branch it leads to. -/
def Answers.after (k : Answers) (opened : Finset ℕ) (fd : ℕ) : Finset ℕ :=
  match k.recv fd with
  | .closed => opened.erase fd
  | .data _ | .failed => opened

theorem Answers.after_subset (k : Answers) {opened : Finset ℕ} {fd : ℕ} :
    k.after opened fd ⊆ opened := by
  simp only [Answers.after]
  split
  · exact Finset.erase_subset fd opened
  all_goals exact subset_rfl

theorem Answers.after_of_closed {k : Answers} {fd : ℕ} (h : k.recv fd = .closed)
    (opened : Finset ℕ) : k.after opened fd = opened.erase fd := by
  simp [Answers.after, h]

theorem Answers.after_of_ne_closed {k : Answers} {fd : ℕ} (h : k.recv fd ≠ .closed)
    (opened : Finset ℕ) : k.after opened fd = opened := by
  simp only [Answers.after]
  split
  · rename_i hrecv
    exact absurd hrecv h
  all_goals rfl

theorem Answers.after_of_isData {k : Answers} {fd : ℕ} (h : k.isData fd) (opened : Finset ℕ) :
    k.after opened fd = opened :=
  k.after_of_ne_closed (fun hclosed => by simp [Answers.isData, hclosed] at h) opened

theorem Answers.after_insert {k : Answers} {opened : Finset ℕ} {fd gd : ℕ} (h : fd ≠ gd) :
    k.after (insert gd opened) fd = insert gd (k.after opened fd) := by
  simp only [Answers.after]
  split
  · exact Finset.erase_insert_of_ne h.symm
  all_goals rfl

theorem Answers.mem_after {k : Answers} {opened : Finset ℕ} {fd gd : ℕ} (hgd : gd ∈ opened)
    (h : gd ≠ fd) : gd ∈ k.after opened fd := by
  simp only [Answers.after]
  split
  · exact Finset.mem_erase_of_ne_of_mem h hgd
  all_goals exact hgd

theorem run_permit_accepted {opened : Finset ℕ} {cfd : ℕ} (h : cfd ∉ opened) :
    run permit opened [.accepted cfd] = some (insert cfd opened) := by
  simp [run, permit, h]

theorem run_permit_called {k : Answers} {opened : Finset ℕ} {fd : ℕ} (h : fd ∈ opened) :
    run permit opened [k.called fd] = some (k.after opened fd) := by
  cases hrecv : k.recv fd with
  | data chunk =>
      simp [run, permit, Answers.called, Answers.after, hrecv, h, chunk.length_over,
        chunk.isPrefix_over]
  | closed => simp [run, permit, Answers.called, Answers.after, hrecv, h]
  | failed => simp [run, permit, Answers.called, Answers.after, hrecv, h]

/-- Every descriptor has been closed as often as it was accepted, or once less
if it is open. -/
theorem count_accepted {opened open' : Finset ℕ} {calls : List Call} (fd : ℕ)
    (h : run permit opened calls = some open') :
    (if fd ∈ opened then 1 else 0) + calls.count (.accepted fd) =
      calls.count (.left fd) + if fd ∈ open' then 1 else 0 := by
  induction calls generalizing opened with
  | nil => simp [Option.some.inj h]
  | cons c calls ih =>
      obtain ⟨u, hu, hr⟩ := run_cons_eq_some.mp h
      have hrest := ih hr
      simp only [List.count_cons]
      cases c with
      | accepted cfd =>
          simp only [permit] at hu
          split_ifs at hu with hmem
          cases hu
          by_cases heq : fd = cfd
          · subst heq
            simp only [hmem, Finset.mem_insert, true_or, if_true, if_false] at hrest ⊢
            simp; omega
          · have hne : cfd ≠ fd := fun hc => heq hc.symm
            simp [heq, hne] at hrest ⊢
            omega
      | answered gd chunk reply =>
          simp only [permit] at hu
          split_ifs at hu
          cases hu
          simpa using hrest
      | left gd =>
          simp only [permit] at hu
          split_ifs at hu with hmem
          cases hu
          by_cases heq : fd = gd
          · subst heq
            simp [hmem] at hrest ⊢
            omega
          · have hne : gd ≠ fd := fun hc => heq hc.symm
            simp [heq, hne] at hrest ⊢
            omega
      | failed gd =>
          simp only [permit] at hu
          split_ifs at hu
          cases hu
          simpa using hrest

end Netmux.ClientCalls
