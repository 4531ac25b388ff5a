import Netmux.ActionRuns
import Netmux.ReliableStream
import Mathlib.Algebra.GroupWithZero.Nat
import Mathlib.Tactic.SplitIfs

/-!
# The blocking client and server

`client.c` and `server.c`, and the two directions of the connection between
them. The client numbers its requests and waits for one reply each; the server
answers every `recv` with its whole buffer, whatever `recv` has filled of it.
Neither frames its messages, and a `recv` returns what the transport hands over,
any nonempty part of what is in flight that fits the buffer. The rest of the
server's buffer is what its stack held.

A blocking `send` takes its whole argument at once: the transport has room for
every send, and none waits for the peer to read. A party may leave its loop at any
point where it runs: a `recv` returned the end or an error, or a signal ended
the process. What is printed is left out.
-/
namespace Netmux.RequestReply
open ActionRuns ReliableStream

/-- `sizeof(buffer)` of either party. -/
def bufferSize : ℕ := 1024

/-- The largest `int`; `number++` is undefined on it. -/
def intMax : ℕ := 2 ^ 31 - 1

def bytesOf (text : List Char) : List UInt8 := text.map fun c => c.toNat.toUInt8

def greeting : List UInt8 := bytesOf "hello world:".toList

/-- `"hello world:%d"` and the terminating zero, as the client sends it. -/
def message (number : ℕ) : List UInt8 := greeting ++ bytesOf (Nat.toDigits 10 number) ++ [0]

inductive Client where
  | sending | receiving | finished
  deriving DecidableEq, Repr

inductive Server where
  | receiving
  | replying (buffer : List UInt8)
  | finished
  deriving DecidableEq, Repr

/-- Both parties and the streams between them; `requests` and `replies` collect
what each `recv` of the server and of the client returned. -/
structure Conversation where
  toServer : Flow UInt8
  toClient : Flow UInt8
  number : ℕ
  client : Client
  server : Server
  requests : List (List UInt8)
  replies : List (List UInt8)

inductive Action where
  | send
  | recvReply (count : ℕ)
  | clientBreak
  | recvRequest (count : ℕ) (stack : List UInt8)
  | sendReply
  | serverBreak

/-- What `recv` may return: something, in flight, that fits the buffer. -/
def Returns (f : Flow UInt8) (count : ℕ) : Prop :=
  0 < count ∧ count ≤ bufferSize ∧ count ≤ f.inFlight.length

instance (f : Flow UInt8) (count : ℕ) : Decidable (Returns f count) :=
  inferInstanceAs (Decidable (_ ∧ _ ∧ _))

/-- The server's buffer after a `recv`. -/
def filled (received stack : List UInt8) : List UInt8 := received ++ stack.drop received.length

def step (s : Conversation) : Action → Option Conversation
  | .send =>
      if s.client = .sending ∧ s.number < intMax then
        some { s with
          toServer := s.toServer.write (message s.number)
          number := s.number + 1
          client := .receiving }
      else none
  | .recvReply count =>
      if s.client = .receiving ∧ Returns s.toClient count then
        some { s with
          toClient := s.toClient.read count
          replies := s.replies ++ [s.toClient.inFlight.take count]
          client := .sending }
      else none
  | .clientBreak =>
      if s.client ≠ .finished then some { s with client := .finished } else none
  | .recvRequest count stack =>
      if s.server = .receiving ∧ Returns s.toServer count ∧ stack.length = bufferSize then
        some { s with
          toServer := s.toServer.read count
          requests := s.requests ++ [s.toServer.inFlight.take count]
          server := .replying (filled (s.toServer.inFlight.take count) stack) }
      else none
  | .sendReply =>
      match s.server with
      | .replying buffer =>
          some { s with toClient := s.toClient.write buffer, server := .receiving }
      | .receiving | .finished => none
  | .serverBreak =>
      if s.server ≠ .finished then some { s with server := .finished } else none

def start : Conversation := ⟨.empty, .empty, 0, .sending, .receiving, [], []⟩

namespace Conversation

/-- Both parties are in their loops. -/
def Live (s : Conversation) : Prop := s.client ≠ .finished ∧ s.server ≠ .finished

/-- How many replies have been written. -/
def answered (s : Conversation) : ℕ := s.toClient.written.length / bufferSize

end Conversation

/-- No byte is lost, repeated or moved in either direction; the reply of each
index begins with what the `recv` of this index returned to the server; the
client is never ahead by more than the request it waits on, nor the server by
more than the reply it owes. -/
structure Faithful (s : Conversation) : Prop where
  requests : s.requests.flatten <+: (List.range s.number).flatMap message
  replies : s.replies.flatten <+: s.toClient.written
  whole : s.toClient.written.length = bufferSize * s.answered
  answers : ∀ index < s.answered, ∃ request, s.requests[index]? = some request ∧
    request <+: block bufferSize s.toClient.written index
  outstanding : s.replies.length ≤ s.number ∧ s.number ≤ s.replies.length + 1
  owed : s.answered ≤ s.requests.length ∧ s.requests.length ≤ s.answered + 1

theorem length_message {number : ℕ} (h : number < intMax) : (message number).length ≤ 23 := by
  have hlt : number < 10 ^ 10 := lt_trans h (by decide)
  have hdigits := (Nat.length_toDigits_le_iff (by decide : 1 < 10) (by decide : 0 < 10)).mpr hlt
  have hgreeting : greeting.length = 12 := rfl
  simp only [message, bytesOf, List.length_append, List.length_map, List.length_singleton]
  omega

theorem length_filled {received stack : List UInt8} (h : stack.length = bufferSize)
    (hr : received.length ≤ bufferSize) : (filled received stack).length = bufferSize := by
  simp only [filled, List.length_append, List.length_drop]
  omega

/-- The invariant of a run. -/
structure Kept (s : Conversation) : Prop where
  asked : s.toServer.written = (List.range s.number).flatMap message
  heard : s.requests.flatten = s.toServer.delivered
  got : s.replies.flatten = s.toClient.delivered
  whole : s.toClient.written.length = bufferSize * s.answered
  answers : ∀ index < s.answered, ∃ request, s.requests[index]? = some request ∧
    request <+: block bufferSize s.toClient.written index
  sending : s.client = .sending → s.number = s.replies.length
  receiving : s.client = .receiving → s.number = s.replies.length + 1
  outstanding : s.replies.length ≤ s.number ∧ s.number ≤ s.replies.length + 1
  idle : s.server = .receiving → s.requests.length = s.answered
  replying : ∀ buffer, s.server = .replying buffer → buffer.length = bufferSize ∧
    ∃ request, s.requests[s.answered]? = some request ∧ request <+: buffer
  owed : s.answered ≤ s.requests.length ∧ s.requests.length ≤ s.answered + 1

theorem Kept.faithful {s : Conversation} (h : Kept s) : Faithful s where
  requests := by
    rw [h.heard, ← h.asked]
    exact s.toServer.delivered_isPrefix
  replies := by
    rw [h.got]
    exact s.toClient.delivered_isPrefix
  whole := h.whole
  answers := h.answers
  outstanding := h.outstanding
  owed := h.owed

theorem Kept.send {s : Conversation} (h : Kept s) (hc : s.client = .sending) :
    Kept { s with
      toServer := s.toServer.write (message s.number)
      number := s.number + 1
      client := .receiving } := by
  have hnumber := h.sending hc
  constructor
  case asked =>
    rw [Flow.written_write, h.asked, List.range_succ, List.flatMap_append, List.flatMap_singleton]
  case heard => rw [h.heard, Flow.delivered_write]
  case got => exact h.got
  case whole => exact h.whole
  case answers => exact h.answers
  case sending => simp
  case receiving => simp [hnumber]
  case outstanding => simp only; omega
  case idle => exact h.idle
  case replying => exact h.replying
  case owed => exact h.owed

theorem Kept.recvReply {s : Conversation} (h : Kept s) (hc : s.client = .receiving) (count : ℕ) :
    Kept { s with
      toClient := s.toClient.read count
      replies := s.replies ++ [s.toClient.inFlight.take count]
      client := .sending } := by
  have hnumber := h.receiving hc
  constructor
  case asked => exact h.asked
  case heard => exact h.heard
  case got => rw [List.flatten_append, List.flatten_singleton, h.got, Flow.delivered_read]
  case whole => exact h.whole
  case answers => exact h.answers
  case sending => simp [hnumber]
  case receiving => simp
  case outstanding => simp only [List.length_append, List.length_singleton]; omega
  case idle => exact h.idle
  case replying => exact h.replying
  case owed => exact h.owed

theorem Kept.recvRequest {s : Conversation} (h : Kept s) (hs : s.server = .receiving) {count : ℕ}
    (hr : Returns s.toServer count) {stack : List UInt8} (hstack : stack.length = bufferSize) :
    Kept { s with
      toServer := s.toServer.read count
      requests := s.requests ++ [s.toServer.inFlight.take count]
      server := .replying (filled (s.toServer.inFlight.take count) stack) } := by
  have hidle := h.idle hs
  have hlength : (s.toServer.inFlight.take count).length ≤ bufferSize := by
    rw [List.length_take]
    exact (min_le_left _ _).trans hr.2.1
  constructor
  case asked => exact h.asked
  case heard => rw [List.flatten_append, List.flatten_singleton, h.heard, Flow.delivered_read]
  case got => exact h.got
  case whole => exact h.whole
  case answers =>
    intro index hi
    obtain ⟨request, hrequest, hfirst⟩ := h.answers index hi
    have hlt : index < s.requests.length := lt_of_lt_of_le hi h.owed.1
    exact ⟨request, by rw [List.getElem?_append_left hlt, hrequest], hfirst⟩
  case sending => exact h.sending
  case receiving => exact h.receiving
  case outstanding => exact h.outstanding
  case idle => simp
  case replying =>
    intro buffer hbuffer
    obtain rfl := Server.replying.inj hbuffer
    have hlast : (s.requests ++ [s.toServer.inFlight.take count])[s.answered]? =
        some (s.toServer.inFlight.take count) := by
      rw [← hidle, List.getElem?_concat_length]
    exact ⟨length_filled hstack hlength, _, hlast, List.prefix_append _ _⟩
  case owed =>
    show s.answered ≤ _ ∧ _ ≤ s.answered + 1
    rw [List.length_append, List.length_singleton]
    omega

theorem Kept.sendReply {s : Conversation} (h : Kept s) {buffer : List UInt8}
    (hs : s.server = .replying buffer) :
    Kept { s with toClient := s.toClient.write buffer, server := .receiving } := by
  obtain ⟨hlength, request, hrequest, hfirst⟩ := h.replying buffer hs
  have hlt : s.answered < s.requests.length := (List.getElem?_eq_some_iff.mp hrequest).choose
  have howed := h.owed
  have hwritten : (s.toClient.written ++ buffer).length = bufferSize * (s.answered + 1) := by
    rw [List.length_append, h.whole, hlength, Nat.mul_succ]
  have hanswered : (s.toClient.written ++ buffer).length / bufferSize = s.answered + 1 := by
    rw [hwritten]
    exact Nat.mul_div_cancel_left _ (by decide)
  constructor
  case asked => exact h.asked
  case heard => exact h.heard
  case got => rw [h.got, Flow.delivered_write]
  case whole =>
    show (s.toClient.written ++ buffer).length = bufferSize * (_ / bufferSize)
    rw [Flow.written_write, hanswered, hwritten]
  case answers =>
    intro index hi
    have hi : index < s.answered + 1 := hanswered ▸ hi
    rcases Nat.lt_succ_iff_lt_or_eq.mp hi with hold | rfl
    · obtain ⟨request, hrequest, hfirst⟩ := h.answers index hold
      refine ⟨request, hrequest, ?_⟩
      rwa [Flow.written_write, block_append_left h.whole hold]
    · refine ⟨request, hrequest, ?_⟩
      rwa [Flow.written_write, block_append_right h.whole hlength]
  case sending => exact h.sending
  case receiving => exact h.receiving
  case outstanding => exact h.outstanding
  case idle =>
    intro
    show s.requests.length = (s.toClient.written ++ buffer).length / bufferSize
    omega
  case replying => simp
  case owed =>
    show (s.toClient.written ++ buffer).length / bufferSize ≤ s.requests.length ∧
      s.requests.length ≤ (s.toClient.written ++ buffer).length / bufferSize + 1
    omega

theorem Kept.clientBreak {s : Conversation} (h : Kept s) : Kept { s with client := .finished } where
  asked := h.asked
  heard := h.heard
  got := h.got
  whole := h.whole
  answers := h.answers
  sending := by simp
  receiving := by simp
  outstanding := h.outstanding
  idle := h.idle
  replying := h.replying
  owed := h.owed

theorem Kept.serverBreak {s : Conversation} (h : Kept s) : Kept { s with server := .finished } where
  asked := h.asked
  heard := h.heard
  got := h.got
  whole := h.whole
  answers := h.answers
  sending := h.sending
  receiving := h.receiving
  outstanding := h.outstanding
  idle := by simp
  replying := by simp
  owed := h.owed

theorem start_kept : Kept start := by
  constructor
  case replying => simp [start]
  all_goals decide

theorem step_kept (s : Conversation) (a : Action) (t : Conversation) (h : Kept s)
    (ht : step s a = some t) : Kept t := by
  cases a with
  | send =>
      simp only [step, Option.ite_none_right_eq_some, Option.some.injEq] at ht
      rw [← ht.2]
      exact h.send ht.1.1
  | recvReply count =>
      simp only [step, Option.ite_none_right_eq_some, Option.some.injEq] at ht
      rw [← ht.2]
      exact h.recvReply ht.1.1 count
  | clientBreak =>
      simp only [step, Option.ite_none_right_eq_some, Option.some.injEq] at ht
      rw [← ht.2]
      exact h.clientBreak
  | recvRequest count stack =>
      simp only [step, Option.ite_none_right_eq_some, Option.some.injEq] at ht
      rw [← ht.2]
      exact h.recvRequest ht.1.1 ht.1.2.1 ht.1.2.2
  | sendReply =>
      simp only [step] at ht
      cases hs : s.server with
      | replying buffer =>
          rw [hs] at ht
          rw [← Option.some.inj ht]
          exact h.sendReply hs
      | receiving | finished =>
          rw [hs] at ht
          cases ht
  | serverBreak =>
      simp only [step, Option.ite_none_right_eq_some, Option.some.injEq] at ht
      rw [← ht.2]
      exact h.serverBreak

/-- Whatever the transport hands over, whatever the server's stack held and
wherever a party leaves its loop. -/
theorem conversation_faithful (as : List Action) : Throughout step Faithful start as :=
  (throughout_of_step step_kept as start_kept).imp fun _ h => h.faithful

/-- The party that acts. -/
def Action.isServers : Action → Bool
  | .recvRequest _ _ | .sendReply => true
  | .send | .recvReply _ | .clientBreak | .serverBreak => false

def Action.isClients : Action → Bool
  | .send | .recvReply _ => true
  | .recvRequest _ _ | .sendReply | .clientBreak | .serverBreak => false

/-- The most steps the server can take before the client does. -/
def Conversation.backlog (s : Conversation) : ℕ :=
  2 * s.toServer.inFlight.length + match s.server with
    | .replying _ => 1
    | .receiving | .finished => 0

/-- A client that waits has something coming: a request on its way, one being
answered, or bytes of a reply. -/
def Awaited (s : Conversation) : Prop :=
  s.client = .receiving → s.server = .receiving →
    s.toServer.inFlight ≠ [] ∨ s.toClient.inFlight ≠ []

theorem step_awaited (s : Conversation) (a : Action) (t : Conversation) (h : Kept s ∧ Awaited s)
    (ht : step s a = some t) : Kept t ∧ Awaited t := by
  constructor
  · exact step_kept s a t h.1 ht
  · cases a with
    | send =>
        simp only [step, Option.ite_none_right_eq_some, Option.some.injEq] at ht
        rw [← ht.2]
        intro _ _
        left
        simp [message]
    | recvReply count =>
        simp only [step, Option.ite_none_right_eq_some, Option.some.injEq] at ht
        rw [← ht.2]
        intro hc
        cases hc
    | clientBreak =>
        simp only [step, Option.ite_none_right_eq_some, Option.some.injEq] at ht
        rw [← ht.2]
        intro hc
        cases hc
    | recvRequest count stack =>
        simp only [step, Option.ite_none_right_eq_some, Option.some.injEq] at ht
        rw [← ht.2]
        intro _ hs
        cases hs
    | sendReply =>
        simp only [step] at ht
        cases hs : s.server with
        | replying buffer =>
            rw [hs] at ht
            rw [← Option.some.inj ht]
            intro _ _
            right
            have hlength := (h.1.replying buffer hs).1
            rw [Flow.inFlight_write]
            intro hnil
            rw [(List.append_eq_nil_iff.mp hnil).2] at hlength
            cases hlength
        | receiving | finished =>
            rw [hs] at ht
            cases ht
    | serverBreak =>
        simp only [step, Option.ite_none_right_eq_some, Option.some.injEq] at ht
        rw [← ht.2]
        intro _ hs
        cases hs

theorem step_backlog {s t : Conversation} {a : Action} (ha : a.isServers = true)
    (ht : step s a = some t) : t.backlog + 1 ≤ s.backlog := by
  cases a with
  | recvRequest count stack =>
      simp only [step, Option.ite_none_right_eq_some, Option.some.injEq] at ht
      have hcount := ht.1.2.1.1
      have hfits := ht.1.2.1.2.2
      rw [← ht.2]
      simp only [Conversation.backlog, Flow.inFlight_read, List.length_drop, ht.1.1]
      omega
  | sendReply =>
      simp only [step] at ht
      cases hs : s.server with
      | replying buffer =>
          rw [hs] at ht
          rw [← Option.some.inj ht]
          simp [Conversation.backlog, hs]
      | receiving | finished =>
          rw [hs] at ht
          cases ht
  | send | recvReply _ | clientBreak | serverBreak => cases ha

theorem run_backlog {s t : Conversation} {as : List Action} (ha : ∀ a ∈ as, a.isServers = true)
    (h : run step s as = some t) : t.backlog + as.length ≤ s.backlog := by
  induction as generalizing s with
  | nil =>
      rw [Option.some.inj h]
      exact le_rfl
  | cons a as ih =>
      obtain ⟨u, hu, hrun⟩ := run_cons_eq_some.mp h
      have hfirst := step_backlog (ha a List.mem_cons_self) hu
      have hrest := ih (fun b hb => ha b (List.mem_cons_of_mem a hb)) hrun
      simp only [List.length_cons]
      omega

theorem returns_one {f : Flow UInt8} (h : f.inFlight ≠ []) : Returns f 1 := by
  have hpos := List.length_pos_iff.mpr h
  exact ⟨Nat.one_pos, by decide, hpos⟩

/-- A server with nothing to do leaves the client something to do. -/
theorem Awaited.client_goes_on {s : Conversation} (h : Awaited s) (hlive : s.Live)
    (hnumber : s.number < intMax) (hserver : ∀ a : Action, a.isServers = true → step s a = none) :
    ∃ a t, Action.isClients a = true ∧ step s a = some t := by
  have hreceiving : s.server = .receiving := by
    cases hs : s.server with
    | receiving => rfl
    | replying buffer =>
        have hreply := hserver .sendReply rfl
        simp [step, hs] at hreply
    | finished => exact absurd hs hlive.2
  cases hc : s.client with
  | sending => exact ⟨.send, _, rfl, if_pos ⟨hc, hnumber⟩⟩
  | receiving =>
      have hnone : s.toServer.inFlight = [] := by
        by_contra hrequest
        have hrecv := hserver (.recvRequest 1 (List.replicate bufferSize 0)) rfl
        simp [step, hreceiving, returns_one hrequest] at hrecv
      have hreply := (h hc hreceiving).resolve_left (fun k => k hnone)
      exact ⟨.recvReply 1, _, rfl, if_pos ⟨hc, returns_one hreply⟩⟩
  | finished => exact absurd hc hlive.1

/-- However often the server is scheduled before the client, it can take only so
many steps as there are bytes to read and one reply to write; and when it can
take none, the client can go on. Neither waits for the other for good. -/
theorem server_hands_over {s t : Conversation} {as bs : List Action}
    (hs : run step start as = some s) (hb : ∀ b ∈ bs, b.isServers = true)
    (ht : run step s bs = some t) :
    bs.length ≤ s.backlog ∧ (t.Live → t.number < intMax →
      (∀ a : Action, a.isServers = true → step t a = none) →
        ∃ a u, Action.isClients a = true ∧ step t a = some u) := by
  have hstart : Kept start ∧ Awaited start := by
    refine ⟨start_kept, ?_⟩
    intro hc
    cases hc
  have hreached := run_preserves step_awaited (run_preserves step_awaited hstart hs) ht
  constructor
  · have hbacklog := run_backlog hb ht
    omega
  · exact hreached.2.client_goes_on

/-- One request and its reply, each handed over whole. -/
def firstExchange : List Action :=
  [.send, .recvRequest 14 (List.replicate 1024 7), .sendReply, .recvReply 1024]

/-- The conversation once the client waits for its first reply. -/
def asked : Conversation :=
  ⟨⟨message 0, 0, Nat.zero_le _⟩, .empty, 1, .receiving, .receiving, [], []⟩

/-- After the first request the server can take at most 28 steps; it takes two. -/
theorem server_hands_over_firstExchange :
    ∃ t, run step asked ((firstExchange.drop 1).take 2) = some t ∧
      (2 ≤ asked.backlog ∧ (t.Live → t.number < intMax →
        (∀ a : Action, a.isServers = true → step t a = none) →
          ∃ a u, Action.isClients a = true ∧ step t a = some u)) := by
  obtain ⟨t, ht⟩ := Option.isSome_iff_exists.mp
    (by decide +kernel : (run step asked ((firstExchange.drop 1).take 2)).isSome = true)
  exact ⟨t, ht, @server_hands_over asked t [.send] _ rfl (by decide) ht⟩

/-- What holds of every entry of a log, with its index, after one more. -/
theorem forall_concat {P : ℕ → List UInt8 → Prop} {log : List (List UInt8)} {last : List UInt8}
    (h : ∀ index entry, log[index]? = some entry → P index entry) (hlast : P log.length last) :
    ∀ index entry, (log ++ [last])[index]? = some entry → P index entry := by
  intro index entry hentry
  rcases Nat.lt_trichotomy index log.length with hlt | rfl | hgt
  · rw [List.getElem?_append_left hlt] at hentry
    exact h index entry hentry
  · rw [List.getElem?_concat_length] at hentry
    rwa [← Option.some.inj hentry]
  · have hlength := (List.getElem?_eq_some_iff.mp hentry).choose
    simp only [List.length_append, List.length_singleton] at hlength
    omega

/-- Every `recv` of the server has returned one request, in turn, and every
`recv` of the client the whole reply that begins with its own request. -/
structure InStep (s : Conversation) : Prop where
  requests : ∀ index request, s.requests[index]? = some request → request = message index
  replies : ∀ index reply, s.replies[index]? = some reply →
    reply.length = bufferSize ∧ message index <+: reply

/-- The transport hands over all that is in flight and fits the buffer. -/
def HandsOver (s : Conversation) : Action → Prop
  | .recvReply count => count = min bufferSize s.toClient.inFlight.length
  | .recvRequest count _ => count = min bufferSize s.toServer.inFlight.length
  | .send | .sendReply | .clientBreak | .serverBreak => True

/-- A buffer that answers the request of this index. -/
def Answers (index : ℕ) (buffer : List UInt8) : Prop :=
  buffer.length = bufferSize ∧ message index <+: buffer

/-- How far the exchange of the last request has come, if every earlier one was
in step. A party that has left its loop stays where it was. -/
inductive Stage (s : Conversation) : Prop
  | idle : s.requests.length = s.number → s.replies.length = s.number →
      s.toServer.inFlight = [] → s.toClient.inFlight = [] → s.client ≠ .receiving →
      (∀ buffer, s.server ≠ .replying buffer) → Stage s
  | asked : s.requests.length + 1 = s.number → s.replies.length + 1 = s.number →
      s.toServer.inFlight = message s.requests.length → s.toClient.inFlight = [] →
      s.client ≠ .sending → (∀ buffer, s.server ≠ .replying buffer) → Stage s
  | heard : s.requests.length = s.number → s.replies.length + 1 = s.number →
      s.toServer.inFlight = [] → s.toClient.inFlight = [] → s.client ≠ .sending →
      (∀ buffer, s.server = .replying buffer → Answers s.replies.length buffer) →
      s.server ≠ .receiving → Stage s
  | answered : s.requests.length = s.number → s.replies.length + 1 = s.number →
      s.toServer.inFlight = [] → Answers s.replies.length s.toClient.inFlight →
      s.client ≠ .sending → (∀ buffer, s.server ≠ .replying buffer) → Stage s

/-- The exchange is in step, and so was every earlier one. -/
structure Locked (s : Conversation) : Prop where
  bounded : s.number ≤ intMax
  inStep : InStep s
  stage : Stage s

theorem start_locked : Locked start where
  bounded := by decide
  inStep := ⟨by simp [start], by simp [start]⟩
  stage := .idle rfl rfl rfl rfl (by decide) (by simp [start])

theorem Locked.send {s : Conversation} (h : Locked s) (hc : s.client = .sending)
    (hnumber : s.number < intMax) : Locked { s with
      toServer := s.toServer.write (message s.number)
      number := s.number + 1
      client := .receiving } := by
  refine ⟨hnumber, ⟨h.inStep.requests, h.inStep.replies⟩, ?_⟩
  cases h.stage with
  | idle hrequests hreplies hserver hclient _ hidle =>
      apply Stage.asked
      · simp [hrequests]
      · simp [hreplies]
      · simp [hserver, hrequests]
      · exact hclient
      · simp
      · exact hidle
  | asked _ _ _ _ hnot | heard _ _ _ _ hnot | answered _ _ _ _ hnot => exact absurd hc hnot

/-- The whole request is read and no other. -/
theorem Locked.recvRequest {s : Conversation} (h : Locked s) {count : ℕ}
    (hcount : count = min bufferSize s.toServer.inFlight.length)
    (hr : Returns s.toServer count) {stack : List UInt8} (hstack : stack.length = bufferSize) :
    Locked { s with
      toServer := s.toServer.read count
      requests := s.requests ++ [s.toServer.inFlight.take count]
      server := .replying (filled (s.toServer.inFlight.take count) stack) } := by
  have hnonempty : s.toServer.inFlight ≠ [] := by
    intro hnil
    have hpos := hr.1
    have hfits := hr.2.2
    rw [hnil, List.length_nil] at hfits
    omega
  cases h.stage with
  | asked hrequests hreplies hserver hclient hnot =>
      have hlength : (message s.requests.length).length ≤ 23 := by
        apply length_message
        have hbounded := h.bounded
        omega
      have hall : s.toServer.inFlight.take count = message s.requests.length := by
        rw [hcount, hserver]
        apply List.take_of_length_le
        unfold bufferSize
        omega
      refine ⟨h.bounded, ⟨forall_concat h.inStep.requests hall, h.inStep.replies⟩, ?_⟩
      · apply Stage.heard
        · simpa using hrequests
        · exact hreplies
        · rw [Flow.inFlight_read, hcount, hserver]
          apply List.drop_eq_nil_of_le
          unfold bufferSize
          omega
        · exact hclient
        · exact hnot
        · intro buffer hbuffer
          rw [← Server.replying.inj hbuffer, hall]
          refine ⟨length_filled hstack ?_, ?_⟩
          · unfold bufferSize
            omega
          · have hsame : s.replies.length = s.requests.length := by omega
            rw [hsame]
            exact List.prefix_append _ _
        · simp
  | idle _ _ hserver | heard _ _ hserver | answered _ _ hserver =>
      exact absurd hserver hnonempty

theorem Locked.sendReply {s : Conversation} (h : Locked s) {buffer : List UInt8}
    (hs : s.server = .replying buffer) :
    Locked { s with toClient := s.toClient.write buffer, server := .receiving } := by
  refine ⟨h.bounded, ⟨h.inStep.requests, h.inStep.replies⟩, ?_⟩
  cases h.stage with
  | heard hrequests hreplies hserver hclient hnot hanswers =>
      apply Stage.answered
      · exact hrequests
      · exact hreplies
      · exact hserver
      · rw [Flow.inFlight_write, hclient, List.nil_append]
        exact hanswers buffer hs
      · exact hnot
      · simp
  | idle _ _ _ _ _ hidle | asked _ _ _ _ _ hidle | answered _ _ _ _ _ hidle =>
      exact absurd hs (hidle buffer)

/-- The whole reply is read. -/
theorem Locked.recvReply {s : Conversation} (h : Locked s) {count : ℕ}
    (hcount : count = min bufferSize s.toClient.inFlight.length)
    (hr : Returns s.toClient count) : Locked { s with
      toClient := s.toClient.read count
      replies := s.replies ++ [s.toClient.inFlight.take count]
      client := .sending } := by
  have hnonempty : s.toClient.inFlight ≠ [] := by
    intro hnil
    have hpos := hr.1
    have hfits := hr.2.2
    rw [hnil, List.length_nil] at hfits
    omega
  cases h.stage with
  | answered hrequests hreplies hserver hanswers _ hidle =>
      have hsize : count = s.toClient.inFlight.length := by
        rw [hcount, hanswers.1, min_self]
      have hall : s.toClient.inFlight.take count = s.toClient.inFlight := by
        rw [hsize, List.take_length]
      refine ⟨h.bounded, ⟨h.inStep.requests, ?_⟩, ?_⟩
      · rw [hall]
        exact forall_concat h.inStep.replies hanswers
      · apply Stage.idle
        · exact hrequests
        · simpa using hreplies
        · exact hserver
        · rw [Flow.inFlight_read, hsize, List.drop_length]
        · simp
        · exact hidle
  | idle _ _ _ hclient | asked _ _ _ hclient | heard _ _ _ hclient =>
      exact absurd hclient hnonempty

theorem Locked.clientBreak {s : Conversation} (h : Locked s) :
    Locked { s with client := .finished } := by
  refine ⟨h.bounded, ⟨h.inStep.requests, h.inStep.replies⟩, ?_⟩
  cases h.stage with
  | idle hq hp hs hc _ hidle => exact .idle hq hp hs hc (by simp) hidle
  | asked hq hp hs hc _ hidle => exact .asked hq hp hs hc (by simp) hidle
  | heard hq hp hs hc _ hbuffer hbusy => exact .heard hq hp hs hc (by simp) hbuffer hbusy
  | answered hq hp hs hc _ hidle => exact .answered hq hp hs hc (by simp) hidle

theorem Locked.serverBreak {s : Conversation} (h : Locked s) :
    Locked { s with server := .finished } := by
  refine ⟨h.bounded, ⟨h.inStep.requests, h.inStep.replies⟩, ?_⟩
  cases h.stage with
  | idle hq hp hs hc hclient _ => exact .idle hq hp hs hc hclient (by simp)
  | asked hq hp hs hc hclient _ => exact .asked hq hp hs hc hclient (by simp)
  | heard hq hp hs hc hclient _ _ => exact .heard hq hp hs hc hclient (by simp) (by simp)
  | answered hq hp hs hc hclient _ => exact .answered hq hp hs hc hclient (by simp)

theorem step_locked (s : Conversation) (a : Action) (t : Conversation) (h : Locked s)
    (ha : HandsOver s a) (ht : step s a = some t) : Locked t := by
  cases a with
  | send =>
      simp only [step, Option.ite_none_right_eq_some, Option.some.injEq] at ht
      rw [← ht.2]
      exact h.send ht.1.1 ht.1.2
  | recvReply count =>
      simp only [step, Option.ite_none_right_eq_some, Option.some.injEq] at ht
      rw [← ht.2]
      exact h.recvReply ha ht.1.2
  | clientBreak =>
      simp only [step, Option.ite_none_right_eq_some, Option.some.injEq] at ht
      rw [← ht.2]
      exact h.clientBreak
  | recvRequest count stack =>
      simp only [step, Option.ite_none_right_eq_some, Option.some.injEq] at ht
      rw [← ht.2]
      exact h.recvRequest ha ht.1.2.1 ht.1.2.2
  | sendReply =>
      simp only [step] at ht
      cases hs : s.server with
      | replying buffer =>
          rw [hs] at ht
          rw [← Option.some.inj ht]
          exact h.sendReply hs
      | receiving | finished =>
          rw [hs] at ht
          cases ht
  | serverBreak =>
      simp only [step, Option.ite_none_right_eq_some, Option.some.injEq] at ht
      rw [← ht.2]
      exact h.serverBreak

/-- A request cut short is not the request. -/
theorem Locked.whole_request {s : Conversation} (h : Locked s) {count : ℕ}
    (hr : Returns s.toServer count)
    (hentry : s.toServer.inFlight.take count = message s.requests.length) :
    count = min bufferSize s.toServer.inFlight.length := by
  have hsize := hr.2.1
  have hfits := hr.2.2
  have htake := congrArg List.length hentry
  rw [List.length_take, min_eq_left hfits] at htake
  cases h.stage with
  | asked _ _ hserver =>
      rw [hserver] at hfits ⊢
      omega
  | idle _ _ hserver | heard _ _ hserver | answered _ _ hserver =>
      have hpos := hr.1
      rw [hserver, List.length_nil] at hfits
      omega

/-- A block cut short is no block. -/
theorem whole_block {f : Flow UInt8} {count : ℕ} (hr : Returns f count)
    (hentry : (f.inFlight.take count).length = bufferSize) :
    count = min bufferSize f.inFlight.length := by
  have hsize := hr.2.1
  have hfits := hr.2.2
  rw [List.length_take, min_eq_left hfits] at hentry
  omega

theorem step_needs (s : Conversation) (a : Action) (t : Conversation) (h : Locked s)
    (ht : step s a = some t) (hstep : InStep t) : HandsOver s a := by
  cases a with
  | recvReply count =>
      simp only [step, Option.ite_none_right_eq_some, Option.some.injEq] at ht
      rw [← ht.2] at hstep
      exact whole_block ht.1.2 (hstep.replies s.replies.length _ List.getElem?_concat_length).1
  | recvRequest count stack =>
      simp only [step, Option.ite_none_right_eq_some, Option.some.injEq] at ht
      rw [← ht.2] at hstep
      exact h.whole_request ht.1.2.1
        (hstep.requests s.requests.length _ List.getElem?_concat_length)
  | send | sendReply | clientBreak | serverBreak => trivial

/-- Without any framing, client and server stay in step with each other exactly
as long as every `recv` returns all there is: the server then reads request
after request, and each reply the client reads is the one to its last request. -/
theorem in_step_iff {t : Conversation} {as : List Action} (h : run step start as = some t) :
    Throughout step InStep start as ↔ Meets step HandsOver start as :=
  throughout_iff_meets step_locked step_needs (fun _ k => k.inStep) start_locked h

theorem in_step_iff_firstExchange :
    Throughout step InStep start firstExchange ↔ Meets step HandsOver start firstExchange := by
  obtain ⟨t, ht⟩ := Option.isSome_iff_exists.mp
    (by decide +kernel : (run step start firstExchange).isSome = true)
  exact in_step_iff ht

end Netmux.RequestReply
