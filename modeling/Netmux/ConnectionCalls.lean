import Mathlib.Data.List.Count
import Netmux.ConnectionTable
import Netmux.LoopAgenda
import Netmux.ServerLoad

/-!
# Establishing and destroying a connection

Every connection that a server makes is established by one call, on the thread of
its loop, which `newConnection` posts at its end. It is destroyed by one call
there, which the destructor of the server posts as it takes the connection out of
the table. Nothing else posts either of the two, for `removeConnectionInLoop` is
never called. What is counted here is what a thread has made and what it has still
to make.
-/
namespace Netmux.ConnectionCalls
open ActionRuns ServerThreads ThreadConfinement ServerLoad
open TcpServer (LoopId)

/-- The connection is in the table, under its name. -/
def InTable (s : Server) (conn : ℕ) : Prop :=
  ∃ c, s.conns[conn]? = some c ∧ s.connections c.connection.name = some conn

theorem mem_tabled {s : Server} {conn : ℕ} : conn ∈ s.tabled ↔ InTable s conn := by
  unfold Server.tabled InTable
  rw [List.mem_filter, List.mem_range, Option.any_eq_true]
  constructor
  · rintro ⟨-, c, hc, hname⟩
    exact ⟨c, hc, beq_iff_eq.mp hname⟩
  · rintro ⟨c, hc, hname⟩
    exact ⟨(List.getElem?_eq_some_iff.mp hc).1, c, hc, beq_iff_eq.mpr hname⟩

instance (s : Server) (conn : ℕ) : Decidable (InTable s conn) :=
  decidable_of_iff (conn ∈ s.tabled) mem_tabled

/-- `newConnection` has posted the establishment of the connection. -/
def Posted (s : Server) (conn : ℕ) : Prop := .postEstablished conn ∈ s.done .base

instance (s : Server) (conn : ℕ) : Decidable (Posted s conn) :=
  inferInstanceAs (Decidable (_ ∈ s.done .base))

/-- Scheduled calls are made, or to be made, as often as they should be: every
connection has its establishment posted once, and established once it is posted. -/
structure Accounted (s : Server) : Prop where
  listens : ∀ loop, (s.agenda loop).count .listen =
    if s.started ≠ 0 ∧ loop = .base then 1 else 0
  posted : ∀ loop conn, (s.agenda loop).count (.postEstablished conn) =
    if conn < s.conns.length ∧ loop = .base then 1 else 0
  established : ∀ loop conn, (s.agenda loop).count (.connectEstablished conn) =
    if s.owner conn = some (.loop loop) ∧ Posted s conn then 1 else 0
  destroyed : s.conns.length < ConnectionTable.maxConns → ∀ loop conn,
    (s.agenda loop).count (.connectDestroyed conn) =
      if s.owner conn = some (.loop loop) ∧ ¬ InTable s conn then 1 else 0

/-- Nothing is left to call `removeConnectionInLoop`. -/
def NoRemoval (s : Server) : Prop := ∀ t conn, ¬ s.Pending t (.removeConnectionInLoop conn)

theorem brings_noRemoval {s : Server} {a : Action} {t : ThreadId} {call : Call}
    (h : Brings s a t call) (conn : ℕ) : call ≠ .removeConnectionInLoop conn := by
  cases h with
  | @poll _ _ event _ _ _ hcall =>
      cases event with
      | accept sockfd =>
          rw [List.mem_singleton.mp hcall]
          exact nofun
      | channel i handlers =>
          obtain ⟨handler, -, rfl⟩ := List.mem_map.mp hcall
          cases handler with
          | read | write | close | error => exact nofun
  | exec _ hspawns =>
      cases hspawns with
      | calls _ _ hmem =>
          rintro rfl
          have hruns := runsOn_of_callsOf (s := s) (t := .user 0) hmem
          cases hruns
      | queues _ _ hmem =>
          rintro rfl
          have hruns := runsOn_of_functorsOf (s := s) (t := .user 0) hmem
          cases hruns
      | newConnection _ | postEstablished _ | removeConnection _ | removeConnectionInLoop _
      | readClose _ | readError _ | message _ | callback _ | close _ | userClose _ => exact nofun
  | send _ _ _ | shutdown _ _ | destroy _ _ | listen _ | threadInit _ _ _ => exact nofun

theorem step_noRemoval {s u : Server} {a : Action} (h : NoRemoval s) (ht : step s a = some u) :
    NoRemoval u := by
  intro t conn hcall
  rcases step_pending ht hcall with hold | hbrings
  · exact h t conn hold
  · exact brings_noRemoval hbrings conn rfl

theorem NoRemoval.head {s : Server} (h : NoRemoval s) (t : ThreadId) (conn : ℕ)
    (calls : List Call) : s.calls t ≠ .removeConnectionInLoop conn :: calls := by
  intro hcalls
  exact h t conn (.inl (hcalls ▸ List.mem_cons_self ..))

/-- The connections and the table are the same. -/
structure Keeps (s u : Server) : Prop where
  conns : ∀ conn : ℕ, Option.Rel Same s.conns[conn]? u.conns[conn]?
  connections : u.connections = s.connections

theorem Keeps.of_still {s v u : Server} (h : Still v u) (hconns : v.conns = s.conns)
    (hconnections : v.connections = s.connections) : Keeps s u :=
  ⟨hconns ▸ h.conns, h.connections.trans hconnections⟩

theorem Keeps.owner {s u : Server} (h : Keeps s u) (conn : ℕ) : u.owner conn = s.owner conn := by
  have hrel := h.conns conn
  unfold Server.owner
  generalize s.conns[conn]? = c at hrel ⊢
  generalize u.conns[conn]? = d at hrel ⊢
  cases hrel with
  | none => rfl
  | some hsame => simp [hsame.loop]

theorem Keeps.inTable {s u : Server} (h : Keeps s u) (conn : ℕ) :
    InTable u conn ↔ InTable s conn := by
  have hrel := h.conns conn
  unfold InTable
  rw [h.connections]
  generalize s.conns[conn]? = c at hrel ⊢
  generalize u.conns[conn]? = d at hrel ⊢
  cases hrel with
  | none => simp
  | some hsame => simp [hsame.name]

theorem Keeps.length {s u : Server} (h : Keeps s u) : u.conns.length = s.conns.length := by
  apply eq_of_forall_ge_iff
  intro conn
  have hrel := h.conns conn
  rw [← List.getElem?_eq_none_iff, ← List.getElem?_eq_none_iff]
  generalize s.conns[conn]? = c at hrel ⊢
  generalize u.conns[conn]? = d at hrel ⊢
  cases hrel with
  | none => rfl
  | some _ => simp

theorem mem_done {s : Server} {loop : LoopId} {call : Call} :
    call ∈ s.done loop ↔ (.loop loop, call) ∈ s.log ∧ scheduled call = true := by
  simp [Server.done, and_assoc]

/-- Establishments are posted by the execution of a call. -/
theorem posted_exec {s u : Server} {t : ThreadId} {kernel : Kernel} {head : Call}
    {calls : List Call} (hcalls : s.calls t = head :: calls)
    (ht : step s (.exec t kernel) = some u) (conn : ℕ) :
    Posted u conn ↔ Posted s conn ∨ (t = .loop .base ∧ head = .postEstablished conn) := by
  obtain ⟨head', calls', hcalls', -, rfl⟩ := step_exec ht
  rw [hcalls] at hcalls'
  cases hcalls'
  unfold Posted
  rw [mem_done, mem_done, execute_log]
  simp only [Server.made, Server.setCalls, List.mem_cons, Prod.mk.injEq, scheduled, and_true]
  rw [or_comm, eq_comm (a := ThreadId.loop .base), eq_comm (a := Call.postEstablished conn)]

theorem posted_other {s u : Server} {a : Action} (ht : step s a = some u)
    (ha : ∀ t kernel, a ≠ .exec t kernel) (conn : ℕ) : Posted u conn ↔ Posted s conn := by
  unfold Posted
  rw [done_congr (step_log_eq ht ha)]

/-- What a step does to the connections and the table. -/
inductive TableStep (s u : Server) : Action → Prop
  | keeps {a : Action} : Keeps s u → (∀ loop, ∀ call ∈ posts s loop a, call = .listen) →
      (∀ conn, Posted u conn ↔ Posted s conn) → TableStep s u a
  | newConnection {t : ThreadId} {kernel : Kernel} {sockfd : ℕ} {calls : List Call} :
      s.calls t = .newConnection sockfd :: calls → Keeps (s.addConnection sockfd) u →
      TableStep s u (.exec t kernel)
  | postEstablished {t : ThreadId} {kernel : Kernel} {conn : ℕ} {calls : List Call} :
      s.calls t = .postEstablished conn :: calls → Keeps s u → TableStep s u (.exec t kernel)
  | destroy (t : ThreadId) : Keeps { s with connections := fun _ => none } u →
      (∀ conn, Posted u conn ↔ Posted s conn) → TableStep s u (.destroy t)

/-- Actions other than calls and the destructor schedule `listen` at most. -/
theorem posts_listen {s : Server} {a : Action} (hexec : ∀ t kernel, a ≠ .exec t kernel)
    (hdestroy : ∀ t, a ≠ .destroy t) (loop : LoopId) : ∀ call ∈ posts s loop a, call = .listen := by
  intro call hcall
  cases mem_posts hcall with
  | start t => rfl
  | newConnection _ => exact absurd rfl (hexec _ _)
  | postEstablished _ _ => exact absurd rfl (hexec _ _)
  | destroy t _ => exact absurd rfl (hdestroy t)

theorem step_table {s u : Server} {a : Action} (hremoval : NoRemoval s)
    (ht : step s a = some u) : TableStep s u a := by
  by_cases hexec : ∃ t kernel, a = .exec t kernel
  · obtain ⟨t, kernel, rfl⟩ := hexec
    obtain ⟨head, calls, hcalls, -, hu⟩ := step_exec ht
    have hposted := posted_exec hcalls ht
    rcases execute_cases (s.made t head calls) t kernel head with
      hstill | ⟨sockfd, rfl, he⟩ | ⟨conn, c, rfl, -, -⟩
    · by_cases hnew : ∃ sockfd, head = .newConnection sockfd
      · obtain ⟨sockfd, rfl⟩ := hnew
        subst hu
        exact .newConnection hcalls (.of_still (still_newConnection ..) rfl rfl)
      · by_cases hpost : ∃ conn, head = .postEstablished conn
        · obtain ⟨conn, rfl⟩ := hpost
          subst hu
          exact .postEstablished hcalls (.of_still hstill rfl rfl)
        · have hsame : ∀ conn, Posted u conn ↔ Posted s conn := by
            intro conn
            rw [hposted]
            exact or_iff_left fun hnow => hpost ⟨conn, hnow.2⟩
          subst hu
          refine .keeps (.of_still hstill rfl rfl) (fun loop call hcall => ?_) hsame
          simp only [posts, hcalls] at hcall
          cases head with
          | newConnection sockfd => exact absurd ⟨sockfd, rfl⟩ hnew
          | postEstablished conn => exact absurd ⟨conn, rfl⟩ hpost
          | _ => cases hcall
    · subst hu
      exact .newConnection hcalls (.of_still (still_newConnection ..) rfl rfl)
    · exact absurd hcalls (hremoval.head t conn calls)
  · have hother : ∀ t kernel, a ≠ .exec t kernel := fun t kernel h => hexec ⟨t, kernel, h⟩
    by_cases hdestroy : ∃ t, a = .destroy t
    · obtain ⟨t, rfl⟩ := hdestroy
      have hposted := posted_other ht hother
      simp only [step, Option.ite_none_right_eq_some, Option.some.injEq] at ht
      obtain ⟨-, rfl⟩ := ht
      exact .destroy t ⟨(still_postDestroyed s.tabled s t).conns, rfl⟩ hposted
    · rcases step_cases ht with hstill | ⟨t, rfl, -⟩ | ⟨t, kernel, -, -, rfl, -, -⟩
      · refine .keeps (.of_still hstill rfl rfl) (fun loop => ?_) (posted_other ht hother)
        exact posts_listen hother (fun t h => hdestroy ⟨t, h⟩) loop
      · exact absurd ⟨t, rfl⟩ hdestroy
      · exact absurd rfl (hother t kernel)

theorem count_posts_eq_zero {s : Server} {loop : LoopId} {a : Action} {call : Call}
    (h : ¬ Schedules s loop a call) : (posts s loop a).count call = 0 :=
  List.count_eq_zero.mpr fun hmem => h (mem_posts hmem)

theorem count_listen_only {calls : List Call} (h : ∀ call ∈ calls, call = .listen) {call : Call}
    (hne : call ≠ .listen) : calls.count call = 0 :=
  List.count_eq_zero.mpr fun hmem => hne (h call hmem)

theorem owner_none {s : Server} {conn : ℕ} (h : s.conns.length ≤ conn) : s.owner conn = none := by
  unfold Server.owner
  rw [List.getElem?_eq_none h]
  rfl

theorem owner_addConnection_iff {s : Server} {sockfd conn : ℕ} {t : ThreadId} :
    (s.addConnection sockfd).owner conn = some t ↔ s.owner conn = some t ∨
      (conn = s.conns.length ∧ t = .loop s.getNextLoop.1) := by
  unfold Server.owner
  simp only [Option.map_eq_some_iff, addConnection_conns]
  constructor
  · rintro ⟨c, hc | ⟨rfl, rfl⟩, rfl⟩
    · exact .inl ⟨c, hc, rfl⟩
    · exact .inr ⟨rfl, rfl⟩
  · rintro (⟨c, hc, rfl⟩ | ⟨rfl, rfl⟩)
    · exact ⟨c, .inl hc, rfl⟩
    · exact ⟨_, .inr ⟨rfl, rfl⟩, rfl⟩

/-- A new connection goes into the table and displaces none. -/
theorem inTable_addConnection {s : Server} (h : ConnectionTable.Tabled s)
    (hcount : s.conns.length + 1 < ConnectionTable.maxConns) {sockfd conn : ℕ} :
    InTable (s.addConnection sockfd) conn ↔ InTable s conn ∨ conn = s.conns.length := by
  unfold InTable
  simp only [addConnection_conns]
  show (∃ c, _ ∧ Function.update s.connections s.connName _ _ = _) ↔ _
  have hnew : ∀ (i : ℕ) (c : Conn), s.conns[i]? = some c → c.connection.name ≠ s.connName := by
    intro i c hc hname
    rw [h.name_eq (Nat.lt_of_succ_lt hcount) hc, h.connName_eq hcount] at hname
    have hlt := (List.getElem?_eq_some_iff.mp hc).1
    exact Nat.ne_of_lt hlt (ConnectionTable.fullName_injective _ _ hname)
  constructor
  · rintro ⟨c, hc | ⟨rfl, rfl⟩, hname⟩
    · rw [Function.update_of_ne (hnew conn c hc)] at hname
      exact .inl ⟨c, hc, hname⟩
    · exact .inr rfl
  · rintro (⟨c, hc, hname⟩ | rfl)
    · exact ⟨c, .inl hc, (Function.update_of_ne (hnew conn c hc) ..).trans hname⟩
    · exact ⟨_, .inr ⟨rfl, rfl⟩, Function.update_self ..⟩

/-- The destructor posts one destruction for each of a loop's connections in the
table. -/
theorem count_tabledOn (s : Server) (loop : LoopId) (conn : ℕ) :
    ((s.tabledOn loop).map Call.connectDestroyed).count (.connectDestroyed conn) =
      if s.owner conn = some (.loop loop) ∧ InTable s conn then 1 else 0 := by
  have hnodup : (s.tabledOn loop).Nodup := (List.nodup_range.filter _).filter _
  have hinjective : Function.Injective Call.connectDestroyed :=
    fun _ _ => Call.connectDestroyed.inj
  rw [List.count_map_of_injective _ _ hinjective]
  have hmem : conn ∈ s.tabledOn loop ↔ s.owner conn = some (.loop loop) ∧ InTable s conn := by
    unfold Server.tabledOn
    rw [List.mem_filter, mem_tabled, and_comm]
    unfold Server.owner
    cases s.conns[conn]? with
    | none => simp
    | some c => simp
  split_ifs with h
  · exact List.count_eq_one_of_mem hnodup (hmem.mpr h)
  · exact List.count_eq_zero.mpr fun hin => h (hmem.mp hin)

/-- How the calls are counted on is how they are scheduled. -/
structure Standing (s : Server) : Prop where
  removal : NoRemoval s
  tabled : ConnectionTable.Tabled s
  placed : Placed s
  posted : ∀ loop conn, (s.agenda loop).count (.postEstablished conn) =
    if conn < s.conns.length ∧ loop = .base then 1 else 0
  established : ∀ loop conn, (s.agenda loop).count (.connectEstablished conn) =
    if s.owner conn = some (.loop loop) ∧ Posted s conn then 1 else 0
  destroyed : s.conns.length < ConnectionTable.maxConns → ∀ loop conn,
    (s.agenda loop).count (.connectDestroyed conn) =
      if s.owner conn = some (.loop loop) ∧ ¬ InTable s conn then 1 else 0

theorem Standing.moves {s u : Server} {a : Action} (h : Standing s) (ht : step s a = some u)
    (loop : LoopId) : Moves s u loop (poster a) (posts s loop a) :=
  step_moves ht h.removal.head loop

/-- What a thread is to call in `newConnection` is on the base loop's. -/
theorem Standing.base {s : Server} (h : Standing s) {t : ThreadId} {call : Call} {calls : List Call}
    (hcalls : s.calls t = call :: calls)
    (hkind : (∃ sockfd, call = .newConnection sockfd) ∨ ∃ conn, call = .postEstablished conn) :
    t = .loop .base := by
  have hruns := h.placed.pending t call (.inl (hcalls ▸ List.mem_cons_self ..))
  rcases hkind with ⟨sockfd, rfl⟩ | ⟨conn, rfl⟩
  · exact hruns
  · exact hruns

/-- What is scheduled once is not made and still to be made. -/
theorem not_done_of_todo {s : Server} {loop : LoopId} {call : Call}
    (hcount : (s.agenda loop).count call ≤ 1) (htodo : call ∈ s.todo loop) :
    call ∉ s.done loop := by
  intro hdone
  have hfirst := List.count_pos_iff.mpr hdone
  have hsecond := List.count_pos_iff.mpr htodo
  unfold Server.agenda at hcount
  rw [List.count_append] at hcount
  omega

/-- `newConnection` is left with its end to run. -/
theorem posted_step {s u : Server} {a : Action} (h : Standing s) (ht : step s a = some u)
    (loop : LoopId) (conn : ℕ) : (u.agenda loop).count (.postEstablished conn) =
      if conn < u.conns.length ∧ loop = .base then 1 else 0 := by
  rw [(h.moves ht loop).count, h.posted]
  cases step_table h.removal ht with
  | keeps hkeeps hlisten _ =>
      rw [count_listen_only (hlisten loop) (by simp), hkeeps.length, Nat.add_zero]
  | @newConnection t kernel sockfd calls hcalls hkeeps =>
      obtain rfl := h.base hcalls (.inl ⟨sockfd, rfl⟩)
      have hlength : u.conns.length = s.conns.length + 1 :=
        hkeeps.length.trans List.length_append
      rw [hlength]
      by_cases hl : loop = .base
      · subst hl
        have hposts : posts s .base (.exec (.loop .base) kernel) =
            [.postEstablished s.conns.length] := by
          simp [posts, hcalls, postsOf]
        rw [hposts]
        rcases Nat.lt_trichotomy conn s.conns.length with hlt | rfl | hgt
        · simp [hlt, Nat.lt_succ_of_lt hlt, Nat.ne_of_gt hlt]
        · simp
        · simp [Nat.not_lt_of_gt hgt, Nat.not_lt.mpr (Nat.succ_le_of_lt hgt), Nat.ne_of_lt hgt]
      · have hnone : ¬ Schedules s loop (.exec (.loop .base) kernel) (.postEstablished conn) := by
          rintro ⟨⟩
          exact hl rfl
        simp [count_posts_eq_zero hnone, hl]
  | @postEstablished t kernel i calls hcalls hkeeps =>
      have hnone : ¬ Schedules s loop (.exec t kernel) (.postEstablished conn) := by
        rintro (_ | hnew)
        cases hcalls.symm.trans hnew
      rw [count_posts_eq_zero hnone, hkeeps.length, Nat.add_zero]
  | destroy t hkeeps _ =>
      have hnone : ¬ Schedules s loop (.destroy t) (.postEstablished conn) := by
        rintro ⟨⟩
      rw [count_posts_eq_zero hnone, hkeeps.length, Nat.add_zero]

/-- What `newConnection` posts at its end had not been posted before. -/
theorem established_step {s u : Server} {a : Action} (h : Standing s) (ht : step s a = some u)
    (loop : LoopId) (conn : ℕ) : (u.agenda loop).count (.connectEstablished conn) =
      if u.owner conn = some (.loop loop) ∧ Posted u conn then 1 else 0 := by
  rw [(h.moves ht loop).count, h.established]
  cases step_table h.removal ht with
  | keeps hkeeps hlisten hposted =>
      rw [count_listen_only (hlisten loop) (by simp), hkeeps.owner, Nat.add_zero]
      simp only [hposted]
  | @newConnection t kernel sockfd calls hcalls hkeeps =>
      have hnone : ¬ Schedules s loop (.exec t kernel) (.connectEstablished conn) := by
        rintro (_ | _ | hpost)
        cases hcalls.symm.trans hpost
      have hposted : Posted u conn ↔ Posted s conn := by
        rw [posted_exec hcalls ht]
        simp
      rw [count_posts_eq_zero hnone, hkeeps.owner, Nat.add_zero]
      simp only [owner_addConnection_iff, hposted]
      by_cases hconn : conn = s.conns.length
      · have hfresh : ¬ Posted s conn := by
          intro hdone
          have hcount := h.posted .base conn
          rw [if_neg fun hlt => Nat.ne_of_lt hlt.1 hconn] at hcount
          exact List.count_eq_zero.mp hcount (List.mem_append_left _ hdone)
        simp [hfresh]
      · simp [hconn]
  | @postEstablished t kernel i calls hcalls hkeeps =>
      obtain rfl := h.base hcalls (.inr ⟨i, rfl⟩)
      rw [hkeeps.owner]
      simp only [posted_exec hcalls ht]
      by_cases hconn : conn = i
      · subst hconn
        have hwaits : ¬ Posted s conn := by
          apply not_done_of_todo
          · rw [h.posted]
            split_ifs <;> decide
          · simp [Server.todo, hcalls, scheduled]
        by_cases howner : s.owner conn = some (.loop loop)
        · simp [posts, postsOf, hcalls, howner, hwaits]
        · simp [posts, postsOf, hcalls, howner]
      · have hnone :
            ¬ Schedules s loop (.exec (.loop .base) kernel) (.connectEstablished conn) := by
          rintro (_ | _ | hpost)
          cases hcalls.symm.trans hpost
          exact hconn rfl
        simp [count_posts_eq_zero hnone, Ne.symm hconn]
  | destroy t hkeeps hposted =>
      have hnone : ¬ Schedules s loop (.destroy t) (.connectEstablished conn) := by
        rintro ⟨⟩
      rw [count_posts_eq_zero hnone, hkeeps.owner, Nat.add_zero]
      simp only [hposted]
      rfl

theorem destroyed_step {s u : Server} {a : Action} (h : Standing s) (ht : step s a = some u)
    (hcount : u.conns.length < ConnectionTable.maxConns) (loop : LoopId) (conn : ℕ) :
    (u.agenda loop).count (.connectDestroyed conn) =
      if u.owner conn = some (.loop loop) ∧ ¬ InTable u conn then 1 else 0 := by
  rw [(h.moves ht loop).count]
  have hexec : ∀ t kernel, ¬ Schedules s loop (.exec t kernel) (.connectDestroyed conn) := by
    rintro t kernel ⟨⟩
  cases step_table h.removal ht with
  | keeps hkeeps hlisten _ =>
      rw [hkeeps.length] at hcount
      rw [h.destroyed hcount, count_listen_only (hlisten loop) (by simp), Nat.add_zero]
      simp only [hkeeps.owner, hkeeps.inTable]
  | postEstablished hcalls hkeeps =>
      rw [hkeeps.length] at hcount
      rw [h.destroyed hcount, count_posts_eq_zero (hexec _ _), Nat.add_zero]
      simp only [hkeeps.owner, hkeeps.inTable]
  | newConnection hcalls hkeeps =>
      rw [hkeeps.length, Server.addConnection, List.length_append] at hcount
      rw [h.destroyed (Nat.lt_of_succ_lt hcount), count_posts_eq_zero (hexec _ _), Nat.add_zero]
      simp only [hkeeps.owner, hkeeps.inTable, inTable_addConnection h.tabled hcount,
        owner_addConnection_iff]
      by_cases hconn : conn = s.conns.length
      · subst hconn
        simp [owner_none (s := s) (Nat.le_refl s.conns.length)]
      · simp [hconn]
  | destroy t hkeeps _ =>
      have hlength : u.conns.length = s.conns.length := hkeeps.length
      rw [hlength] at hcount
      have hgone : ¬ InTable u conn := by
        rw [hkeeps.inTable]
        rintro ⟨c, -, hname⟩
        cases hname
      have howner : u.owner conn = s.owner conn := hkeeps.owner conn
      rw [h.destroyed hcount, posts, count_tabledOn, howner]
      by_cases ho : s.owner conn = some (.loop loop)
      · by_cases hin : InTable s conn <;> simp [ho, hin, hgone]
      · simp [ho]

theorem step_standing (s : Server) (a : Action) (u : Server) (h : Standing s)
    (ht : step s a = some u) : Standing u :=
  ⟨step_noRemoval h.removal ht, ConnectionTable.step_tabled s (.server a) u h.tabled ht,
    step_placed s a u h.placed ht, posted_step h ht, established_step h ht, destroyed_step h ht⟩

theorem create_standing (name : String) {ipPort : String} (hip : ipPort.length ≤ 21)
    (threadNum : ℕ) (callbacks : Callback → Bool) :
    Standing (Server.create name ipPort threadNum callbacks) := by
  refine ⟨?_, ConnectionTable.create_tabled name hip threadNum callbacks, create_placed ..,
    fun loop conn => ?_, fun loop conn => ?_, fun _ loop conn => ?_⟩
  · rintro t conn (hcall | ⟨loop, -, hmem⟩)
    · cases hcall
    · cases hmem
  · simp [Server.create, Server.agenda, Server.done, Server.todo]
  · simp [Server.create, Server.agenda, Server.done, Server.todo, Server.owner]
  · simp [Server.create, Server.agenda, Server.done, Server.todo, Server.owner]

/-- The acceptor is told to listen once, if the server has been started. -/
def Listens (s : Server) : Prop := ∀ loop, (s.agenda loop).count .listen =
  if s.started ≠ 0 ∧ loop = .base then 1 else 0

/-- Only a start that finds the counter at zero tells it so. -/
theorem step_listens {s u : Server} {a : Action} (h : Standing s) (hl : Listens s)
    (hwrap : NoWrap s a) (ht : step s a = some u) : Listens u := by
  intro loop
  rw [(h.moves ht loop).count, hl]
  have hother : (∀ t, a ≠ .start t) → u.started = s.started →
      (if s.started ≠ 0 ∧ loop = .base then 1 else 0) + (posts s loop a).count .listen =
        if u.started ≠ 0 ∧ loop = .base then 1 else 0 := by
    intro ha hstarted
    have hnone : ¬ Schedules s loop a .listen := by
      rintro ⟨t⟩
      exact ha t rfl
    rw [count_posts_eq_zero hnone, hstarted, Nat.add_zero]
  cases step_pool ht with
  | same k => exact hother (k.not_start ht) k.started
  | start t k =>
      have hstarted : u.started ≠ 0 := by
        rw [k.started]
        exact hwrap
      by_cases hbase : loop = .base
      · by_cases hzero : s.started = 0
        · have hposts : posts s loop (.start t) = [.listen] := if_pos ⟨hzero, hbase⟩
          rw [hposts, if_neg fun hpast => hpast.1 hzero, if_pos ⟨hstarted, hbase⟩]
          rfl
        · have hposts : posts s loop (.start t) = [] := if_neg fun hfirst => hzero hfirst.1
          rw [hposts, if_pos ⟨hzero, hbase⟩, if_pos ⟨hstarted, hbase⟩]
          rfl
      · have hposts : posts s loop (.start t) = [] := if_neg fun hfirst => hbase hfirst.2
        rw [hposts, if_neg fun hpast => hbase hpast.2, if_neg fun hpast => hbase hpast.2]
        rfl
  | listen _ hu =>
      subst hu
      exact hother (by simp) rfl
  | newConnection _ k => exact hother (by simp) k.started

/-- A client connects to a server that is started twice and destroyed before the
establishment is posted. -/
def twiceStarted : List Action :=
  [.start (.loop .base), .start (.user 0), .exec (.loop .base) .blocked,
    .poll .base [.accept 5], .exec (.loop .base) .blocked, .destroy (.user 0),
    .exec (.loop .base) .blocked]

end Netmux.ConnectionCalls
