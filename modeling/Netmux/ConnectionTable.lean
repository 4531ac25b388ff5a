import Netmux.ActionRuns
import Netmux.NumberedTable
import Netmux.ServerSteps

/-!
# The table of connections

A connection is named after the server, the address listened on and a counter,
and the table is keyed by names. The counter's digits make the names of different
connections different whatever the server is called, provided `snprintf` cuts
none of them off: an address has at most 21 characters and an `int` at most 10
digits, which leaves half of the 64 bytes.

The server never calls `removeConnectionInLoop`, for `removeConnection` posts
itself. Here it may be called at any time, for any connection.
-/
namespace Netmux.ConnectionTable
open ActionRuns TcpConnection ServerThreads
open TcpServer (LoopId)

/-- An IPv4 address, by the octets that `inet_ntop` prints, and a port. -/
structure InetAddress where
  octets : UInt8 × UInt8 × UInt8 × UInt8
  port : UInt16

def InetAddress.toIp (a : InetAddress) : String :=
  toString a.octets.1.toNat ++ "." ++ toString a.octets.2.1.toNat ++ "." ++
    toString a.octets.2.2.1.toNat ++ "." ++ toString a.octets.2.2.2.toNat

def InetAddress.toIpPort (a : InetAddress) : String := a.toIp ++ ":" ++ toString a.port.toNat

/-- The steps of a server, and calls of `removeConnectionInLoop`. -/
inductive TableAction where
  | server (a : Action)
  | removeConnectionInLoop (conn : ℕ)

def tableStep (s : Server) : TableAction → Option Server
  | .server a => step s a
  | .removeConnectionInLoop conn => s.conns[conn]?.map fun c => s.removeConnectionInLoop conn c

/-- `nextConnId_` stays an `int` below this number of connections. -/
def maxConns : ℕ := 2 ^ 31 - 1

/-- What `newConnection` writes after the name of the server. -/
def suffix (ipPort : String) (id : ℕ) : String := "-" ++ c_str ipPort ++ "#" ++ toString id

/-- The name of a connection in full, by its place in the order of arrival. -/
def fullName (name ipPort : String) (conn : ℕ) : String := name ++ suffix ipPort (conn + 1)

/-- Names are whole and pairwise different, the next one is new, and the table
holds under its name every connection that has not been removed, and no other.
`newConnection` adds its own entry and `removeConnectionInLoop` takes one out. -/
structure Exact (s : Server) : Prop where
  whole : ∀ (conn : ℕ) (c : Conn), s.conns[conn]? = some c →
    c.connection.name = fullName s.name s.ipPort conn
  distinct : ∀ (i j : ℕ) (c d : Conn), s.conns[i]? = some c → s.conns[j]? = some d →
    c.connection.name = d.connection.name → i = j
  next : s.conns.length + 1 < maxConns →
    s.connName = fullName s.name s.ipPort s.conns.length ∧
      (∀ c ∈ s.conns, c.connection.name ≠ s.connName) ∧
      (s.destroyed = false → s.connections s.connName = none)
  adds : ∀ t sockfd key, (s.newConnection t sockfd).connections key =
    if key = s.connName then some s.conns.length else s.connections key
  table : s.destroyed = false → ∀ key conn, s.connections key = some conn ↔
    ∃ c, s.conns[conn]? = some c ∧ c.connection.name = key ∧ conn ∉ s.removed
  erases : s.destroyed = false → ∀ (conn : ℕ) (c : Conn), s.conns[conn]? = some c → ∀ key,
    (s.removeConnectionInLoop conn c).connections key =
      if s.connections key = some conn then none else s.connections key

theorem toString_injective : Function.Injective (toString : ℕ → String) := by
  have hread : Function.LeftInverse
      (fun text : String => Nat.ofDigitChars 10 text.toList 0) toString := by
    intro n
    show Nat.ofDigitChars 10 n.repr.toList 0 = n
    rw [Nat.toList_repr]
    exact Nat.ofDigitChars_ten_toDigits
  exact hread.injective

theorem append_right_injective (s : String) : Function.Injective (s ++ ·) := by
  intro a b h
  have hlists : s.toList ++ a.toList = s.toList ++ b.toList := by
    simpa only [String.toList_append] using congrArg String.toList h
  exact String.toList_inj.mp (List.append_cancel_left hlists)

/-- The counter can be read off the name, whatever comes before it. -/
theorem fullName_injective (name ipPort : String) : Function.Injective (fullName name ipPort) := by
  intro i j h
  have hid : toString (i + 1) = toString (j + 1) :=
    append_right_injective _ (append_right_injective name h)
  exact Nat.succ_injective (toString_injective hid)

theorem length_c_str (s : String) : (c_str s).length ≤ s.length := by
  unfold c_str
  rw [String.length_ofList, ← String.length_toList]
  exact (List.takeWhile_sublist _).length_le

theorem snprintf_eq {text : String} (h : text.length ≤ 63) : snprintf text = text := by
  unfold snprintf
  rw [List.take_of_length_le (by rwa [String.length_toList]), String.ofList_toList]

/-- A number below `10 ^ k` has at most `k` digits. -/
theorem length_toString {n k : ℕ} (hk : 0 < k) (hn : n < 10 ^ k) : (toString n).length ≤ k := by
  rwa [Nat.toString_eq_repr, Nat.length_repr_le_iff hk]

/-- The 64 bytes hold an address, a counter below 2^31 and two separators. -/
theorem length_suffix {ipPort : String} (hip : ipPort.length ≤ 21) {id : ℕ} (hid : id < maxConns) :
    (suffix ipPort id).length ≤ 63 := by
  have haddress : (c_str ipPort).length ≤ 21 := (length_c_str ipPort).trans hip
  have hdigits : (toString id).length ≤ 10 := length_toString (by decide) (hid.trans (by decide))
  have hdash : "-".length = 1 := rfl
  have hhash : "#".length = 1 := rfl
  unfold suffix
  rw [String.length_append, String.length_append, String.length_append]
  omega

theorem InetAddress.length_toIpPort (a : InetAddress) : a.toIpPort.length ≤ 21 := by
  have hoctet : ∀ octet : UInt8, (toString octet.toNat).length ≤ 3 := fun octet =>
    length_toString (by decide) (octet.toNat_lt.trans (by decide))
  have hport : (toString a.port.toNat).length ≤ 5 :=
    length_toString (by decide) (a.port.toNat_lt.trans (by decide))
  have hfirst := hoctet a.octets.1
  have hsecond := hoctet a.octets.2.1
  have hthird := hoctet a.octets.2.2.1
  have hfourth := hoctet a.octets.2.2.2
  have hdot : ".".length = 1 := rfl
  have hcolon : ":".length = 1 := rfl
  simp only [toIpPort, toIp, String.length_append]
  omega

/-- Names are what they should be as long as the counter is an `int`, and so is
the table. -/
structure Tabled (s : Server) : Prop where
  ipPort : s.ipPort.length ≤ 21
  nextConnId : s.nextConnId = s.conns.length + 1
  whole : ∀ (conn : ℕ) (c : Conn), s.conns[conn]? = some c → conn + 1 < maxConns →
    c.connection.name = fullName s.name s.ipPort conn
  table : s.conns.length < maxConns → s.destroyed = false →
    NumberedTable.Exact (fullName s.name s.ipPort) s.connections s.conns.length s.removed

theorem Tabled.connName_eq {s : Server} (h : Tabled s) (hcount : s.conns.length + 1 < maxConns) :
    s.connName = fullName s.name s.ipPort s.conns.length := by
  unfold Server.connName fullName
  rw [h.nextConnId]
  exact congrArg (s.name ++ ·) (snprintf_eq (length_suffix h.ipPort hcount))

/-- A connection that has been created has one of the numbers of the counter. -/
theorem Tabled.name_eq {s : Server} (h : Tabled s) (hcount : s.conns.length < maxConns) {conn : ℕ}
    {c : Conn} (hc : s.conns[conn]? = some c) :
    c.connection.name = fullName s.name s.ipPort conn := by
  have hlt : conn < s.conns.length := (List.getElem?_eq_some_iff.mp hc).1
  exact h.whole conn c hc (Nat.lt_of_le_of_lt hlt hcount)

theorem Tabled.still {s u : Server} (h : Tabled s) (k : Still s u) : Tabled u := by
  constructor
  · rw [k.ipPort]
    exact h.ipPort
  · rw [k.nextConnId, k.length]
    exact h.nextConnId
  · intro conn d hd hlt
    obtain ⟨c, hc, hsame⟩ := k.before hd
    rw [hsame.name, k.name, k.ipPort]
    exact h.whole conn c hc hlt
  · rw [k.length, k.destroyed, k.name, k.ipPort, k.connections, k.removed]
    exact h.table

theorem Tabled.addConnection {s : Server} (h : Tabled s) (sockfd : ℕ) :
    Tabled (s.addConnection sockfd) := by
  have hlength : (s.addConnection sockfd).conns.length = s.conns.length + 1 := List.length_append
  constructor
  · exact h.ipPort
  · rw [hlength]
    exact congrArg (· + 1) h.nextConnId
  · intro conn c hc hlt
    rcases addConnection_conns.mp hc with hold | ⟨rfl, rfl⟩
    · exact h.whole conn c hold hlt
    · exact h.connName_eq hlt
  · intro hcount hlive
    rw [hlength] at hcount ⊢
    show NumberedTable.Exact _ (Function.update s.connections s.connName _) _ _
    rw [h.connName_eq hcount]
    exact (h.table (Nat.lt_of_succ_lt hcount) hlive).insert (fullName_injective ..)

theorem Tabled.eraseConnection {s : Server} {conn : ℕ} {c : Conn} (hc : s.conns[conn]? = some c)
    (h : Tabled s) : Tabled (s.eraseConnection conn c) := by
  refine ⟨h.ipPort, h.nextConnId, h.whole, ?_⟩
  intro hcount hlive
  show NumberedTable.Exact _ (Function.update s.connections c.connection.name none) _ _
  rw [h.name_eq hcount hc]
  exact (h.table hcount hlive).erase (fullName_injective ..) (List.getElem?_eq_some_iff.mp hc).1

theorem Tabled.removeConnectionInLoop {s : Server} {conn : ℕ} {c : Conn}
    (hc : s.conns[conn]? = some c) (h : Tabled s) : Tabled (s.removeConnectionInLoop conn c) :=
  (h.eraseConnection hc).still (still_removeConnectionInLoop ..)

theorem step_tabled (s : Server) (a : TableAction) (u : Server) (h : Tabled s)
    (ht : tableStep s a = some u) : Tabled u := by
  cases a with
  | server a =>
      apply step_preserves _ _ _ _ _ h ht
      · exact Tabled.still
      · exact fun sockfd hs => hs.addConnection sockfd
      · exact fun hc hs => hs.eraseConnection hc
      · exact fun _ _ _ hs => ⟨hs.ipPort, hs.nextConnId, hs.whole, hs.table⟩
      · exact fun hs => ⟨hs.ipPort, hs.nextConnId, hs.whole, fun _ hlive => by cases hlive⟩
  | removeConnectionInLoop conn =>
      obtain ⟨c, hc, rfl⟩ := Option.map_eq_some_iff.mp ht
      exact h.removeConnectionInLoop hc

theorem create_tabled (name : String) {ipPort : String} (hip : ipPort.length ≤ 21) (threadNum : ℕ)
    (callbacks : Callback → Bool) : Tabled (Server.create name ipPort threadNum callbacks) := by
  refine ⟨hip, rfl, ?_, fun _ _ => .empty _⟩
  intro conn c hc
  cases hc

theorem Tabled.exact {s : Server} (h : Tabled s) (hcount : s.conns.length < maxConns) :
    Exact s := by
  have hinj := fullName_injective s.name s.ipPort
  have hdistinct : ∀ (i j : ℕ) (c d : Conn), s.conns[i]? = some c → s.conns[j]? = some d →
      c.connection.name = d.connection.name → i = j := by
    intro i j c d hc hd hname
    rw [h.name_eq hcount hc, h.name_eq hcount hd] at hname
    exact hinj hname
  constructor
  · exact fun conn c hc => h.name_eq hcount hc
  · exact hdistinct
  · intro hnext
    rw [h.connName_eq hnext]
    refine ⟨rfl, ?_, fun hlive => (h.table hcount hlive).fresh hinj⟩
    intro c hc hname
    obtain ⟨conn, hconn⟩ := List.getElem?_of_mem hc
    rw [h.name_eq hcount hconn] at hname
    exact Nat.ne_of_lt (List.getElem?_eq_some_iff.mp hconn).1 (hinj hname)
  · exact fun _ _ key => Function.update_apply ..
  · intro hlive key conn
    rw [(h.table hcount hlive).eq_some]
    constructor
    · rintro ⟨hlt, hkey, hmem⟩
      have hc := List.getElem?_eq_getElem hlt
      exact ⟨_, hc, (h.name_eq hcount hc).trans hkey, hmem⟩
    · rintro ⟨c, hc, hkey, hmem⟩
      exact ⟨(List.getElem?_eq_some_iff.mp hc).1, (h.name_eq hcount hc).symm.trans hkey, hmem⟩
  · intro hlive conn c hc key
    show Function.update s.connections c.connection.name none key = _
    rw [h.name_eq hcount hc]
    exact (h.table hcount hlive).erase_eq hinj conn key

/-- For every server name, every address of at most 21 characters and every run,
with `removeConnectionInLoop` called anywhere in it, the table is exact as long as
fewer than 2^31 - 1 connections have been made. -/
theorem table_exact (name : String) {ipPort : String} (hip : ipPort.length ≤ 21) (threadNum : ℕ)
    (callbacks : Callback → Bool) (actions : List TableAction) :
    Throughout tableStep (fun s => s.conns.length < maxConns → Exact s)
      (Server.create name ipPort threadNum callbacks) actions :=
  (throughout_of_step step_tabled actions
    (create_tabled name hip threadNum callbacks)).imp fun _ h => h.exact

/-- Two clients come, and the first is removed before it is established and again
after the second has come. -/
def comings : List TableAction :=
  [.server (.start (.loop .base)), .server (.exec (.loop .base) .blocked),
    .server (.poll .base [.accept 5, .accept 6]), .server (.exec (.loop .base) .blocked),
    .removeConnectionInLoop 0, .server (.exec (.loop .base) .blocked),
    .server (.exec (.loop .base) .blocked), .server (.exec (.loop .base) .blocked),
    .server (.leave (.loop .base)), .server (.exec (.loop .base) .blocked),
    .removeConnectionInLoop 0]

theorem table_exact_comings :
    Throughout tableStep (fun s => s.conns.length < maxConns → Exact s)
      (Server.create "echoserver" (InetAddress.toIpPort ⟨⟨127, 0, 0, 1⟩, 8888⟩) 0 fun callback =>
        callback = .connection ∨ callback = .message) comings :=
  table_exact _ (InetAddress.length_toIpPort _) _ _ _

end Netmux.ConnectionTable
