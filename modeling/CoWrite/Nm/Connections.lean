import CoWrite.Nm.Requests

/-!
# Registrations and lost connections

A server registers over a connection, and the entry of its id is written over when it registers again
over another one. The thread of a connection remembers only the index of the entry: when it loses the
connection it takes the entry down, whoever has registered since. `Registry` is the table with all the
connections there were and the registrations they made; `current_iff_timely` says that the entries
follow the latest registrations as long as no connection is lost after a later one of its id came, and
stop to as soon as one is.
-/

namespace CoWrite.Nm

open CoWrite.Lib

/-- A connection that was accepted: `fd` and `server_index` of its peer, and whether it is still open. -/
structure Connection where
  fd : Nat
  serverIndex : Option Nat
  isOpen : Bool
deriving DecidableEq, Repr

/-- The tables, the connections as they were accepted, and the registrations with the connections they
came over, the latest first. -/
structure Registry where
  nm : NmState
  connections : List Connection
  registrations : List (Text × Nat)
deriving DecidableEq, Repr

/-- `handle_ss_register` up to its acknowledgement, with the id and the index it registers. -/
def registerServer (state : NmState) (json : Text) (fd : Nat) : Option (Text × Nat) × NmState :=
  match jsonGetString json (Text.lit "ssId") 64, jsonGetString json (Text.lit "host") 64,
    jsonGetString json (Text.lit "ctrlPort") 16, jsonGetString json (Text.lit "dataPort") 16 with
  | some id, some host, some ctrlPort, some dataPort =>
    let (index, state) := nmRegisterServer state id host ctrlPort dataPort fd
    (index.map fun i => (id, i), state)
  | _, _, _, _ => (none, state)

namespace Registry

inductive Event where
  | accept (fd : Nat)
  | register (c : Nat) (json : Text)
  | lose (c : Nat)

/-- A descriptor that no open connection has. -/
def IsFree (s : Registry) (fd : Nat) : Prop := ∀ conn ∈ s.connections, conn.isOpen = true → conn.fd ≠ fd

instance (s : Registry) (fd : Nat) : Decidable (s.IsFree fd) :=
  inferInstanceAs (Decidable (∀ conn ∈ s.connections, conn.isOpen = true → conn.fd ≠ fd))

/-- `SS_REGISTER` of a peer that has not registered. -/
def register (s : Registry) (c : Nat) (conn : Connection) (json : Text) : Registry :=
  match registerServer s.nm json conn.fd with
  | (none, nm) => { s with nm := nm }
  | (some (id, i), nm) =>
    { nm := nm
      connections := s.connections.set c { conn with serverIndex := some i }
      registrations := (id, c) :: s.registrations }

/-- The thread of the connection calls `handle_server_disconnect` and `peer_close`. -/
def lose (s : Registry) (c : Nat) (conn : Connection) : Registry :=
  { s with
    nm := match conn.serverIndex with
      | none => s.nm
      | some i => (handleServerDisconnect s.nm i).1
    connections := s.connections.set c { conn with isOpen := false } }

def step (s : Registry) : Event → Option Registry
  | .accept fd =>
    if s.IsFree fd then some { s with connections := s.connections ++ [⟨fd, none, true⟩] } else none
  | .register c json =>
    (s.connections[c]?).bind fun conn =>
      if conn.isOpen = true ∧ conn.serverIndex = none then some (s.register c conn json) else none
  | .lose c =>
    (s.connections[c]?).bind fun conn => if conn.isOpen = true then some (s.lose c conn) else none

/-- At the start no connection is open; servers that were loaded have no descriptor. -/
def Initial (s : Registry) : Prop :=
  s.connections = [] ∧ s.registrations = [] ∧ (s.nm.servers.map StorageServer.id).Nodup ∧
    ∀ ss ∈ s.nm.servers, ss.ctrlFd = -1

def system : System Registry Event := .ofStep Initial step

/-- The connection of the latest registration of an id. -/
def latest (s : Registry) (id : Text) : Option Nat :=
  (s.registrations.find? fun r => r.1 == id).map Prod.snd

/-- Each server is online with a descriptor exactly when its latest registration came over a connection
with that descriptor which is open. -/
def Current (s : Registry) : Prop :=
  ∀ (i : Nat) (ss : StorageServer), s.nm.servers[i]? = some ss → ∀ fd : Nat, (ss.online = true ∧ ss.ctrlFd = fd) ↔
    ∃ c conn, s.latest ss.id = some c ∧ s.connections[c]? = some conn ∧ conn.isOpen = true ∧ conn.fd = fd

/-- The connection registered a server that another open connection has registered since. -/
def IsSuperseded (s : Registry) (c : Nat) : Prop :=
  ∃ (conn : Connection) (i : Nat) (ss : StorageServer) (c' : Nat) (conn' : Connection), s.connections[c]? = some conn ∧ conn.serverIndex = some i ∧
    s.nm.servers[i]? = some ss ∧ s.latest ss.id = some c' ∧ c' ≠ c ∧ s.connections[c']? = some conn' ∧
    conn'.isOpen = true

/-- The connection that is lost, if one is, is not superseded. -/
def IsTimely (s : Registry) (e : Event) : Prop := ∀ c, e = .lose c → ¬ s.IsSuperseded c

/-! ## What a step does to the servers -/

theorem registerServer_eq (state : NmState) (json : Text) (fd : Nat) :
    (registerServer state json fd).2 = (handleSsRegister state json fd).2 ∧
      ((registerServer state json fd).1.isSome = true ↔
        (handleSsRegister state json fd).1 = .ok (Text.lit "SS")) := by
  unfold registerServer handleSsRegister
  cases jsonGetString json (Text.lit "ssId") 64 with
  | none => simp
  | some id =>
    cases jsonGetString json (Text.lit "host") 64 with
    | none => simp
    | some host =>
      cases jsonGetString json (Text.lit "ctrlPort") 16 with
      | none => simp
      | some ctrlPort =>
        cases jsonGetString json (Text.lit "dataPort") 16 with
        | none => simp
        | some dataPort =>
          dsimp only
          generalize nmRegisterServer state id host ctrlPort dataPort fd = r
          rcases r with ⟨_ | i, nm⟩ <;> simp

/-- The entry a registration leaves. -/
def IsRegistered (ss : StorageServer) (id : Text) (fd : Nat) : Prop :=
  ss.id = id ∧ ss.online = true ∧ ss.ctrlFd = fd

/-- A registration writes the entry of its id over, or adds one, or changes nothing. -/
theorem nmRegisterServer_cases (nm : NmState) {id : Text} (hlen : id.length < 64) (host ctrlPort dataPort : Text)
    (fd : Nat) :
    nmRegisterServer nm id host ctrlPort dataPort fd = (none, nm) ∨
    ∃ i ss', (nmRegisterServer nm id host ctrlPort dataPort fd).1 = some i ∧ IsRegistered ss' id fd ∧
      ((∃ ss, nm.servers[i]? = some ss ∧ ss.id = id ∧
          (nmRegisterServer nm id host ctrlPort dataPort fd).2.servers = nm.servers.set i ss') ∨
        (i = nm.servers.length ∧ (∀ ss ∈ nm.servers, ss.id ≠ id) ∧
          (nmRegisterServer nm id host ctrlPort dataPort fd).2.servers = nm.servers ++ [ss'])) := by
  unfold nmRegisterServer
  cases hfind : nmFindServerById nm id with
  | some i =>
    obtain ⟨pre, ss, post, hservers, rfl, hss, -⟩ := exists_append_of_findIdx? hfind
    have hset (ss' : StorageServer) : (pre ++ ss :: post).set pre.length ss' = pre ++ ss' :: post := by
      rw [List.set_append_right _ _ (Nat.le_refl _), Nat.sub_self, List.set_cons_zero]
    let ss' : StorageServer :=
      { ss with
        host := Text.copyTo NM_MAX_NAME host
        ctrlPort := Text.copyTo 16 ctrlPort
        dataPort := Text.copyTo 16 dataPort
        ctrlFd := fd
        online := true }
    refine .inr ⟨pre.length, ss', rfl, ⟨hss, rfl, rfl⟩, .inl ⟨ss, by simp [hservers], hss, ?_⟩⟩
    simp only [hservers, modify_append_length, hset, ss']
  | none =>
    by_cases hfull : nm.servers.length ≥ NM_MAX_SERVERS
    · simp [hfull]
    · have hnew : ∀ ss ∈ nm.servers, ss.id ≠ id := by simpa [nmFindServerById] using hfind
      have hcopy : Text.copyTo NM_MAX_NAME id = id := Text.copyTo_eq_self (Nat.lt_trans hlen (by decide))
      simp only [hfull, if_false]
      exact .inr ⟨_, _, rfl, ⟨hcopy, rfl, rfl⟩, .inr ⟨rfl, hnew, rfl⟩⟩

theorem nmMarkServerDown_servers (nm : NmState) (i : Nat) :
    (nmMarkServerDown nm i).servers =
      nm.servers.modify i fun ss => { ss with ctrlFd := -1, online := false } := by
  unfold nmMarkServerDown
  split
  · next h =>
    rw [List.modify_eq_self]
    omega
  · rfl

/-! ## The invariant -/

/-- What holds of the entry of a server: it was never registered, or it is online over the open connection
of its latest registration, or that connection is closed and it is offline. -/
def Follows (s : Registry) (i : Nat) (ss : StorageServer) : Prop :=
  (s.latest ss.id = none ∧ ss.ctrlFd = -1) ∨
  ∃ c conn, s.latest ss.id = some c ∧ s.connections[c]? = some conn ∧ conn.serverIndex = some i ∧
    (conn.isOpen = true → ss.online = true ∧ ss.ctrlFd = conn.fd) ∧ (conn.isOpen = false → ss.online = false)

structure Inv (s : Registry) : Prop where
  ids : (s.nm.servers.map StorageServer.id).Nodup
  follows : ∀ i ss, s.nm.servers[i]? = some ss → s.Follows i ss

theorem inv_of_initial {s : Registry} (h : s.Initial) : s.Inv := by
  obtain ⟨-, hregs, hids, hfd⟩ := h
  refine ⟨hids, fun i ss hi => .inl ⟨?_, hfd ss (List.mem_of_getElem? hi)⟩⟩
  rw [latest, hregs]
  rfl

theorem current_of_inv {s : Registry} (h : s.Inv) : s.Current := by
  intro i ss hi fd
  constructor
  · rintro ⟨honline, hfd⟩
    rcases h.follows i ss hi with ⟨-, hnone⟩ | ⟨c, conn, hlatest, hconn, -, hopen, hclosed⟩
    · omega
    · cases ho : conn.isOpen with
      | true =>
        have := (hopen ho).2
        exact ⟨c, conn, hlatest, hconn, ho, by omega⟩
      | false =>
        rw [hclosed ho] at honline
        cases honline
  · rintro ⟨c, conn, hlatest, hconn, ho, rfl⟩
    rcases h.follows i ss hi with ⟨hnone, -⟩ | ⟨c', conn', hlatest', hconn', -, hopen, -⟩
    · rw [hlatest] at hnone
      cases hnone
    · rw [hlatest] at hlatest'
      cases hlatest'
      rw [hconn] at hconn'
      cases hconn'
      exact hopen ho

theorem latest_cons (s : Registry) (id id' : Text) (c : Nat) (nm : NmState) (cs : List Connection) :
    latest ⟨nm, cs, (id, c) :: s.registrations⟩ id' = if id = id' then some c else s.latest id' := by
  unfold latest
  by_cases h : id = id'
  · simp [h]
  · simp [h]

/-- An entry keeps following when no connection it may have is touched. -/
theorem Follows.congr {s t : Registry} {i : Nat} {ss : StorageServer} (h : s.Follows i ss)
    (hlatest : t.latest ss.id = s.latest ss.id)
    (hconn : ∀ (c : Nat) (conn : Connection), s.connections[c]? = some conn → conn.serverIndex = some i → t.connections[c]? = some conn) :
    t.Follows i ss := by
  rcases h with ⟨hnone, hfd⟩ | ⟨c, conn, hl, hc, hi, hopen, hclosed⟩
  · exact .inl ⟨hlatest.trans hnone, hfd⟩
  · exact .inr ⟨c, conn, hlatest.trans hl, hconn c conn hc hi, hi, hopen, hclosed⟩

theorem accept_inv {s : Registry} (h : s.Inv) (conn : Connection) :
    Inv { s with connections := s.connections ++ [conn] } := by
  refine ⟨h.ids, fun i ss hi => Follows.congr (h.follows i ss hi) rfl fun c conn hc _ => ?_⟩
  rw [List.getElem?_append_left (List.getElem?_eq_some_iff.1 hc).1]
  exact hc

/-- The entry that was registered follows its connection, and the others have other ids and connections. -/
theorem registered_inv {s : Registry} (h : s.Inv) {c : Nat} {conn : Connection} (hc : s.connections[c]? = some conn)
    (hopen : conn.isOpen = true) (hnew : conn.serverIndex = none) {nm : NmState} {id : Text} {i : Nat}
    {ss' : StorageServer} (hss' : IsRegistered ss' id conn.fd)
    (hservers : (∃ ss, s.nm.servers[i]? = some ss ∧ ss.id = id ∧ nm.servers = s.nm.servers.set i ss') ∨
      (i = s.nm.servers.length ∧ (∀ ss ∈ s.nm.servers, ss.id ≠ id) ∧ nm.servers = s.nm.servers ++ [ss'])) :
    Inv ⟨nm, s.connections.set c { conn with serverIndex := some i }, (id, c) :: s.registrations⟩ := by
  obtain ⟨hid, honline, hfd⟩ := hss'
  have hcl : c < s.connections.length := (List.getElem?_eq_some_iff.1 hc).1
  have hself (nm : NmState) :
      Follows ⟨nm, s.connections.set c { conn with serverIndex := some i }, (id, c) :: s.registrations⟩ i ss' := by
    refine .inr ⟨c, { conn with serverIndex := some i }, ?_, ?_, rfl, fun _ => ⟨honline, hfd⟩, fun hclosed => ?_⟩
    · rw [latest_cons, if_pos hid.symm]
    · exact List.getElem?_set_self hcl
    · rw [hopen] at hclosed
      cases hclosed
  have hother {j : Nat} {ss : StorageServer} (hj : s.nm.servers[j]? = some ss) (hne : ss.id ≠ id) :
      Follows ⟨nm, s.connections.set c { conn with serverIndex := some i }, (id, c) :: s.registrations⟩ j ss := by
    refine Follows.congr (h.follows j ss hj) ?_ fun c' conn' hc' hj' => ?_
    · rw [latest_cons, if_neg (Ne.symm hne)]
    · have hcc : c ≠ c' := by
        intro e
        rw [e] at hc
        rw [hc] at hc'
        cases hc'
        rw [hnew] at hj'
        cases hj'
      rw [List.getElem?_set_ne hcc]
      exact hc'
  rcases hservers with ⟨ss, hi, hssid, hset⟩ | ⟨rfl, hids, happend⟩
  · have hil : i < s.nm.servers.length := (List.getElem?_eq_some_iff.1 hi).1
    refine ⟨?_, fun j x hj => ?_⟩
    · dsimp only
      rw [hset, map_set_of_eq hi (hid.trans hssid.symm)]
      exact h.ids
    · dsimp only at hj
      rw [hset] at hj
      by_cases hji : j = i
      · rw [hji, List.getElem?_set_self hil] at hj
        cases hj
        rw [hji]
        exact hself nm
      · rw [List.getElem?_set_ne (Ne.symm hji)] at hj
        refine hother hj fun hx => hji ?_
        refine (List.getElem?_inj (by simpa using (List.getElem?_eq_some_iff.1 hj).1) h.ids).1 ?_
        rw [List.getElem?_map, List.getElem?_map, hj, hi, Option.map_some, Option.map_some, hx, hssid]
  · refine ⟨?_, fun j x hj => ?_⟩
    · dsimp only
      rw [happend, List.map_append, List.nodup_append]
      refine ⟨h.ids, by simp, fun a ha b hb => ?_⟩
      obtain ⟨ss, hss, rfl⟩ := List.mem_map.1 ha
      have hb : b = ss'.id := by simpa using hb
      rw [hb, hid]
      exact hids ss hss
    · dsimp only at hj
      rw [happend] at hj
      rcases Nat.lt_or_ge j s.nm.servers.length with hlt | hge
      · rw [List.getElem?_append_left hlt] at hj
        exact hother hj (hids x (List.mem_of_getElem? hj))
      · have hj0 : j = s.nm.servers.length := by
          have := (List.getElem?_eq_some_iff.1 hj).1
          simp only [List.length_append, List.length_cons, List.length_nil] at this
          omega
        rw [hj0, List.getElem?_concat_length] at hj
        cases hj
        rw [hj0]
        exact hself nm

theorem register_inv {s : Registry} (h : s.Inv) {c : Nat} {conn : Connection} (hc : s.connections[c]? = some conn)
    (hopen : conn.isOpen = true) (hnew : conn.serverIndex = none) (json : Text) : (s.register c conn json).Inv := by
  unfold register registerServer
  split
  · next nm heq =>
    split at heq
    · next id host ctrlPort dataPort hid _ _ _ =>
      rcases nmRegisterServer_cases s.nm (length_jsonGetString_lt hid) host ctrlPort dataPort conn.fd with
        hfull | ⟨i, _, hi, -⟩
      · rw [hfull] at heq
        cases heq
        exact h
      · simp [hi] at heq
    · cases heq
      exact h
  · next id i nm heq =>
    split at heq
    · next id' host ctrlPort dataPort hid _ _ _ =>
      rcases nmRegisterServer_cases s.nm (length_jsonGetString_lt hid) host ctrlPort dataPort conn.fd with
        hfull | ⟨j, ss', hj, hss', hservers⟩
      · simp [hfull] at heq
      · simp only [hj, Option.map_some, Prod.mk.injEq, Option.some.injEq] at heq
        obtain ⟨⟨rfl, rfl⟩, rfl⟩ := heq
        exact registered_inv h hc hopen hnew hss' hservers
    · cases heq

/-- A loss takes down the entry of the connection, whose latest registration came over it or over one
that is closed already. -/
theorem lose_inv {s : Registry} (h : s.Inv) {c : Nat} {conn : Connection} (hc : s.connections[c]? = some conn)
    (hlate : ¬ s.IsSuperseded c) : (s.lose c conn).Inv := by
  have hcl : c < s.connections.length := (List.getElem?_eq_some_iff.1 hc).1
  have hother {j : Nat} {ss : StorageServer} (hj : s.nm.servers[j]? = some ss) (hne : conn.serverIndex ≠ some j) :
      (s.lose c conn).Follows j ss := by
    refine Follows.congr (h.follows j ss hj) rfl fun c' conn' hc' hj' => ?_
    have hcc : c ≠ c' := by
      intro e
      rw [e] at hc
      rw [hc] at hc'
      cases hc'
      exact hne hj'
    exact (List.getElem?_set_ne hcc).trans hc'
  cases hk : conn.serverIndex with
  | none =>
    have hnm : (s.lose c conn).nm = s.nm := by simp [lose, hk]
    refine ⟨by rw [hnm]; exact h.ids, fun j ss hj => ?_⟩
    rw [hnm] at hj
    exact hother hj (by simp [hk])
  | some k =>
    have hservers : (s.lose c conn).nm.servers =
        s.nm.servers.modify k fun ss => { ss with ctrlFd := -1, online := false } := by
      simp only [lose, hk, handleServerDisconnect]
      exact nmMarkServerDown_servers s.nm k
    refine ⟨?_, fun j x hj => ?_⟩
    · have hids : (s.lose c conn).nm.servers.map StorageServer.id = s.nm.servers.map StorageServer.id := by
        rw [hservers]
        exact map_modify_of_eq (by intro ss; rfl) _ _
      rw [hids]
      exact h.ids
    · rw [hservers] at hj
      by_cases hjk : j = k
      · subst hjk
        rw [List.getElem?_modify_eq] at hj
        obtain ⟨ss, hss, rfl⟩ := Option.map_eq_some_iff.1 hj
        rcases h.follows j ss hss with ⟨hnone, -⟩ | ⟨c', conn', hlatest, hc', hj', hopen, hclosed⟩
        · exact .inl ⟨hnone, rfl⟩
        · by_cases hcc : c' = c
          · subst hcc
            refine .inr ⟨c', { conn with isOpen := false }, hlatest, List.getElem?_set_self hcl, hk, ?_, fun _ => rfl⟩
            intro ho
            cases ho
          · have hshut : conn'.isOpen = false := by
              cases ho : conn'.isOpen with
              | false => rfl
              | true => exact absurd ⟨conn, j, ss, c', conn', hc, hk, hss, hlatest, hcc, hc', ho⟩ hlate
            refine .inr ⟨c', conn', hlatest, (List.getElem?_set_ne (Ne.symm hcc)).trans hc', hj',
              fun ho => ?_, fun _ => rfl⟩
            rw [hshut] at ho
            cases ho
      · rw [List.getElem?_modify_ne _ _ (Ne.symm hjk)] at hj
        refine hother hj fun e => hjk ?_
        rw [hk] at e
        exact (Option.some.inj e).symm

theorem step_inv {s t : Registry} {e : Event} (h : s.Inv) (hg : s.IsTimely e) (hs : s.step e = some t) : t.Inv := by
  cases e with
  | accept fd =>
    simp only [step] at hs
    split at hs
    · cases hs
      exact accept_inv h _
    · cases hs
  | register c json =>
    obtain ⟨conn, hc, hs⟩ := Option.bind_eq_some_iff.1 hs
    split at hs
    · next hnew =>
      cases hs
      exact register_inv h hc hnew.1 hnew.2 json
    · cases hs
  | lose c =>
    obtain ⟨conn, hc, hs⟩ := Option.bind_eq_some_iff.1 hs
    split at hs
    · cases hs
      exact lose_inv h hc (hg c rfl)
    · cases hs

/-- The loss of a superseded connection takes a server down that is registered over an open one. -/
theorem not_current_of_superseded {s t : Registry} {c : Nat} (h : s.IsSuperseded c)
    (hs : s.step (.lose c) = some t) : ¬ t.Current := by
  obtain ⟨conn, i, ss, c', conn', hc, hi, hss, hlatest, hcc, hc', hopen⟩ := h
  obtain ⟨conn₁, hc₁, hs⟩ := Option.bind_eq_some_iff.1 hs
  rw [hc] at hc₁
  cases hc₁
  split at hs
  · cases hs
    intro hcur
    have hdown : (s.lose c conn).nm.servers[i]? = some { ss with ctrlFd := -1, online := false } := by
      simp only [lose, hi, handleServerDisconnect, nmMarkServerDown_servers]
      rw [List.getElem?_modify_eq, hss]
      rfl
    have hstill : (s.lose c conn).connections[c']? = some conn' := (List.getElem?_set_ne (Ne.symm hcc)).trans hc'
    have := (hcur i _ hdown conn'.fd).2 ⟨c', conn', hlatest, hstill, hopen, rfl⟩
    exact Bool.false_ne_true this.1
  · cases hs

/-! ## Runs -/

/-- **Registrations.** In all states of a run the servers are online over the open connections of their
latest registrations, exactly when no loss in the run is one of a superseded connection. -/
theorem current_iff_timely {tr : List (Registry × Event)} {s : Registry} (h : system.Run tr s) :
    System.Throughout Current tr s ↔ System.Meets IsTimely tr := by
  refine h.holds_iff (fun _ => inv_of_initial) (fun _ _ _ hI hg hs => step_inv hI hg hs) (fun _ => current_of_inv) ?_
  intro s e t _ hg hs
  unfold IsTimely at hg
  push Not at hg
  obtain ⟨c, rfl, hlate⟩ := hg
  exact not_current_of_superseded hlate hs

/-- The `SS_REGISTER` of a server. -/
def registerMessage (id : String) : Text :=
  printMessage
    [(Text.lit "ssId", .string (Text.lit id)), (Text.lit "host", .string (Text.lit "127.0.0.1")),
      (Text.lit "ctrlPort", .string (Text.lit "0")), (Text.lit "dataPort", .string (Text.lit "9001"))]

/-- The tables with a file on the first of two servers and its copy on the second one, after a restart. -/
def restarted : Registry where
  nm :=
    { NmState.clear with
      servers := ["ss1", "ss2"].map fun id =>
        ⟨Text.lit id, Text.lit "127.0.0.1", Text.lit "0", Text.lit "9001", -1, false⟩
      files := [newFileEntry (Text.lit "notes") (Text.lit "alice") 0 1 9] }
  connections := []
  registrations := []

/-- Both servers register, and the first one again over a new connection. -/
def reconnect : List Event :=
  [.accept 4, .register 0 (registerMessage "ss1"), .accept 5, .register 1 (registerMessage "ss2"), .accept 6,
    .register 2 (registerMessage "ss1")]

theorem restarted_initial : restarted.Initial := by
  refine ⟨rfl, rfl, by decide, fun ss hss => ?_⟩
  simp only [restarted, List.map_cons, List.map_nil, List.mem_cons, List.not_mem_nil, or_false] at hss
  rcases hss with rfl | rfl <;> rfl

/-- A run of registrations and losses, and a fact about its end that can be computed. -/
theorem exists_registry_run {α : Type} (es : List Event) (check : Registry → α) (a : α)
    (h : (System.exec step [] restarted es).map (fun r => check r.2) = some a) :
    ∃ tr s, system.Run tr s ∧ tr.map Prod.snd = es.reverse ∧ check s = a := by
  obtain ⟨⟨tr, s⟩, hexec, h⟩ := Option.map_eq_some_iff.1 h
  exact ⟨tr, s, System.Run.exec (.start restarted_initial) hexec, by simpa using System.exec_events hexec, h⟩

/-- Coming back does no harm as long as the old connection is not lost. -/
theorem current_after_reconnect : ∃ tr s, system.Run tr s ∧ System.Throughout Current tr s ∧
    s.nm.servers.map StorageServer.ctrlFd = [6, 5] := by
  obtain ⟨tr, s, hrun, htr, hcheck⟩ := exists_registry_run reconnect
    (fun s => s.nm.servers.map StorageServer.ctrlFd) [6, 5] (by decide +kernel)
  refine ⟨tr, s, hrun, (current_iff_timely hrun).2 fun p hp c hc => ?_, hcheck⟩
  have hmem : p.2 ∈ reconnect.reverse := by
    rw [← htr]
    exact List.mem_map_of_mem hp
  rw [hc] at hmem
  simp [reconnect] at hmem

/-- The old connection of a server that has come back is lost late: the server is taken down and its file
moved, though its new connection is open. -/
theorem late_loss : ∃ tr s, system.Run tr s ∧ ¬ s.Current ∧ s.latest (Text.lit "ss1") = some 2 ∧
    s.connections[2]? = some ⟨6, some 0, true⟩ ∧ s.nm.servers.map StorageServer.online = [false, true] ∧
    s.nm.files.map FileEntry.ssIndex = [1] := by
  obtain ⟨tr, s, hrun, -, hcheck⟩ := exists_registry_run (reconnect ++ [Event.lose 0])
    (fun s : Registry => decide (s.latest (Text.lit "ss1") = some 2 ∧ s.connections[2]? = some (Connection.mk 6 (some 0) true) ∧
      s.nm.servers.map StorageServer.id = [Text.lit "ss1", Text.lit "ss2"] ∧
      s.nm.servers.map StorageServer.online = [false, true] ∧ s.nm.files.map FileEntry.ssIndex = [1]))
    true (by decide +kernel)
  obtain ⟨hlatest, hconn, hids, honline, hfiles⟩ := of_decide_eq_true hcheck
  refine ⟨tr, s, hrun, fun hcur => ?_, hlatest, hconn, honline, hfiles⟩
  obtain ⟨ss, hss⟩ : ∃ ss, s.nm.servers[0]? = some ss := by
    cases hservers : s.nm.servers with
    | nil =>
      rw [hservers] at hids
      cases hids
    | cons ss l => exact ⟨ss, rfl⟩
  have hid : ss.id = Text.lit "ss1" := by
    have := congrArg (·[0]?) hids
    simpa [List.getElem?_map, hss] using this
  have hdown : ss.online = false := by
    have := congrArg (·[0]?) honline
    simpa [List.getElem?_map, hss] using this
  have := (hcur 0 ss hss 6).2 ⟨2, _, by rw [hid, hlatest], hconn, rfl, rfl⟩
  rw [hdown] at this
  exact Bool.false_ne_true this.1

end Registry

end CoWrite.Nm
