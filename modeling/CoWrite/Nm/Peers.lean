import CoWrite.Common.Json
import CoWrite.Lib.Holders
import CoWrite.Lib.Runs

/-!
# Peer slots and the users that are logged in

A connection gets a slot and a thread. When the connection is over its thread takes the name off the list,
frees the slot in `peer_close`, and resets the slot once more on its way out. The thread knows its slot by
the index only, so the last reset may hit a connection that was given the slot meanwhile: that one is a
client no more, and its name stays on the list when it ends.

* `Matched`: the list has the names of the clients that are there, each once (`Inv`, `Inv.step`).
* `names_of_run`: so it is in every run in which the last reset of a thread hits no other connection.
-/

namespace CoWrite.Nm

open CoWrite.Lib

/-! ## Slots -/

abbrev MAX_PEERS : Nat := 256

/-- `enum peer_type`. -/
inductive PeerType where
  | unused
  | unknown
  | client
  | server
deriving DecidableEq, Repr

/-- `struct peer`, but for its locks, its thread and the index, which only the log reads. -/
structure Peer where
  fd : Int
  type : PeerType
  serverIndex : Int
  user : Text
  threadActive : Bool
deriving DecidableEq, Repr

/-- `peer_reset_fields`. -/
def peerResetFields : Peer := ⟨-1, .unused, -1, [], false⟩

/-- `allocate_peer`: the slot that is given to a connection. -/
def allocatePeer (peers : List Peer) : Option Nat := peers.findIdx? (·.type == .unused)

/-! ## Users -/

/-- `username_in_use`. -/
def usernameInUse (users : List Text) (user : Text) : Bool := !user.isEmpty && users.contains user

/-- `active_user_add`; `pushed` is whether `array_push` succeeds. -/
def activeUserAdd (users : List Text) (user : Text) (pushed : Bool) : Option (List Text) :=
  if user.isEmpty then none
  else if users.contains user then none
  else if pushed then some (users ++ [user]) else none

/-- `active_user_remove`. -/
def activeUserRemove (users : List Text) (user : Text) : List Text :=
  if user.isEmpty then users else users.eraseP (· == user)

/-! ## Threads -/

/-- Where the thread of a connection is. -/
inductive PeerPhase where
  /-- In the loop of `peer_thread_main`, between two frames. -/
  | serving
  /-- In `handle_handshake`, where `username_in_use` was false. -/
  | checked (user : Text)
  /-- In `handle_handshake`, where `active_user_add` succeeded. -/
  | added (user : Text)
  /-- A frame could not be received or handled; `handle_server_disconnect` is next. -/
  | leaving
  /-- `peer_close` is next. -/
  | closing
  /-- Behind the loop. -/
  | closed
  /-- The last `peer_reset` is next. -/
  | exiting
  | done
deriving DecidableEq, Repr

/-- The connection still has its slot. -/
def PeerPhase.inUse : PeerPhase → Bool
  | closed | exiting | done => false
  | _ => true

structure PeerThread where
  index : Nat
  phase : PeerPhase
deriving DecidableEq, Repr

/-- What a thread does next. -/
inductive PeerTurn where
  /-- A frame of a handshake, up to `username_in_use`. -/
  | hello (json : Text)
  | add (pushed : Bool)
  | assign
  /-- `SS_REGISTER` with the index of the server. -/
  | register (index : Int)
  | lose
  | disconnect
  | close
  | deactivate
  | reset

/-- The first part of `handle_handshake` for a `CLIENT_HELLO`. -/
def handleHello (users : List Text) (json : Text) : PeerPhase :=
  if jsonGetString json (Text.lit "type") 64 = some (Text.lit "CLIENT_HELLO") then
    match jsonGetString json (Text.lit "user") 64 with
    | none => .serving
    | some user => if usernameInUse users user then .serving else .checked user
  else .serving

/-- One turn of a thread on its slot and on the list of users, each part of it under one lock. -/
def PeerTurn.run (p : Peer) (users : List Text) : PeerPhase → PeerTurn → Option (PeerPhase × Peer × List Text)
  | .serving, .hello json => if p.type = .unknown then some (handleHello users json, p, users) else none
  | .checked user, .add pushed =>
    match activeUserAdd users user pushed with
    | none => some (.serving, p, users)
    | some users => some (.added user, p, users)
  | .added user, .assign =>
    some (.serving, { p with user := Text.copyTo 64 user, type := .client, serverIndex := -1 }, users)
  | .serving, .register index =>
    if p.type = .unknown then some (.serving, { p with type := .server, serverIndex := index }, users) else none
  | .serving, .lose => some (.leaving, p, users)
  | .leaving, .disconnect =>
    some (.closing, p, if p.type = .client then activeUserRemove users p.user else users)
  | .closing, .close => some (.closed, peerResetFields, users)
  | .closed, .deactivate => some (.exiting, { p with threadActive := false }, users)
  | .exiting, .reset => some (.done, peerResetFields, users)
  | _, _ => none

/-- The slots, `active_users`, and the threads in the order in which their connections were accepted. -/
structure Peers where
  peers : List Peer
  activeUsers : List Text
  threads : List PeerThread
deriving DecidableEq, Repr

namespace Peers

inductive Event where
  | accept (fd : Int)
  /-- No thread is started: the slot goes through `peer_close` and `peer_reset`. -/
  | acceptFailed
  | turn (t : Nat) (e : PeerTurn)

def step (s : Peers) : Event → Option Peers
  | .accept fd =>
    (allocatePeer s.peers).map fun i =>
      { s with peers := s.peers.set i ⟨fd, .unknown, -1, [], true⟩, threads := s.threads ++ [⟨i, .serving⟩] }
  | .acceptFailed => (allocatePeer s.peers).map fun i => { s with peers := s.peers.set i peerResetFields }
  | .turn t e =>
    (s.threads[t]?).bind fun thread =>
      (s.peers[thread.index]?).bind fun p =>
        (e.run p s.activeUsers thread.phase).map fun r =>
          ⟨s.peers.set thread.index r.2.1, r.2.2, s.threads.set t { thread with phase := r.1 }⟩

def Initial (s : Peers) : Prop :=
  s.peers = List.replicate MAX_PEERS peerResetFields ∧ s.activeUsers = [] ∧ s.threads = []

def system : System Peers Event := .ofStep Initial step

/-- The name under which a thread is logged in, by its slot; between `active_user_add` and the assignment the
slot does not have it yet. -/
def nameOf (p : Peer) : PeerPhase → Option Text
  | .added user => some user
  | .serving | .checked _ | .leaving => if p.type = .client then some p.user else none
  | _ => none

/-- The name of the live client on a connection. -/
def liveName (s : Peers) (t : Nat) : Option Text :=
  (s.threads[t]?).bind fun thread => (s.peers[thread.index]?).bind fun p => nameOf p thread.phase

/-- Each name on the list is that of exactly one live client, which every live client's is; any other name can
log in. -/
structure NamesKept (s : Peers) : Prop where
  listed : ∀ user ∈ s.activeUsers, ∃! t, s.liveName t = some user
  live : ∀ t user, s.liveName t = some user → user ∈ s.activeUsers
  again : ∀ user, user ≠ [] → (∀ t, s.liveName t ≠ some user) →
    usernameInUse s.activeUsers user = false ∧ activeUserAdd s.activeUsers user true = some (s.activeUsers ++ [user])

/-- No other connection is in the slot. -/
def Free (s : Peers) (t i : Nat) : Prop :=
  ∀ t' thread, t' ≠ t → s.threads[t']? = some thread → thread.phase.inUse = true → thread.index ≠ i

/-- The last reset of a thread hits no other connection. -/
def ResetsOwn (s : Peers) (e : Event) : Prop :=
  ∀ t i, e = .turn t .reset → s.threads[t]? = some ⟨i, .exiting⟩ → s.Free t i

/-- A slot is given to a connection when the threads that had it are gone. -/
def AcceptsFree (s : Peers) : Event → Prop
  | .accept _ => ∀ i ∈ allocatePeer s.peers, ∀ thread ∈ s.threads, thread.index = i → thread.phase = .done
  | _ => True

instance (s : Peers) : DecidablePred s.AcceptsFree
  | .accept _ => inferInstanceAs (Decidable (∀ i ∈ allocatePeer s.peers, ∀ thread ∈ s.threads, thread.index = i →
      thread.phase = .done))
  | .acceptFailed | .turn _ _ => isTrue trivial

/-! ## The invariant -/

/-- What a thread in that phase can rely on in its slot. -/
def Fits (p : Peer) : PeerPhase → Prop
  | .checked user => p.type = .unknown ∧ user.length < 64
  | .added user => p.type = .unknown ∧ user.length < 64 ∧ user ≠ []
  | .serving | .leaving => p.type ≠ .unused ∧ (p.type = .client → p.user ≠ [])
  | .closing => p.type ≠ .unused
  | _ => True

structure Inv (s : Peers) : Prop where
  owned : ∀ (t : Nat) (thread : PeerThread), s.threads[t]? = some thread → ∃ p, s.peers[thread.index]? = some p ∧ Fits p thread.phase
  alone : ∀ (t t' : Nat) (thread thread' : PeerThread), s.threads[t]? = some thread → s.threads[t']? = some thread' →
    thread.phase.inUse = true → thread'.phase.inUse = true → thread.index = thread'.index → t = t'
  names : Matched id s.activeUsers s.liveName

theorem inv_initial {s : Peers} (h : s.Initial) : Inv s := by
  obtain ⟨-, husers, hthreads⟩ := h
  have hname : s.liveName = fun _ => none := by
    funext t
    rw [liveName, hthreads]
    rfl
  refine ⟨?_, ?_, ?_⟩
  · intro t thread hthread
    rw [hthreads] at hthread
    cases hthread
  · intro t t' thread thread' hthread
    rw [hthreads] at hthread
    cases hthread
  · rw [hname, husers]
    exact .empty id

theorem Inv.namesKept {s : Peers} (h : Inv s) : NamesKept s where
  listed _ huser := h.names.existsUnique_holder huser
  live t user hlive := (h.names.mem_iff user).2 ⟨t, hlive⟩
  again := by
    intro user hne hnone
    have hmem : user ∉ s.activeUsers := by
      intro huser
      obtain ⟨t, ht⟩ := (h.names.mem_iff user).1 huser
      exact hnone t ht
    have hcontains : s.activeUsers.contains user = false := by simpa using hmem
    have hempty : user.isEmpty = false := by simpa using hne
    refine ⟨by rw [usernameInUse, hcontains, Bool.and_false], ?_⟩
    rw [activeUserAdd, hempty, hcontains]
    rfl

/-! ## One turn -/

theorem nameOf_congr {p p' : Peer} (htype : p'.type = p.type) (huser : p'.user = p.user) (phase : PeerPhase) :
    nameOf p' phase = nameOf p phase := by
  cases phase <;> simp only [nameOf, htype, huser]

theorem fits_congr {p p' : Peer} (htype : p'.type = p.type) (huser : p'.user = p.user) (phase : PeerPhase) :
    Fits p' phase ↔ Fits p phase := by
  cases phase <;> simp only [Fits, htype, huser]

theorem nameOf_eq_none {phase : PeerPhase} (h : ¬ phase.inUse = true) (p : Peer) : nameOf p phase = none := by
  cases phase with
  | closed | exiting | done => rfl
  | _ => exact absurd rfl h

theorem fits_of_left {phase : PeerPhase} (h : ¬ phase.inUse = true) (p : Peer) : Fits p phase := by
  cases phase with
  | closed | exiting | done => trivial
  | _ => exact absurd rfl h

theorem type_ne_unused {p : Peer} {phase : PeerPhase} (h : Fits p phase) (huse : phase.inUse = true) :
    p.type ≠ .unused := by
  cases phase with
  | serving | leaving => exact h.1
  | checked user | added user =>
    rw [h.1]
    decide
  | closing => exact h
  | closed | exiting | done => cases huse

theorem fits_handleHello {p : Peer} (htype : p.type = .unknown) (users : List Text) (json : Text) :
    Fits p (handleHello users json) ∧ nameOf p (handleHello users json) = none := by
  have hserving : Fits p .serving ∧ nameOf p .serving = none := by
    simp [Fits, nameOf, htype]
  unfold handleHello
  split
  · split
    · exact hserving
    · next user huser =>
      split
      · exact hserving
      · refine ⟨⟨htype, length_jsonGetString_lt huser⟩, ?_⟩
        simp [nameOf, htype]
  · exact hserving

/-- `active_user_add`: the name was free, and is the one that the connection holds. -/
theorem matched_activeUserAdd {held : Nat → Option Text} {t : Nat} {users added : List Text} {user : Text} {pushed : Bool}
    (hnames : Matched id users held) (hnone : held t = none) (hadd : activeUserAdd users user pushed = some added) :
    user ≠ [] ∧ Matched id added (Function.update held t (some user)) := by
  unfold activeUserAdd at hadd
  split_ifs at hadd with hempty hcontains
  cases hadd
  have hfree : ∀ name ∈ users, id name ≠ id user := by
    rintro name hname rfl
    exact hcontains (by simpa using hname)
  exact ⟨by simpa using hempty, hnames.acquire hnone hfree⟩

/-- `active_user_remove`: the name that the connection holds is free again. -/
theorem matched_activeUserRemove {held : Nat → Option Text} {t : Nat} {users : List Text} {user : Text}
    (hnames : Matched id users held) (hlive : held t = some user) (hne : user ≠ []) :
    Matched id (activeUserRemove users user) (Function.update held t none) := by
  have hempty : user.isEmpty = false := by simpa using hne
  have hmatch : ∀ name : Text, (name == user) = true ↔ id name = id user := fun _ => beq_iff_eq
  obtain ⟨pre, post, htable, herase⟩ := hnames.eraseP_eq hlive hmatch
  rw [activeUserRemove, hempty, if_neg (by simp), herase]
  exact hnames.release hlive htable

/-- **What a turn does**: the thread still fits its slot, and the list changes with the name. -/
theorem turn_spec {held : Nat → Option Text} {t : Nat} {p p' : Peer} {users users' : List Text}
    {phase phase' : PeerPhase} {e : PeerTurn} (hrun : e.run p users phase = some (phase', p', users'))
    (hfits : Fits p phase) (hnames : Matched id users held) (hheld : held t = nameOf p phase) :
    Fits p' phase' ∧ (phase'.inUse = true → phase.inUse = true) ∧
      Matched id users' (Function.update held t (nameOf p' phase')) := by
  -- a turn that leaves the list alone
  have hsame (h : nameOf p' phase' = nameOf p phase) (husers : users' = users) :
      Matched id users' (Function.update held t (nameOf p' phase')) := by
    rw [h, ← hheld, Function.update_eq_self, husers]
    exact hnames
  cases phase with
  | serving =>
    cases e with
    | hello json =>
      simp only [PeerTurn.run, Option.ite_none_right_eq_some, Option.some.injEq, Prod.mk.injEq] at hrun
      obtain ⟨htype, rfl, rfl, rfl⟩ := hrun
      obtain ⟨hhello, hname⟩ := fits_handleHello htype users json
      refine ⟨hhello, fun _ => rfl, hsame ?_ rfl⟩
      rw [hname]
      simp [nameOf, htype]
    | register index =>
      simp only [PeerTurn.run, Option.ite_none_right_eq_some, Option.some.injEq, Prod.mk.injEq] at hrun
      obtain ⟨htype, rfl, rfl, rfl⟩ := hrun
      refine ⟨by simp [Fits], fun _ => rfl, hsame ?_ rfl⟩
      simp [nameOf, htype]
    | lose =>
      cases hrun
      exact ⟨hfits, fun _ => rfl, hsame rfl rfl⟩
    | _ => cases hrun
  | checked user =>
    cases e with
    | add pushed =>
      obtain ⟨htype, hshort⟩ := hfits
      have hnone : held t = none := by
        rw [hheld]
        simp [nameOf, htype]
      simp only [PeerTurn.run] at hrun
      cases hadd : activeUserAdd users user pushed with
      | none =>
        rw [hadd] at hrun
        cases hrun
        exact ⟨by simp [Fits, htype], fun _ => rfl, hsame rfl rfl⟩
      | some added =>
        rw [hadd] at hrun
        cases hrun
        obtain ⟨hne, hmatched⟩ := matched_activeUserAdd hnames hnone hadd
        exact ⟨⟨htype, hshort, hne⟩, fun _ => rfl, hmatched⟩
    | _ => cases hrun
  | added user =>
    cases e with
    | assign =>
      cases hrun
      obtain ⟨-, hshort, hne⟩ := hfits
      refine ⟨⟨by simp, fun _ => ?_⟩, fun _ => rfl, hsame ?_ rfl⟩
      · dsimp only
        rw [Text.copyTo_eq_self hshort]
        exact hne
      · simp [nameOf, Text.copyTo_eq_self hshort]
    | _ => cases hrun
  | leaving =>
    cases e with
    | disconnect =>
      cases hrun
      refine ⟨hfits.1, fun _ => rfl, ?_⟩
      by_cases hclient : p.type = .client
      · have hlive : held t = some p.user := by
          rw [hheld, nameOf, if_pos hclient]
        rw [if_pos hclient]
        exact matched_activeUserRemove hnames hlive (hfits.2 hclient)
      · have hnone : held t = none := by rw [hheld, nameOf, if_neg hclient]
        rw [if_neg hclient]
        have hclosing : nameOf p .closing = held t := hnone.symm
        rw [hclosing, Function.update_eq_self]
        exact hnames
    | _ => cases hrun
  | closing =>
    cases e with
    | close =>
      cases hrun
      exact ⟨trivial, fun _ => rfl, hsame rfl rfl⟩
    | _ => cases hrun
  | closed =>
    cases e with
    | deactivate =>
      cases hrun
      exact ⟨trivial, fun h => h, hsame rfl rfl⟩
    | _ => cases hrun
  | exiting =>
    cases e with
    | reset =>
      cases hrun
      exact ⟨trivial, fun h => h, hsame rfl rfl⟩
    | _ => cases hrun
  | done => cases e <;> cases hrun

/-! ## The steps -/

section Steps

variable {s : Peers} (h : Inv s)

include h

/-- A slot that is not in use is in no connection's hands. -/
theorem Inv.index_ne {i : Nat} {p : Peer} (hp : s.peers[i]? = some p) (hunused : p.type = .unused) {t : Nat}
    {thread : PeerThread} (hthread : s.threads[t]? = some thread) (huse : thread.phase.inUse = true) :
    thread.index ≠ i := by
  rintro rfl
  obtain ⟨q, hq, hfits⟩ := h.owned t thread hthread
  rw [hp] at hq
  cases hq
  exact type_ne_unused hfits huse hunused

/-- A slot that is not in use is written over. -/
theorem Inv.setUnused {i : Nat} (hi : allocatePeer s.peers = some i) (p : Peer) :
    Inv { s with peers := s.peers.set i p } ∧ ({ s with peers := s.peers.set i p } : Peers).liveName = s.liveName := by
  obtain ⟨hlt, hunused, -⟩ := List.findIdx?_eq_some_iff_getElem.1 hi
  have hunused : s.peers[i].type = .unused := by simpa using hunused
  have hget : s.peers[i]? = some s.peers[i] := List.getElem?_eq_getElem hlt
  have hlive : ({ s with peers := s.peers.set i p } : Peers).liveName = s.liveName := by
    funext t
    simp only [liveName]
    cases hthread : s.threads[t]? with
    | none => rfl
    | some thread =>
      dsimp only [Option.bind_some]
      by_cases hindex : thread.index = i
      · -- whoever still has the index has left the slot
        have hleft : ¬ thread.phase.inUse = true := fun huse => h.index_ne hget hunused hthread huse hindex
        rw [hindex, List.getElem?_set_self hlt, hget, Option.bind_some, Option.bind_some, nameOf_eq_none hleft,
          nameOf_eq_none hleft]
      · rw [List.getElem?_set_ne (Ne.symm hindex)]
  refine ⟨⟨?_, h.alone, ?_⟩, hlive⟩
  · intro t thread hthread
    obtain ⟨q, hq, hfits⟩ := h.owned t thread hthread
    by_cases hindex : thread.index = i
    · have hleft : ¬ thread.phase.inUse = true := fun huse => h.index_ne hget hunused hthread huse hindex
      exact ⟨p, by rw [hindex, List.getElem?_set_self hlt], fits_of_left hleft p⟩
    · exact ⟨q, by rw [List.getElem?_set_ne (Ne.symm hindex), hq], hfits⟩
  · rw [hlive]
    exact h.names

theorem Inv.accept {i : Nat} (hi : allocatePeer s.peers = some i) (fd : Int) :
    Inv ⟨s.peers.set i ⟨fd, .unknown, -1, [], true⟩, s.activeUsers, s.threads ++ [⟨i, .serving⟩]⟩ := by
  obtain ⟨hlt, hunused, -⟩ := List.findIdx?_eq_some_iff_getElem.1 hi
  have hunused : s.peers[i].type = .unused := by simpa using hunused
  have hget : s.peers[i]? = some s.peers[i] := List.getElem?_eq_getElem hlt
  obtain ⟨hinv, hlive⟩ := h.setUnused hi ⟨fd, .unknown, -1, [], true⟩
  have hlast : (s.threads ++ [(⟨i, .serving⟩ : PeerThread)])[s.threads.length]? = some ⟨i, .serving⟩ := by simp
  -- a thread is one of those that were there, or the new one
  have hcases {t : Nat} {thread : PeerThread} (hthread : (s.threads ++ [⟨i, .serving⟩])[t]? = some thread) :
      s.threads[t]? = some thread ∨ t = s.threads.length ∧ thread = ⟨i, .serving⟩ := by
    rcases Nat.lt_or_ge t s.threads.length with ht | ht
    · rw [List.getElem?_append_left ht] at hthread
      exact .inl hthread
    · rw [List.getElem?_append_right ht] at hthread
      rw [List.getElem?_singleton] at hthread
      split at hthread
      · cases hthread
        exact .inr ⟨by omega, rfl⟩
      · cases hthread
  refine ⟨?_, ?_, ?_⟩
  · intro t thread hthread
    rcases hcases hthread with hold | ⟨rfl, rfl⟩
    · exact hinv.owned t thread hold
    · exact ⟨⟨fd, .unknown, -1, [], true⟩, List.getElem?_set_self hlt, by simp [Fits]⟩
  · intro t t' thread thread' hthread hthread' huse huse' hindex
    rcases hcases hthread with hold | ⟨rfl, rfl⟩ <;> rcases hcases hthread' with hold' | ⟨rfl, rfl⟩
    · exact h.alone t t' thread thread' hold hold' huse huse' hindex
    · exact absurd hindex (h.index_ne hget hunused hold huse)
    · exact absurd hindex.symm (h.index_ne hget hunused hold' huse')
    · rfl
  · have hnames : (⟨s.peers.set i ⟨fd, .unknown, -1, [], true⟩, s.activeUsers, s.threads ++ [⟨i, .serving⟩]⟩ :
        Peers).liveName = s.liveName := by
      rw [← hlive]
      funext t
      simp only [liveName]
      rcases Nat.lt_trichotomy t s.threads.length with ht | rfl | ht
      · rw [List.getElem?_append_left ht]
      · rw [hlast, List.getElem?_eq_none (Nat.le_refl _), Option.bind_some, List.getElem?_set_self hlt]
        rfl
      · rw [List.getElem?_eq_none (by simp; omega), List.getElem?_eq_none (by omega)]
    rw [hnames]
    exact h.names

/-- A turn of a thread that has its slot for itself, or leaves it to the others as it is. -/
theorem Inv.turn {t : Nat} {thread : PeerThread} {p p' : Peer} {users : List Text} {phase : PeerPhase} {e : PeerTurn}
    (hthread : s.threads[t]? = some thread) (hp : s.peers[thread.index]? = some p)
    (hrun : e.run p s.activeUsers thread.phase = some (phase, p', users))
    (halone : s.Free t thread.index ∨ p'.type = p.type ∧ p'.user = p.user) :
    Inv ⟨s.peers.set thread.index p', users, s.threads.set t { thread with phase := phase }⟩ := by
  obtain ⟨q, hq, hfits⟩ := h.owned t thread hthread
  rw [hp] at hq
  cases hq
  have hheld : s.liveName t = nameOf p thread.phase := by
    rw [liveName, hthread, Option.bind_some, hp, Option.bind_some]
  obtain ⟨hfits', huse, hnames⟩ := turn_spec hrun hfits h.names hheld
  obtain ⟨hlt, -⟩ := List.getElem?_eq_some_iff.1 hp
  obtain ⟨htlt, -⟩ := List.getElem?_eq_some_iff.1 hthread
  -- what the slots say to the other threads
  have hother {t' : Nat} (ht' : t' ≠ t) {thread' : PeerThread} (hthread' : s.threads[t']? = some thread') :
      ∃ q q', s.peers[thread'.index]? = some q ∧ (s.peers.set thread.index p')[thread'.index]? = some q' ∧
        (Fits q thread'.phase → Fits q' thread'.phase) ∧ nameOf q' thread'.phase = nameOf q thread'.phase := by
    obtain ⟨q, hq, -⟩ := h.owned t' thread' hthread'
    by_cases hindex : thread'.index = thread.index
    · rw [hindex, hp] at hq
      cases hq
      refine ⟨p, p', by rw [hindex, hp], by rw [hindex, List.getElem?_set_self hlt], ?_⟩
      rcases halone with hfree | ⟨htype, huser⟩
      · have hleft : ¬ thread'.phase.inUse = true := fun huse => hfree t' thread' ht' hthread' huse hindex
        exact ⟨fun _ => fits_of_left hleft p', by rw [nameOf_eq_none hleft, nameOf_eq_none hleft]⟩
      · exact ⟨(fits_congr htype huser _).2, nameOf_congr htype huser _⟩
    · exact ⟨q, q, hq, by rw [List.getElem?_set_ne (Ne.symm hindex), hq], fun h => h, rfl⟩
  refine ⟨?_, ?_, ?_⟩
  · intro t' thread' hthread'
    by_cases ht' : t' = t
    · subst ht'
      rw [List.getElem?_set_self htlt] at hthread'
      cases hthread'
      exact ⟨p', List.getElem?_set_self hlt, hfits'⟩
    · rw [List.getElem?_set_ne (Ne.symm ht')] at hthread'
      obtain ⟨q, q', hq, hq', hkeeps, -⟩ := hother ht' hthread'
      obtain ⟨r, hr, hfitsr⟩ := h.owned t' thread' hthread'
      rw [hq] at hr
      cases hr
      exact ⟨q', hq', hkeeps hfitsr⟩
  · -- a thread in use was in use before, at the same index
    have hbefore {t' : Nat} {thread' : PeerThread}
        (hthread' : (s.threads.set t { thread with phase := phase })[t']? = some thread')
        (huse' : thread'.phase.inUse = true) :
        ∃ old, s.threads[t']? = some old ∧ old.phase.inUse = true ∧ old.index = thread'.index := by
      by_cases ht' : t' = t
      · subst ht'
        rw [List.getElem?_set_self htlt] at hthread'
        cases hthread'
        exact ⟨thread, hthread, huse huse', rfl⟩
      · rw [List.getElem?_set_ne (Ne.symm ht')] at hthread'
        exact ⟨thread', hthread', huse', rfl⟩
    intro t₁ t₂ thread₁ thread₂ hthread₁ hthread₂ huse₁ huse₂ hindex
    obtain ⟨old₁, hold₁, hin₁, hindex₁⟩ := hbefore hthread₁ huse₁
    obtain ⟨old₂, hold₂, hin₂, hindex₂⟩ := hbefore hthread₂ huse₂
    exact h.alone t₁ t₂ old₁ old₂ hold₁ hold₂ hin₁ hin₂ (by rw [hindex₁, hindex₂, hindex])
  · have hlive : (⟨s.peers.set thread.index p', users, s.threads.set t { thread with phase := phase }⟩ : Peers).liveName =
        Function.update s.liveName t (nameOf p' phase) := by
      funext t'
      by_cases ht' : t' = t
      · subst ht'
        rw [Function.update_self, liveName, List.getElem?_set_self htlt, Option.bind_some,
          List.getElem?_set_self hlt, Option.bind_some]
      · rw [Function.update_of_ne ht', liveName, liveName, List.getElem?_set_ne (Ne.symm ht')]
        cases hthread' : s.threads[t']? with
        | none => rfl
        | some thread' =>
          obtain ⟨q, q', hq, hq', -, hname⟩ := hother ht' hthread'
          rw [Option.bind_some, Option.bind_some, hq, hq', Option.bind_some, Option.bind_some, hname]
    rw [hlive]
    exact hnames

/-- The slot is the thread's own, unless it left it. -/
theorem Inv.free {t : Nat} {thread : PeerThread} (hthread : s.threads[t]? = some thread)
    (huse : thread.phase.inUse = true) : s.Free t thread.index := by
  intro t' thread' ht' hthread' huse' hindex
  exact ht' (h.alone t' t thread' thread hthread' hthread huse' huse hindex)

theorem Inv.step {s' : Peers} {e : Event} (hG : s.ResetsOwn e) (hs : Peers.step s e = some s') : Inv s' := by
  cases e with
  | accept fd =>
    obtain ⟨i, hi, rfl⟩ := Option.map_eq_some_iff.1 hs
    exact h.accept hi fd
  | acceptFailed =>
    obtain ⟨i, hi, rfl⟩ := Option.map_eq_some_iff.1 hs
    exact (h.setUnused hi _).1
  | turn t e =>
    obtain ⟨thread, hthread, hs⟩ := Option.bind_eq_some_iff.1 hs
    obtain ⟨p, hp, hs⟩ := Option.bind_eq_some_iff.1 hs
    obtain ⟨⟨phase, p', users⟩, hrun, rfl⟩ := Option.map_eq_some_iff.1 hs
    apply h.turn hthread hp hrun
    by_cases huse : thread.phase.inUse = true
    · exact .inl (h.free hthread huse)
    · -- behind the loop there are two turns left
      cases hphase : thread.phase with
      | closed =>
        rw [hphase] at hrun
        cases e with
        | deactivate =>
          cases hrun
          exact .inr ⟨rfl, rfl⟩
        | _ => cases hrun
      | exiting =>
        rw [hphase] at hrun
        cases e with
        | reset =>
          refine .inl (hG t thread.index rfl ?_)
          rw [hthread, ← hphase]
        | _ => cases hrun
      | done =>
        rw [hphase] at hrun
        cases e <;> cases hrun
      | _ =>
        rw [hphase] at huse
        exact absurd rfl huse

end Steps

/-! ## The runs -/

/-- Two threads that are not gone have different slots. -/
def Solitary (s : Peers) : Prop :=
  ∀ (t t' : Nat) (thread thread' : PeerThread), s.threads[t]? = some thread → s.threads[t']? = some thread' →
    thread.phase ≠ .done → thread'.phase ≠ .done → thread.index = thread'.index → t = t'

/-- A turn comes from a phase that is not the last. -/
theorem turn_phase {p p' : Peer} {users users' : List Text} {phase phase' : PeerPhase} {e : PeerTurn}
    (hrun : e.run p users phase = some (phase', p', users')) : phase ≠ .done := by
  rintro rfl
  cases e <;> cases hrun

theorem Solitary.step {s s' : Peers} (h : s.Solitary) {e : Event} (hG : s.AcceptsFree e) (hs : Peers.step s e = some s') :
    s'.Solitary := by
  cases e with
  | accept fd =>
    obtain ⟨i, hi, rfl⟩ := Option.map_eq_some_iff.1 hs
    have hdone := hG i hi
    -- the new thread is the only one in its slot
    have hcases {t : Nat} {thread : PeerThread} (hthread : (s.threads ++ [⟨i, .serving⟩])[t]? = some thread) :
        s.threads[t]? = some thread ∧ (thread.phase ≠ .done → thread.index ≠ i) ∨
          t = s.threads.length ∧ thread = ⟨i, .serving⟩ := by
      rcases Nat.lt_or_ge t s.threads.length with ht | ht
      · rw [List.getElem?_append_left ht] at hthread
        refine .inl ⟨hthread, ?_⟩
        intro hphase hindex
        exact hphase (hdone thread (List.mem_of_getElem? hthread) hindex)
      · rw [List.getElem?_append_right ht, List.getElem?_singleton] at hthread
        split at hthread
        · cases hthread
          exact .inr ⟨by omega, rfl⟩
        · cases hthread
    intro t t' thread thread' hthread hthread' hphase hphase' hindex
    rcases hcases hthread with ⟨hold, hne⟩ | ⟨rfl, rfl⟩ <;> rcases hcases hthread' with ⟨hold', hne'⟩ | ⟨rfl, rfl⟩
    · exact h t t' thread thread' hold hold' hphase hphase' hindex
    · exact absurd hindex (hne hphase)
    · exact absurd hindex.symm (hne' hphase')
    · rfl
  | acceptFailed =>
    obtain ⟨i, -, rfl⟩ := Option.map_eq_some_iff.1 hs
    exact h
  | turn t e =>
    obtain ⟨thread, hthread, hs⟩ := Option.bind_eq_some_iff.1 hs
    obtain ⟨p, -, hs⟩ := Option.bind_eq_some_iff.1 hs
    obtain ⟨⟨phase, p', users⟩, hrun, rfl⟩ := Option.map_eq_some_iff.1 hs
    obtain ⟨htlt, -⟩ := List.getElem?_eq_some_iff.1 hthread
    have hbefore {t' : Nat} {thread' : PeerThread}
        (hthread' : (s.threads.set t { thread with phase := phase })[t']? = some thread')
        (hphase' : thread'.phase ≠ .done) :
        ∃ old, s.threads[t']? = some old ∧ old.phase ≠ .done ∧ old.index = thread'.index := by
      by_cases ht' : t' = t
      · subst ht'
        rw [List.getElem?_set_self htlt] at hthread'
        cases hthread'
        exact ⟨thread, hthread, turn_phase hrun, rfl⟩
      · rw [List.getElem?_set_ne (Ne.symm ht')] at hthread'
        exact ⟨thread', hthread', hphase', rfl⟩
    intro t₁ t₂ thread₁ thread₂ hthread₁ hthread₂ hphase₁ hphase₂ hindex
    obtain ⟨old₁, hold₁, hnot₁, hindex₁⟩ := hbefore hthread₁ hphase₁
    obtain ⟨old₂, hold₂, hnot₂, hindex₂⟩ := hbefore hthread₂ hphase₂
    exact h t₁ t₂ old₁ old₂ hold₁ hold₂ hnot₁ hnot₂ (by rw [hindex₁, hindex₂, hindex])

/-- **The list of users follows the clients**, in every run in which the last reset of a thread hits no other
connection. It hits none where slots are given away only after their threads are gone. -/
theorem names_of_run {tr : List (Peers × Event)} {s : Peers} (h : system.Run tr s) :
    (System.Meets ResetsOwn tr → s.NamesKept) ∧ (System.Meets AcceptsFree tr → System.Meets ResetsOwn tr) := by
  constructor
  · intro hG
    have hI : Inv s := h.invariant (fun _ => inv_initial) (fun s e s' hI hG hs => hI.step hG hs) hG
    exact hI.namesKept
  · intro hG
    have hinit : ∀ s, system.init s → Solitary s := by
      intro s hs t t' thread thread' hthread
      rw [hs.2.2] at hthread
      cases hthread
    have hstep : ∀ s e s', Solitary s → AcceptsFree s e → system.step s e s' → Solitary s' :=
      fun s e s' hI hG hs => hI.step hG hs
    refine System.Run.steps hinit hstep ?_ h hG
    rintro s e hI - t i - hthread t' thread' ht' hthread' huse' hindex
    refine ht' (hI t' t thread' _ hthread' hthread ?_ (by simp) hindex)
    intro hdone
    rw [hdone] at huse'
    cases huse'

/-- The frame of a user that logs in. -/
def helloFrame (user : String) : Text :=
  Text.lit "\x7b\"type\":\"CLIENT_HELLO\",\"user\":\"" ++ Text.lit user ++ Text.lit "\"\x7d"

/-- The turns of a thread whose client logs in. -/
def logIn (t : Nat) (user : String) : List Event :=
  [.turn t (.hello (helloFrame user)), .turn t (.add true), .turn t .assign]

/-- The turns of a thread whose connection is lost, up to `peer_close`, and behind it. -/
def leave (t : Nat) : List Event := [.turn t .lose, .turn t .disconnect, .turn t .close]

def exit (t : Nat) : List Event := [.turn t .deactivate, .turn t .reset]

def empty : Peers := ⟨List.replicate MAX_PEERS peerResetFields, [], []⟩

/-- A user logs in, leaves, and logs in again. -/
theorem names_of_run_again : ∃ tr s, system.Run tr s ∧ s.NamesKept ∧ s.activeUsers = [Text.lit "a"] := by
  have hexec : ((System.exec Peers.step [] empty
      ([.accept 3] ++ logIn 0 "a" ++ leave 0 ++ exit 0 ++ [.accept 3] ++ logIn 1 "a")).any fun r =>
        r.1.all (fun p => decide (p.1.AcceptsFree p.2)) && r.2.activeUsers == [Text.lit "a"]) = true := by decide +kernel
  obtain ⟨⟨tr, s⟩, hs, hcheck⟩ := (Option.any_eq_true _ _).1 hexec
  rw [Bool.and_eq_true, List.all_eq_true] at hcheck
  have hrun : system.Run tr s := System.Run.exec (.start ⟨rfl, rfl, rfl⟩) hs
  have hmeets : System.Meets AcceptsFree tr := fun p hp => of_decide_eq_true (hcheck.1 p hp)
  exact ⟨tr, s, hrun, (names_of_run hrun).1 ((names_of_run hrun).2 hmeets), eq_of_beq hcheck.2⟩

/-- The slot of `a` is given to `b` before its thread resets it for the last time. When all are gone, `b` is still
on the list. -/
theorem name_left_behind : ∃ tr s, system.Run tr s ∧ (∀ thread ∈ s.threads, thread.phase = .done) ∧
    usernameInUse s.activeUsers (Text.lit "b") = true ∧ ¬ s.NamesKept := by
  have hexec : ((System.exec Peers.step [] empty
      ([.accept 3] ++ logIn 0 "a" ++ leave 0 ++ [.accept 3] ++ logIn 1 "b" ++ exit 0 ++ leave 1 ++ exit 1)).any fun r =>
        r.2.threads.all (·.phase == .done) && r.2.activeUsers == [Text.lit "b"]) = true := by decide +kernel
  obtain ⟨⟨tr, s⟩, hs, hcheck⟩ := (Option.any_eq_true _ _).1 hexec
  rw [Bool.and_eq_true, List.all_eq_true] at hcheck
  obtain ⟨hdone, husers⟩ := hcheck
  have hphase : ∀ thread ∈ s.threads, thread.phase = .done := fun thread hthread => eq_of_beq (hdone thread hthread)
  have husers : s.activeUsers = [Text.lit "b"] := eq_of_beq husers
  refine ⟨tr, s, System.Run.exec (.start ⟨rfl, rfl, rfl⟩) hs, hphase, by rw [husers]; decide, ?_⟩
  intro hkept
  obtain ⟨t, ht, -⟩ := hkept.listed (Text.lit "b") (by rw [husers]; exact List.mem_cons_self)
  rw [liveName] at ht
  obtain ⟨thread, hthread, ht⟩ := Option.bind_eq_some_iff.1 ht
  obtain ⟨p, -, ht⟩ := Option.bind_eq_some_iff.1 ht
  rw [hphase thread (List.mem_of_getElem? hthread)] at ht
  cases ht

end Peers

end CoWrite.Nm
