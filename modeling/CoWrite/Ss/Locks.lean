import CoWrite.Lib.Holders
import CoWrite.Ss.Server

/-!
# The sentence locks

Every connection is a thread of the server. A call of `handle_write` finds its file, takes its lock, sets
the flag of the file, reads the file and replies, serves its loop, and gives both locks back; between any
two of these steps every other thread may run. `Threads` is the server with its calls, each at its own
`Phase`; what the rest of the server does to its files, tickets and disk is left open.

* `Threads.locks_of_run`: in every state the table is the locks of the calls between their acquire and
  their release, one entry each; a refused call leaves it alone, and a release removes the caller's entry.
* `threads_of_run`: the runs of `Host`, where a request or frame runs to its end, are such runs.
-/

namespace CoWrite.Ss

open CoWrite.Lib

/-! ## The calls of `handle_write` -/

/-- What a call gives back on its way out. -/
inductive Cleanup where
  | clearFlag
  | release
deriving DecidableEq, Repr

/-- Where a call of `handle_write` stands. -/
inductive Phase where
  /-- The file was found, the lock not asked for. -/
  | found
  | locked
  | flagged
  | writing (session : WriteSession)
  | leaving (todo : List Cleanup)
deriving DecidableEq, Repr

structure Call where
  file : Text
  user : Text
  sentence : Int
  view : SsFile
  phase : Phase
deriving DecidableEq, Repr

structure Threads where
  server : Server
  sentenceLocks : List SentenceLock
  calls : Nat → Option Call

/-- The call that the first frame of a connection makes, once `snapshot_file` has found its file. -/
def beginCall (env : DataEnv) (srv : Server) (json : Text) : Option (Server × Call) :=
  match requestArgs json with
  | none => none
  | some (type, fileName, user, token) =>
    if type = Text.lit "WRITE_BEGIN" then
      match jsonGetInt json (Text.lit "sentence") with
      | none => none
      | some sentence =>
        match validateTicket env srv token user fileName (Text.lit "WRITE") with
        | (none, _) => none
        | (some _, srv) =>
          (ssStateFind srv.state fileName).1.map fun view =>
            (srv, ⟨fileName, user, sentence, view, .found⟩)
    else none

/-- The way out of a write that could not be opened. -/
def failedBegin : List Cleanup := [.clearFlag, .release]

/-- The way out of the loop. -/
def leftLoop : List Cleanup := [.release, .clearFlag]

/-- One turn of the loop; no frame when the client is gone. -/
def loopTurn (env : DataEnv) (srv : Server) (call : Call) (session : WriteSession)
    (frame : Option Text) : Server × Phase :=
  match frame with
  | none => (srv, .leaving leftLoop)
  | some json =>
    match jsonGetString json (Text.lit "type") 64 with
    | none => (srv, .writing session)
    | some type =>
      if isEdit type then (srv, .writing (editWrite env session type json).1)
      else if type = Text.lit "WRITE_COMMIT" then
        ((commitWrite env srv ⟨call.file, call.user, call.sentence, call.view, session⟩).1,
          .leaving leftLoop)
      else if type = Text.lit "WRITE_ABORT" then (srv, .leaving leftLoop)
      else (srv, .writing session)

/-- One of the two locks is given back. -/
def cleanup (file : Text) (sentence : Int) (srv : Server) (locks : List SentenceLock) :
    Cleanup → Server × List SentenceLock
  | .clearFlag => (setFileLockState srv file false (-1) none, locks)
  | .release => (srv, sentenceLockRelease locks file sentence)

/-- The next step of a call. -/
def Call.turn (env : DataEnv) (srv : Server) (locks : List SentenceLock) (call : Call)
    (frame : Option Text) : Server × List SentenceLock × Option Call :=
  match call.phase with
  | .found =>
    match sentenceLockAcquire env locks call.file call.sentence call.user with
    | none => (srv, locks, none)
    | some locks => (srv, locks, some { call with phase := .locked })
  | .locked =>
    (setFileLockState srv call.file true call.sentence (some call.user), locks,
      some { call with phase := .flagged })
  | .flagged =>
    match openSession env srv.fs call.view call.user call.sentence with
    | (none, _) => (srv, locks, some { call with phase := .leaving failedBegin })
    | (some session, _) => (srv, locks, some { call with phase := .writing session })
  | .writing session =>
    let (srv, phase) := loopTurn env srv call session frame
    (srv, locks, some { call with phase := phase })
  | .leaving [] => (srv, locks, none)
  | .leaving (c :: todo) =>
    let (srv, locks) := cleanup call.file call.sentence srv locks c
    (srv, locks, some { call with phase := .leaving todo })

inductive ThreadEvent where
  /-- Another thread changes the files, the tickets or the disk. -/
  | other (server : Server)
  /-- A connection whose first frame opens a write. -/
  | request (client : Nat) (env : DataEnv) (json : Text)
  /-- A call takes its next step; in its loop it reads what its connection delivers. -/
  | turn (client : Nat) (env : DataEnv) (frame : Option Text)

namespace Threads

def step (s : Threads) : ThreadEvent → Option Threads
  | .other server => some { s with server := server }
  | .request client env json =>
    if (s.calls client).isSome then none
    else (beginCall env s.server json).map fun (srv, call) =>
      { s with server := srv, calls := Function.update s.calls client (some call) }
  | .turn client env frame =>
    (s.calls client).map fun call =>
      let (srv, locks, call) := call.turn env s.server s.sentenceLocks frame
      { server := srv, sentenceLocks := locks, calls := Function.update s.calls client call }

def Started (s : Threads) : Prop := s.sentenceLocks = [] ∧ ∀ client, s.calls client = none

def system : System Threads ThreadEvent := .ofStep Started step

end Threads

/-! ## Who holds a lock -/

/-- The call is between a successful acquire and its release. -/
def Phase.holds : Phase → Bool
  | .found => false
  | .locked => true
  | .flagged => true
  | .writing _ => true
  | .leaving todo => todo.contains .release

def Call.lock (call : Call) : SentenceLock := ⟨call.file, Text.copyTo SS_USER_MAX call.user, call.sentence⟩

def Call.held (call : Call) : Option SentenceLock := if call.phase.holds then some call.lock else none

def Threads.held (s : Threads) (client : Nat) : Option SentenceLock := (s.calls client).bind Call.held

def SentenceLock.key (lock : SentenceLock) : Text × Int := (lock.file, lock.sentence)

/-- What a step does to the table and to the locks held. -/
inductive LockEffect (s : Threads) (e : ThreadEvent) (t : Threads) : Prop where
  | keeps (hheld : t.held = s.held) (hlocks : t.sentenceLocks = s.sentenceLocks)
  | takes (client : Nat) (lock : SentenceLock) (hnone : s.held client = none)
      (hfree : ∀ entry ∈ s.sentenceLocks, entry.key ≠ lock.key)
      (hheld : t.held = Function.update s.held client (some lock))
      (hlocks : t.sentenceLocks = s.sentenceLocks ++ [lock])
  | gives (client : Nat) (env : DataEnv) (frame : Option Text) (he : e = .turn client env frame)
      (lock : SentenceLock) (hlock : s.held client = some lock)
      (hheld : t.held = Function.update s.held client none) (before after : List SentenceLock)
      (hbefore : s.sentenceLocks = before ++ lock :: after) (hlocks : t.sentenceLocks = before ++ after)

/-- What every step keeps to. -/
structure LockStep (s : Threads) (e : ThreadEvent) (t : Threads) : Prop where
  effect : LockEffect s e t
  /-- A call whose acquire is refused returns, and the table is as it was. -/
  refused : ∀ client env frame call, e = .turn client env frame → s.calls client = some call →
    call.phase = .found →
    sentenceLockAcquire env s.sentenceLocks call.file call.sentence call.user = none →
    t.calls client = none ∧ t.sentenceLocks = s.sentenceLocks
  /-- A call that fails to open its session or leaves its loop has its release before it. -/
  leaves : ∀ client call call', s.calls client = some call → t.calls client = some call' →
    call.phase.holds → ¬ call'.phase.holds → ∃ todo, call.phase = .leaving (.release :: todo)
  /-- No call returns with its lock. -/
  returns : ∀ client, t.calls client = none → s.held client = none

section Acquire

variable {env : DataEnv} {locks : List SentenceLock} {file user : Text} {sentence : Int}

theorem SentenceLock.covers_iff {lock : SentenceLock} :
    lock.covers file sentence = true ↔ lock.key = (file, sentence) := by
  simp only [SentenceLock.covers, SentenceLock.key, Bool.and_eq_true, beq_iff_eq, Prod.mk.injEq]
  exact and_comm

theorem sentenceLockAcquire_some {locks' : List SentenceLock}
    (h : sentenceLockAcquire env locks file sentence user = some locks') (hfile : file.length < SS_NAME_MAX) :
    (∀ entry ∈ locks, entry.key ≠ (file, sentence)) ∧
      locks' = locks ++ [⟨file, Text.copyTo SS_USER_MAX user, sentence⟩] := by
  unfold sentenceLockAcquire at h
  split_ifs at h with hany hpushed
  rw [Text.copyTo_eq_self hfile] at h
  refine ⟨?_, (Option.some.inj h).symm⟩
  intro entry hentry hkey
  exact hany (List.any_eq_true.2 ⟨entry, hentry, SentenceLock.covers_iff.2 hkey⟩)

end Acquire

/-! ## The invariant -/

/-- The name of the file fits the table, and nothing is given back twice. -/
structure Call.Tidy (call : Call) : Prop where
  file : call.file.length < SS_NAME_MAX
  once : ∀ todo, call.phase = .leaving todo → todo.Nodup

structure Threads.LocksHeld (s : Threads) : Prop where
  tidy : ∀ client call, s.calls client = some call → call.Tidy
  matched : Matched SentenceLock.key s.sentenceLocks s.held

/-- The locks held change with the call that takes the step. -/
theorem held_update {s : Threads} {srv : Server} {locks : List SentenceLock} {client : Nat} {call : Option Call} :
    (⟨srv, locks, Function.update s.calls client call⟩ : Threads).held =
      Function.update s.held client (call.bind Call.held) := by
  funext c
  by_cases hc : c = client
  · subst hc
    simp only [Threads.held, Function.update_self]
  · simp only [Threads.held, Function.update_of_ne hc]

theorem beginCall_spec {env : DataEnv} {srv srv' : Server} {json : Text} {call : Call}
    (h : beginCall env srv json = some (srv', call)) : call.phase = .found ∧ call.file.length < SS_NAME_MAX := by
  unfold beginCall at h
  split at h
  · cases h
  · next type fileName user token hargs =>
    have hlt : fileName.length < SS_NAME_MAX := by
      obtain ⟨_, -, hargs⟩ := Option.bind_eq_some_iff.1 hargs
      obtain ⟨_, hfile, hargs⟩ := Option.bind_eq_some_iff.1 hargs
      obtain ⟨_, -, hargs⟩ := Option.bind_eq_some_iff.1 hargs
      obtain ⟨_, -, hargs⟩ := Option.map_eq_some_iff.1 hargs
      cases hargs
      exact length_jsonGetString_lt hfile
    split_ifs at h
    split at h
    · cases h
    · split at h
      · cases h
      · obtain ⟨view, -, hview⟩ := Option.map_eq_some_iff.1 h
        cases hview
        exact ⟨rfl, hlt⟩

theorem loopTurn_phase (env : DataEnv) (srv : Server) (call : Call) (session : WriteSession) (frame : Option Text) :
    (∃ session', (loopTurn env srv call session frame).2 = .writing session') ∨
      (loopTurn env srv call session frame).2 = .leaving leftLoop := by
  unfold loopTurn
  split
  · exact .inr rfl
  · split
    · exact .inl ⟨_, rfl⟩
    · split_ifs
      · exact .inl ⟨_, rfl⟩
      · exact .inr rfl
      · exact .inr rfl
      · exact .inl ⟨_, rfl⟩

/-- What a turn of a call does to the table and to the lock it holds. -/
inductive Call.TurnEffect (locks : List SentenceLock) (call : Call) (locks' : List SentenceLock)
    (call' : Option Call) : Prop where
  | keeps (hheld : call'.bind Call.held = call.held) (hlocks : locks' = locks)
  | takes (hnone : call.held = none) (hheld : call'.bind Call.held = some call.lock)
      (hfree : ∀ entry ∈ locks, entry.key ≠ call.lock.key) (hlocks : locks' = locks ++ [call.lock])
  | gives (todo : List Cleanup) (hphase : call.phase = .leaving (.release :: todo))
      (hlock : call.held = some call.lock) (hheld : call'.bind Call.held = none)
      (hlocks : locks' = sentenceLockRelease locks call.file call.sentence)

section Turn

variable {call : Call} (h : call.Tidy) (env : DataEnv) (srv : Server) (locks : List SentenceLock)
  (frame : Option Text)

include h

theorem Call.Tidy.turn {call' : Call} (hc : (call.turn env srv locks frame).2.2 = some call') : call'.Tidy := by
  have hfile (phase : Phase) (honce : ∀ todo, phase = .leaving todo → todo.Nodup) :
      ({ call with phase := phase } : Call).Tidy := ⟨h.file, honce⟩
  unfold Call.turn at hc
  split at hc
  · split at hc <;> cases hc
    exact hfile _ (by intro todo ht; cases ht)
  · cases hc
    exact hfile _ (by intro todo ht; cases ht)
  · split at hc <;> cases hc
    · exact hfile _ (by intro todo ht; cases ht; decide)
    · exact hfile _ (by intro todo ht; cases ht)
  · next session _ =>
    cases hc
    refine hfile _ ?_
    intro todo ht
    rcases loopTurn_phase env srv call session frame with ⟨session', hp⟩ | hp
    · cases hp.symm.trans ht
    · cases hp.symm.trans ht
      decide
  · cases hc
  · next c todo hphase =>
    cases hc
    refine hfile _ ?_
    intro todo' ht
    cases ht
    exact (List.nodup_cons.1 (h.once _ hphase)).2

theorem Call.Tidy.turnEffect : call.TurnEffect locks (call.turn env srv locks frame).2.1
    (call.turn env srv locks frame).2.2 := by
  obtain ⟨file, user, sentence, view, phase⟩ := call
  cases phase with
  | found =>
    cases hacq : sentenceLockAcquire env locks file sentence user with
    | none =>
      simp only [Call.turn, hacq]
      exact .keeps rfl rfl
    | some locks' =>
      simp only [Call.turn, hacq]
      obtain ⟨hfree, hlocks⟩ := sentenceLockAcquire_some hacq h.file
      exact .takes rfl rfl hfree hlocks
  | locked => exact .keeps rfl rfl
  | flagged =>
    simp only [Call.turn]
    split <;> exact .keeps rfl rfl
  | writing session =>
    simp only [Call.turn]
    refine .keeps ?_ rfl
    rcases loopTurn_phase env srv ⟨file, user, sentence, view, .writing session⟩ session frame with
      ⟨session', hp⟩ | hp
    · simp only [hp]
      rfl
    · simp only [hp]
      rfl
  | leaving todo =>
    cases todo with
    | nil => exact .keeps rfl rfl
    | cons cleanup todo =>
      have hnodup := h.once _ rfl
      cases cleanup with
      | clearFlag => exact .keeps rfl rfl
      | release =>
        have hnot : todo.contains Cleanup.release = false := by
          simpa using (List.nodup_cons.1 hnodup).1
        refine .gives todo rfl rfl ?_ rfl
        simp only [Call.turn, Option.bind_some, Call.held, Phase.holds, hnot]
        rfl

end Turn

namespace Threads

variable {s : Threads}

theorem locksHeld_started (h : s.Started) : s.LocksHeld where
  tidy client call hc := by
    rw [h.2 client] at hc
    cases hc
  matched := by
    have hheld : s.held = fun _ => none := by
      funext client
      simp only [held, h.2 client, Option.bind_none]
    rw [h.1, hheld]
    exact .empty _

theorem LocksHeld.turnEffect (h : s.LocksHeld) {client : Nat} {call : Call} (hc : s.calls client = some call)
    (env : DataEnv) (frame : Option Text) {t : Threads} (hs : s.step (.turn client env frame) = some t) :
    LockEffect s (.turn client env frame) t := by
  have hheld : s.held client = call.held := by rw [held, hc, Option.bind_some]
  simp only [step, hc, Option.map_some, Option.some.injEq] at hs
  subst hs
  cases (h.tidy client call hc).turnEffect env s.server s.sentenceLocks frame with
  | keeps hkeep hlocks =>
    refine .keeps ?_ hlocks
    rw [held_update, hkeep, ← hheld, Function.update_eq_self]
  | takes hnone htake hfree hlocks =>
    refine .takes client call.lock (hheld.trans hnone) hfree ?_ hlocks
    rw [held_update, htake]
  | gives todo hphase hlock hgive hlocks =>
    have hcovers : ∀ entry : SentenceLock, entry.covers call.file call.sentence = true ↔ entry.key = call.lock.key :=
      fun entry => SentenceLock.covers_iff
    obtain ⟨before, after, hbefore, hafter⟩ := h.matched.eraseP_eq (hheld.trans hlock) hcovers
    refine .gives client env frame rfl call.lock (hheld.trans hlock) ?_ before after hbefore ?_
    · rw [held_update, hgive]
    · exact hlocks.trans hafter

theorem LocksHeld.effect (h : s.LocksHeld) {e : ThreadEvent} {t : Threads} (hs : s.step e = some t) :
    LockEffect s e t := by
  cases e with
  | other server =>
    cases hs
    exact .keeps rfl rfl
  | request client env json =>
    simp only [step] at hs
    split at hs
    · cases hs
    · next hnone =>
      obtain ⟨⟨srv, call⟩, hcall, rfl⟩ := Option.map_eq_some_iff.1 hs
      have hcalls : s.calls client = none := by simpa using hnone
      refine .keeps ?_ rfl
      have hheld : call.held = s.held client := by
        rw [held, hcalls, Option.bind_none, Call.held, (beginCall_spec hcall).1]
        rfl
      rw [held_update, Option.bind_some, hheld, Function.update_eq_self]
  | turn client env frame =>
    cases hc : s.calls client with
    | none =>
      simp only [step, hc, Option.map_none] at hs
      cases hs
    | some call => exact h.turnEffect hc env frame hs

theorem LocksHeld.step (h : s.LocksHeld) {e : ThreadEvent} {t : Threads} (hs : s.step e = some t) : t.LocksHeld where
  tidy := by
    intro client call hc
    cases e with
    | other server =>
      cases hs
      exact h.tidy client call hc
    | request client' env json =>
      simp only [Threads.step] at hs
      split at hs
      · cases hs
      · obtain ⟨⟨srv, call'⟩, hcall, rfl⟩ := Option.map_eq_some_iff.1 hs
        by_cases hcl : client = client'
        · subst hcl
          simp only [Function.update_self, Option.some.injEq] at hc
          subst hc
          obtain ⟨hphase, hlt⟩ := beginCall_spec hcall
          refine ⟨hlt, ?_⟩
          intro todo ht
          rw [hphase] at ht
          cases ht
        · simp only [Function.update_of_ne hcl] at hc
          exact h.tidy client call hc
    | turn client' env frame =>
      obtain ⟨call', hcall, rfl⟩ := Option.map_eq_some_iff.1 hs
      by_cases hcl : client = client'
      · subst hcl
        simp only [Function.update_self] at hc
        exact (h.tidy client call' hcall).turn env s.server s.sentenceLocks frame hc
      · simp only [Function.update_of_ne hcl] at hc
        exact h.tidy client call hc
  matched := by
    cases h.effect hs with
    | keeps hheld hlocks =>
      rw [hheld, hlocks]
      exact h.matched
    | takes client lock hnone hfree hheld hlocks =>
      rw [hheld, hlocks]
      exact h.matched.acquire hnone hfree
    | gives client env frame he lock hlock hheld before after hbefore hlocks =>
      rw [hheld, hlocks]
      exact h.matched.release hlock hbefore

theorem LocksHeld.returns (h : s.LocksHeld) {e : ThreadEvent} {t : Threads} (hs : s.step e = some t) (client : Nat)
    (hc : t.calls client = none) : s.held client = none := by
  have hnone : t.held client = none := by rw [held, hc, Option.bind_none]
  cases h.effect hs with
  | keeps hheld hlocks => rwa [hheld] at hnone
  | takes client' lock hfree' hfree hheld hlocks =>
    by_cases hcl : client = client'
    · exact hcl ▸ hfree'
    · rwa [hheld, Function.update_of_ne hcl] at hnone
  | gives client' env frame he lock hlock hheld before after hbefore hlocks =>
    by_cases hcl : client = client'
    · -- a release leaves the call with its way out
      subst hcl he
      obtain ⟨call, hcall, rfl⟩ := Option.map_eq_some_iff.1 hs
      simp only [Function.update_self] at hc
      have hlock' : call.held = some lock := by rwa [held, hcall, Option.bind_some] at hlock
      cases (h.tidy client call hcall).turnEffect env s.server s.sentenceLocks frame with
      | keeps hkeep hlocks' =>
        rw [hc, Option.bind_none] at hkeep
        rw [← hkeep] at hlock'
        cases hlock'
      | takes hnone' htake _ _ =>
        rw [hc, Option.bind_none] at htake
        cases htake
      | gives todo hphase _ _ _ =>
        rw [Call.turn, hphase] at hc
        cases hc
    · rwa [hheld, Function.update_of_ne hcl] at hnone

theorem LocksHeld.leaves (h : s.LocksHeld) {e : ThreadEvent} {t : Threads} (hs : s.step e = some t) {client : Nat}
    {call call' : Call} (hcall : s.calls client = some call) (hcall' : t.calls client = some call')
    (hholds : call.phase.holds) (hnot : ¬ call'.phase.holds) : ∃ todo, call.phase = .leaving (.release :: todo) := by
  have hsame : call' ≠ call := by
    rintro rfl
    exact hnot hholds
  cases e with
  | other server =>
    cases hs
    exact absurd (Option.some.inj (hcall'.symm.trans hcall)) hsame
  | request client' env json =>
    simp only [Threads.step] at hs
    split at hs
    · cases hs
    · next hfree =>
      obtain ⟨⟨srv, call₀⟩, -, rfl⟩ := Option.map_eq_some_iff.1 hs
      by_cases hcl : client = client'
      · subst hcl
        rw [hcall] at hfree
        exact absurd rfl hfree
      · simp only [Function.update_of_ne hcl] at hcall'
        exact absurd (Option.some.inj (hcall'.symm.trans hcall)) hsame
  | turn client' env frame =>
    obtain ⟨call₀, hcall₀, rfl⟩ := Option.map_eq_some_iff.1 hs
    by_cases hcl : client = client'
    · subst hcl
      cases hcall.symm.trans hcall₀
      simp only [Function.update_self] at hcall'
      have hheld : call.held = some call.lock := if_pos hholds
      have hheld' : call'.held = none := if_neg hnot
      cases (h.tidy client call hcall).turnEffect env s.server s.sentenceLocks frame with
      | keeps hkeep _ =>
        rw [hcall', Option.bind_some, hheld', hheld] at hkeep
        cases hkeep
      | takes hnone _ _ _ =>
        rw [hheld] at hnone
        cases hnone
      | gives todo hphase _ _ _ => exact ⟨todo, hphase⟩
    · simp only [Function.update_of_ne hcl] at hcall'
      exact absurd (Option.some.inj (hcall'.symm.trans hcall)) hsame

theorem LocksHeld.lockStep (h : s.LocksHeld) {e : ThreadEvent} {t : Threads} (hs : s.step e = some t) :
    LockStep s e t where
  effect := h.effect hs
  refused := by
    intro client env frame call he hcall hphase hacq
    subst he
    obtain ⟨call₀, hcall₀, rfl⟩ := Option.map_eq_some_iff.1 hs
    cases hcall.symm.trans hcall₀
    have hturn : call.turn env s.server s.sentenceLocks frame = (s.server, s.sentenceLocks, none) := by
      unfold Call.turn
      rw [hphase]
      simp only [hacq]
    simp only [hturn, Function.update_self, and_self]
  leaves := by
    intro client call call' hcall hcall' hholds hnot
    exact h.leaves hs hcall hcall' hholds hnot
  returns := h.returns hs

/-- A session that is open holds the lock of its sentence. -/
theorem held_of_writing {client : Nat} {call : Call} {session : WriteSession} (hcall : s.calls client = some call)
    (hphase : call.phase = .writing session) : s.held client = some call.lock := by
  rw [held, hcall, Option.bind_some, Call.held, hphase]
  rfl

/-- A server with the file `f` and tickets to write it. -/
def withTickets (tokens : List Text) : Threads :=
  ⟨{ (Host.withFile (Text.lit "A. B.")).server with
      tickets := tokens.map fun t => ⟨t, Text.lit "f", Text.lit "u", Text.lit "WRITE", 0⟩ },
    [], fun _ => none⟩

/-- The request that uses one of them for the first sentence. -/
def opens (client : Nat) (token : Text) : ThreadEvent :=
  .request client (.allOk 0) (printMessage
    [(Text.lit "type", .string (Text.lit "WRITE_BEGIN")), (Text.lit "file", .string (Text.lit "f")),
      (Text.lit "user", .string (Text.lit "u")), (Text.lit "ticket", .string token),
      (Text.lit "sentence", .number (printNat 0))])

/-- **The table is the locks of the calls between their acquire and their release**, in every state of every
run, and every step keeps to `LockStep`. -/
theorem locks_of_run {tr : List (Threads × ThreadEvent)} (h : system.Run tr s) :
    (∀ (i j : Nat) (a b : SentenceLock), s.sentenceLocks[i]? = some a → s.sentenceLocks[j]? = some b →
      a.file = b.file → a.sentence = b.sentence → i = j) ∧
    (∀ lock ∈ s.sentenceLocks, ∃! client, s.held client = some lock) ∧
    (∀ client lock, s.held client = some lock → ∃! i : Nat, s.sentenceLocks[i]? = some lock) ∧
    (∀ c c' call call' session session', s.calls c = some call → s.calls c' = some call' →
      call.phase = .writing session → call'.phase = .writing session' →
      call.file = call'.file → call.sentence = call'.sentence → c = c') ∧
    System.Meets (fun s e => ∀ t, s.step e = some t → LockStep s e t) tr := by
  have hstep : ∀ s e t, LocksHeld s → True → system.step s e t → LocksHeld t :=
    fun _ _ _ hs _ ht => hs.step ht
  have hI : s.LocksHeld := h.invariant (fun _ => locksHeld_started) hstep fun _ _ => trivial
  refine ⟨?_, ?_, ?_, ?_, ?_⟩
  · intro i j a b hi hj hfile hsentence
    exact hI.matched.eq_of_key hi hj (Prod.ext hfile hsentence)
  · intro lock hlock
    exact hI.matched.existsUnique_holder hlock
  · intro client lock hlock
    exact hI.matched.existsUnique_entry hlock
  · intro c c' call call' session session' hc hc' hphase hphase' hfile hsentence
    exact hI.matched.alone c c' _ _ (held_of_writing hc hphase) (held_of_writing hc' hphase')
      (Prod.ext hfile hsentence)
  · refine System.Run.steps (fun _ => locksHeld_started) hstep ?_ h fun _ _ => trivial
    intro s e hs _ t ht
    exact hs.lockStep ht

/-- Two connections ask for one sentence; the first to acquire its lock keeps it. -/
theorem locks_contended : ∃ tr s, system.Run tr s ∧ s.calls 0 = none ∧ s.sentenceLocks.length = 1 ∧
    ∀ lock ∈ s.sentenceLocks, ∃! client, s.held client = some lock := by
  have hstarted : Started (withTickets [['s'], ['t']]) := ⟨rfl, fun _ => rfl⟩
  have hexec : ((System.exec step [] (withTickets [['s'], ['t']])
      [opens 0 ['s'], opens 1 ['t'], .turn 1 (.allOk 0) none, .turn 0 (.allOk 0) none]).map
      fun r => decide (r.2.calls 0 = none ∧ r.2.sentenceLocks.length = 1)) = some true := by
    decide +kernel
  obtain ⟨⟨tr, s⟩, hexec, hcheck⟩ := Option.map_eq_some_iff.1 hexec
  have hrun : system.Run tr s := System.Run.exec (.start hstarted) hexec
  obtain ⟨hreturned, hlength⟩ := of_decide_eq_true hcheck
  exact ⟨tr, s, hrun, hreturned, hlength, (locks_of_run hrun).2.1⟩

end Threads

/-! ## The runs of the server -/

/-- A call waits in its loop for every write that is open. -/
def OpenWrite.call (write : OpenWrite) : Call :=
  ⟨write.file, write.user, write.sentence, write.view, .writing write.session⟩

def Threads.ofHost (host : Host) : Threads :=
  ⟨host.server, host.sentenceLocks, fun client => (host.writes client).map OpenWrite.call⟩

theorem Threads.ofHost_calls (host : Host) (client : Nat) :
    (ofHost host).calls client = (host.writes client).map OpenWrite.call := rfl

/-- One thread takes a step. -/
def Threads.Moves (s t : Threads) : Prop := ∃ e, s.step e = some t

abbrev Threads.Reaches : Threads → Threads → Prop := Relation.ReflTransGen Threads.Moves

section Host

variable {srv : Server} {locks : List SentenceLock} {calls : Nat → Option Call} {client : Nat}

theorem Threads.Moves.turn {call : Call} (env : DataEnv) (frame : Option Text) {srv' : Server}
    {locks' : List SentenceLock} {call' : Option Call}
    (h : call.turn env srv locks frame = (srv', locks', call')) :
    Moves ⟨srv, locks, Function.update calls client (some call)⟩ ⟨srv', locks', Function.update calls client call'⟩ := by
  refine ⟨.turn client env frame, ?_⟩
  simp only [step, Function.update_self, Option.map_some, h, Function.update_idem]

theorem Threads.Moves.server (srv' : Server) : Moves ⟨srv, locks, calls⟩ ⟨srv', locks, calls⟩ :=
  ⟨.other srv', rfl⟩

/-- A call on its way out gives everything back and returns. -/
theorem Threads.reaches_leaving (file user : Text) (sentence : Int) (view : SsFile) (todo : List Cleanup) :
    ∃ srv' locks', (srv', locks') = todo.foldl (fun p => cleanup file sentence p.1 p.2) (srv, locks) ∧
      Reaches ⟨srv, locks, Function.update calls client (some ⟨file, user, sentence, view, .leaving todo⟩)⟩
        ⟨srv', locks', Function.update calls client none⟩ := by
  induction todo generalizing srv locks with
  | nil => exact ⟨srv, locks, rfl, .single (.turn (.allOk 0) none rfl)⟩
  | cons c todo ih =>
    obtain ⟨srv', locks', hfold, hreach⟩ := @ih (cleanup file sentence srv locks c).1 (cleanup file sentence srv locks c).2
    exact ⟨srv', locks', hfold, .head (.turn (.allOk 0) none rfl) hreach⟩

end Host

section Refines

variable {host : Host} {client : Nat}

theorem ofHost_writes (srv : Server) (locks : List SentenceLock) (write : Option OpenWrite) :
    Threads.ofHost ⟨srv, locks, Function.update host.writes client write⟩ =
      ⟨srv, locks, Function.update (Threads.ofHost host).calls client (write.map OpenWrite.call)⟩ := by
  unfold Threads.ofHost
  congr 1
  funext c
  by_cases hc : c = client
  · subst hc
    simp only [Function.update_self]
  · simp only [Function.update_of_ne hc]

/-- A write that begins takes its steps one after the other. -/
theorem reaches_handleWriteBegin (hc : host.writes client = none) (env : DataEnv) {file user : Text} {sentence : Int}
    {view : SsFile} (hview : (ssStateFind host.server.state file).1 = some view) :
    Threads.Reaches ⟨host.server, host.sentenceLocks, Function.update (Threads.ofHost host).calls client
        (some ⟨file, user, sentence, view, .found⟩)⟩
      (.ofHost (handleWriteBegin env host client file user sentence).1) := by
  have hcalls : (Threads.ofHost host).calls client = none := by
    rw [Threads.ofHost_calls, hc, Option.map_none]
  cases hacq : sentenceLockAcquire env host.sentenceLocks file sentence user with
  | none =>
    have hbegin : (handleWriteBegin env host client file user sentence).1 = host := by
      simp only [handleWriteBegin, hview, hacq]
    rw [hbegin]
    refine .single ?_
    have hmove : Threads.Moves ⟨host.server, host.sentenceLocks, Function.update (Threads.ofHost host).calls client
        (some ⟨file, user, sentence, view, .found⟩)⟩
        ⟨host.server, host.sentenceLocks, Function.update (Threads.ofHost host).calls client none⟩ := by
      refine .turn env none ?_
      simp only [Call.turn, hacq]
    rwa [← hcalls, Function.update_eq_self] at hmove
  | some locks =>
    have hlock : Threads.Moves ⟨host.server, host.sentenceLocks, Function.update (Threads.ofHost host).calls client
        (some ⟨file, user, sentence, view, .found⟩)⟩
        ⟨host.server, locks, Function.update (Threads.ofHost host).calls client
          (some ⟨file, user, sentence, view, .locked⟩)⟩ := by
      refine .turn env none ?_
      simp only [Call.turn, hacq]
    have hflag : Threads.Moves ⟨host.server, locks, Function.update (Threads.ofHost host).calls client
          (some ⟨file, user, sentence, view, .locked⟩)⟩
        ⟨setFileLockState host.server file true sentence (some user), locks,
          Function.update (Threads.ofHost host).calls client (some ⟨file, user, sentence, view, .flagged⟩)⟩ :=
      .turn env none rfl
    refine .head hlock (.head hflag ?_)
    cases hopen : openSession env (setFileLockState host.server file true sentence (some user)).fs view user sentence with
    | mk found frames =>
      cases found with
      | none =>
        have hbegin : (handleWriteBegin env host client file user sentence).1 =
            ⟨setFileLockState (setFileLockState host.server file true sentence (some user)) file false (-1) none,
              sentenceLockRelease locks file sentence, Function.update host.writes client none⟩ := by
          simp only [handleWriteBegin, hview, hacq, hopen, closeWrite]
        rw [hbegin, ofHost_writes]
        obtain ⟨srv, locks', hfold, hreach⟩ := @Threads.reaches_leaving
          (setFileLockState host.server file true sentence (some user)) locks (Threads.ofHost host).calls client
          file user sentence view failedBegin
        cases hfold
        refine .head ?_ hreach
        refine .turn env none ?_
        simp only [Call.turn, hopen]
      | some session =>
        have hbegin : (handleWriteBegin env host client file user sentence).1 =
            ⟨setFileLockState host.server file true sentence (some user), locks,
              Function.update host.writes client (some ⟨file, user, sentence, view, session⟩)⟩ := by
          simp only [handleWriteBegin, hview, hacq, hopen, Host.setWrite]
        rw [hbegin, ofHost_writes]
        refine .single (.turn env none ?_)
        simp only [Call.turn, hopen]
        rfl

/-- A connection is refused, or its write begins. -/
theorem reaches_handleDataClient (hc : host.writes client = none) (env : DataEnv) (json : Text) :
    Threads.Reaches (.ofHost host) (.ofHost (handleDataClient env host client json).1) := by
  have hserver (srv : Server) : Threads.Reaches (.ofHost host) (.ofHost (host.setServer srv)) :=
    .single (.server srv)
  unfold handleDataClient
  dsimp only
  split
  · exact .refl
  · next type file user token hargs =>
    split
    · split <;> exact hserver _
    split
    · split <;> exact hserver _
    split
    · next hbegin =>
      split
      · exact .refl
      · next sentence hsentence =>
        split
        · exact hserver _
        · next ticket srv hticket =>
          cases hview : (ssStateFind srv.state file).1 with
          | none =>
            have hnone : (handleWriteBegin env (host.setServer srv) client file user sentence).1 =
                host.setServer srv := by
              simp only [handleWriteBegin, Host.setServer, hview]
            rw [hnone]
            exact hserver srv
          | some view =>
            refine .head ?_ (@reaches_handleWriteBegin (host.setServer srv) client hc env file user sentence view hview)
            refine ⟨.request client env json, ?_⟩
            have hcall : beginCall env host.server json = some (srv, ⟨file, user, sentence, view, .found⟩) := by
              simp only [beginCall, hargs, if_pos hbegin, hsentence, hticket, hview, Option.map_some]
            simp only [Threads.step, Threads.ofHost, hc, Option.map_none, Option.isSome_none, hcall, Option.map_some]
            rfl
    · exact .refl

theorem reaches_handleWriteFrame {write : OpenWrite} (hw : host.writes client = some write) (env : DataEnv)
    (frame : Option Text) :
    Threads.Reaches (.ofHost host) (.ofHost (handleWriteFrame env host client write frame).1) := by
  have hcalls : Function.update (Threads.ofHost host).calls client (some write.call) = (Threads.ofHost host).calls := by
    have hcall : (Threads.ofHost host).calls client = some write.call := by
      rw [Threads.ofHost_calls, hw, Option.map_some]
    rw [← hcall, Function.update_eq_self]
  -- the turn of the loop, from the state where the call waits
  have hturn {srv : Server} {phase : Phase}
      (h : loopTurn env host.server write.call write.session frame = (srv, phase)) :
      Threads.Moves (.ofHost host) ⟨srv, host.sentenceLocks, Function.update (Threads.ofHost host).calls client
        (some { write.call with phase := phase })⟩ := by
    have hmove : Threads.Moves
        ⟨host.server, host.sentenceLocks, Function.update (Threads.ofHost host).calls client (some write.call)⟩
        ⟨srv, host.sentenceLocks, Function.update (Threads.ofHost host).calls client
          (some { write.call with phase := phase })⟩ := by
      refine .turn env frame ?_
      show ((loopTurn env host.server write.call write.session frame).1, _,
        some { write.call with phase := (loopTurn env host.server write.call write.session frame).2 }) = _
      rw [h]
    rwa [hcalls] at hmove
  -- the turn that ends the session
  have hleave {srv : Server} (h : loopTurn env host.server write.call write.session frame = (srv, .leaving leftLoop)) :
      Threads.Reaches (.ofHost host) (.ofHost (closeWrite (host.setServer srv) client write.file write.sentence)) := by
    rw [closeWrite, Host.setServer, ofHost_writes]
    obtain ⟨srv', locks', hfold, hreach⟩ := @Threads.reaches_leaving srv host.sentenceLocks
      (Threads.ofHost host).calls client write.file write.user write.sentence write.view leftLoop
    cases hfold
    exact .head (hturn h) hreach
  cases frame with
  | none => exact hleave rfl
  | some json =>
    cases htype : jsonGetString json (Text.lit "type") 64 with
    | none =>
      simp only [handleWriteFrame, htype]
      exact .refl
    | some type =>
      simp only [handleWriteFrame, htype]
      split
      · next hedit =>
        have hloop : loopTurn env host.server write.call write.session (some json) =
            (host.server, .writing (editWrite env write.session type json).1) := by
          simp only [loopTurn, htype, if_pos hedit]
        rw [Host.setWrite, ofHost_writes]
        exact .single (hturn hloop)
      split
      · next hedit hcommit =>
        refine hleave ?_
        simp only [loopTurn, htype, if_neg hedit, if_pos hcommit]
        rfl
      split
      · next hedit hcommit habort =>
        have hloop : loopTurn env host.server write.call write.session (some json) =
            (host.server, .leaving leftLoop) := by
          simp only [loopTurn, htype, if_neg hedit, if_neg hcommit, if_pos habort]
        exact hleave hloop
      · exact .refl

/-- **Every run of `Host` is one of the threads**, with each request and frame taken to its end. -/
theorem threads_of_run {tr : List (Host × Event)} (h : Host.system.Run tr host) :
    ∃ tr', Threads.system.Run tr' (.ofHost host) := by
  induction h with
  | @start s hs =>
    refine ⟨[], .start ⟨hs.2.2.1, ?_⟩⟩
    intro client
    rw [Threads.ofHost_calls, hs.2.2.2 client, Option.map_none]
  | @step tr s t e _ hs ih =>
    obtain ⟨tr', h'⟩ := ih
    refine h'.reaches ?_
    cases e with
    | command env json =>
      cases hs
      exact .single ⟨.other _, rfl⟩
    | request client env json =>
      obtain ⟨hnone, hs⟩ := Option.ite_none_left_eq_some.1 hs
      cases hs
      exact reaches_handleDataClient (by simpa using hnone) env json
    | frame client env json =>
      obtain ⟨write, hwrite, rfl⟩ := Option.map_eq_some_iff.1 hs
      exact reaches_handleWriteFrame hwrite env json

end Refines

end CoWrite.Ss
