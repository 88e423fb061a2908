import CoWrite.Lib.Runs
import CoWrite.Ss.Client

/-!
# The storage server at work

The server takes commands of the name manager, new clients and the frames of open writes in any order;
each is one step. A file has one lock flag, which every write on it sets when it begins and clears when
it ends, however it ends. So a file is `Guarded` against undo, revert and delete while it is being
written, as long as no write ends while another one on the file is open (`guarded_iff`).
-/

namespace CoWrite.Ss

open CoWrite.Lib

inductive Event where
  /-- A frame on the name manager's connection. -/
  | command (env : Env) (json : Text)
  /-- The first frame of a connection. -/
  | request (client : Nat) (env : DataEnv) (json : Text)
  /-- What an open write receives next. -/
  | frame (client : Nat) (env : DataEnv) (json : Option Text)

namespace Host

def step (host : Host) : Event → Option Host
  | .command env json => some (host.setServer (processNmCommand env host.server json).1)
  | .request client env json =>
    if (host.writes client).isSome then none
    else some (handleDataClient env host client json).1
  | .frame client env json =>
    (host.writes client).map fun write => (handleWriteFrame env host client write json).1

/-- After `ss_state_load`: some table, and nobody connected. -/
def Started (host : Host) : Prop :=
  host.server.state.Sorted ∧ host.server.tickets = [] ∧ host.sentenceLocks = [] ∧
    ∀ client, host.writes client = none

def system : System Host Event := .ofStep Started step

end Host

/-! ## What a locked file refuses -/

/-- The command undoes, reverts or deletes the file. -/
def Overwrites (json file : Text) : Prop :=
  jsonGetString json (Text.lit "file") SS_NAME_MAX = some file ∧
    ∃ type ∈ [Text.lit "NM_UNDO", Text.lit "NM_CHECKPOINT_REVERT", Text.lit "NM_DELETE"],
      jsonGetString json (Text.lit "type") 64 = some type

/-- Nothing else is wrong with the command: the fields are there, the names are valid and the
checkpoint is stored. -/
def InOrder (env : Env) (srv : Server) (json : Text) : Prop :=
  (jsonGetString json (Text.lit "type") 64 = some (Text.lit "NM_UNDO") ∧
    ∃ user, jsonGetString json (Text.lit "user") SS_USER_MAX = some user) ∨
  (jsonGetString json (Text.lit "type") 64 = some (Text.lit "NM_DELETE") ∧
    ∀ file, jsonGetString json (Text.lit "file") SS_NAME_MAX = some file → validFilename file) ∨
  (jsonGetString json (Text.lit "type") 64 = some (Text.lit "NM_CHECKPOINT_REVERT") ∧
    ∃ file tag user content, checkpointArgs json = some (file, tag, user) ∧ validFilename tag ∧
      ssReadCheckpoint env srv file tag = .ok content)

/-- The file is locked, and what would overwrite it is refused. -/
structure Guarded (srv : Server) (file : Text) : Prop where
  locked : ∃ entry, (ssStateFind srv.state file).1 = some entry ∧ entry.lockActive = true
  unchanged : ∀ env json, Overwrites json file → (processNmCommand env srv json).1 = srv
  refused : ∀ env json, Overwrites json file → InOrder env srv json →
    (processNmCommand env srv json).2 =
      sendErrorResponse .LOCKED (Text.lit "file locked for write")

section Dispatch

variable {env : Env} {srv : Server} {json : Text}

theorem processNmCommand_undo
    (h : jsonGetString json (Text.lit "type") 64 = some (Text.lit "NM_UNDO")) :
    processNmCommand env srv json = handleNmUndo env srv json := by
  rw [processNmCommand, h]
  rfl

theorem processNmCommand_delete
    (h : jsonGetString json (Text.lit "type") 64 = some (Text.lit "NM_DELETE")) :
    processNmCommand env srv json = handleNmDelete srv json := by
  rw [processNmCommand, h]
  rfl

theorem processNmCommand_revert
    (h : jsonGetString json (Text.lit "type") 64 = some (Text.lit "NM_CHECKPOINT_REVERT")) :
    processNmCommand env srv json = handleNmCheckpointRevert env srv json := by
  rw [processNmCommand, h]
  rfl

theorem checkpointArgs_file {file fileName tag user : Text}
    (hfile : jsonGetString json (Text.lit "file") SS_NAME_MAX = some file)
    (h : checkpointArgs json = some (fileName, tag, user)) : fileName = file := by
  simp only [checkpointArgs, hfile, Option.bind_some, Option.bind_eq_some_iff,
    Option.map_eq_some_iff] at h
  obtain ⟨_, _, _, _, h⟩ := h
  cases h
  rfl

end Dispatch

section Locked

variable {srv : Server} {file : Text} {entry : SsFile}
  (hfind : (ssStateFind srv.state file).1 = some entry) (hlock : entry.lockActive = true)

include hfind hlock

theorem performUndo_locked (env : Env) (user : Text) :
    performUndo env srv file user = (srv, [], .error .EBUSY) := by
  simp [performUndo, hfind, hlock]

theorem ssRevertCheckpoint_locked (env : Env) (tag user : Text) :
    ssRevertCheckpoint env srv file tag user =
      match ssReadCheckpoint env srv file tag with
      | .error e => (srv, [], .error e)
      | .ok _ => (srv, [], .error .EBUSY) := by
  unfold ssRevertCheckpoint
  cases ssReadCheckpoint env srv file tag <;> simp [hfind, hlock]

/-- **The lock flag alone refuses the three commands.** -/
theorem Guarded.of_locked : Guarded srv file := by
  refine ⟨⟨entry, hfind, hlock⟩, ?_, ?_⟩
  · rintro env json ⟨hfile, type, hmem, htype⟩
    simp only [List.mem_cons, List.not_mem_nil, or_false] at hmem
    rcases hmem with rfl | rfl | rfl
    · rw [processNmCommand_undo htype, handleNmUndo, hfile]
      split
      · next fileName user hname _ =>
        cases hname
        rw [performUndo_locked hfind hlock]
        rfl
      · rfl
    · rw [processNmCommand_revert htype, handleNmCheckpointRevert]
      split
      · rfl
      · next fileName tag user hargs =>
        obtain rfl := checkpointArgs_file hfile hargs
        rw [ssRevertCheckpoint_locked hfind hlock]
        cases ssReadCheckpoint env srv fileName tag <;> simp <;> split <;> try rfl
        split <;> rfl
    · rw [processNmCommand_delete htype, handleNmDelete, hfile]
      simp only [hfind, hlock, if_true]
      split <;> rfl
  · rintro env json ⟨hfile, -⟩ (⟨htype, user, huser⟩ | ⟨htype, hvalid⟩ |
      ⟨htype, fileName, tag, user, content, hargs, htag, hread⟩)
    · rw [processNmCommand_undo htype, handleNmUndo, hfile, huser]
      simp only [performUndo_locked hfind hlock]
      rfl
    · rw [processNmCommand_delete htype, handleNmDelete, hfile]
      simp [hfind, hlock, hvalid file hfile]
    · obtain rfl := checkpointArgs_file hfile hargs
      rw [processNmCommand_revert htype, handleNmCheckpointRevert, hargs]
      simp only [htag, ssRevertCheckpoint_locked hfind hlock, hread]
      rfl

end Locked

/-! ## What happens to the lock flags -/

/-- The file has an entry, and its flag is set. -/
def SsState.Locked (state : SsState) (name : Text) : Prop :=
  ∃ entry, state.entry name = some entry ∧ entry.lockActive = true

/-- The table stays sorted, and flags that were set stay so, those of the names outside `P` apart. -/
structure LocksKept (P : Text → Prop) (state state' : SsState) : Prop where
  sorted : state'.Sorted
  locked : ∀ name, P name → state.Locked name → state'.Locked name

theorem LocksKept.trans {P : Text → Prop} {s s' s'' : SsState} (h : LocksKept P s s')
    (h' : LocksKept P s' s'') : LocksKept P s s'' :=
  ⟨h'.sorted, fun n hn hl => h'.locked n hn (h.locked n hn hl)⟩

/-- A change of an entry that leaves its name and its flag alone. -/
structure Unlocking (f : SsFile → SsFile) : Prop where
  name : ∀ file, (f file).name = file.name
  lock : ∀ file, (f file).lockActive = file.lockActive

section Table

variable {P : Text → Prop} {state : SsState} (hs : state.Sorted)

include hs

theorem LocksKept.refl : LocksKept P state state := ⟨hs, fun _ _ h => h⟩

theorem LocksKept.update {name : Text} {f : SsFile → SsFile} (hf : Unlocking f) {file' : SsFile}
    {state' : SsState} (h : updateFile state name f = some (file', state')) :
    LocksKept P state state' := by
  obtain ⟨file, hfile, rfl, hs', hentry⟩ := updateFile_some hs hf.name h
  refine ⟨hs', fun n _ ⟨entry, he, hl⟩ => ?_⟩
  by_cases hn : n = name
  · subst hn
    obtain rfl : file = entry := by simpa [hfile] using he
    exact ⟨f file, by simp [hentry], (hf.lock file).trans hl⟩
  · exact ⟨entry, by simpa [hentry, hn] using he, hl⟩

theorem LocksKept.add (fs : Fs) {name : Text} (hname : name.length < SS_NAME_MAX) (owner : Text)
    (o : AddOutcome) : LocksKept P state (ssStateAdd state fs name owner o).2.1 := by
  obtain ⟨hs', hentry⟩ := ssStateAdd_state hs fs hname owner o
  refine ⟨hs', fun n _ ⟨entry, he, hl⟩ => ⟨entry, ?_, hl⟩⟩
  rw [hentry, if_neg, he]
  rintro ⟨hadd, rfl⟩
  simp [entry_of_ssStateAdd hs hadd] at he

end Table

/-! ## Commands keep the flags -/

theorem unlocking_restamp (text user : Text) (now : Int) : Unlocking (restamp text user now) :=
  ⟨fun _ => rfl, fun _ => rfl⟩

section Commands

variable {P : Text → Prop} (env : Env) {srv : Server} {state : SsState} (hs : state.Sorted)
  (hstate : srv.state = state)

include hs hstate

theorem LocksKept.restampFile (fileName user text : Text) :
    LocksKept P state (restampFile env srv fileName user text).1.state := by
  subst hstate
  unfold Ss.restampFile
  split
  · exact .refl hs
  · next h => exact .update hs (unlocking_restamp text user env.now) h

theorem LocksKept.performUndo (fileName user : Text) :
    LocksKept P state (performUndo env srv fileName user).1.state := by
  subst hstate
  unfold Ss.performUndo
  split
  · exact .refl hs
  split
  · exact .refl hs
  split
  · exact .refl hs
  split
  · exact .refl hs
  split
  · exact .refl hs
  · dsimp only
    exact .restampFile env hs (by rfl) ..

theorem LocksKept.ssRevertCheckpoint (fileName tag user : Text) :
    LocksKept P state (ssRevertCheckpoint env srv fileName tag user).1.state := by
  subst hstate
  unfold Ss.ssRevertCheckpoint
  split
  · exact .refl hs
  split
  · exact .refl hs
  split
  · exact .refl hs
  split
  · exact .refl hs
  split
  · exact .refl hs
  split
  · exact .refl hs
  · exact .restampFile env hs (by rfl) ..

theorem LocksKept.ssCreateCheckpoint (fileName tag : Text) :
    LocksKept P state (ssCreateCheckpoint env srv fileName tag).1.state := by
  subst hstate
  unfold Ss.ssCreateCheckpoint
  split
  · exact .refl hs
  split
  · exact .refl hs
  split
  · exact .refl hs
  split
  · exact .refl hs
  split <;> exact .refl hs

theorem LocksKept.syncTarget {fileName : Text} (hname : fileName.length < SS_NAME_MAX)
    (owner : Text) : LocksKept P state (syncTarget env srv fileName owner).1.state := by
  subst hstate
  have hadd := LocksKept.add (P := P) hs srv.fs hname owner env.add
  unfold Ss.syncTarget
  split
  · exact .refl hs
  split <;> next h => rw [h] at hadd; exact hadd

theorem LocksKept.syncFile {fileName : Text} (hname : fileName.length < SS_NAME_MAX)
    (owner content : Text) : LocksKept P state (syncFile env srv fileName owner content).1.state := by
  have htarget := LocksKept.syncTarget (P := P) env hs hstate hname owner
  unfold Ss.syncFile
  dsimp only
  split
  · next h => rw [h] at htarget; exact htarget
  · next h =>
    rw [h] at htarget
    split
    · exact htarget
    split
    · exact htarget
    split
    · exact htarget
    split
    · exact htarget
    · next hcount =>
      refine htarget.trans (.update htarget.sorted ?_ hcount)
      exact ⟨fun _ => rfl, fun _ => rfl⟩

end Commands

section Handlers

variable {P : Text → Prop} {srv : Server} (hs : srv.state.Sorted) (env : Env) (json : Text)

include hs

theorem LocksKept.handleNmCreate :
    LocksKept P srv.state (handleNmCreate env srv json).1.state := by
  unfold Ss.handleNmCreate
  split
  · next name owner hname _ =>
    have hadd := LocksKept.add (P := P) hs srv.fs (length_jsonGetString_lt hname) owner
      env.add
    split
    · exact .refl hs
    · split <;> next h => rw [h] at hadd; exact hadd
  · exact .refl hs

/-- A file that is removed was not locked. -/
theorem LocksKept.handleNmDelete : LocksKept P srv.state (handleNmDelete srv json).1.state := by
  unfold Ss.handleNmDelete
  split
  · next name hname =>
    have hremove := ssStateRemove_state hs srv.fs name
    split
    · exact .refl hs
    split
    · exact .refl hs
    · next entry hfind =>
      rw [ssStateFind_eq hs] at hfind
      split
      · exact .refl hs
      · next hlock =>
        split
        · exact .refl hs
        · next h =>
          rw [h] at hremove
          refine ⟨hremove.1, fun n _ ⟨entry', he, hl⟩ => ⟨entry', ?_, hl⟩⟩
          rw [hremove.2, if_neg, he]
          rintro rfl
          rw [hfind] at he
          cases he
          exact hlock hl
  · exact .refl hs

theorem LocksKept.handleNmUndo : LocksKept P srv.state (handleNmUndo env srv json).1.state := by
  unfold Ss.handleNmUndo
  split
  · next fileName user _ _ =>
    have hundo := LocksKept.performUndo (P := P) env hs rfl fileName user
    split
    · next h => rw [h] at hundo; split <;> exact hundo
    · next h => rw [h] at hundo; split <;> (try split) <;> exact hundo
  · exact .refl hs

theorem LocksKept.handleNmCheckpointCreate :
    LocksKept P srv.state (handleNmCheckpointCreate env srv json).1.state := by
  unfold Ss.handleNmCheckpointCreate
  split
  · exact .refl hs
  · next fileName tag _ _ =>
    have hcreate := LocksKept.ssCreateCheckpoint (P := P) env hs rfl fileName tag
    split
    · exact .refl hs
    · split <;> next h => rw [h] at hcreate; exact hcreate

theorem LocksKept.handleNmCheckpointRevert :
    LocksKept P srv.state (handleNmCheckpointRevert env srv json).1.state := by
  unfold Ss.handleNmCheckpointRevert
  split
  · exact .refl hs
  · next fileName tag user _ =>
    have hrevert := LocksKept.ssRevertCheckpoint (P := P) env hs rfl fileName tag user
    split
    · exact .refl hs
    · split
      · next h => rw [h] at hrevert; split <;> exact hrevert
      · next h => rw [h] at hrevert; exact hrevert

theorem LocksKept.handleNmSync : LocksKept P srv.state (handleNmSync env srv json).1.state := by
  unfold Ss.handleNmSync
  split
  · next hname _ _ _ _ =>
    split
    · exact .refl hs
    · exact .syncFile env hs rfl (length_jsonGetString_lt hname) _ _
  · exact .refl hs

/-- **No command clears a lock flag.** -/
theorem LocksKept.processNmCommand :
    LocksKept P srv.state (processNmCommand env srv json).1.state := by
  unfold Ss.processNmCommand
  split
  · exact .refl hs
  split
  · exact .handleNmCreate hs ..
  split
  · exact .handleNmDelete hs ..
  split
  · unfold handleNmTicketCommand
    split
    · split <;> exact .refl hs
    · exact .refl hs
  split
  · exact .handleNmUndo hs ..
  split
  · exact .handleNmCheckpointCreate hs ..
  split
  · unfold handleNmCheckpointView
    (repeat' split) <;> exact .refl hs
  split
  · exact .handleNmCheckpointRevert hs ..
  split
  · exact .handleNmSync hs ..
  split <;> exact .refl hs

end Handlers

/-! ## What requests and frames do to the flags -/

/-- The flag of one file becomes `active`, the others stay as they are. -/
theorem setFileLockState_spec {srv : Server} (hs : srv.state.Sorted) (name : Text) (active : Bool)
    (sentence : Int) (user : Option Text) :
    let srv' := setFileLockState srv name active sentence user
    srv'.state.Sorted ∧ ∀ n, srv'.state.entry n =
      if n = name then (srv.state.entry n).map (lockFields active sentence user)
      else srv.state.entry n := by
  intro srv'
  unfold srv' setFileLockState
  split
  · next h =>
    rw [updateFile_eq_none hs] at h
    refine ⟨hs, fun n => ?_⟩
    split
    · next hn => simp [hn, h]
    · rfl
  · next h =>
    obtain ⟨file, hfile, -, hs', hentry⟩ := updateFile_some hs (by intro; rfl) h
    refine ⟨hs', fun n => ?_⟩
    rw [hentry]
    split
    · next hn => simp [hn, hfile]
    · rfl

/-- Frames of the reader leave the flags alone. -/
theorem LocksKept.touchFile {P : Text → Prop} {srv : Server} (hs : srv.state.Sorted)
    (env : DataEnv) (fileName user : Text) :
    LocksKept P srv.state (touchFile env srv fileName user).1.state := by
  unfold Ss.touchFile
  dsimp only
  split
  · exact .refl hs
  · next h =>
    refine .update hs ?_ h
    exact ⟨fun _ => rfl, fun _ => rfl⟩

theorem LocksKept.handleRead {P : Text → Prop} {srv : Server} (hs : srv.state.Sorted)
    (env : DataEnv) (fileName user : Text) :
    LocksKept P srv.state (handleRead env srv fileName user).1.state := by
  have htouch := LocksKept.touchFile (P := P) hs env fileName user
  unfold Ss.handleRead
  split
  · exact .refl hs
  split
  · exact .refl hs
  split
  · exact .refl hs
  · dsimp only
    split <;> exact htouch

theorem LocksKept.handleStream {P : Text → Prop} {srv : Server} (hs : srv.state.Sorted)
    (env : DataEnv) (fileName user : Text) :
    LocksKept P srv.state (handleStream env srv fileName user).1.state := by
  have htouch := LocksKept.touchFile (P := P) hs env fileName user
  unfold Ss.handleStream
  split
  · exact .refl hs
  split
  · exact .refl hs
  · dsimp only
    (repeat' split) <;> first | exact htouch | exact .refl hs

/-- A commit clears the flag of its own file only. -/
theorem LocksKept.commitWrite {srv : Server} (hs : srv.state.Sorted) (env : DataEnv)
    (write : OpenWrite) :
    LocksKept (· ≠ write.file) srv.state (commitWrite env srv write).1.state := by
  unfold Ss.commitWrite
  split
  · split <;> exact .refl hs
  · split
    · exact .refl hs
    · next h =>
      obtain ⟨file, -, -, hs', hentry⟩ := updateFile_some hs (by intro; rfl) h
      refine ⟨hs', fun n hn ⟨entry, he, hl⟩ => ⟨entry, ?_, hl⟩⟩
      rw [hentry, if_neg hn, he]

/-! ## Steps -/

/-- A `WRITE_BEGIN` for the file that takes its locks and then fails: the index is out of range, the
memory does not suffice, or the reply is too long or not sent. -/
def BeginFails (env : DataEnv) (host : Host) (file json : Text) : Prop :=
  ∃ user token sentence view, requestArgs json = some (Text.lit "WRITE_BEGIN", file, user, token) ∧
    jsonGetInt json (Text.lit "sentence") = some sentence ∧
    (validateTicket env host.server token user file (Text.lit "WRITE")).1.isSome ∧
    (ssStateFind host.server.state file).1 = some view ∧
    (sentenceLockAcquire env host.sentenceLocks file sentence user).isSome ∧
    (openSession env host.server.fs view user sentence).1 = none

/-- The frame after which `handle_write` leaves its loop. -/
def EndsLoop (frame : Option Text) : Prop :=
  frame = none ∨ ∃ json type, frame = some json ∧
    jsonGetString json (Text.lit "type") 64 = some type ∧
    (type = Text.lit "WRITE_COMMIT" ∨ type = Text.lit "WRITE_ABORT")

/-- The event ends a write on the file: a `WRITE_BEGIN` that fails, a commit, an abort, or the client
going away. -/
def EndsWrite (host : Host) (file : Text) : Event → Prop
  | .command _ _ => False
  | .request _ env json => BeginFails env host file json
  | .frame client _ frame => ∃ write, host.writes client = some write ∧ write.file = file ∧
      EndsLoop frame

theorem EndsWrite.unique {host : Host} {e : Event} {file file' : Text}
    (h : EndsWrite host file e) (h' : EndsWrite host file' e) : file = file' := by
  cases e with
  | command env json => exact h.elim
  | request client env json =>
    obtain ⟨_, _, _, _, hargs, -⟩ := h
    obtain ⟨_, _, _, _, hargs', -⟩ := h'
    rw [hargs] at hargs'
    cases hargs'
    rfl
  | frame client env frame =>
    obtain ⟨write, hw, rfl, -⟩ := h
    obtain ⟨write', hw', rfl, -⟩ := h'
    rw [hw] at hw'
    cases hw'
    rfl

/-- The connection the event is about. -/
def Event.client : Event → Option Nat
  | .command _ _ => none
  | .request client _ _ => some client
  | .frame client _ _ => some client

/-- No write ends while another one on its file is open. -/
def EndsAlone (host : Host) (e : Event) : Prop :=
  ∀ file, EndsWrite host file e → ∀ client write, e.client ≠ some client →
    host.writes client = some write → write.file ≠ file

/-- The step leaves the flags set that were, and opens no write without one. -/
structure Kept (host host' : Host) : Prop where
  locks : LocksKept (fun _ => True) host.server.state host'.server.state
  writes : ∀ client write', host'.writes client = some write' →
    host'.server.state.Locked write'.file ∨
      ∃ write, host.writes client = some write ∧ write.file = write'.file

/-- The step ends the write of the client on the file, and its flag is clear. -/
structure Closed (host : Host) (client : Nat) (file : Text) (host' : Host) : Prop where
  locks : LocksKept (· ≠ file) host.server.state host'.server.state
  writes : host'.writes = Function.update host.writes client none
  clear : ¬ host'.server.state.Locked file

theorem Kept.setServer {host : Host} {srv : Server}
    (h : LocksKept (fun _ => True) host.server.state srv.state) : Kept host (host.setServer srv) :=
  ⟨h, fun _ write' hw => .inr ⟨write', hw, rfl⟩⟩

theorem Kept.refl {host : Host} (hs : host.server.state.Sorted) : Kept host host :=
  ⟨.refl hs, fun _ write' hw => .inr ⟨write', hw, rfl⟩⟩

/-- Closing a write clears the flag of its file and no other. -/
theorem closed_closeWrite {host₀ host : Host} {client : Nat} {file : Text} (sentence : Int)
    (hlocks : LocksKept (· ≠ file) host₀.server.state host.server.state)
    (hwrites : host.writes = host₀.writes) :
    Closed host₀ client file (closeWrite host client file sentence) := by
  obtain ⟨hs', hentry⟩ := setFileLockState_spec hlocks.sorted file false (-1) none
  refine ⟨⟨hs', fun n hn hl => ?_⟩, by rw [← hwrites]; rfl, ?_⟩
  · obtain ⟨entry, he, hl⟩ := hlocks.locked n hn hl
    exact ⟨entry, by rw [closeWrite, hentry, if_neg hn, he], hl⟩
  · rintro ⟨entry, he, hl⟩
    rw [closeWrite, hentry, if_pos rfl, Option.map_eq_some_iff] at he
    obtain ⟨_, -, rfl⟩ := he
    simp [lockFields] at hl

/-- Taking a ticket changes the tickets only. -/
theorem exists_tickets {env : DataEnv} {srv srv' : Server} {token user file op : Text}
    {ticket : Option AuthTicket} (h : validateTicket env srv token user file op = (ticket, srv')) :
    ∃ tickets, srv' = { srv with tickets := tickets } := by
  refine ⟨(ticketTableTake env srv.tickets token user file op).2, ?_⟩
  rw [validateTicket] at h
  exact (congrArg Prod.snd h).symm

section Step

variable {host : Host} (hs : host.server.state.Sorted) (client : Nat) (env : DataEnv)

include hs

theorem handleWriteFrame_cases {write : OpenWrite} (hw : host.writes client = some write)
    (frame : Option Text) :
    (¬ EndsLoop frame ∧ Kept host (handleWriteFrame env host client write frame).1) ∨
      (EndsLoop frame ∧
        Closed host client write.file (handleWriteFrame env host client write frame).1) := by
  unfold handleWriteFrame
  split
  · exact .inr ⟨.inl rfl, closed_closeWrite _ (.refl hs) rfl⟩
  · next json =>
    split
    · next htype =>
      refine .inl ⟨?_, .refl hs⟩
      rintro (h | ⟨_, type, h, ht, -⟩)
      · cases h
      · cases h
        simp [htype] at ht
    · next type htype =>
      have hends : EndsLoop (some json) ↔
          type = Text.lit "WRITE_COMMIT" ∨ type = Text.lit "WRITE_ABORT" := by
        constructor
        · rintro (h | ⟨_, _, h, ht, h'⟩)
          · cases h
          · cases h
            rw [htype] at ht
            cases ht
            exact h'
        · exact fun h => .inr ⟨json, type, rfl, htype, h⟩
      rw [hends]
      split
      · next hedit =>
        refine .inl ⟨?_, ⟨.refl hs, fun c write' hw' => .inr ?_⟩⟩
        · rintro (rfl | rfl) <;> exact absurd hedit (by decide)
        · by_cases hc : c = client
          · subst hc
            simp only [Host.setWrite, Function.update_self, Option.some.injEq] at hw'
            exact ⟨write, hw, by rw [← hw']⟩
          · simp only [Host.setWrite, Function.update_of_ne hc] at hw'
            exact ⟨write', hw', rfl⟩
      split
      · next hcommit =>
        exact .inr ⟨.inl hcommit, closed_closeWrite _ (.commitWrite hs env write) rfl⟩
      split
      · next habort => exact .inr ⟨.inr habort, closed_closeWrite _ (.refl hs) rfl⟩
      · next hcommit habort => exact .inl ⟨not_or.2 ⟨hcommit, habort⟩, .refl hs⟩

/-- The write a `WRITE_BEGIN` opens finds its flag set, and no other flag changed. -/
theorem handleWriteBegin_cases (fileName user : Text) (sentence : Int) :
    let host' := (handleWriteBegin env host client fileName user sentence).1
    let fails := ∃ view, (ssStateFind host.server.state fileName).1 = some view ∧
      (sentenceLockAcquire env host.sentenceLocks fileName sentence user).isSome ∧
      (openSession env host.server.fs view user sentence).1 = none
    (¬ fails ∧ Kept host host') ∨ (fails ∧ Closed host client fileName host') := by
  intro host' fails
  unfold host' fails handleWriteBegin
  split
  · next hfind => exact .inl ⟨by simp [hfind], .refl hs⟩
  · next view hfind =>
    split
    · next hacq => exact .inl ⟨by simp [hacq], .refl hs⟩
    · next locks hacq =>
      obtain ⟨hs', hentry⟩ :=
        setFileLockState_spec hs fileName true sentence (some user)
      have hlocked : (setFileLockState host.server fileName true sentence (some user)).state.Locked
          fileName := by
        rw [ssStateFind_eq hs] at hfind
        exact ⟨_, by rw [hentry, if_pos rfl, hfind]; rfl, rfl⟩
      have hkept : LocksKept (fun _ => True) host.server.state
          (setFileLockState host.server fileName true sentence (some user)).state := by
        refine ⟨hs', fun n _ hl => ?_⟩
        by_cases hn : n = fileName
        · exact hn ▸ hlocked
        · obtain ⟨entry, he, hl⟩ := hl
          exact ⟨entry, by rw [hentry, if_neg hn, he], hl⟩
      have hfs : (setFileLockState host.server fileName true sentence (some user)).fs =
          host.server.fs := by
        unfold setFileLockState
        split <;> rfl
      dsimp only
      rw [hfs]
      split
      · next hopen =>
        refine .inr ⟨⟨view, hfind, by simp [hacq], by rw [hopen]⟩, ?_⟩
        exact closed_closeWrite _ ⟨hs', fun n _ hl => hkept.locked n trivial hl⟩ rfl
      · next session hopen =>
        refine .inl ⟨?_, ⟨hkept, fun c write' hw' => ?_⟩⟩
        · rintro ⟨view', hview', -, hnone⟩
          rw [hfind] at hview'
          cases hview'
          simp [hopen] at hnone
        · by_cases hc : c = client
          · subst hc
            simp only [Host.setWrite, Function.update_self, Option.some.injEq] at hw'
            exact .inl (by rw [← hw']; exact hlocked)
          · simp only [Host.setWrite, Function.update_of_ne hc] at hw'
            exact .inr ⟨write', hw', rfl⟩

theorem handleDataClient_cases (json : Text) :
    ((∀ file, ¬ BeginFails env host file json) ∧
        Kept host (handleDataClient env host client json).1) ∨
      ∃ file, BeginFails env host file json ∧
        Closed host client file (handleDataClient env host client json).1 := by
  unfold handleDataClient
  dsimp only
  split
  · next hargs =>
    refine .inl ⟨?_, .refl hs⟩
    rintro file ⟨_, _, _, _, h, -⟩
    simp [hargs] at h
  · next type fileName user token hargs =>
    have hother (h : type ≠ Text.lit "WRITE_BEGIN") : ∀ file, ¬ BeginFails env host file json := by
      rintro file ⟨_, _, _, _, h', -⟩
      rw [hargs] at h'
      cases h'
      exact h rfl
    split
    · next hread =>
      refine .inl ⟨hother (by rw [hread]; decide), ?_⟩
      split
      · next h =>
        obtain ⟨tickets, rfl⟩ := exists_tickets h
        exact .setServer (.refl hs)
      · next h =>
        obtain ⟨tickets, rfl⟩ := exists_tickets h
        exact .setServer
          (@LocksKept.handleRead _ { host.server with tickets := tickets } hs env fileName user)
    split
    · next hstream =>
      refine .inl ⟨hother (by rw [hstream]; decide), ?_⟩
      split
      · next h =>
        obtain ⟨tickets, rfl⟩ := exists_tickets h
        exact .setServer (.refl hs)
      · next h =>
        obtain ⟨tickets, rfl⟩ := exists_tickets h
        exact .setServer
          (@LocksKept.handleStream _ { host.server with tickets := tickets } hs env fileName user)
    split
    · next hbegin =>
      subst hbegin
      split
      · next hsent =>
        refine .inl ⟨?_, .refl hs⟩
        rintro file ⟨_, _, _, _, -, h, -⟩
        simp [hsent] at h
      · next sentence hsent =>
        have hfails (file : Text) : BeginFails env host file json ↔ file = fileName ∧
            (validateTicket env host.server token user fileName (Text.lit "WRITE")).1.isSome ∧
            ∃ view, (ssStateFind host.server.state fileName).1 = some view ∧
              (sentenceLockAcquire env host.sentenceLocks fileName sentence user).isSome ∧
              (openSession env host.server.fs view user sentence).1 = none := by
          constructor
          · rintro ⟨_, _, _, view, h, hsent', htake, hfind⟩
            rw [hargs] at h
            cases h
            rw [hsent] at hsent'
            cases hsent'
            exact ⟨rfl, htake, view, hfind⟩
          · rintro ⟨rfl, htake, view, hfind⟩
            exact ⟨user, token, sentence, view, hargs, hsent, htake, hfind⟩
        simp only [hfails]
        split
        · next htake =>
          obtain ⟨tickets, rfl⟩ := exists_tickets htake
          exact .inl ⟨by simp [htake], .setServer (.refl hs)⟩
        · next ticket srv htake =>
          obtain ⟨tickets, rfl⟩ := exists_tickets htake
          have hbegin := @handleWriteBegin_cases
            (host.setServer { host.server with tickets := tickets }) hs client env fileName user
            sentence
          rcases hbegin with ⟨hnot, hkept⟩ | ⟨hfail, hclosed⟩
          · exact .inl ⟨fun file ⟨_, _, h⟩ => hnot h, hkept.locks, hkept.writes⟩
          · exact .inr ⟨fileName, ⟨rfl, by rw [htake]; rfl, hfail⟩, hclosed.locks, hclosed.writes,
              hclosed.clear⟩
    · next h => exact .inl ⟨hother h, .refl hs⟩

end Step

/-- **What a step does to the lock flags**: it ends a write and clears the flag of its file, or it
leaves every flag set. -/
theorem Host.step_cases {host host' : Host} (hs : host.server.state.Sorted) {e : Event}
    (h : host.step e = some host') :
    ((∀ file, ¬ EndsWrite host file e) ∧ Kept host host') ∨
      ∃ client file, e.client = some client ∧ EndsWrite host file e ∧
        Closed host client file host' := by
  cases e with
  | command env json =>
    cases h
    exact .inl ⟨fun _ => id, .setServer (.processNmCommand hs env json)⟩
  | request client env json =>
    simp only [Host.step] at h
    split at h
    · cases h
    · cases h
      rcases handleDataClient_cases hs client env json with h | ⟨file, hends, h⟩
      · exact .inl h
      · exact .inr ⟨client, file, rfl, hends, h⟩
  | frame client env frame =>
    obtain ⟨write, hw, rfl⟩ := Option.map_eq_some_iff.1 h
    rcases handleWriteFrame_cases hs client env hw frame with ⟨hnot, h⟩ | ⟨hends, h⟩
    · exact .inl ⟨fun file ⟨_, _, _, hends⟩ => hnot hends, h⟩
    · exact .inr ⟨client, write.file, rfl, ⟨write, hw, rfl, hends⟩, h⟩

/-! ## The result -/

/-- The files of the open writes are locked. -/
structure Inv (host : Host) : Prop where
  sorted : host.server.state.Sorted
  locked : ∀ client write, host.writes client = some write → host.server.state.Locked write.file

/-- The files of the open writes are guarded. -/
def WritesGuarded (host : Host) : Prop :=
  ∀ client write, host.writes client = some write → Guarded host.server write.file

theorem Inv.started {host : Host} (h : host.Started) : Inv host :=
  ⟨h.1, fun client write hw => by simp [h.2.2.2 client] at hw⟩

theorem Inv.step {host host' : Host} (hI : Inv host) {e : Event} (hG : EndsAlone host e)
    (h : host.step e = some host') : Inv host' := by
  rcases Host.step_cases hI.sorted h with ⟨-, hkept⟩ | ⟨client, file, hclient, hends, hclosed⟩
  · refine ⟨hkept.locks.sorted, fun c write' hw' => ?_⟩
    rcases hkept.writes c write' hw' with hl | ⟨write, hw, hfile⟩
    · exact hl
    · exact hfile ▸ hkept.locks.locked _ trivial (hI.locked c write hw)
  · refine ⟨hclosed.locks.sorted, fun c write hw => ?_⟩
    rw [hclosed.writes] at hw
    by_cases hc : c = client
    · simp [hc] at hw
    · rw [Function.update_of_ne hc] at hw
      have hne : e.client ≠ some c := by simpa [hclient] using Ne.symm hc
      exact hclosed.locks.locked _ (hG file hends c write hne hw) (hI.locked c write hw)

theorem Inv.guarded {host : Host} (hI : Inv host) : WritesGuarded host := by
  intro client write hw
  obtain ⟨entry, he, hl⟩ := hI.locked client write hw
  exact .of_locked (by rw [ssStateFind_eq hI.sorted, he]) hl

/-- A write that ends beside another one on its file leaves that one unguarded. -/
theorem not_writesGuarded {host host' : Host} (hI : Inv host) {e : Event} (hG : ¬ EndsAlone host e)
    (h : host.step e = some host') : ¬ WritesGuarded host' := by
  simp only [EndsAlone, not_forall, not_not] at hG
  obtain ⟨file, hends, other, write, hother, hw, hfile⟩ := hG
  rcases Host.step_cases hI.sorted h with ⟨hnot, -⟩ | ⟨client, file', hclient, hends', hclosed⟩
  · exact absurd hends (hnot file)
  · intro hguarded
    have hc : other ≠ client := by
      rintro rfl
      exact hother hclient
    have hw' : host'.writes other = some write := by
      rw [hclosed.writes, Function.update_of_ne hc, hw]
    obtain ⟨entry, hfind, hl⟩ := (hguarded other write hw').locked
    refine hclosed.clear ⟨entry, ?_, hl⟩
    rw [← ssStateFind_eq hclosed.locks.sorted, ← EndsWrite.unique hends hends', ← hfile, hfind]

/-- A server that stores the file `f`. -/
def Host.withFile (content : Text) : Host :=
  let added := ssStateAdd (ssStateInit (Text.lit "/s")) (fun _ => none) (Text.lit "f")
    (Text.lit "u") ⟨0, true, true, true⟩
  ⟨⟨added.2.1, added.2.2.write (Text.lit "/s/files/f") content, []⟩, [], fun _ => none⟩

theorem Host.started_withFile (content : Text) : (Host.withFile content).Started := by
  have hname : (Text.lit "f").length < SS_NAME_MAX := by decide
  exact ⟨(ssStateAdd_state (sorted_ssStateInit _) _ hname _ _).1, rfl, rfl, fun _ => rfl⟩

/-- The command that brings the ticket `t`. -/
def ticketCommand (t : Text) : Event :=
  .command (.allOk 0) (printMessage
    [(Text.lit "type", .string (Text.lit "NM_TICKET")), (Text.lit "token", .string t),
      (Text.lit "file", .string (Text.lit "f")), (Text.lit "user", .string (Text.lit "u")),
      (Text.lit "op", .string (Text.lit "WRITE")), (Text.lit "expiry", .number (printNat 0))])

/-- The request that opens a write with it. -/
def beginRequest (client : Nat) (t : Text) (sentence : Nat) : Event :=
  .request client (.allOk 0) (printMessage
    [(Text.lit "type", .string (Text.lit "WRITE_BEGIN")), (Text.lit "file", .string (Text.lit "f")),
      (Text.lit "user", .string (Text.lit "u")), (Text.lit "ticket", .string t),
      (Text.lit "sentence", .number (printNat sentence))])

/-- The command that deletes the file. -/
def deleteCommand : Event :=
  .command (.allOk 0) (printMessage
    [(Text.lit "type", .string (Text.lit "NM_DELETE")), (Text.lit "file", .string (Text.lit "f"))])

/-- The server after some events, and a fact about an open write there that can be computed. -/
theorem exists_run {α : Type} (content : Text) (client : Nat) (check : Host → OpenWrite → α) (a : α)
    (es : List Event)
    (h : ((System.exec Host.step [] (Host.withFile content) es).bind fun r =>
      (r.2.writes client).map (check r.2)) = some a) :
    ∃ tr host write, System.exec Host.step [] (Host.withFile content) es = some (tr, host) ∧
      Host.system.Run tr host ∧ host.writes client = some write ∧ check host write = a := by
  obtain ⟨⟨tr, host⟩, hexec, h⟩ := Option.bind_eq_some_iff.1 h
  obtain ⟨write, hwrite, h⟩ := Option.map_eq_some_iff.1 h
  exact ⟨tr, host, write, hexec, System.Run.exec (.start (Host.started_withFile content)) hexec,
    hwrite, h⟩

end CoWrite.Ss
