import CoWrite.Ss.Sessions
import CoWrite.Ss.Shift
import CoWrite.Ss.Table

/-!
# What may change a document

Whatever arrives at the server, the text of a file changes in two ways only (`data_step`): by a command of the name manager
on the file, or by a commit of a write on it, which stores its merge. The temporary of a text is named like a file, so
both hold up to the ending `.tmp`.
-/

namespace CoWrite.Ss

open CoWrite.Lib

/-! ## Commands are operations -/

/-- A text that is fetched is for a file that may be in the table. -/
def SyncNamed (json : Text) : Prop :=
  jsonGetString json (Text.lit "type") 64 = some (Text.lit "NM_SYNC") →
    ∀ name ∈ jsonGetString json (Text.lit "file") SS_NAME_MAX, validName name = true

instance (json : Text) : Decidable (SyncNamed json) :=
  inferInstanceAs (Decidable (_ → _))

/-- The server after a command that brings no ticket: as after an operation, or as before. -/
inductive ByOp (srv : Server) : Server → Prop where
  | same : ByOp srv srv
  | op (op : Op) (h : ∀ env file user session, op ≠ .commit env file user session) : ByOp srv (op.run srv)

theorem byOp_handleNmCreate (srv : Server) (env : Env) (json : Text) : ByOp srv (handleNmCreate env srv json).1 := by
  unfold handleNmCreate
  split
  · next name owner hname _ =>
    split_ifs with hvalid
    · exact .same
    · let file : FileName := ⟨name, by simpa [validFilename] using hvalid, length_jsonGetString_lt hname⟩
      have hop : ByOp srv ((Op.create file owner env.add).run srv) := .op _ (by simp)
      simp only [Op.run] at hop
      split <;> next hadd =>
        rw [hadd] at hop
        exact hop
  · exact .same

theorem byOp_handleNmDelete (srv : Server) (json : Text) : ByOp srv (handleNmDelete srv json).1 := by
  unfold handleNmDelete
  split
  · next name hname =>
    split_ifs with hvalid
    · exact .same
    · obtain ⟨file, rfl⟩ : ∃ file : FileName, file.text = name :=
        ⟨⟨name, by simpa [validFilename] using hvalid, length_jsonGetString_lt hname⟩, rfl⟩
      have hop : ByOp srv ((Op.delete file).run srv) := .op _ (by simp)
      simp only [Op.run] at hop
      split
      · exact .same
      split_ifs
      · exact .same
      · cases hremove : ssStateRemove srv.state srv.fs file.text <;> simp only [hremove] at hop ⊢ <;> exact hop
  · exact .same

section Commands

variable {dir : Text} {srv : Server} (h : Placed dir srv.state)

include h

/-- What is found in the table has a name. -/
theorem Placed.fileName {name : Text} {view : SsFile} (hfind : (ssStateFind srv.state name).1 = some view) :
    ∃ file : FileName, file.text = name := by
  rw [ssStateFind_eq h.sorted] at hfind
  obtain ⟨hvalid, hshort⟩ := h.named name (by rw [hfind]; rfl)
  exact ⟨⟨name, hvalid, hshort⟩, rfl⟩

theorem byOp_performUndo (env : Env) (name user : Text) : ByOp srv (performUndo env srv name user).1 := by
  cases hfind : (ssStateFind srv.state name).1 with
  | none =>
    have hsame : (performUndo env srv name user).1 = srv := by
      unfold performUndo
      rw [hfind]
    rw [hsame]
    exact .same
  | some view =>
    obtain ⟨file, rfl⟩ := h.fileName hfind
    exact .op (.undo env file user) (by simp)

theorem byOp_ssCreateCheckpoint (env : Env) (name : Text) {tag : Text} (hshort : tag.length < SS_NAME_MAX) :
    ByOp srv (ssCreateCheckpoint env srv name tag).1 := by
  by_cases hvalid : validFilename tag = true
  · cases hfind : (ssStateFind srv.state name).1 with
    | none =>
      have hsame : (ssCreateCheckpoint env srv name tag).1 = srv := by
        unfold ssCreateCheckpoint
        rw [hfind]
        split <;> rfl
      rw [hsame]
      exact .same
    | some view =>
      obtain ⟨file, rfl⟩ := h.fileName hfind
      exact .op (.checkpoint env file ⟨tag, hvalid, hshort⟩) (by simp)
  · have hsame : (ssCreateCheckpoint env srv name tag).1 = srv := by
      unfold ssCreateCheckpoint
      rw [if_pos (by simpa using hvalid)]
    rw [hsame]
    exact .same

theorem byOp_ssRevertCheckpoint (env : Env) (name user : Text) {tag : Text} (hshort : tag.length < SS_NAME_MAX) :
    ByOp srv (ssRevertCheckpoint env srv name tag user).1 := by
  by_cases hvalid : validFilename tag = true
  · cases hfind : (ssStateFind srv.state name).1 with
    | none =>
      have hsame : (ssRevertCheckpoint env srv name tag user).1 = srv := by
        unfold ssRevertCheckpoint
        rw [hfind]
        split <;> rfl
      rw [hsame]
      exact .same
    | some view =>
      obtain ⟨file, rfl⟩ := h.fileName hfind
      exact .op (.revert env file ⟨tag, hvalid, hshort⟩ user) (by simp)
  · have hsame : (ssRevertCheckpoint env srv name tag user).1 = srv := by
      unfold ssRevertCheckpoint ssReadCheckpoint
      rw [if_pos (by simpa using hvalid)]
    rw [hsame]
    exact .same

theorem byOp_handleNmUndo (env : Env) (json : Text) : ByOp srv (handleNmUndo env srv json).1 := by
  unfold handleNmUndo
  split
  · next name user _ _ =>
    have hop := byOp_performUndo h env name user
    split
    · next hundo =>
      rw [hundo] at hop
      split <;> exact hop
    · next hundo =>
      rw [hundo] at hop
      split_ifs <;> exact hop
  · exact .same

omit h in
theorem length_checkpointArgs {json name tag user : Text} (hargs : checkpointArgs json = some (name, tag, user)) :
    tag.length < SS_NAME_MAX := by
  obtain ⟨_, _, hargs⟩ := Option.bind_eq_some_iff.1 hargs
  obtain ⟨_, htag, hargs⟩ := Option.bind_eq_some_iff.1 hargs
  obtain ⟨_, _, hargs⟩ := Option.map_eq_some_iff.1 hargs
  cases hargs
  exact length_jsonGetString_lt htag

theorem byOp_handleNmCheckpointCreate (env : Env) (json : Text) : ByOp srv (handleNmCheckpointCreate env srv json).1 := by
  unfold handleNmCheckpointCreate
  split
  · exact .same
  · next name tag user hargs =>
    have hop := byOp_ssCreateCheckpoint h env name (length_checkpointArgs hargs)
    split_ifs
    · exact .same
    · split <;> next hcreate =>
        rw [hcreate] at hop
        exact hop

theorem byOp_handleNmCheckpointRevert (env : Env) (json : Text) : ByOp srv (handleNmCheckpointRevert env srv json).1 := by
  unfold handleNmCheckpointRevert
  split
  · exact .same
  · next name tag user hargs =>
    have hop := byOp_ssRevertCheckpoint h env name user (length_checkpointArgs hargs)
    split_ifs
    · exact .same
    · split
      · next hrevert =>
        rw [hrevert] at hop
        split <;> exact hop
      · next hrevert =>
        rw [hrevert] at hop
        exact hop

omit h in
theorem handleNmCheckpointView_server (env : Env) (json : Text) : (handleNmCheckpointView env srv json).1 = srv := by
  unfold handleNmCheckpointView
  split
  · rfl
  split
  · rfl
  split
  · rfl
  split
  · rfl
  split <;> rfl

omit h in
theorem byOp_handleNmSync (env : Env) {json : Text}
    (hvalid : ∀ name ∈ jsonGetString json (Text.lit "file") SS_NAME_MAX, validName name = true) :
    ByOp srv (handleNmSync env srv json).1 := by
  unfold handleNmSync
  split
  · next name owner _ _ _ hname _ _ _ _ =>
    split
    · exact .same
    · next content _ =>
      let file : FileName := ⟨name, hvalid name hname, length_jsonGetString_lt hname⟩
      exact .op (.sync env file owner content) (by simp)
  · exact .same

/-- **A command that brings no ticket is one operation, or nothing.** -/
theorem byOp_processNmCommand (env : Env) {json : Text} (hsync : SyncNamed json)
    (hticket : jsonGetString json (Text.lit "type") 64 ≠ some (Text.lit "NM_TICKET")) :
    ByOp srv (processNmCommand env srv json).1 := by
  unfold processNmCommand
  split
  · exact .same
  · next type htype =>
    split_ifs with hcreate hdelete hnmTicket hundo hcheckpoint hview hrevert hnmSync
    · exact byOp_handleNmCreate srv env json
    · exact byOp_handleNmDelete srv json
    · exact absurd (hnmTicket ▸ htype) hticket
    · exact byOp_handleNmUndo h env json
    · exact byOp_handleNmCheckpointCreate h env json
    · rw [handleNmCheckpointView_server]
      exact .same
    · exact byOp_handleNmCheckpointRevert h env json
    · exact byOp_handleNmSync env (hsync (hnmSync ▸ htype))
    · exact .same
    · exact .same

end Commands

/-! ## Requests -/

/-- What a request leaves: the tickets may be others, a file may be touched, or a write begins. -/
inductive Requested (env : DataEnv) (host : Host) (client : Nat) : Host → Prop where
  | tickets (tickets : List AuthTicket) : Requested env host client (host.setServer { host.server with tickets := tickets })
  | touch (tickets : List AuthTicket) (name user : Text) :
    Requested env host client (host.setServer (touchFile env { host.server with tickets := tickets } name user).1)
  | write (tickets : List AuthTicket) (name user : Text) (sentence : Int) : Requested env host client
      (handleWriteBegin env (host.setServer { host.server with tickets := tickets }) client name user sentence).1

theorem requested_handleDataClient (env : DataEnv) (host : Host) (client : Nat) (json : Text) :
    Requested env host client (handleDataClient env host client json).1 := by
  have hsame : Requested env host client host := .tickets host.server.tickets
  have htouch (tickets : List AuthTicket) (name user : Text) {srv : Server}
      (hread : srv = { host.server with tickets := tickets } ∨
        srv = (touchFile env { host.server with tickets := tickets } name user).1) :
      Requested env host client (host.setServer srv) := by
    rcases hread with rfl | rfl
    · exact .tickets tickets
    · exact .touch tickets name user
  unfold handleDataClient
  dsimp only
  split
  · exact hsame
  next type name user token hargs =>
  split
  · split
    · next htake =>
      obtain ⟨tickets, rfl⟩ := exists_tickets htake
      exact .tickets tickets
    · next htake =>
      obtain ⟨tickets, rfl⟩ := exists_tickets htake
      exact htouch tickets name user ((handleRead_touch env _ name user).imp And.left And.left)
  split
  · split
    · next htake =>
      obtain ⟨tickets, rfl⟩ := exists_tickets htake
      exact .tickets tickets
    · next htake =>
      obtain ⟨tickets, rfl⟩ := exists_tickets htake
      exact htouch tickets name user ((handleStream_touch env _ name user).imp And.left And.left)
  split
  · split
    · exact hsame
    · split
      · next htake =>
        obtain ⟨tickets, rfl⟩ := exists_tickets htake
        exact .tickets tickets
      · next htake =>
        obtain ⟨tickets, rfl⟩ := exists_tickets htake
        exact .write tickets name user _
  · exact hsame

/-! ## The data files -/

section Data

variable {dir : Text} (hdir : dir.length ≤ 239)

include hdir

/-- An operation meets the data files of its file and of the temporary. -/
theorem file_of_data_op {srv : Server} (h : Placed dir srv.state) {op : Op} {g : FileName}
    (hne : (op.run srv).fs (dataPath dir g.text) ≠ srv.fs (dataPath dir g.text)) :
    g.text = op.file.text ∨ g.text = op.file.text ++ Text.lit ".tmp" := by
  have hmem : dataPath dir g.text ∈ op.paths dir := by
    by_contra hnot
    exact hne ((Op.changes h op).writes _ hnot)
  have hreplaced {f : FileName} {ws : List Text} (hsub : ws ⊆ replacedPaths dir f.text) (hm : dataPath dir g.text ∈ ws) :
      g.text = f.text ∨ g.text = f.text ++ Text.lit ".tmp" :=
    (dataPath_mem hdir f.short g.short).1 (hsub hm)
  cases op with
  | create file owner o => exact hreplaced (by simp [Op.paths, Op.file, replacedPaths]) hmem
  | delete file => exact hreplaced (by simp [Op.paths, Op.file, replacedPaths]) hmem
  | undo env file user => exact hreplaced (by simp [Op.paths, Op.file, replacedPaths]) hmem
  | commit env file user session => exact hreplaced (fun _ => id) hmem
  | revert env file tag user => exact hreplaced (fun _ => id) hmem
  | sync env file owner content => exact hreplaced (fun _ => id) hmem
  | checkpoint env file tag => exact absurd hmem (filePath_not_mem_checkpoint hdir file.short g.short tag.short).1

theorem data_touchFile {srv : Server} (h : Placed dir srv.state) (env : DataEnv) (name user : Text) (g : FileName) :
    (touchFile env srv name user).1.fs (dataPath dir g.text) = srv.fs (dataPath dir g.text) := by
  have hchanges := changes_touchFile h name env user
  cases hfind : srv.state.entry name with
  | none =>
    have hsame : (touchFile env srv name user).1 = srv := by
      unfold touchFile
      dsimp only
      rw [(updateFile_eq_none h.sorted).2 hfind]
    rw [hsame]
  | some file =>
    obtain ⟨hvalid, hshort⟩ := h.named name (by rw [hfind]; rfl)
    refine hchanges.writes _ ?_
    rw [List.mem_singleton]
    exact dataPath_ne_metaPath (g := ⟨name, hvalid, hshort⟩) (.inl (by omega))

/-- A server with the paths of the directory and the text of the file. -/
def Keeps (dir : Text) (g : FileName) (srv srv' : Server) : Prop :=
  Placed dir srv'.state ∧ srv'.fs (dataPath dir g.text) = srv.fs (dataPath dir g.text)

omit hdir in
theorem keeps_setFileLockState {srv : Server} (h : Placed dir srv.state) (g : FileName) (name : Text) (active : Bool)
    (sentence : Int) (user : Option Text) : Keeps dir g srv (setFileLockState srv name active sentence user) :=
  ⟨placed_setFileLockState h .., by rw [fs_setFileLockState]⟩

omit hdir in
theorem keeps_handleWriteBegin {host : Host} (h : Placed dir host.server.state) (g : FileName) (env : DataEnv) (client : Nat)
    (name user : Text) (sentence : Int) :
    Keeps dir g host.server (handleWriteBegin env host client name user sentence).1.server := by
  unfold handleWriteBegin
  split
  · exact ⟨h, rfl⟩
  split
  · exact ⟨h, rfl⟩
  dsimp only
  have hset := keeps_setFileLockState h g name true sentence (some user)
  split
  · have hclear := keeps_setFileLockState hset.1 g name false (-1) none
    exact ⟨hclear.1, hclear.2.trans hset.2⟩
  · exact hset

/-- **Who asks changes no document.** -/
theorem keeps_handleDataClient {host : Host} (h : Placed dir host.server.state) (env : DataEnv) (client : Nat) (json : Text)
    (g : FileName) : Keeps dir g host.server (handleDataClient env host client json).1.server := by
  have hrequest := requested_handleDataClient env host client json
  generalize (handleDataClient env host client json).1 = host' at hrequest ⊢
  cases hrequest with
  | tickets tickets => exact ⟨h, rfl⟩
  | touch tickets name user =>
    have hplaced : Placed dir ({ host.server with tickets := tickets } : Server).state := h
    exact ⟨(changes_touchFile hplaced name env user).placed, data_touchFile hdir hplaced env name user g⟩
  | write tickets name user sentence =>
    have hplaced : Placed dir (host.setServer { host.server with tickets := tickets }).server.state := h
    exact keeps_handleWriteBegin hplaced g ..

end Data

/-! ## Steps -/

/-- The event ends the write with `WRITE_COMMIT`. -/
def Commits (host : Host) (e : Event) (env : DataEnv) (write : OpenWrite) : Prop :=
  ∃ client json, e = .frame client env (some json) ∧ host.writes client = some write ∧
    jsonGetString json (Text.lit "type") 64 = some (Text.lit "WRITE_COMMIT")

/-- How a step changes the text of a file. -/
inductive TextChange (dir : Text) (host : Host) (e : Event) (host' : Host) (g : FileName) : Prop where
  | command (env : Env) (json : Text) (op : Op) (he : e = .command env json) (hrun : host'.server = op.run host.server)
      (hfile : g.text = op.file.text ∨ g.text = op.file.text ++ Text.lit ".tmp")
  /-- The merge is of what is stored; a file that cannot be opened counts as an empty one. -/
  | commit (env : DataEnv) (write : OpenWrite) (hcommit : Commits host e env write) (hfile : g.text = write.file)
      (current : Text) (merged : List Text)
      (hcurrent : currentText env.toEnv host.server.fs (dataPath dir g.text) = some current)
      (hmerge : writeSessionMerge write.session current = .ok merged)
      (hstored : host'.server.fs (dataPath dir g.text) = some (joinSentences merged))
  /-- The file is where the text was stored before it took its place. -/
  | temporary (env : DataEnv) (write : OpenWrite) (hcommit : Commits host e env write)
      (hfile : g.text = write.file ++ Text.lit ".tmp")

/-- The table has the paths of the directory, and so has every open write. -/
structure Housed (dir : Text) (host : Host) : Prop where
  placed : Placed dir host.server.state
  writes : ∀ client write, host.writes client = some write →
    (validName write.file = true ∧ write.file.length < SS_NAME_MAX) ∧ HasPaths dir write.file write.view

def Event.Named : Event → Prop
  | .command _ json => SyncNamed json
  | _ => True

instance : DecidablePred Event.Named
  | .command _ json => inferInstanceAs (Decidable (SyncNamed json))
  | .request .. | .frame .. => inferInstanceAs (Decidable True)

section Steps

variable {dir : Text} {host host' : Host} {e : Event}

theorem Housed.started (h : host.Started) (hplaced : Placed dir host.server.state) : Housed dir host := by
  refine ⟨hplaced, ?_⟩
  intro client write hw
  rw [h.2.2.2 client] at hw
  cases hw

theorem server_of_ticket {json : Text} (hticket : jsonGetString json (Text.lit "type") 64 = some (Text.lit "NM_TICKET"))
    (env : Env) (srv : Server) : (processNmCommand env srv json).1.state = srv.state ∧
      (processNmCommand env srv json).1.fs = srv.fs := by
  have hcommand : processNmCommand env srv json = handleNmTicketCommand env srv json := by
    unfold processNmCommand
    rw [hticket]
    rfl
  rw [hcommand]
  unfold handleNmTicketCommand
  split
  · split <;> exact ⟨rfl, rfl⟩
  · exact ⟨rfl, rfl⟩

variable (hdir : dir.length ≤ 239) (h : Housed dir host)

include hdir h

theorem Housed.frame {client : Nat} {env : DataEnv} {write : OpenWrite} (hw : host.writes client = some write)
    (frame : Option Text) : Placed dir (handleWriteFrame env host client write frame).1.server.state ∧ ∀ g : FileName,
      (handleWriteFrame env host client write frame).1.server.fs (dataPath dir g.text) ≠
        host.server.fs (dataPath dir g.text) →
      TextChange dir host (.frame client env frame) (handleWriteFrame env host client write frame).1 g := by
  obtain ⟨hname, hpaths⟩ := h.writes client write hw
  have hkept {host' : Host} (hkeeps : ∀ g, Keeps dir g host.server host'.server) : Placed dir host'.server.state ∧
      ∀ g : FileName, host'.server.fs (dataPath dir g.text) ≠ host.server.fs (dataPath dir g.text) →
        TextChange dir host (.frame client env frame) host' g :=
    ⟨(hkeeps ⟨write.file, hname.1, hname.2⟩).1, fun g hne => absurd (hkeeps g).2 hne⟩
  have hclose (g : FileName) : Keeps dir g host.server (closeWrite host client write.file write.sentence).server :=
    keeps_setFileLockState h.placed g ..
  cases frame with
  | none => exact hkept hclose
  | some json =>
    unfold handleWriteFrame
    dsimp only
    split
    · exact hkept fun g => ⟨h.placed, rfl⟩
    next type htype =>
    split_ifs with hedit hcommit habort
    · exact hkept fun g => ⟨h.placed, rfl⟩
    · have hchanges := Changes.commitWrite h.placed env write hpaths
      have hcommits : Commits host (.frame client env (some json)) env write :=
        ⟨client, json, rfl, hw, hcommit ▸ htype⟩
      have hfs : (closeWrite (host.setServer (commitWrite env host.server write).1) client write.file
          write.sentence).server.fs = (commitWrite env host.server write).1.fs := fs_setFileLockState ..
      refine ⟨placed_setFileLockState hchanges.placed .., ?_⟩
      intro g hne
      rw [hfs] at hne
      have hmem : dataPath dir g.text ∈ replacedPaths dir write.file := by
        by_contra hnot
        exact hne (hchanges.writes _ hnot)
      rcases (dataPath_mem hdir hname.2 g.short).1 hmem with hfile | htmp
      · rcases data_commitWrite h.placed hname hpaths env with hsame | ⟨current, merged, hcurrent, hmerge, hstored⟩
        · rw [← hfile] at hsame
          exact absurd hsame hne
        · rw [← hfile] at hcurrent hstored
          exact .commit env write hcommits hfile current merged hcurrent hmerge (by rw [hfs, hstored])
      · exact .temporary env write hcommits htmp
    · exact hkept hclose
    · exact hkept fun g => ⟨h.placed, rfl⟩

/-- **A step keeps the paths, and changes a text in one of the ways listed.** -/
theorem Housed.step (hnamed : e.Named) (hs : host.step e = some host') : Housed dir host' ∧ ∀ g : FileName,
    host'.server.fs (dataPath dir g.text) ≠ host.server.fs (dataPath dir g.text) → TextChange dir host e host' g := by
  cases e with
  | command env json =>
    cases hs
    by_cases hticket : jsonGetString json (Text.lit "type") 64 = some (Text.lit "NM_TICKET")
    · obtain ⟨hstate, hfs⟩ := server_of_ticket hticket env host.server
      refine ⟨⟨hstate ▸ h.placed, h.writes⟩, ?_⟩
      intro g hne
      exact absurd (congrFun hfs _) hne
    · have hop := byOp_processNmCommand h.placed env hnamed hticket
      generalize hsrv : (processNmCommand env host.server json).1 = srv at hop
      cases hop with
      | same => exact ⟨⟨h.placed, h.writes⟩, fun g hne => absurd rfl hne⟩
      | op op _ =>
        refine ⟨⟨(Op.changes h.placed op).placed, h.writes⟩, ?_⟩
        intro g hne
        exact .command env json op rfl rfl (file_of_data_op hdir h.placed hne)
  | request client env json =>
    obtain ⟨-, hs⟩ := Option.ite_none_left_eq_some.1 hs
    cases hs
    have hkeeps := keeps_handleDataClient hdir h.placed env client json
    refine ⟨⟨(hkeeps ⟨Text.lit "f", by decide, by decide⟩).1, ?_⟩, fun g hne => absurd (hkeeps g).2 hne⟩
    · intro other write hw
      rcases opened_of_request hw with hopen | ⟨-, hview⟩
      · exact h.writes other write hopen
      · rw [ssStateFind_eq h.placed.sorted] at hview
        exact ⟨h.placed.named _ (by rw [hview]; rfl), h.placed.hasPaths _ _ hview⟩
  | frame client env frame =>
    obtain ⟨write, hw, rfl⟩ := Option.map_eq_some_iff.1 hs
    obtain ⟨hplaced, hchange⟩ := h.frame hdir hw frame
    refine ⟨⟨hplaced, ?_⟩, hchange⟩
    intro other write' hw'
    obtain ⟨before, hbefore, -, hfile, hview⟩ := open_before_frame hw hw'
    rw [← hfile, ← hview]
    exact h.writes other before hbefore

end Steps

end CoWrite.Ss
