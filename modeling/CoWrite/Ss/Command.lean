import CoWrite.Common.Error
import CoWrite.Ss.State

/-!
# Commands of the name manager

`process_nm_command` with everything it calls: the undo, the checkpoints, the sync and the ticket
table. A command returns the new server and the frames it sent on the connection to the name manager,
in order; sends succeed.

* A frame without `type` is what the peer thread of the name manager takes for the reply of the command
  it waits for; a frame with one (`SS_FILE_UPDATE`) it dispatches.
* `reply_iff` says that every command is answered by exactly one frame without `type`, but for two
  cases that `ReplyLost` describes: the fields of a reply may fill the 4096 bytes of `extra`, and
  `send_ok` puts them in another buffer of 4096 bytes with 16 more characters around them.
-/

namespace CoWrite.Ss

abbrev MAX_TOKEN_LEN : Nat := 64
abbrev MAX_JSON : Nat := 4096

/-- `struct auth_ticket`. -/
structure AuthTicket where
  token : Text
  file : Text
  user : Text
  op : Text
  expiry : Int
deriving DecidableEq, Repr

/-- What the commands of the name manager read and write. -/
structure Server where
  state : SsState
  fs : Fs
  tickets : List AuthTicket

/-- A message of `strerror`: short, and without a character that would need escaping. -/
structure ErrorText where
  text : Text
  plain : Plain text
  short : text.length < 128

/-- What the calls of one command answer: the clock, the C library, the file system and the other
storage server. `errno` is what a failed call leaves there, or what an older one left. -/
structure Env where
  now : Int
  errno : Errno
  strerror : ErrorText
  /-- `ss_state_add`. -/
  add : AddOutcome
  /-- `load_text` of the undo copy or the checkpoint. -/
  undoLoad : Bool
  /-- `load_text` of the data file. -/
  dataLoad : Bool
  /-- `strdup("")` in its place. -/
  dup : Bool
  undoStore : StoreOutcome
  dataStore : StoreOutcome
  undoUnlinked : Bool
  metaOpened : Bool
  /-- `ensure_directory` of the checkpoint directory. -/
  checkpointDir : Bool
  checkpointStore : StoreOutcome
  /-- `json_escape_dup` of the content in a reply. -/
  escaped : Bool
  ticketPushed : Bool
  /-- `ss_fetch_remote_content`. -/
  fetched : Option Text

/-- Every call succeeds; the clock stands at `now`. -/
def Env.allOk (now : Int) : Env where
  now := now
  errno := .other
  strerror := ⟨Text.lit "File exists", by decide, by decide⟩
  add := ⟨now, true, true, true⟩
  undoLoad := true
  dataLoad := true
  dup := true
  undoStore := .done
  dataStore := .done
  undoUnlinked := true
  metaOpened := true
  checkpointDir := true
  checkpointStore := .done
  escaped := true
  ticketPushed := true
  fetched := none

/-! ## Frames -/

/-- `send_ok`: the frame sent, if it fits the buffer. -/
def sendOk (extra : Text) : List Text :=
  let buf :=
    if extra.isEmpty then Text.lit "\x7b\"status\":\"OK\"\x7d"
    else Text.lit "\x7b\"status\":\"OK\"," ++ extra ++ Text.lit "\x7d"
  if buf.length ≥ MAX_JSON then [] else [buf]

/-- The fields of `send_error_response`. -/
def errorFields (code : ErrorCode) (message : Text) : List Field :=
  [(Text.lit "status", .string (Text.lit "ERR")),
    (Text.lit "code", .string (errorCodeName code)),
    (Text.lit "message", .string message)]

def sendErrorResponse (code : ErrorCode) (message : Text) : List Text :=
  let buf := printMessage (errorFields code message)
  if buf.length ≥ MAX_JSON then [] else [buf]

/-- The fields of `notify_nm_file_update`, names already escaped. -/
def fileUpdateFields (file : SsFile) (name owner last : Text) : List Field :=
  [(Text.lit "type", .string (Text.lit "SS_FILE_UPDATE")),
    (Text.lit "file", .string name),
    (Text.lit "owner", .string owner),
    (Text.lit "words", .number (printNat file.wordCount)),
    (Text.lit "chars", .number (printNat file.charCount)),
    (Text.lit "modified", .number (printInt file.modified)),
    (Text.lit "lastAccess", .number (printInt file.lastAccess)),
    (Text.lit "lastAccessUser", .string last)]

/-- `notify_nm_file_update`. -/
def notifyNmFileUpdate (file : SsFile) : List Text :=
  match jsonEscapeString (SS_NAME_MAX * 2) file.name, jsonEscapeString (SS_USER_MAX * 2) file.owner,
    jsonEscapeString (SS_USER_MAX * 2) file.lastAccessUser with
  | some name, some owner, some last =>
    let payload := printMessage (fileUpdateFields file name owner last)
    if payload.length ≥ MAX_JSON then [] else [payload]
  | _, _, _ => []

/-- `"op":"…"`, the extra field of most replies. -/
def opField (op : String) : Text := printFields [(Text.lit "op", .string (Text.lit op))]

/-! ## Undo and checkpoints -/

/-- An update of the entry under the write lock; the entry after it. -/
def updateFile (state : SsState) (name : Text) (f : SsFile → SsFile) : Option (SsFile × SsState) :=
  match ssStateFind state name with
  | (some file, idx) => some (f file, setFile state idx (f file))
  | (none, _) => none

/-- What `updateFile` does to the map that the table stands for. -/
theorem updateFile_some {state state' : SsState} (hs : state.Sorted) {name : Text}
    {f : SsFile → SsFile} (hf : ∀ file, (f file).name = file.name) {file' : SsFile}
    (h : updateFile state name f = some (file', state')) :
    ∃ file, state.entry name = some file ∧ file' = f file ∧ state'.Sorted ∧
      ∀ n, state'.entry n = if n = name then some (f file) else state.entry n := by
  unfold updateFile at h
  split at h
  · next file idx hfind =>
    cases h
    have hset := setFile_spec hs hfind (hf file)
    exact ⟨file, by rw [← ssStateFind_eq hs, hfind], rfl, hset.1, hset.2⟩
  · cases h

theorem updateFile_eq_none {state : SsState} (hs : state.Sorted) {name : Text}
    {f : SsFile → SsFile} : updateFile state name f = none ↔ state.entry name = none := by
  rw [← ssStateFind_eq hs]
  unfold updateFile
  split <;> simp_all

theorem updateFile_of_entry {state : SsState} (hs : state.Sorted) {name : Text} {f : SsFile → SsFile}
    (hf : ∀ file, (f file).name = file.name) {file : SsFile} (h : state.entry name = some file) :
    ∃ state', updateFile state name f = some (f file, state') ∧ state'.entry name = some (f file) := by
  cases hup : updateFile state name f with
  | none =>
    rw [updateFile_eq_none hs, h] at hup
    cases hup
  | some p =>
    obtain ⟨file', state'⟩ := p
    obtain ⟨old, hold, rfl, -, hentries⟩ := updateFile_some hs hf hup
    obtain rfl : file = old := Option.some.inj (h.symm.trans hold)
    exact ⟨state', rfl, (hentries name).trans (if_pos rfl)⟩

/-- The counts and times a restored text gives its entry. -/
def restamp (text user : Text) (now : Int) (file : SsFile) : SsFile :=
  { file with
    charCount := text.length
    wordCount := countWords text
    modified := now
    lastAccess := now
    lastAccessUser := Text.copyTo SS_USER_MAX user }

/-- The last part of `perform_undo` and `ss_revert_checkpoint`: the entry, its meta file and the
notice to the name manager. -/
def restampFile (env : Env) (srv : Server) (fileName user text : Text) :
    Server × List Text × Except Errno Unit :=
  match updateFile srv.state fileName (restamp text user env.now) with
  | none => (srv, [], .error .ENOENT)
  | some (file, state) =>
    ({ srv with state := state, fs := ssStateSaveMeta srv.fs file env.metaOpened },
      notifyNmFileUpdate file, .ok ())

/-- Whether the current text is at hand, from the data file or as an empty copy. -/
def currentText (env : Env) (fs : Fs) (path : Text) : Option Text :=
  match loadText fs path env.dataLoad with
  | some text => some text
  | none => if env.dup then some [] else none

/-- `perform_undo`; the restored text comes with its counts. -/
def performUndo (env : Env) (srv : Server) (fileName user : Text) :
    Server × List Text × Except Errno Text :=
  match (ssStateFind srv.state fileName).1 with
  | none => (srv, [], .error .ENOENT)
  | some view =>
    if view.lockActive then (srv, [], .error .EBUSY)
    else
      match loadText srv.fs view.undoPath env.undoLoad with
      | none => (srv, [], .error .ENOENT)
      | some undoText =>
        match currentText env srv.fs view.dataPath with
        | none => (srv, [], .error env.errno)
        | some _ =>
          match storeTextAtomic srv.fs view.dataPath undoText env.dataStore with
          | (false, fs) => ({ srv with fs := fs }, [], .error env.errno)
          | (true, fs) =>
            let fs := if env.undoUnlinked then fs.unlink view.undoPath else fs
            let r := restampFile env { srv with fs := fs } fileName user undoText
            (r.1, r.2.1, r.2.2.map fun () => undoText)

/-- `build_checkpoint_path` with `ensure_checkpoint_dir`. -/
def buildCheckpointPath (env : Env) (state : SsState) (fileName tag : Text) : Except Errno Text :=
  let dir := state.checkpointsDir ++ '/' :: fileName
  if dir.length ≥ 512 then .error .ENAMETOOLONG
  else if !env.checkpointDir then .error env.errno
  else
    let path := dir ++ '/' :: tag
    if path.length ≥ 512 then .error .ENAMETOOLONG else .ok path

/-- `ss_create_checkpoint`. -/
def ssCreateCheckpoint (env : Env) (srv : Server) (fileName tag : Text) :
    Server × Except Errno Unit :=
  if !validFilename tag then (srv, .error .EINVAL)
  else
    match (ssStateFind srv.state fileName).1 with
    | none => (srv, .error env.errno)
    | some view =>
      match currentText env srv.fs view.dataPath with
      | none => (srv, .error .other)
      | some content =>
        match buildCheckpointPath env srv.state fileName tag with
        | .error e => (srv, .error e)
        | .ok path =>
          match storeTextAtomic srv.fs path content env.checkpointStore with
          | (false, fs) => ({ srv with fs := fs }, .error env.errno)
          | (true, fs) => ({ srv with fs := fs }, .ok ())

/-- `ss_read_checkpoint`. -/
def ssReadCheckpoint (env : Env) (srv : Server) (fileName tag : Text) : Except Errno Text :=
  if !validFilename tag then .error .EINVAL
  else
    match buildCheckpointPath env srv.state fileName tag with
    | .error e => .error e
    | .ok path =>
      match loadText srv.fs path env.undoLoad with
      | none => .error .ENOENT
      | some content => .ok content

/-- `ss_revert_checkpoint`. -/
def ssRevertCheckpoint (env : Env) (srv : Server) (fileName tag user : Text) :
    Server × List Text × Except Errno Unit :=
  match ssReadCheckpoint env srv fileName tag with
  | .error e => (srv, [], .error e)
  | .ok checkpoint =>
    match (ssStateFind srv.state fileName).1 with
    | none => (srv, [], .error env.errno)
    | some view =>
      if view.lockActive then (srv, [], .error .EBUSY)
      else
        match currentText env srv.fs view.dataPath with
        | none => (srv, [], .error .other)
        | some current =>
          match storeTextAtomic srv.fs view.undoPath current env.undoStore with
          | (false, fs) => ({ srv with fs := fs }, [], .error env.errno)
          | (true, fs) =>
            match storeTextAtomic fs view.dataPath checkpoint env.dataStore with
            | (false, fs) => ({ srv with fs := fs }, [], .error env.errno)
            | (true, fs) => restampFile env { srv with fs := fs } fileName user checkpoint

/-! ## The commands -/

/-- `NM_CREATE`. -/
def handleNmCreate (env : Env) (srv : Server) (json : Text) : Server × List Text :=
  match jsonGetString json (Text.lit "file") SS_NAME_MAX,
    jsonGetString json (Text.lit "owner") SS_USER_MAX with
  | some name, some owner =>
    if !validFilename name then (srv, sendErrorResponse .BADREQ (Text.lit "invalid create"))
    else
      match ssStateAdd srv.state srv.fs name owner env.add with
      | (false, state, fs) =>
        ({ srv with state := state, fs := fs }, sendErrorResponse .EXISTS env.strerror.text)
      | (true, state, fs) => ({ srv with state := state, fs := fs }, sendOk (opField "CREATE"))
  | _, _ => (srv, sendErrorResponse .BADREQ (Text.lit "invalid create"))

/-- `NM_DELETE`. -/
def handleNmDelete (srv : Server) (json : Text) : Server × List Text :=
  match jsonGetString json (Text.lit "file") SS_NAME_MAX with
  | some name =>
    if !validFilename name then (srv, sendErrorResponse .BADREQ (Text.lit "invalid delete"))
    else
      match (ssStateFind srv.state name).1 with
      | none => (srv, sendErrorResponse .NOTFOUND (Text.lit "file missing"))
      | some file =>
        if file.lockActive then
          (srv, sendErrorResponse .LOCKED (Text.lit "file locked for write"))
        else
          match ssStateRemove srv.state srv.fs name with
          | none => (srv, sendErrorResponse .INTERNAL (Text.lit "delete failed"))
          | some (state, fs) =>
            ({ srv with state := state, fs := fs }, sendOk (opField "DELETE"))
  | none => (srv, sendErrorResponse .BADREQ (Text.lit "invalid delete"))

/-- `handle_nm_ticket_command`. -/
def handleNmTicketCommand (env : Env) (srv : Server) (json : Text) : Server × List Text :=
  match jsonGetString json (Text.lit "token") MAX_TOKEN_LEN,
    jsonGetString json (Text.lit "file") SS_NAME_MAX,
    jsonGetString json (Text.lit "user") SS_USER_MAX,
    jsonGetString json (Text.lit "op") 16, jsonGetInt json (Text.lit "expiry") with
  | some token, some file, some user, some op, some expiry =>
    if !env.ticketPushed then (srv, sendErrorResponse .INTERNAL (Text.lit "ticket failed"))
    else
      ({ srv with tickets := srv.tickets ++ [⟨token, file, user, op, expiry⟩] },
        sendOk (opField "TICKET"))
  | _, _, _, _, _ => (srv, sendErrorResponse .BADREQ (Text.lit "invalid ticket"))

/-- The fields of the reply to an undo. -/
def undoExtra (text : Text) : Text :=
  printFields
    [(Text.lit "op", .string (Text.lit "UNDO")),
      (Text.lit "words", .number (printNat (countWords text))),
      (Text.lit "chars", .number (printNat text.length)),
      (Text.lit "content", .string (jsonEscape text))]

/-- `NM_UNDO`. -/
def handleNmUndo (env : Env) (srv : Server) (json : Text) : Server × List Text :=
  match jsonGetString json (Text.lit "file") SS_NAME_MAX,
    jsonGetString json (Text.lit "user") SS_USER_MAX with
  | some fileName, some user =>
    match performUndo env srv fileName user with
    | (srv, frames, .error e) =>
      if e = .EBUSY then
        (srv, frames ++ sendErrorResponse .LOCKED (Text.lit "file locked for write"))
      else (srv, frames ++ sendErrorResponse .CONFLICT (Text.lit "undo not possible"))
    | (srv, frames, .ok text) =>
      if env.escaped then
        if (undoExtra text).length < MAX_JSON then (srv, frames ++ sendOk (undoExtra text))
        else (srv, frames ++ sendOk (opField "UNDO"))
      else (srv, frames ++ sendOk (opField "UNDO"))
  | _, _ => (srv, sendErrorResponse .BADREQ (Text.lit "invalid undo"))

/-- `respond_checkpoint_error`. -/
def respondCheckpointError (err : Errno) (msg : Text) : List Text :=
  let code : ErrorCode :=
    match err with
    | .ENOENT => .NOTFOUND
    | .EINVAL | .ENAMETOOLONG => .BADREQ
    | _ => .INTERNAL
  sendErrorResponse code msg

/-- The three fields of a checkpoint command. -/
def checkpointArgs (json : Text) : Option (Text × Text × Text) :=
  (jsonGetString json (Text.lit "file") SS_NAME_MAX).bind fun fileName =>
    (jsonGetString json (Text.lit "tag") SS_NAME_MAX).bind fun tag =>
      (jsonGetString json (Text.lit "user") SS_USER_MAX).map fun user => (fileName, tag, user)

/-- `NM_CHECKPOINT_CREATE`. -/
def handleNmCheckpointCreate (env : Env) (srv : Server) (json : Text) : Server × List Text :=
  match checkpointArgs json with
  | none => (srv, sendErrorResponse .BADREQ (Text.lit "invalid checkpoint"))
  | some (fileName, tag, _) =>
    if !validFilename tag then (srv, sendErrorResponse .BADREQ (Text.lit "invalid tag"))
    else
      match ssCreateCheckpoint env srv fileName tag with
      | (srv, .error e) => (srv, respondCheckpointError e (Text.lit "checkpoint create failed"))
      | (srv, .ok ()) => (srv, sendOk (opField "CHECKPOINT"))

/-- The field of the reply that shows a checkpoint. -/
def viewExtra (content : Text) : Text :=
  printFields [(Text.lit "content", .string (jsonEscape content))]

/-- `NM_CHECKPOINT_VIEW`. -/
def handleNmCheckpointView (env : Env) (srv : Server) (json : Text) : Server × List Text :=
  match checkpointArgs json with
  | none => (srv, sendErrorResponse .BADREQ (Text.lit "invalid checkpoint"))
  | some (fileName, tag, _) =>
    if !validFilename tag then (srv, sendErrorResponse .BADREQ (Text.lit "invalid tag"))
    else
      match ssReadCheckpoint env srv fileName tag with
      | .error e => (srv, respondCheckpointError e (Text.lit "checkpoint missing"))
      | .ok content =>
        if !env.escaped then (srv, sendErrorResponse .INTERNAL (Text.lit "encoding error"))
        else if (viewExtra content).length ≥ MAX_JSON then
          (srv, sendErrorResponse .INTERNAL (Text.lit "response too large"))
        else (srv, sendOk (viewExtra content))

/-- `NM_CHECKPOINT_REVERT`. -/
def handleNmCheckpointRevert (env : Env) (srv : Server) (json : Text) : Server × List Text :=
  match checkpointArgs json with
  | none => (srv, sendErrorResponse .BADREQ (Text.lit "invalid checkpoint"))
  | some (fileName, tag, user) =>
    if !validFilename tag then (srv, sendErrorResponse .BADREQ (Text.lit "invalid tag"))
    else
      match ssRevertCheckpoint env srv fileName tag user with
      | (srv, frames, .error e) =>
        if e = .EBUSY then
          (srv, frames ++ sendErrorResponse .LOCKED (Text.lit "file locked for write"))
        else (srv, frames ++ respondCheckpointError e (Text.lit "checkpoint revert failed"))
      | (srv, frames, .ok ()) => (srv, frames ++ sendOk (opField "REVERT"))

/-- `handle_nm_sync` from the lookup of the file on: a file that is not there is added first. -/
def syncTarget (env : Env) (srv : Server) (fileName owner : Text) : Server × Option SsFile :=
  match (ssStateFind srv.state fileName).1 with
  | some view => (srv, some view)
  | none =>
    match ssStateAdd srv.state srv.fs fileName owner env.add with
    | (false, state, fs) => ({ srv with state := state, fs := fs }, none)
    | (true, state, fs) => ({ srv with state := state, fs := fs }, (ssStateFind state fileName).1)

/-- `handle_nm_sync` after its fields: the backup takes over the text fetched from the primary. -/
def syncFile (env : Env) (srv : Server) (fileName owner content : Text) : Server × List Text :=
  let failed := sendErrorResponse .INTERNAL (Text.lit "sync failed")
  match syncTarget env srv fileName owner with
  | (srv, none) => (srv, failed)
  | (srv, some view) =>
    match currentText env srv.fs view.dataPath with
    | none => (srv, failed)
    | some existing =>
      match storeTextAtomic srv.fs view.undoPath existing env.undoStore with
      | (false, fs) => ({ srv with fs := fs }, failed)
      | (true, fs) =>
        match storeTextAtomic fs view.dataPath content env.dataStore with
        | (false, fs) => ({ srv with fs := fs }, failed)
        | (true, fs) =>
          let count (file : SsFile) : SsFile :=
            { file with charCount := content.length, wordCount := countWords content }
          match updateFile srv.state fileName count with
          | none => ({ srv with fs := fs }, failed)
          | some (file, state) =>
            ({ srv with state := state, fs := ssStateSaveMeta fs file env.metaOpened },
              sendOk (opField "SYNC"))

/-- `handle_nm_sync`. -/
def handleNmSync (env : Env) (srv : Server) (json : Text) : Server × List Text :=
  match jsonGetString json (Text.lit "file") SS_NAME_MAX,
    jsonGetString json (Text.lit "owner") SS_USER_MAX,
    jsonGetString json (Text.lit "sourceHost") 64, jsonGetString json (Text.lit "sourcePort") 16,
    jsonGetString json (Text.lit "ticket") MAX_TOKEN_LEN with
  | some fileName, some owner, some _, some _, some _ =>
    match env.fetched with
    | none => (srv, sendErrorResponse .INTERNAL (Text.lit "sync failed"))
    | some content => syncFile env srv fileName owner content
  | _, _, _, _, _ => (srv, sendErrorResponse .BADREQ (Text.lit "invalid sync"))

/-- `process_nm_command` on the frame it received. -/
def processNmCommand (env : Env) (srv : Server) (json : Text) : Server × List Text :=
  match jsonGetString json (Text.lit "type") 64 with
  | none => (srv, sendErrorResponse .BADREQ (Text.lit "missing type"))
  | some type =>
    if type = Text.lit "NM_CREATE" then handleNmCreate env srv json
    else if type = Text.lit "NM_DELETE" then handleNmDelete srv json
    else if type = Text.lit "NM_TICKET" then handleNmTicketCommand env srv json
    else if type = Text.lit "NM_UNDO" then handleNmUndo env srv json
    else if type = Text.lit "NM_CHECKPOINT_CREATE" then handleNmCheckpointCreate env srv json
    else if type = Text.lit "NM_CHECKPOINT_VIEW" then handleNmCheckpointView env srv json
    else if type = Text.lit "NM_CHECKPOINT_REVERT" then handleNmCheckpointRevert env srv json
    else if type = Text.lit "NM_SYNC" then handleNmSync env srv json
    else if type = Text.lit "PING" then (srv, sendOk (opField "PING"))
    else (srv, sendErrorResponse .BADREQ (Text.lit "unknown command"))

/-! ## Replies -/

/-- What the peer thread of the name manager takes for the reply of its command. -/
def isReply (frame : Text) : Bool := (jsonGetString frame (Text.lit "type") 64).isNone

def replies (frames : List Text) : List Text := frames.filter isReply

theorem isKey_type : IsKey (Text.lit "type") := by decide
theorem isKey_op : IsKey (Text.lit "op") := by decide
theorem isKey_content : IsKey (Text.lit "content") := by decide

theorem isReply_printMessage {fs : List Field} (hfs : WellFormed fs)
    (hno : NoString (Text.lit "type") fs) : isReply (printMessage fs) = true := by
  simp [isReply, jsonGetString_printMessage_eq_none isKey_type hfs hno]

/-- A frame whose first field is a short type is not a reply. -/
theorem isReply_typed {t : Text} (ht : Plain t) (hlen : t.length < 64) (fs : List Field) :
    isReply (printMessage ((Text.lit "type", .string t) :: fs)) = false := by
  have hnil : WellFormed [] := by simp [WellFormed]
  obtain ⟨rest, h⟩ :=
    exists_jsonGetString isKey_type (by decide) (n := 64) (by decide) hnil noString_nil t fs
  rw [List.nil_append] at h
  rw [isReply, h, scanString_plain ht (by omega)]
  rfl

theorem replies_notify (file : SsFile) : replies (notifyNmFileUpdate file) = [] := by
  have htyped (name owner last : Text) :
      isReply (printMessage (fileUpdateFields file name owner last)) = false :=
    isReply_typed (by decide) (by decide) _
  unfold notifyNmFileUpdate
  split
  · simp only
    split
    · rfl
    · simp [replies, htyped]
  · rfl

theorem replies_append (a b : List Text) : replies (a ++ b) = replies a ++ replies b :=
  List.filter_append ..

/-- The command was answered by one frame. -/
def Answered (frames : List Text) : Prop := (replies frames).length = 1

theorem answered_singleton {fs : List Field} (hfs : WellFormed fs)
    (hno : NoString (Text.lit "type") fs) : Answered [printMessage fs] := by
  simp [Answered, replies, isReply_printMessage hfs hno]

/-- Every error is answered: its message is short and needs no escaping. -/
theorem answered_error (code : ErrorCode) {message : Text} (hp : Plain message)
    (hlen : message.length < 128) : Answered (sendErrorResponse code message) := by
  obtain ⟨hcode, hcodelen⟩ := errorCodeName_plain code
  have hfs : WellFormed (errorFields code message) := by
    have hk : IsKey (Text.lit "code") ∧ IsKey (Text.lit "message") := by decide
    refine wellFormed_cons.2 ⟨by decide, wellFormed_cons.2 ⟨⟨hk.1, hcode.escaped.1⟩,
      wellFormed_cons.2 ⟨⟨hk.2, hp.escaped.1⟩, by simp [WellFormed]⟩⟩⟩
  have hno : NoString (Text.lit "type") (errorFields code message) := by
    simp [NoString, errorFields, Text.lit]
  have hshort : ¬ (printMessage (errorFields code message)).length ≥ MAX_JSON := by
    simp [printMessage, printFields, errorFields, printField, Value.print, Text.lit, MAX_JSON,
      List.intercalate_cons_cons]
    omega
  simp only [sendErrorResponse, if_neg hshort]
  exact answered_singleton hfs hno

/-- `send_ok` adds sixteen characters to the fields it is given. -/
theorem sendOk_printFields {fs : List Field} (hne : fs ≠ []) :
    sendOk (printFields fs) =
      if (printFields fs).length + 16 < MAX_JSON then
        [printMessage ((Text.lit "status", .string (Text.lit "OK")) :: fs)]
      else [] := by
  obtain ⟨f, fs, rfl⟩ := List.exists_cons_of_ne_nil hne
  have hfields : (printFields (f :: fs)).isEmpty = false := by
    cases fs with
    | nil => simp [printFields, printField]
    | cons g fs => simp [printFields_cons_cons, printField]
  have hbuf : Text.lit "\x7b\"status\":\"OK\"," ++ printFields (f :: fs) ++ Text.lit "\x7d" =
      printMessage ((Text.lit "status", .string (Text.lit "OK")) :: f :: fs) := by
    simp [printMessage, printFields_cons_cons, printField, Value.print, Text.lit]
  have hlen : (printMessage ((Text.lit "status", .string (Text.lit "OK")) :: f :: fs)).length =
      (printFields (f :: fs)).length + 16 := by
    rw [← hbuf]
    simp [Text.lit]
  simp only [sendOk, hfields, Bool.false_eq_true, if_false, hbuf, hlen]
  by_cases h : (printFields (f :: fs)).length + 16 < MAX_JSON
  · rw [if_neg (by omega), if_pos h]
  · rw [if_pos (by omega), if_neg h]

theorem answered_sendOk {fs : List Field} (hne : fs ≠ []) (hfs : WellFormed fs)
    (hno : NoString (Text.lit "type") fs) :
    Answered (sendOk (printFields fs)) ↔ (printFields fs).length + 16 < MAX_JSON := by
  have hfs' : WellFormed ((Text.lit "status", .string (Text.lit "OK")) :: fs) :=
    wellFormed_cons.2 ⟨by decide, hfs⟩
  have hno' : NoString (Text.lit "type") ((Text.lit "status", .string (Text.lit "OK")) :: fs) :=
    noString_cons.2 ⟨by simp [Text.lit], hno⟩
  rw [sendOk_printFields hne]
  split
  · next h => exact iff_of_true (answered_singleton hfs' hno') h
  · next h => exact iff_of_false (by simp [Answered, replies]) h

/-- A reply that names its operation only is short enough. -/
theorem answered_op {op : String} (hp : Plain (Text.lit op)) (hlen : (Text.lit op).length < 128) :
    Answered (sendOk (opField op)) := by
  have hfs : WellFormed [(Text.lit "op", .string (Text.lit op))] :=
    wellFormed_cons.2 ⟨⟨isKey_op, hp.escaped.1⟩, by simp [WellFormed]⟩
  have hno : NoString (Text.lit "type") [(Text.lit "op", .string (Text.lit op))] :=
    noString_cons.2 ⟨by simp [Text.lit], noString_nil⟩
  refine (answered_sendOk (by simp) hfs hno).2 ?_
  simp [printFields, printField, Value.print, MAX_JSON, Text.lit] at hlen ⊢
  omega

theorem answered_undoExtra (text : Text) :
    Answered (sendOk (undoExtra text)) ↔ (undoExtra text).length + 16 < MAX_JSON := by
  refine answered_sendOk (by simp) ?_ ?_
  · have hk : IsKey (Text.lit "words") ∧ IsKey (Text.lit "chars") := by decide
    exact wellFormed_cons.2 ⟨by decide, wellFormed_cons.2 ⟨⟨hk.1, quote_not_mem_printNat _⟩,
      wellFormed_cons.2 ⟨⟨hk.2, quote_not_mem_printNat _⟩,
        wellFormed_cons.2 ⟨⟨isKey_content, (escaped_jsonEscape text).1⟩, by simp [WellFormed]⟩⟩⟩⟩
  · simp [NoString, Text.lit]

theorem answered_viewExtra (content : Text) :
    Answered (sendOk (viewExtra content)) ↔ (viewExtra content).length + 16 < MAX_JSON := by
  refine answered_sendOk (by simp) ?_ (by simp [NoString, Text.lit])
  exact wellFormed_cons.2 ⟨⟨isKey_content, (escaped_jsonEscape content).1⟩, by simp [WellFormed]⟩

/-! ## One handler at a time -/

/-- A handler that ends in an error reply has answered. -/
theorem refused (srv : Server) (code : ErrorCode) {message : Text} (hp : Plain message)
    (hlen : message.length < 128) : Answered (srv, sendErrorResponse code message).2 :=
  answered_error code hp hlen

/-- A handler that ends in a reply that names its operation has answered. -/
theorem acknowledged (srv : Server) {op : String} (hp : Plain (Text.lit op))
    (hlen : (Text.lit op).length < 128) : Answered (srv, sendOk (opField op)).2 :=
  answered_op hp hlen

section Handlers

variable (env : Env) (srv : Server) (json : Text)

theorem answered_create : Answered (handleNmCreate env srv json).2 := by
  unfold handleNmCreate
  split
  · split
    · exact refused _ _ (by decide) (by decide)
    · split
      · exact refused _ _ env.strerror.plain env.strerror.short
      · exact acknowledged _ (by decide) (by decide)
  · exact refused _ _ (by decide) (by decide)

theorem answered_delete : Answered (handleNmDelete srv json).2 := by
  unfold handleNmDelete
  split
  · split
    · exact refused _ _ (by decide) (by decide)
    · split
      · exact refused _ _ (by decide) (by decide)
      · split
        · exact refused _ _ (by decide) (by decide)
        · split
          · exact refused _ _ (by decide) (by decide)
          · exact acknowledged _ (by decide) (by decide)
  · exact refused _ _ (by decide) (by decide)

theorem answered_ticket : Answered (handleNmTicketCommand env srv json).2 := by
  unfold handleNmTicketCommand
  split
  · split
    · exact refused _ _ (by decide) (by decide)
    · exact acknowledged _ (by decide) (by decide)
  · exact refused _ _ (by decide) (by decide)

theorem answered_checkpointCreate : Answered (handleNmCheckpointCreate env srv json).2 := by
  unfold handleNmCheckpointCreate
  split
  · exact refused _ _ (by decide) (by decide)
  · split
    · exact refused _ _ (by decide) (by decide)
    · split
      · exact refused _ _ (by decide) (by decide)
      · exact acknowledged _ (by decide) (by decide)

/-- The only frames of a restore are notices. -/
theorem restampFile_frames (fileName user text : Text) :
    replies (restampFile env srv fileName user text).2.1 = [] := by
  unfold restampFile
  split
  · rfl
  · exact replies_notify _

theorem performUndo_frames (fileName user : Text) :
    replies (performUndo env srv fileName user).2.1 = [] := by
  unfold performUndo
  split
  · rfl
  split
  · rfl
  split
  · rfl
  split
  · rfl
  split
  · rfl
  · exact restampFile_frames ..

theorem ssRevertCheckpoint_frames (fileName tag user : Text) :
    replies (ssRevertCheckpoint env srv fileName tag user).2.1 = [] := by
  unfold ssRevertCheckpoint
  split
  · rfl
  split
  · rfl
  split
  · rfl
  split
  · rfl
  split
  · rfl
  split
  · rfl
  · exact restampFile_frames ..

/-- Notices before a reply change nothing. -/
theorem answered_append {frames : List Text} (h : replies frames = []) (frames' : List Text) :
    Answered (frames ++ frames') ↔ Answered frames' := by
  simp [Answered, replies_append, h]

theorem answered_checkpointRevert : Answered (handleNmCheckpointRevert env srv json).2 := by
  unfold handleNmCheckpointRevert
  split
  · exact refused _ _ (by decide) (by decide)
  · next fileName tag user _ =>
    split
    · exact refused _ _ (by decide) (by decide)
    · have hframes := ssRevertCheckpoint_frames env srv fileName tag user
      split
      · next heq =>
        rw [heq] at hframes
        split <;> dsimp only <;> rw [answered_append hframes]
        · exact answered_error _ (by decide) (by decide)
        · exact answered_error _ (by decide) (by decide)
      · next heq =>
        rw [heq] at hframes
        dsimp only
        rw [answered_append hframes]
        exact answered_op (by decide) (by decide)

theorem answered_sync : Answered (handleNmSync env srv json).2 := by
  have hfile (fileName owner content : Text) :
      Answered (syncFile env srv fileName owner content).2 := by
    unfold syncFile
    dsimp only
    split
    · exact refused _ _ (by decide) (by decide)
    split
    · exact refused _ _ (by decide) (by decide)
    split
    · exact refused _ _ (by decide) (by decide)
    split
    · exact refused _ _ (by decide) (by decide)
    split
    · exact refused _ _ (by decide) (by decide)
    · exact acknowledged _ (by decide) (by decide)
  unfold handleNmSync
  split
  · split
    · exact refused _ _ (by decide) (by decide)
    · exact hfile ..
  · exact refused _ _ (by decide) (by decide)

end Handlers

/-! ## Which replies are lost -/

/-- The text an undo of the file restores, where it goes through. -/
def restorable (env : Env) (srv : Server) (fileName : Text) : Option Text :=
  match (ssStateFind srv.state fileName).1 with
  | none => none
  | some view =>
    if view.lockActive then none
    else
      match loadText srv.fs view.undoPath env.undoLoad with
      | none => none
      | some text =>
        if (currentText env srv.fs view.dataPath).isSome ∧ env.dataStore = .done then some text
        else none

/-- The fields fit the buffer they are printed in but not the one of `send_ok`. -/
def Overfull (extra : Text) : Prop := extra.length < MAX_JSON ∧ MAX_JSON ≤ extra.length + 16

/-- The two commands whose reply is lost: an undo that goes through and a view of a stored checkpoint,
with a content that fills the buffer of the reply. -/
def ReplyLost (env : Env) (srv : Server) (json : Text) : Prop :=
  (jsonGetString json (Text.lit "type") 64 = some (Text.lit "NM_UNDO") ∧
    ∃ fileName user text, jsonGetString json (Text.lit "file") SS_NAME_MAX = some fileName ∧
      jsonGetString json (Text.lit "user") SS_USER_MAX = some user ∧
      restorable env srv fileName = some text ∧ env.escaped ∧ Overfull (undoExtra text)) ∨
  (jsonGetString json (Text.lit "type") 64 = some (Text.lit "NM_CHECKPOINT_VIEW") ∧
    ∃ fileName tag user content, checkpointArgs json = some (fileName, tag, user) ∧
      ssReadCheckpoint env srv fileName tag = .ok content ∧ env.escaped ∧
      Overfull (viewExtra content))

theorem storeTextAtomic_fst (fs : Fs) (path content : Text) (o : StoreOutcome) :
    (storeTextAtomic fs path content o).1 = true ↔ o = .done := by
  cases o <;> simp [storeTextAtomic]

theorem restampFile_ok (env : Env) (srv : Server) {fileName : Text} {view : SsFile}
    (h : (ssStateFind srv.state fileName).1 = some view) (user text : Text) :
    (restampFile env srv fileName user text).2.2 = .ok () := by
  unfold restampFile updateFile
  cases hf : ssStateFind srv.state fileName with
  | mk found idx =>
    obtain rfl : found = some view := by rw [← h, hf]
    rfl

theorem performUndo_ok_iff (env : Env) (srv : Server) (fileName user text : Text) :
    (performUndo env srv fileName user).2.2 = .ok text ↔ restorable env srv fileName = some text := by
  unfold performUndo restorable
  split
  · simp
  · next view hview =>
    split
    · simp
    split
    · simp
    · next undoText _ =>
      split
      · next hcur => simp [hcur]
      · next hcur =>
        have hstore := storeTextAtomic_fst srv.fs view.dataPath undoText env.dataStore
        split
        · next heq =>
          rw [heq] at hstore
          simp [hcur, ← hstore]
        · next fs heq =>
          rw [heq] at hstore
          have hok := restampFile_ok env
            { srv with fs := if env.undoUnlinked then fs.unlink view.undoPath else fs }
            hview user undoText
          simp [hcur, ← hstore, hok, Except.map]

theorem answered_undo_iff (env : Env) (srv : Server) (json : Text) :
    Answered (handleNmUndo env srv json).2 ↔
      ¬ ∃ fileName user text, jsonGetString json (Text.lit "file") SS_NAME_MAX = some fileName ∧
        jsonGetString json (Text.lit "user") SS_USER_MAX = some user ∧
        restorable env srv fileName = some text ∧ env.escaped ∧ Overfull (undoExtra text) := by
  unfold handleNmUndo
  split
  · next fileName user hfile huser =>
    have hframes := performUndo_frames env srv fileName user
    have hok := performUndo_ok_iff env srv fileName user
    rw [hfile, huser]
    split
    · -- no text is restored
      next heq =>
      rw [heq] at hframes hok
      have hnone : ∀ text, restorable env srv fileName ≠ some text :=
        fun text h => by simpa using (hok text).2 h
      refine iff_of_true ?_ ?_
      · split <;> dsimp only <;> rw [answered_append hframes]
        · exact answered_error _ (by decide) (by decide)
        · exact answered_error _ (by decide) (by decide)
      · rintro ⟨_, _, text, ⟨⟩, ⟨⟩, h, -⟩
        exact hnone text h
    · next text heq =>
      rw [heq] at hframes hok
      have hsome : restorable env srv fileName = some text := (hok text).1 rfl
      by_cases hesc : env.escaped
      · rw [if_pos hesc]
        by_cases hlen : (undoExtra text).length < MAX_JSON
        · rw [if_pos hlen]
          dsimp only
          rw [answered_append hframes, answered_undoExtra]
          constructor
          · rintro hshort ⟨_, _, text', ⟨⟩, ⟨⟩, h, -, -, hover⟩
            obtain rfl : text = text' := Option.some.inj (hsome.symm.trans h)
            omega
          · intro h
            by_contra hover
            exact h ⟨fileName, user, text, rfl, rfl, hsome, hesc, hlen, by omega⟩
        · rw [if_neg hlen]
          refine iff_of_true ?_ ?_
          · dsimp only
            rw [answered_append hframes]
            exact answered_op (by decide) (by decide)
          · rintro ⟨_, _, text', ⟨⟩, ⟨⟩, h, -, hshort, -⟩
            obtain rfl : text = text' := Option.some.inj (hsome.symm.trans h)
            exact hlen hshort
      · rw [if_neg hesc]
        refine iff_of_true ?_ (fun ⟨_, _, _, _, _, _, h, _⟩ => hesc h)
        dsimp only
        rw [answered_append hframes]
        exact answered_op (by decide) (by decide)
  · next hfail =>
    refine iff_of_true (refused _ _ (by decide) (by decide)) ?_
    rintro ⟨fileName, user, _, hfile, huser, -⟩
    exact hfail fileName user hfile huser

theorem answered_view_iff (env : Env) (srv : Server) (json : Text) :
    Answered (handleNmCheckpointView env srv json).2 ↔
      ¬ ∃ fileName tag user content, checkpointArgs json = some (fileName, tag, user) ∧
        ssReadCheckpoint env srv fileName tag = .ok content ∧ env.escaped ∧
        Overfull (viewExtra content) := by
  unfold handleNmCheckpointView
  split
  · next hargs =>
    refine iff_of_true (refused _ _ (by decide) (by decide)) ?_
    rintro ⟨_, _, _, _, h, -⟩
    simp [hargs] at h
  · next fileName tag user hargs =>
    rw [hargs]
    split
    · next hvalid =>
      refine iff_of_true (refused _ _ (by decide) (by decide)) ?_
      rintro ⟨_, _, _, _, ⟨⟩, h, -⟩
      simp [ssReadCheckpoint, hvalid] at h
    · split
      · next heq =>
        refine iff_of_true (refused _ _ (by decide) (by decide)) ?_
        rintro ⟨_, _, _, _, ⟨⟩, h, -⟩
        simp [heq] at h
      · next content heq =>
        split
        · next hesc =>
          refine iff_of_true (refused _ _ (by decide) (by decide)) ?_
          rintro ⟨_, _, _, _, -, -, h, -⟩
          simp [h] at hesc
        · next hesc =>
          split
          · next hlen =>
            refine iff_of_true (refused _ _ (by decide) (by decide)) ?_
            rintro ⟨_, _, _, content', ⟨⟩, h, -, hshort, -⟩
            rw [heq] at h
            cases h
            omega
          · next hlen =>
            dsimp only
            rw [answered_viewExtra]
            constructor
            · rintro hshort ⟨_, _, _, content', ⟨⟩, h, -, -, hover⟩
              rw [heq] at h
              cases h
              omega
            · intro h
              by_contra hover
              exact h ⟨fileName, tag, user, content, rfl, heq, by simpa using hesc,
                by omega, by omega⟩

theorem answered_processNmCommand_iff (env : Env) (srv : Server) (json : Text) :
    Answered (processNmCommand env srv json).2 ↔ ¬ ReplyLost env srv json := by
  unfold processNmCommand ReplyLost
  split
  · next htype =>
    refine iff_of_true (refused _ _ (by decide) (by decide)) ?_
    simp [htype]
  · next type htype =>
    rw [htype]
    -- only two of the commands have a reply that can be lost
    have hother {P Q : Prop} (h : type ≠ Text.lit "NM_UNDO" ∧ type ≠ Text.lit "NM_CHECKPOINT_VIEW") :
        ¬ (some type = some (Text.lit "NM_UNDO") ∧ P ∨
          some type = some (Text.lit "NM_CHECKPOINT_VIEW") ∧ Q) := by
      simp [h.1, h.2]
    split_ifs with h1 h2 h3 h4 h5 h6 h7 h8 h9
    · exact iff_of_true (answered_create ..) (hother (by rw [h1]; decide))
    · exact iff_of_true (answered_delete ..) (hother (by rw [h2]; decide))
    · exact iff_of_true (answered_ticket ..) (hother (by rw [h3]; decide))
    · have hview : type ≠ Text.lit "NM_CHECKPOINT_VIEW" := by rw [h4]; decide
      rw [answered_undo_iff]
      refine not_congr ⟨fun h => .inl ⟨by rw [h4], h⟩, ?_⟩
      rintro (⟨-, h⟩ | ⟨h, -⟩)
      · exact h
      · exact absurd (Option.some.inj h) hview
    · exact iff_of_true (answered_checkpointCreate ..) (hother (by rw [h5]; decide))
    · rw [answered_view_iff]
      refine not_congr ⟨fun h => .inr ⟨by rw [h6], h⟩, ?_⟩
      rintro (⟨h, -⟩ | ⟨-, h⟩)
      · exact absurd (Option.some.inj h) h4
      · exact h
    · exact iff_of_true (answered_checkpointRevert ..) (hother (by rw [h7]; decide))
    · exact iff_of_true (answered_sync ..) (hother (by rw [h8]; decide))
    · exact iff_of_true (acknowledged _ (by decide) (by decide)) (hother ⟨h4, h6⟩)
    · exact iff_of_true (refused _ _ (by decide) (by decide)) (hother ⟨h4, h6⟩)

/-- **Every command is answered by exactly one reply, unless the reply is lost.** -/
theorem reply_iff (env : Env) (srv : Server) (json : Text) :
    Answered (processNmCommand env srv json).2 ↔ ¬ ReplyLost env srv json :=
  answered_processNmCommand_iff env srv json

theorem length_viewExtra_letters (n : Nat) :
    (viewExtra (List.replicate n 'a')).length = n + 12 := by
  have hesc : jsonEscape (List.replicate n 'a') = List.replicate n 'a' := by
    induction n with
    | zero => rfl
    | succ n ih => rw [List.replicate_succ, jsonEscape_cons, ih]; rfl
  simp [viewExtra, printFields, printField, Value.print, Text.lit, hesc]

/-- A checkpoint of 4070 letters is viewed, and nothing is sent at all. -/
theorem view_reply_lost : ∃ srv json content,
    srv.fs (Text.lit "/s/checkpoints/f/t") = some content ∧ content.length = 4070 ∧
    json = Text.lit
      "\x7b\"type\":\"NM_CHECKPOINT_VIEW\",\"file\":\"f\",\"tag\":\"t\",\"user\":\"u\"\x7d" ∧
    (processNmCommand (.allOk 0) srv json).2 = [] ∧
    ¬ Answered (processNmCommand (.allOk 0) srv json).2 := by
  obtain ⟨content, hlen, hextra⟩ : ∃ content : Text,
      content.length = 4070 ∧ (viewExtra content).length = 4082 :=
    ⟨List.replicate 4070 'a', List.length_replicate, length_viewExtra_letters 4070⟩
  have hshort : ¬ (viewExtra content).length ≥ MAX_JSON := by rw [hextra]; decide
  have hsent : sendOk (viewExtra content) = [] := by
    rw [viewExtra] at hextra ⊢
    rw [sendOk_printFields (by simp), if_neg (by rw [hextra]; decide)]
  let srv : Server :=
    ⟨ssStateInit (Text.lit "/s"), fun _ => some content, []⟩
  let json := Text.lit
    "\x7b\"type\":\"NM_CHECKPOINT_VIEW\",\"file\":\"f\",\"tag\":\"t\",\"user\":\"u\"\x7d"
  have hargs : checkpointArgs json = some (Text.lit "f", Text.lit "t", Text.lit "u") := by decide
  have hread : ssReadCheckpoint (.allOk 0) srv (Text.lit "f") (Text.lit "t") = .ok content := rfl
  have hview : (processNmCommand (.allOk 0) srv json).2 = [] := by
    have htype : jsonGetString json (Text.lit "type") 64 = some (Text.lit "NM_CHECKPOINT_VIEW") := by
      decide
    have hvalid : validFilename (Text.lit "t") = true := by decide
    have hdispatch : processNmCommand (.allOk 0) srv json =
        handleNmCheckpointView (.allOk 0) srv json := by
      simp only [processNmCommand, htype]
      rw [if_neg (by decide), if_neg (by decide), if_neg (by decide), if_neg (by decide),
        if_neg (by decide), if_true]
    have hescaped : (Env.allOk 0).escaped = true := rfl
    rw [hdispatch]
    simp only [handleNmCheckpointView, hargs, hread, hvalid, hescaped, Bool.not_true,
      Bool.false_eq_true, if_false, if_neg hshort, hsent]
  exact ⟨srv, json, content, rfl, hlen, rfl, hview, by simp [hview, Answered, replies]⟩

end CoWrite.Ss
