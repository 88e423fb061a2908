import CoWrite.Ss.Command
import CoWrite.Ss.Session

/-!
# Clients of the storage server

A client connects with a ticket of the name manager to read, to stream or to write. A write keeps its
connection: it holds the lock of its sentence and the lock flag of its file until it commits, aborts or
goes away, and meanwhile the server serves others. `Host` is the server with the writes that are open;
`handleDataClient` is a new connection and `handleWriteFrame` the next frame of an open write.
-/

namespace CoWrite.Ss

/-- What the calls of one request answer, besides those a command makes too. -/
structure DataEnv extends Env where
  /-- The copy of the ticket in `ticket_table_take`. -/
  ticketCopied : Bool
  /-- `array_push` of the sentence lock. -/
  lockPushed : Bool
  /-- Every allocation of the session: its sentences, words and copies. -/
  allocated : Bool
  /-- `json_escape_dup` of the word with that index. -/
  wordEscaped : Nat → Bool
  /-- Whether the frame with that index reaches the client. -/
  sent : Nat → Bool

/-- Every call succeeds; the clock stands at `now`. -/
def DataEnv.allOk (now : Int) : DataEnv where
  toEnv := .allOk now
  ticketCopied := true
  lockPushed := true
  allocated := true
  wordEscaped _ := true
  sent _ := true

/-- The frames given to `net_send_json`, on the client's connection and on the name manager's. -/
structure Output where
  client : List Text
  nm : List Text

/-- `struct sentence_lock`. -/
structure SentenceLock where
  file : Text
  user : Text
  sentence : Int
deriving DecidableEq, Repr

/-- The locals of `handle_write` in its loop. -/
structure OpenWrite where
  file : Text
  user : Text
  sentence : Int
  view : SsFile
  session : WriteSession
deriving DecidableEq, Repr

/-- `struct ss_context`, and the open write of every connection. -/
structure Host where
  server : Server
  sentenceLocks : List SentenceLock
  writes : Nat → Option OpenWrite

def Host.setServer (host : Host) (server : Server) : Host := { host with server := server }

def Host.setWrite (host : Host) (client : Nat) (write : Option OpenWrite) : Host :=
  { host with writes := Function.update host.writes client write }

/-! ## Tickets -/

/-- The entries that `ticket_table_prune` removes. -/
def AuthTicket.expired (ticket : AuthTicket) (now : Int) : Bool :=
  ticket.expiry != 0 && ticket.expiry < now

/-- `ticket_table_prune`. -/
def ticketTablePrune (tickets : List AuthTicket) (now : Int) : List AuthTicket :=
  tickets.filter fun ticket => !ticket.expired now

/-- `ticket_table_take`: the entry that matches, and the table without it. -/
def ticketTableTake (env : DataEnv) (tickets : List AuthTicket) (token user file op : Text) :
    Option AuthTicket × List AuthTicket :=
  let tickets := ticketTablePrune tickets env.now
  let isMatch (t : AuthTicket) : Bool :=
    t.token == token && t.user == user && t.file == file && t.op == op
  match tickets.find? isMatch with
  | some ticket =>
    if env.ticketCopied then (some ticket, tickets.eraseP isMatch) else (none, tickets)
  | none => (none, tickets)

/-- `validate_ticket`. -/
def validateTicket (env : DataEnv) (srv : Server) (token user file op : Text) :
    Option AuthTicket × Server :=
  let (ticket, tickets) := ticketTableTake env srv.tickets token user file op
  (ticket, { srv with tickets := tickets })

/-! ## Reading -/

/-- The access time that a reader leaves in the entry, with the meta file and the notice. -/
def touchFile (env : DataEnv) (srv : Server) (fileName user : Text) :
    Server × List Text × Option SsFile :=
  let touch (file : SsFile) : SsFile :=
    { file with lastAccess := env.now, lastAccessUser := Text.copyTo SS_USER_MAX user }
  match updateFile srv.state fileName touch with
  | none => (srv, [], none)
  | some (file, state) =>
    ({ srv with state := state, fs := ssStateSaveMeta srv.fs file env.metaOpened },
      notifyNmFileUpdate file, some file)

/-- The fields of the reply to a read; the name is printed as it is. -/
def readExtra (name content : Text) (words chars : Nat) : Text :=
  printFields
    [(Text.lit "file", .string name),
      (Text.lit "content", .string (jsonEscape content)),
      (Text.lit "words", .number (printNat words)),
      (Text.lit "chars", .number (printNat chars))]

/-- `handle_read`. -/
def handleRead (env : DataEnv) (srv : Server) (fileName user : Text) : Server × Output :=
  match (ssStateFind srv.state fileName).1 with
  | none => (srv, ⟨sendErrorResponse .NOTFOUND (Text.lit "file not found"), []⟩)
  | some view =>
    match currentText env.toEnv srv.fs view.dataPath with
    | none => (srv, ⟨sendErrorResponse .INTERNAL (Text.lit "read failed"), []⟩)
    | some text =>
      if !env.escaped then (srv, ⟨sendErrorResponse .INTERNAL (Text.lit "encode failed"), []⟩)
      else
        let (srv, notices, touched) := touchFile env srv fileName user
        let file := touched.getD view
        let extra := readExtra view.name text file.wordCount file.charCount
        if extra.length ≥ MAX_JSON then
          (srv, ⟨sendErrorResponse .INTERNAL (Text.lit "response too large"), notices⟩)
        else (srv, ⟨sendOk extra, notices⟩)

/-- The frame of one streamed word. -/
def streamFrame (word : Text) : Text :=
  printMessage [(Text.lit "status", .string (Text.lit "DATA")),
    (Text.lit "word", .string (jsonEscape word))]

/-- The loop of `handle_stream` from word `i` on, after `n` frames. -/
def streamWords (env : DataEnv) : Nat → Nat → List Text → List Text
  | _, _, [] => []
  | n, i, word :: words =>
    if !env.wordEscaped i then streamWords env n (i + 1) words
    else if (streamFrame word).length ≥ 1024 then streamWords env n (i + 1) words
    else streamFrame word :: if env.sent n then streamWords env (n + 1) (i + 1) words else []

/-- The fields of the reply that announces a stream. -/
def streamExtra (words : Nat) : Text :=
  printFields [(Text.lit "mode", .string (Text.lit "STREAM")),
    (Text.lit "words", .number (printNat words))]

/-- `handle_stream`. -/
def handleStream (env : DataEnv) (srv : Server) (fileName user : Text) : Server × Output :=
  match (ssStateFind srv.state fileName).1 with
  | none => (srv, ⟨sendErrorResponse .NOTFOUND (Text.lit "file not found"), []⟩)
  | some view =>
    match currentText env.toEnv srv.fs view.dataPath with
    | none => (srv, ⟨sendErrorResponse .INTERNAL (Text.lit "stream failed"), []⟩)
    | some text =>
      let words := splitWords text
      if !env.allocated then
        (srv, ⟨sendErrorResponse .INTERNAL (Text.lit "tokenize failed"), []⟩)
      else if (streamExtra words.length).length ≥ 256 then
        (srv, ⟨sendErrorResponse .INTERNAL (Text.lit "response too large"), []⟩)
      else if !env.sent 0 then (srv, ⟨sendOk (streamExtra words.length), []⟩)
      else
        let (srv, notices, _) := touchFile env srv fileName user
        (srv, ⟨sendOk (streamExtra words.length) ++ streamWords env 1 0 words ++
          [printMessage [(Text.lit "status", .string (Text.lit "DONE"))]], notices⟩)

/-! ## Locks -/

def SentenceLock.covers (lock : SentenceLock) (file : Text) (sentence : Int) : Bool :=
  lock.sentence == sentence && lock.file == file

/-- `sentence_lock_acquire`: the table with the new entry. -/
def sentenceLockAcquire (env : DataEnv) (locks : List SentenceLock) (file : Text) (sentence : Int)
    (user : Text) : Option (List SentenceLock) :=
  if locks.any (·.covers file sentence) then none
  else if !env.lockPushed then none
  else
    some (locks ++ [⟨Text.copyTo SS_NAME_MAX file, Text.copyTo SS_USER_MAX user, sentence⟩])

/-- `sentence_lock_release`. -/
def sentenceLockRelease (locks : List SentenceLock) (file : Text) (sentence : Int) :
    List SentenceLock :=
  locks.eraseP (·.covers file sentence)

/-- What `set_file_lock_state` assigns; the user is kept only with a lock that is set. -/
def lockFields (active : Bool) (sentence : Int) (user : Option Text) (file : SsFile) : SsFile :=
  { file with
    lockActive := active
    lockSentence := if active then sentence else -1
    lockUser := if active then (user.map (Text.copyTo SS_USER_MAX)).getD [] else [] }

/-- `set_file_lock_state`. -/
def setFileLockState (srv : Server) (fileName : Text) (active : Bool) (sentence : Int)
    (user : Option Text) : Server :=
  match updateFile srv.state fileName (lockFields active sentence user) with
  | none => srv
  | some (_, state) => { srv with state := state }

/-! ## Writing -/

/-- `write_session_begin` on the file. -/
def beginSession (env : DataEnv) (fs : Fs) (view : SsFile) (user : Text) (sentence : Int) :
    Except Errno WriteSession :=
  match currentText env.toEnv fs view.dataPath with
  | none => .error env.errno
  | some text => if !env.allocated then .error env.errno else writeSessionBegin text user sentence

/-- The fields of the reply that opens a write. -/
def beginExtra (session : WriteSession) (sentence : Int) : Text :=
  printFields [(Text.lit "mode", .string (Text.lit "WRITE")),
    (Text.lit "current", .string (jsonEscape session.sentenceText)),
    (Text.lit "sentence", .number (printInt sentence))]

/-- The part of `handle_write` between its locks and its loop: the session, and the frames sent. -/
def openSession (env : DataEnv) (fs : Fs) (view : SsFile) (user : Text) (sentence : Int) :
    Option WriteSession × List Text :=
  match beginSession env fs view user sentence with
  | .error e =>
    if e = .EINVAL then
      (none, sendErrorResponse .BADREQ (Text.lit "sentence index out of range"))
    else (none, sendErrorResponse .INTERNAL (Text.lit "write init failed"))
  | .ok session =>
    if !env.escaped then (none, sendErrorResponse .INTERNAL (Text.lit "encode failed"))
    else if (beginExtra session sentence).length ≥ MAX_JSON then
      (none, sendErrorResponse .INTERNAL (Text.lit "response too large"))
    else if sendOk (beginExtra session sentence) = [] ∨ !env.sent 0 then
      (none, sendOk (beginExtra session sentence))
    else (some session, sendOk (beginExtra session sentence))

/-- How every write ends: both locks are given back. -/
def closeWrite (host : Host) (client : Nat) (fileName : Text) (sentence : Int) : Host :=
  { server := setFileLockState host.server fileName false (-1) none
    sentenceLocks := sentenceLockRelease host.sentenceLocks fileName sentence
    writes := Function.update host.writes client none }

/-- `handle_write` up to its loop. -/
def handleWriteBegin (env : DataEnv) (host : Host) (client : Nat) (fileName user : Text)
    (sentence : Int) : Host × Output :=
  match (ssStateFind host.server.state fileName).1 with
  | none => (host, ⟨sendErrorResponse .NOTFOUND (Text.lit "file not found"), []⟩)
  | some view =>
    match sentenceLockAcquire env host.sentenceLocks fileName sentence user with
    | none => (host, ⟨sendErrorResponse .LOCKED (Text.lit "sentence locked"), []⟩)
    | some locks =>
      let locked : Host :=
        { host with
          server := setFileLockState host.server fileName true sentence (some user)
          sentenceLocks := locks }
      match openSession env locked.server.fs view user sentence with
      | (none, frames) => (closeWrite locked client fileName sentence, ⟨frames, []⟩)
      | (some session, frames) =>
        (locked.setWrite client (some ⟨fileName, user, sentence, view, session⟩), ⟨frames, []⟩)

/-- `write_session_commit`. On the way out after a conflict the source tests `merged_init`, which it
has not set there; this is the conflict with that test false. -/
def writeSessionCommit (env : DataEnv) (fs : Fs) (session : WriteSession) (file : SsFile) :
    Fs × Except Errno Text :=
  match currentText env.toEnv fs file.dataPath with
  | none => (fs, .error env.errno)
  | some current =>
    if !env.allocated then (fs, .error env.errno)
    else
      match writeSessionMerge session current with
      | .error e => (fs, .error e)
      | .ok merged =>
        match storeTextAtomic fs file.undoPath current env.undoStore with
        | (false, fs) => (fs, .error env.errno)
        | (true, fs) =>
          match storeTextAtomic fs file.dataPath (joinSentences merged) env.dataStore with
          | (false, fs) => (fs, .error env.errno)
          | (true, fs) => (fs, .ok (joinSentences merged))

/-- The fields of the reply to a commit. -/
def commitExtra (text : Text) : Text :=
  printFields [(Text.lit "step", .string (Text.lit "COMMIT")),
    (Text.lit "words", .number (printNat (countWords text))),
    (Text.lit "chars", .number (printNat text.length)),
    (Text.lit "content", .string (jsonEscape text))]

/-- `"step":"…"`, the extra field of most replies in a session. -/
def stepField (step : String) : Text := printFields [(Text.lit "step", .string (Text.lit step))]

def commitReply (env : DataEnv) (text : Text) : List Text :=
  if env.escaped ∧ (commitExtra text).length < MAX_JSON then sendOk (commitExtra text)
  else sendOk (stepField "COMMIT")

/-- What a commit assigns to the entry, the lock flag included. -/
def commitFields (text user : Text) (now : Int) (file : SsFile) : SsFile :=
  { restamp text user now file with lockActive := false, lockSentence := -1 }

/-- `WRITE_COMMIT`, before the write is closed. -/
def commitWrite (env : DataEnv) (srv : Server) (write : OpenWrite) : Server × Output :=
  match writeSessionCommit env srv.fs write.session write.view with
  | (fs, .error e) =>
    if e = .EAGAIN then
      ({ srv with fs := fs },
        ⟨sendErrorResponse .CONFLICT (Text.lit "sentence modified by another writer"), []⟩)
    else ({ srv with fs := fs }, ⟨sendErrorResponse .INTERNAL (Text.lit "commit failed"), []⟩)
  | (fs, .ok text) =>
    match updateFile srv.state write.file (commitFields text write.user env.now) with
    | none => ({ srv with fs := fs }, ⟨commitReply env text, []⟩)
    | some (file, state) =>
      ({ srv with state := state, fs := ssStateSaveMeta fs file env.metaOpened },
        ⟨commitReply env text, notifyNmFileUpdate file⟩)

/-- The reply to an edit, and the session after it. -/
def applyEdit (env : DataEnv) (session : WriteSession) (e : Edit) (step : String) (failed : Text) :
    WriteSession × List Text :=
  if !env.allocated then
    (session, if env.errno = .EINVAL then
      sendErrorResponse .BADREQ (Text.lit "word index out of range")
    else sendErrorResponse .CONFLICT failed)
  else
    match session.apply e with
    | .ok session => (session, sendOk (stepField step))
    | .error e =>
      (session, if e = .EINVAL then
        sendErrorResponse .BADREQ (Text.lit "word index out of range")
      else sendErrorResponse .CONFLICT failed)

/-- `WRITE_INSERT`, `WRITE_REPLACE`, `WRITE_DELETE`. -/
def editWrite (env : DataEnv) (session : WriteSession) (type json : Text) :
    WriteSession × List Text :=
  match jsonGetInt json (Text.lit "index") with
  | none => (session, sendErrorResponse .BADREQ (Text.lit "missing index"))
  | some index =>
    if type = Text.lit "WRITE_DELETE" then
      applyEdit env session (.delete index) "DELETE" (Text.lit "delete failed")
    else
      match jsonGetStringAlloc json (Text.lit "content") env.dup with
      | none => (session, sendErrorResponse .BADREQ (Text.lit "missing content"))
      | some content =>
        if type = Text.lit "WRITE_INSERT" then
          applyEdit env session (.insert index content) "INSERT" (Text.lit "insert failed")
        else applyEdit env session (.replace index content) "REPLACE" (Text.lit "replace failed")

def isEdit (type : Text) : Bool :=
  type == Text.lit "WRITE_INSERT" || type == Text.lit "WRITE_REPLACE" ||
    type == Text.lit "WRITE_DELETE"

/-- One turn of the loop of `handle_write`; no frame when the client is gone. -/
def handleWriteFrame (env : DataEnv) (host : Host) (client : Nat) (write : OpenWrite)
    (frame : Option Text) : Host × Output :=
  match frame with
  | none => (closeWrite host client write.file write.sentence, ⟨[], []⟩)
  | some json =>
    match jsonGetString json (Text.lit "type") 64 with
    | none => (host, ⟨sendErrorResponse .BADREQ (Text.lit "missing type"), []⟩)
    | some type =>
      if isEdit type then
        let (session, frames) := editWrite env write.session type json
        (host.setWrite client (some { write with session := session }), ⟨frames, []⟩)
      else if type = Text.lit "WRITE_COMMIT" then
        let (server, out) := commitWrite env host.server write
        (closeWrite (host.setServer server) client write.file write.sentence, out)
      else if type = Text.lit "WRITE_ABORT" then
        (closeWrite host client write.file write.sentence, ⟨sendOk (stepField "ABORT"), []⟩)
      else (host, ⟨sendErrorResponse .BADREQ (Text.lit "unknown write command"), []⟩)

/-- The four strings that every request has. -/
def requestArgs (json : Text) : Option (Text × Text × Text × Text) :=
  (jsonGetString json (Text.lit "type") 64).bind fun type =>
    (jsonGetString json (Text.lit "file") SS_NAME_MAX).bind fun fileName =>
      (jsonGetString json (Text.lit "user") SS_USER_MAX).bind fun user =>
        (jsonGetString json (Text.lit "ticket") MAX_TOKEN_LEN).map fun token =>
          (type, fileName, user, token)

/-- `handle_data_client`, where a write stays open. -/
def handleDataClient (env : DataEnv) (host : Host) (client : Nat) (json : Text) : Host × Output :=
  let badTicket : Output := ⟨sendErrorResponse .NOAUTH (Text.lit "invalid ticket"), []⟩
  match requestArgs json with
  | none => (host, ⟨sendErrorResponse .BADREQ (Text.lit "missing fields"), []⟩)
  | some (type, fileName, user, token) =>
    if type = Text.lit "READ" then
      match validateTicket env host.server token user fileName (Text.lit "READ") with
      | (none, srv) => (host.setServer srv, badTicket)
      | (some _, srv) =>
        let (srv, out) := handleRead env srv fileName user
        (host.setServer srv, out)
    else if type = Text.lit "STREAM" then
      match validateTicket env host.server token user fileName (Text.lit "STREAM") with
      | (none, srv) => (host.setServer srv, badTicket)
      | (some _, srv) =>
        let (srv, out) := handleStream env srv fileName user
        (host.setServer srv, out)
    else if type = Text.lit "WRITE_BEGIN" then
      match jsonGetInt json (Text.lit "sentence") with
      | none => (host, ⟨sendErrorResponse .BADREQ (Text.lit "missing sentence"), []⟩)
      | some sentence =>
        match validateTicket env host.server token user fileName (Text.lit "WRITE") with
        | (none, srv) => (host.setServer srv, badTicket)
        | (some _, srv) => handleWriteBegin env (host.setServer srv) client fileName user sentence
    else (host, ⟨sendErrorResponse .BADREQ (Text.lit "unsupported operation"), []⟩)

end CoWrite.Ss
