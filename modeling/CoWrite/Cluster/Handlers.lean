import CoWrite.Cluster.Tickets
import CoWrite.Cluster.Updates
import CoWrite.Lib.Guarded
import CoWrite.Nm.Pending

/-!
# The handlers and the state lock

The handlers of `nm_main.c` as programs under the state lock, with every exit where it gives the lock back. A handler
reads the tables at the beginning of a section, and in some places without the lock; what it finds there is what the
other threads left.

* `viewLoop_isSome`: names that fit their arrays fit the buffers they are escaped into, so the loop of `VIEW` does not
  leave with the lock.
* `orderly_iff`: a request locks, unlocks and writes in turn unless it is a `DELETE` that its server carried out, which
  gives back a lock that it did not take again.
-/

namespace CoWrite.Cluster.Handlers

open CoWrite.Lib
open CoWrite.Ss (MAX_JSON)
open CoWrite.Nm

/-! ## Handlers -/

/-- What a handler asks outside of the tables. -/
inductive Question where
  /-- `forward_command` to a server; no answer when it failed. -/
  | forward (server : Int) (payload : Text)
  /-- `randutil_token`. -/
  | token
  /-- `array_push` of the ticket; no answer when it failed. -/
  | pushTicket (token : Text)
  /-- `ss_fetch_content`: the content, unless it failed. -/
  | fetch (server : Int) (file user token : Text)
  /-- `run_exec_commands`: the output, unless it failed. -/
  | exec (script : Text)

/-- A handler; its reply is what `send_ok` or `send_error_response` is given. -/
abbrev Handler (α : Type) := Prog NmState Question (Option Text) α

abbrev Reply := Except Response Text

/-- `return send_error_response(..)`. -/
def refuse (code : ErrorCode) (message : String) : Handler Reply := .done (.error (.error code (Text.lit message)))

/-- `return send_ok(..)`. -/
def accept (extra : Text) : Handler Reply := .done (.ok extra)

def opField (op : String) : Text := printFields [(Text.lit "op", .string (Text.lit op))]

/-- `TICKET_TTL`. -/
def TICKET_TTL : Int := 30

/-! ## Listings -/

/-- What `json_get_string` has stored when it stops, also where it fails. -/
def storedString : Nat → Text → Text
  | _, [] => []
  | _, '"' :: _ => []
  | _, ['\\'] => []
  | 0, _ => []
  | room + 1, '\\' :: c :: s => unescapeChar c :: storedString room s
  | room + 1, c :: s => c :: storedString room s

/-- The flags of a `VIEW`; whether they could be read is not checked. -/
def viewFlags (json : Text) : Text :=
  (((keyPattern (Text.lit "flags") ['"']).bind fun pattern => strstr pattern json).map (storedString 7)).getD []

/-- The identity and the status that are shown for a server. -/
def serverLabels (state : NmState) (index : Int) : Text × Text :=
  match nmGetServer state index with
  | some ss => ((jsonEscapeString 256 ss.id).getD [], if ss.isAvailable then Text.lit "online" else Text.lit "offline")
  | none => ([], if index ≥ 0 then Text.lit "unknown" else Text.lit "none")

def serverFields (state : NmState) (file : FileEntry) : List Field :=
  let (primaryId, primaryStatus) := serverLabels state file.ssIndex
  let (backupId, backupStatus) := serverLabels state file.backupIndex
  [(Text.lit "primaryServer", .string primaryId), (Text.lit "primaryStatus", .string primaryStatus),
    (Text.lit "backupServer", .string backupId), (Text.lit "backupStatus", .string backupStatus)]

/-- What `VIEW` appends for a file, in its pieces; nothing when a name does not fit its buffer. -/
def viewEntry (state : NmState) (long : Bool) (file : FileEntry) : Option (List Text) :=
  match jsonEscapeString 256 file.name, jsonEscapeString 256 file.owner,
    jsonEscapeString 256 file.lastAccessUser with
  | some name, some owner, some lastUser =>
    if long then
      some
        [ '{' :: printFields
            [(Text.lit "name", .string name), (Text.lit "owner", .string owner),
              (Text.lit "words", .number (printNat file.wordCount))] ++ [','],
          printFields
            [(Text.lit "chars", .number (printNat file.charCount)),
              (Text.lit "lastAccess", .number (printInt file.lastAccess)),
              (Text.lit "lastAccessUser", .string lastUser)] ++ [','],
          printFields (serverFields state file) ++ ['}'] ]
    else some [printMessage [(Text.lit "name", .string name)]]
  | _, _, _ => none

/-- The loop of `handle_client_view`. -/
def viewLoop (state : NmState) (user : Text) (all long : Bool) :
    List FileEntry → Bool → Option Text → Option (Option Text)
  | [], _, buf => some buf
  | file :: rest, first, buf =>
    if !(all || fileHasAccess file user NM_PERM_READ) then viewLoop state user all long rest first buf
    else
      match viewEntry state long file with
      | none => none
      | some pieces =>
        viewLoop state user all long rest false (pieces.foldl jsonAppend (if first then buf else jsonAppend buf [',']))

/-- `handle_client_view`. -/
def handleClientView (user json : Text) : Handler Reply :=
  let flags := viewFlags json
  .lock <| .read fun state =>
    match viewLoop state user (flags.contains 'a') (flags.contains 'l') state.files true
      (jsonAppend (some []) (Text.lit "\"files\":[")) with
    -- this exit keeps the lock
    | none => refuse .INTERNAL "encoding error"
    | some buf =>
      match jsonAppend buf [']'] with
      | none => .unlock <| refuse .INTERNAL "response too large"
      | some extra => .unlock <| accept extra

/-- The loop of `handle_client_list_users`. -/
def listLoop : List UserEntry → Bool → Option Text → Option (Option Text)
  | [], _, buf => some buf
  | user :: rest, first, buf =>
    match jsonEscapeString 256 user.name with
    | none => none
    | some name =>
      listLoop rest false (jsonAppend (if first then buf else jsonAppend buf [',']) (Value.string name).print)

/-- `handle_client_list_users`. -/
def handleClientListUsers : Handler Reply :=
  .lock <| .read fun state =>
    match listLoop state.users true (jsonAppend (some []) (Text.lit "\"users\":[")) with
    | none => .unlock <| refuse .INTERNAL "encoding error"
    | some buf =>
      match jsonAppend buf [']'] with
      | none => .unlock <| refuse .INTERNAL "response too large"
      | some extra => .unlock <| accept extra

/-- `append_access_array`. -/
def appendAccessArray (buf : Option Text) (key : String) (file : FileEntry) (perm : BitVec 32) : Option Text :=
  let users := (file.acl.filter fun acl => acl.perm &&& perm == perm).map FileAclEntry.user
  let append (buf : Option Text) (lead user : Text) : Option Text :=
    (jsonEscapeString 256 user).bind fun user => jsonAppend buf (lead ++ (Value.string user).print)
  let buf := append (jsonAppend buf ('"' :: Text.lit key ++ Text.lit "\":[")) [] file.owner
  jsonAppend (users.foldl (fun buf user => append buf [','] user) buf) [']']

/-- What `INFO` sends of a file, with its names escaped, if all of it was short enough. -/
def infoText (state : NmState) (file : FileEntry) (name owner lastUser : Text) : Option Text :=
  let buf := jsonAppend (some []) (Text.lit "\"file\":\x7b" ++ printFields
    [(Text.lit "name", .string name), (Text.lit "owner", .string owner),
      (Text.lit "words", .number (printNat file.wordCount))] ++ [','])
  let buf := jsonAppend buf (printFields
    [(Text.lit "chars", .number (printNat file.charCount)), (Text.lit "created", .number (printInt file.created)),
      (Text.lit "modified", .number (printInt file.modified))] ++ [','])
  let buf := jsonAppend buf (printFields
    [(Text.lit "lastAccess", .number (printInt file.lastAccess)),
      (Text.lit "lastAccessUser", .string lastUser)] ++ [','])
  let buf := jsonAppend buf (printFields (serverFields state file) ++ [','])
  let buf := appendAccessArray buf "readAccess" file NM_PERM_READ
  let buf := appendAccessArray (jsonAppend buf [',']) "writeAccess" file NM_PERM_WRITE
  jsonAppend buf ['}']

/-- `handle_client_info`; the reply is sent before the lock is given back. -/
def handleClientInfo (user json : Text) : Handler Reply :=
  match jsonFile json with
  | none => refuse .BADREQ "missing file"
  | some fileName =>
    .lock <| .read fun state =>
      match nmFindFile state fileName with
      | none => .unlock <| refuse .NOTFOUND "file not found"
      | some file =>
        if !fileHasAccess file user NM_PERM_READ then .unlock <| refuse .NOAUTH "no read access"
        else
          match jsonEscapeString 256 file.name, jsonEscapeString 256 file.owner,
            jsonEscapeString 256 file.lastAccessUser with
          | some name, some owner, some lastUser =>
            match infoText state file name owner lastUser with
            | none => .unlock <| refuse .INTERNAL "response too large"
            | some extra => .unlock <| accept extra
          | _, _, _ => .unlock <| refuse .INTERNAL "encoding error"

/-! ## Files -/

/-- The servers that `handle_client_create` offers the file to as its backup. -/
def offerBackup (primary : Nat) (payload : Text) : List Nat → Handler Int
  | [] => .done (-1)
  | i :: rest =>
    if i = primary then offerBackup primary payload rest
    else
      .lock <| .unlock <| .read fun state =>
        if !state.available i then offerBackup primary payload rest
        else
          .ask (.forward i payload) fun
            | none => offerBackup primary payload rest
            | some reply => if isOk reply then .done i else offerBackup primary payload rest

/-- The last section of `handle_client_create`. -/
def addFile (user name : Text) (now : Int) (primary : Nat) (backup : Int) : Handler Reply :=
  .lock <| .read fun state =>
    match nmAddFile state name user primary backup now with
    | none => .unlock <| refuse .INTERNAL "state update failed"
    | some state =>
      let state := (nmGrantAccess state name user (NM_PERM_WRITE ||| NM_PERM_READ)).getD state
      .write (nmCachePut state name primary now) <| .unlock <| accept (opField "CREATE")

/-- `nm_mark_server_down` in a section of its own. -/
def markDown {α : Type} (server : Int) (next : Handler α) : Handler α :=
  .lock <| .read fun state => .write (nmMarkServerDown state server) <| .unlock next

/-- `handle_client_create`. -/
def handleClientCreate (user json : Text) (now : Int) : Handler Reply :=
  match jsonFile json with
  | none => refuse .BADREQ "missing file"
  | some name =>
    if !validFilename name then refuse .BADREQ "invalid name"
    else if user = [] then refuse .NOAUTH "anonymous user"
    else
      .lock <| .read fun state =>
        if (nmFindFile state name).isSome then .unlock <| refuse .EXISTS "file exists"
        else
          match nmPickServer state with
          | (none, state) => .write state <| .unlock <| refuse .UNAVAILABLE "no storage server"
          | (some i, state) =>
            .write state <|
              if (nmGetServer state i).all fun ss => decide (ss.ctrlFd < 0) then
                .unlock <| refuse .UNAVAILABLE "server offline"
              else
                .unlock <| .read fun state =>
                  if (nmGetServer state i).all fun ss => decide (ss.ctrlFd < 0) then
                    refuse .UNAVAILABLE "server offline"
                  else
                    match format 512 (createFields name user) with
                    | none => refuse .INTERNAL "payload too large"
                    | some payload =>
                      .ask (.forward i payload) fun
                        | none => markDown i <| refuse .UNAVAILABLE "server unreachable"
                        | some reply =>
                          if !isOk reply then refuse .INTERNAL "create failed"
                          else
                            .lock <| .read fun state => .unlock <|
                              (offerBackup i payload (List.range state.servers.length)).bind (addFile user name now i)

/-- The command to the backup that `handle_client_delete` ends with; what comes back is dropped. -/
def deleteBackup (backup : Int) (payload : Text) : Handler Reply :=
  if backup ≥ 0 then
    .read fun state =>
      if (nmGetServer state backup).any fun ss => decide (ss.ctrlFd ≥ 0) then
        .ask (.forward backup payload) fun _ => accept (opField "DELETE")
      else accept (opField "DELETE")
  else accept (opField "DELETE")

/-- What `handle_client_delete` does when it has chosen the server; `slot` is where `file` points to. -/
def sendDelete (name : Text) (slot : Option Nat) (server : Int) : Handler Reply :=
  match format 256 (deleteFields name) with
  | none => refuse .INTERNAL "payload too large"
  | some payload =>
    .ask (.forward server payload) fun
      | none => markDown server <| refuse .UNAVAILABLE "server unreachable"
      | some reply =>
        if !isOk reply then refuse .INTERNAL "delete failed"
        else
          -- nothing takes the lock here
          .read fun state =>
            let backup := (slot.bind (state.files[·]?)).elim (-1) FileEntry.backupIndex
            .write ((nmRemoveFile state name).getD state) <| .unlock <| deleteBackup backup payload

/-- `handle_client_delete`. -/
def handleClientDelete (user json : Text) : Handler Reply :=
  match jsonFile json with
  | none => refuse .BADREQ "missing file"
  | some name =>
    .lock <| .read fun state =>
      match nmFindFile state name with
      | none => .unlock <| refuse .NOTFOUND "file not found"
      | some file =>
        if !fileHasAccess file user NM_PERM_WRITE then .unlock <| refuse .NOAUTH "no write access"
        else
          match selectStorageServer state name with
          | (none, state) => .write state <| .unlock <| refuse .UNAVAILABLE "server offline"
          | (some i, selected) =>
            let (j, selected) := selectStorageServer selected name
            .write selected <| .unlock <| sendDelete name (findFileIndex state name) (j.getD i)

/-! ## Tickets -/

/-- `issue_ticket`: the token. -/
def issueTicket (server : Int) (file user op : Text) (expiry : Int) : Handler (Option Text) :=
  .ask .token fun drawn =>
    let token := drawn.getD []
    match format 512 (ticketFields token file user op expiry) with
    | none => .done none
    | some payload =>
      .ask (.forward server payload) fun
        | none => .done none
        | some reply =>
          if !isOk reply then .done none
          else .ask (.pushTicket token) fun pushed => .done (pushed.map fun _ => token)

/-- `obtain_ticket_for_file` with this many attempts left: the server and the token. -/
def obtainTicketForFile (name user : Text) (perm : BitVec 32) (op : Text) (now : Int) :
    Nat → Handler (Except ErrorCode (Int × Text))
  | 0 => .done (.error .UNAVAILABLE)
  | attempts + 1 =>
    .lock <| .read fun state =>
      match nmFindFile state name with
      | none => .unlock <| .done (.error .NOTFOUND)
      | some file =>
        if !fileHasAccess file user perm then .unlock <| .done (.error .NOAUTH)
        else
          match selectStorageServer state name with
          | (none, state) => .write state <| .unlock <| .done (.error .UNAVAILABLE)
          | (some i, state) =>
            .write state <| .unlock <| (issueTicket i name user op (now + TICKET_TTL)).bind fun
              | some token =>
                .lock <| .read fun state => .write (nmCachePut state name i now) <| .unlock <| .done (.ok (i, token))
              | none => markDown i <| obtainTicketForFile name user perm op now attempts

/-- How a request without a ticket is refused. -/
def refuseTicket (code : ErrorCode) (denied : String) : Handler Reply :=
  match code with
  | .NOAUTH => refuse .NOAUTH denied
  | .NOTFOUND => refuse .NOTFOUND "file not found"
  | _ => refuse .UNAVAILABLE "server offline"

/-- What `respond_with_endpoint` sends, with its names escaped, if all of it was short enough. -/
def endpointText (op file host port id token : Text) (sentence : Int) : Option Text :=
  let buf := jsonAppend (some []) (printFields
    [(Text.lit "op", .string op), (Text.lit "file", .string file), (Text.lit "host", .string host),
      (Text.lit "port", .string port)] ++ [','])
  let buf := jsonAppend buf (printFields [(Text.lit "server", .string id), (Text.lit "ticket", .string token)])
  if sentence ≥ 0 then jsonAppend buf (',' :: printFields [(Text.lit "sentence", .number (printInt sentence))])
  else buf

/-- `respond_with_endpoint`. -/
def respondWithEndpoint (file : Text) (server : Int) (op token : Text) (sentence : Int) : Handler Reply :=
  .read fun state =>
    match nmGetServer state server with
    | none => refuse .UNAVAILABLE "server offline"
    | some ss =>
      match jsonEscapeString 256 ss.host, jsonEscapeString 64 ss.dataPort, jsonEscapeString 256 ss.id,
        jsonEscapeString 256 file, jsonEscapeString 256 token with
      | some host, some port, some id, some file, some token =>
        match endpointText op file host port id token sentence with
        | none => refuse .INTERNAL "response too large"
        | some extra => accept extra
      | _, _, _, _, _ => refuse .INTERNAL "encoding error"

/-- `handle_lookup_common`. -/
def handleLookupCommon (user json : Text) (now : Int) (op : String) (perm : BitVec 32) (includeSentence : Bool) :
    Handler Reply :=
  match jsonFile json with
  | none => refuse .BADREQ "missing file"
  | some name =>
    (obtainTicketForFile name user perm (Text.lit op) now 2).bind fun
      | .error code => refuseTicket code "access denied"
      | .ok (server, token) =>
        let sentence := if includeSentence then (jsonGetInt json (Text.lit "sentence")).getD 0 else -1
        respondWithEndpoint name server (Text.lit op) token sentence

/-- `handle_client_read`. -/
def handleClientRead (user json : Text) (now : Int) : Handler Reply :=
  handleLookupCommon user json now "READ" NM_PERM_READ false

/-- `handle_client_stream`. -/
def handleClientStream (user json : Text) (now : Int) : Handler Reply :=
  handleLookupCommon user json now "STREAM" NM_PERM_READ false

/-- `handle_client_write`. -/
def handleClientWrite (user json : Text) (now : Int) : Handler Reply :=
  handleLookupCommon user json now "WRITE" NM_PERM_WRITE true

/-- `handle_client_exec`. -/
def handleClientExec (user json : Text) (now : Int) : Handler Reply :=
  match jsonFile json with
  | none => refuse .BADREQ "missing file"
  | some name =>
    (obtainTicketForFile name user NM_PERM_READ (Text.lit "READ") now 2).bind fun
      | .error code => refuseTicket code "no read access"
      | .ok (server, token) =>
        .ask (.fetch server name user token) fun
          | none => refuse .UNAVAILABLE "fetch failed"
          | some content =>
            .ask (.exec content) fun
              | none => refuse .INTERNAL "exec failed"
              | some output =>
                let extra := opField "EXEC" ++ ',' :: printFields [(Text.lit "output", .string (jsonEscape output))]
                if extra.length ≥ MAX_JSON then refuse .INTERNAL "response too large" else accept extra

/-! ## Access -/

/-- `handle_client_addaccess`. -/
def handleClientAddaccess (user json : Text) : Handler Reply :=
  match jsonFile json, jsonGetString json (Text.lit "user") NM_MAX_USER, jsonGetString json (Text.lit "mode") 8 with
  | some name, some target, some mode =>
    .lock <| .read fun state =>
      match nmFindFile state name with
      | none => .unlock <| refuse .NOTFOUND "file not found"
      | some file =>
        if file.owner ≠ user then .unlock <| refuse .NOAUTH "only owner"
        else
          match nmGrantAccess state name target (modePerm mode) with
          | none => .unlock <| refuse .INTERNAL "grant failed"
          | some state => .write state <| .unlock <| accept (opField "ADDACCESS")
  | _, _, _ => refuse .BADREQ "missing fields"

/-- `handle_client_removeaccess`. -/
def handleClientRemoveaccess (user json : Text) : Handler Reply :=
  match jsonFile json, jsonGetString json (Text.lit "user") NM_MAX_USER with
  | some name, some target =>
    .lock <| .read fun state =>
      match nmFindFile state name with
      | none => .unlock <| refuse .NOTFOUND "file not found"
      | some file =>
        if file.owner ≠ user then .unlock <| refuse .NOAUTH "only owner"
        else .write (nmRemoveAccess state name target) <| .unlock <| accept (opField "REMACCESS")
  | _, _ => refuse .BADREQ "missing fields"

/-- `handle_client_reqaccess`. -/
def handleClientReqaccess (user json : Text) : Handler Reply :=
  match jsonFile json, jsonGetString json (Text.lit "mode") 8 with
  | some name, some mode =>
    if ¬ ('R' ∈ mode ∨ 'r' ∈ mode ∨ 'W' ∈ mode ∨ 'w' ∈ mode) then refuse .BADREQ "invalid mode"
    else
      .lock <| .read fun state =>
        match nmFindFile state name with
        | none => .unlock <| refuse .NOTFOUND "file not found"
        | some file =>
          if file.owner = user then .unlock <| refuse .CONFLICT "owner already has access"
          else if nmCheckAccess state name user (modePerm mode) then
            .unlock <| refuse .CONFLICT "access already granted"
          else
            match requestAccess state name file.owner user (modePerm mode) with
            | none => .unlock <| refuse .INTERNAL "request limit reached"
            | some state => .write state <| .unlock <| accept (opField "REQACCESS")
  | _, _ => refuse .BADREQ "missing fields"

/-- `handle_client_viewreqs`. -/
def handleClientViewreqs (user json : Text) : Handler Reply :=
  match jsonGetString json (Text.lit "direction") 16 with
  | none => refuse .BADREQ "missing direction"
  | some direction =>
    let sent := equalsIgnoreCase direction (Text.lit "SENT")
    let received := equalsIgnoreCase direction (Text.lit "RECEIVED")
    if !sent && !received then refuse .BADREQ "invalid direction"
    else
      .lock <| .read fun state =>
        match viewreqsLoop sent user state.requests true (jsonAppend (some []) (Text.lit "\"requests\":[")) with
        | .error response => .unlock <| .done (.error response)
        | .ok buf =>
          match jsonAppend buf [']'] with
          | none => .unlock <| refuse .INTERNAL "response too large"
          | some extra => .unlock <| accept extra

/-- `handle_client_handlereq`. -/
def handleClientHandlereq (user json : Text) : Handler Reply :=
  match jsonFile json, jsonGetString json (Text.lit "user") NM_MAX_USER, jsonGetString json (Text.lit "action") 16 with
  | some name, some requester, some action =>
    let approve := equalsIgnoreCase action (Text.lit "APPROVE")
    let deny := equalsIgnoreCase action (Text.lit "DENY")
    if !approve && !deny then refuse .BADREQ "invalid action"
    else
      .lock <| .read fun state =>
        match nmFindFile state name with
        | none => .unlock <| refuse .NOTFOUND "file not found"
        | some file =>
          if file.owner ≠ user then .unlock <| refuse .NOAUTH "only owner"
          else
            match findAccessRequest state name requester with
            | none => .unlock <| refuse .NOTFOUND "request not found"
            | some i =>
              match state.requests[i]? with
              | none => .unlock <| refuse .NOTFOUND "request not found"
              | some req =>
                if req.status ≠ NM_REQUEST_PENDING then .unlock <| refuse .CONFLICT "request already handled"
                else if approve then
                  match nmGrantAccess state name requester req.perm with
                  | none => .unlock <| refuse .INTERNAL "grant failed"
                  | some state =>
                    .write (setRequestStatus state i NM_REQUEST_APPROVED) <| .unlock <| accept (opField "HANDLEREQ")
                else .write (setRequestStatus state i NM_REQUEST_DENIED) <| .unlock <| accept (opField "HANDLEREQ")
  | _, _, _ => refuse .BADREQ "missing fields"

/-- `handle_client_undo`. -/
def handleClientUndo (user json : Text) : Handler Reply :=
  match jsonFile json with
  | none => refuse .BADREQ "missing file"
  | some name =>
    .lock <| .read fun state =>
      match nmFindFile state name with
      | none => .unlock <| refuse .NOTFOUND "file not found"
      | some file =>
        if !fileHasAccess file user NM_PERM_WRITE then .unlock <| refuse .NOAUTH "no write access"
        else
          match selectStorageServer state name with
          | (none, state) => .write state <| .unlock <| refuse .UNAVAILABLE "server offline"
          | (some i, state) =>
            .write state <| .unlock <|
              match format 512 (undoFields name user) with
              | none => refuse .INTERNAL "payload too large"
              | some payload =>
                .ask (.forward i payload) fun
                  | none => markDown i <| refuse .UNAVAILABLE "server unreachable"
                  | some reply => if !isOk reply then refuse .CONFLICT "undo not possible" else accept (opField "UNDO")

/-! ## Checkpoints -/

/-- The beginning of the three handlers of one checkpoint: `check` says what is wrong with the tag in the file. -/
def checkpointSection (user json : Text) (perm : BitVec 32) (denied : String)
    (check : FileEntry → Text → Option (ErrorCode × String)) (next : Text → Text → FileEntry → Handler Reply) :
    Handler Reply :=
  match jsonFile json, jsonGetString json (Text.lit "tag") NM_MAX_NAME with
  | some name, some tag =>
    if !validCheckpointTag tag then refuse .BADREQ "invalid tag"
    else
      .lock <| .read fun state =>
        match nmFindFile state name with
        | none => .unlock <| refuse .NOTFOUND "file not found"
        | some file =>
          if !fileHasAccess file user perm then .unlock <| refuse .NOAUTH denied
          else
            match check file tag with
            | some (code, message) => .unlock <| refuse code message
            | none => .unlock <| next name tag file
  | _, _ => refuse .BADREQ "missing fields"

def checkpointFree (file : FileEntry) (tag : Text) : Option (ErrorCode × String) :=
  if (nmFileFindCheckpoint file tag).isSome then some (.EXISTS, "checkpoint exists") else none

def checkpointFound (file : FileEntry) (tag : Text) : Option (ErrorCode × String) :=
  if (nmFileFindCheckpoint file tag).isNone then some (.NOTFOUND, "checkpoint not found") else none

/-- The test of the primary, made without the lock. -/
def withPrimary (primary : Int) (next : Handler Reply) : Handler Reply :=
  if primary < 0 then refuse .UNAVAILABLE "primary offline"
  else
    .read fun state =>
      if (nmGetServer state primary).all fun ss => decide (ss.ctrlFd < 0) then refuse .UNAVAILABLE "primary offline"
      else next

/-- The payload of a checkpoint command. -/
def withCheckpointPayload (type : String) (name tag user : Text) (next : Text → Handler Reply) : Handler Reply :=
  match jsonEscapeString (NM_MAX_NAME * 2) name, jsonEscapeString (NM_MAX_NAME * 2) tag,
    jsonEscapeString (NM_MAX_USER * 2) user with
  | some name, some tag, some user =>
    match format MAX_JSON (checkpointFields type name tag user) with
    | none => refuse .INTERNAL "payload too large"
    | some payload => next payload
  | _, _, _ => refuse .INTERNAL "encoding error"

/-- The command to the backup, whose reply is only logged. -/
def tellBackup (primary backup : Int) (payload : Text) (next : Handler Reply) : Handler Reply :=
  if backup < 0 then next
  else
    .read fun state =>
      if backup ≠ primary ∧ (nmGetServer state backup).any fun ss => decide (ss.ctrlFd ≥ 0) then
        .ask (.forward backup payload) fun _ => next
      else next

/-- `handle_client_checkpoint`. -/
def handleClientCheckpoint (user json : Text) (now : Int) : Handler Reply :=
  checkpointSection user json NM_PERM_WRITE "no write access" checkpointFree fun name tag file =>
    withPrimary file.ssIndex <| withCheckpointPayload "NM_CHECKPOINT_CREATE" name tag user fun payload =>
      .ask (.forward file.ssIndex payload) fun
        | none => refuse .UNAVAILABLE "primary unreachable"
        | some reply =>
          if !isOk reply then refuse .INTERNAL "checkpoint failed"
          else
            .lock <| .read fun state =>
              match nmFindFile state name with
              | none => .unlock <| refuse .NOTFOUND "file missing"
              | some current =>
                if (nmFileFindCheckpoint current tag).isSome then .unlock <| refuse .EXISTS "checkpoint exists"
                else
                  match nmFileAddCheckpoint state name tag user now with
                  | none => .unlock <| refuse .INTERNAL "checkpoint limit reached"
                  | some state =>
                    .write state <| .unlock <|
                      tellBackup file.ssIndex file.backupIndex payload <| accept (opField "CHECKPOINT")

/-- `forward_to_available_server` on the servers as they were read. -/
def forwardToAvailableServer (primary backup : Int) (payload : Text) : Handler (Option Text) :=
  .read fun state =>
    let connected (i : Int) : Bool := (nmGetServer state i).any fun ss => decide (ss.ctrlFd ≥ 0)
    let askBackup : Handler (Option Text) :=
      if backup ≠ primary ∧ connected backup then .ask (.forward backup payload) .done else .done none
    if connected primary then
      .ask (.forward primary payload) fun
        | some reply => .done (some reply)
        | none => askBackup
    else askBackup

/-- `handle_client_viewcheckpoint`. -/
def handleClientViewcheckpoint (user json : Text) : Handler Reply :=
  checkpointSection user json NM_PERM_READ "no read access" checkpointFound fun name tag file =>
    .read fun state =>
      if (nmGetServer state file.ssIndex).isNone ∧ (nmGetServer state file.backupIndex).isNone then
        refuse .UNAVAILABLE "no storage available"
      else
        withCheckpointPayload "NM_CHECKPOINT_VIEW" name tag user fun payload =>
          (forwardToAvailableServer file.ssIndex file.backupIndex payload).bind fun
            | none => refuse .UNAVAILABLE "checkpoint unavailable"
            | some reply =>
              if !isOk reply then refuse .INTERNAL "checkpoint view failed"
              else
                match jsonGetStringAlloc reply (Text.lit "content") true with
                | none => refuse .INTERNAL "missing content"
                | some content =>
                  let extra := printFields [(Text.lit "content", .string (jsonEscape content))]
                  if extra.length ≥ MAX_JSON then refuse .INTERNAL "response too large" else accept extra

/-- `handle_client_revert`. -/
def handleClientRevert (user json : Text) : Handler Reply :=
  checkpointSection user json NM_PERM_WRITE "no write access" checkpointFound fun name tag file =>
    withPrimary file.ssIndex <| withCheckpointPayload "NM_CHECKPOINT_REVERT" name tag user fun payload =>
      .ask (.forward file.ssIndex payload) fun
        | none => refuse .UNAVAILABLE "primary unreachable"
        | some reply =>
          if !isOk reply then refuse .INTERNAL "revert failed"
          else tellBackup file.ssIndex file.backupIndex payload <| accept (opField "REVERT")

/-- The loop of `handle_client_listcheckpoints`. -/
def listCheckpointsLoop : List CheckpointEntry → Bool → Text → Except Response Text
  | [], _, buf => .ok buf
  | entry :: rest, first, buf =>
    match jsonEscapeString (NM_MAX_NAME * 2) entry.tag, jsonEscapeString (NM_MAX_USER * 2) entry.user with
    | some tag, some user =>
      let text := printMessage
        [(Text.lit "tag", .string tag), (Text.lit "user", .string user),
          (Text.lit "timestamp", .string (printInt entry.timestamp))]
      match jsonAppend (if first then some buf else jsonAppend (some buf) [',']) text with
      | none => .error (.error .INTERNAL (Text.lit "response too large"))
      | some buf => listCheckpointsLoop rest false buf
    | _, _ => .error (.error .INTERNAL (Text.lit "encoding error"))

/-- `handle_client_listcheckpoints`. -/
def handleClientListcheckpoints (user json : Text) : Handler Reply :=
  match jsonFile json with
  | none => refuse .BADREQ "missing file"
  | some name =>
    .lock <| .read fun state =>
      match nmFindFile state name with
      | none => .unlock <| refuse .NOTFOUND "file not found"
      | some file =>
        if !fileHasAccess file user NM_PERM_READ then .unlock <| refuse .NOAUTH "no read access"
        else
          match jsonEscapeString (NM_MAX_NAME * 2) name with
          | none => .unlock <| refuse .INTERNAL "encoding error"
          | some escaped =>
            let lead := printFields [(Text.lit "file", .string escaped)] ++ Text.lit ",\"checkpoints\":["
            match jsonAppend (some []) lead with
            | none => .unlock <| refuse .INTERNAL "response too large"
            | some buf =>
              match listCheckpointsLoop file.checkpoints true buf with
              | .error response => .unlock <| .done (.error response)
              | .ok buf =>
                match jsonAppend (some buf) [']'] with
                | none => .unlock <| refuse .INTERNAL "response too large"
                | some extra => .unlock <| accept extra

/-! ## Requests -/

/-- `handle_client_message`; after a `CLIENT_EXIT` the peer is closed. -/
def handleClientMessage (user json : Text) (now : Int) : Handler Reply :=
  match jsonGetString json (Text.lit "type") 64 with
  | none => refuse .BADREQ "missing type"
  | some type =>
    if type = Text.lit "VIEW" then handleClientView user json
    else if type = Text.lit "LIST" then handleClientListUsers
    else if type = Text.lit "INFO" then handleClientInfo user json
    else if type = Text.lit "CREATE" then handleClientCreate user json now
    else if type = Text.lit "DELETE" then handleClientDelete user json
    else if type = Text.lit "READ" then handleClientRead user json now
    else if type = Text.lit "WRITE" then handleClientWrite user json now
    else if type = Text.lit "STREAM" then handleClientStream user json now
    else if type = Text.lit "CHECKPOINT" then handleClientCheckpoint user json now
    else if type = Text.lit "VIEWCHECKPOINT" then handleClientViewcheckpoint user json
    else if type = Text.lit "REVERT" then handleClientRevert user json
    else if type = Text.lit "LISTCHECKPOINTS" then handleClientListcheckpoints user json
    else if type = Text.lit "ADDACCESS" then handleClientAddaccess user json
    else if type = Text.lit "REMACCESS" then handleClientRemoveaccess user json
    else if type = Text.lit "REQACCESS" then handleClientReqaccess user json
    else if type = Text.lit "VIEWREQS" then handleClientViewreqs user json
    else if type = Text.lit "HANDLEREQ" then handleClientHandlereq user json
    else if type = Text.lit "UNDO" then handleClientUndo user json
    else if type = Text.lit "EXEC" then handleClientExec user json now
    else if type = Text.lit "CLIENT_EXIT" then accept (opField "EXIT")
    else refuse .BADREQ "unsupported type"

/-! ## The lock is given back -/

/-- The names in the file table fit their arrays. -/
structure FitsArrays (state : NmState) : Prop where
  name : ∀ file ∈ state.files, file.name.length < NM_MAX_NAME
  owner : ∀ file ∈ state.files, file.owner.length < NM_MAX_USER
  lastAccessUser : ∀ file ∈ state.files, file.lastAccessUser.length < NM_MAX_USER

theorem fitsArrays_of_stored {state : NmState} (h : state.Stored) : FitsArrays state where
  name file hf := (h.files file hf).name.2
  owner file hf := (h.files file hf).owner.2
  lastAccessUser file hf := (h.files file hf).lastAccessUser.2

/-- Started with the lock held or free, the handler locks, unlocks and writes in turn and ends with the lock free,
whatever it finds and is answered. -/
abbrev Settles {α : Type} (p : Handler α) (held : Bool) : Prop := p.wp FitsArrays (fun _ held => held = false) held

section Settles

variable {user json name payload : Text} {now : Int} {held : Bool}

/-- A name in its array, escaped, fits a buffer of 256. -/
theorem jsonEscapeString_isSome {s : Text} (h : s.length < NM_MAX_NAME) :
    jsonEscapeString 256 s = some (jsonEscape s) := jsonEscapeString_of_length (n := NM_MAX_NAME) h

theorem viewEntry_isSome (state : NmState) (long : Bool) {file : FileEntry}
    (hname : file.name.length < NM_MAX_NAME) (howner : file.owner.length < NM_MAX_USER)
    (hlast : file.lastAccessUser.length < NM_MAX_USER) :
    (viewEntry state long file).isSome = true := by
  unfold viewEntry
  rw [jsonEscapeString_isSome hname, jsonEscapeString_isSome (howner.trans (by decide)),
    jsonEscapeString_isSome (hlast.trans (by decide))]
  dsimp only
  split <;> rfl

/-- The loop of `VIEW` comes to its end. -/
theorem viewLoop_isSome (state : NmState) (user : Text) (all long : Bool) {files : List FileEntry} (first : Bool)
    (buf : Option Text) (hname : ∀ file ∈ files, file.name.length < NM_MAX_NAME)
    (howner : ∀ file ∈ files, file.owner.length < NM_MAX_USER)
    (hlast : ∀ file ∈ files, file.lastAccessUser.length < NM_MAX_USER) :
    (viewLoop state user all long files first buf).isSome = true := by
  induction files generalizing first buf with
  | nil => rfl
  | cons file rest ih =>
    rw [List.forall_mem_cons] at hname howner hlast
    unfold viewLoop
    split
    · exact ih _ _ hname.2 howner.2 hlast.2
    · obtain ⟨pieces, hpieces⟩ := Option.isSome_iff_exists.1
        (viewEntry_isSome state long hname.1 howner.1 hlast.1)
      rw [hpieces]
      exact ih _ _ hname.2 howner.2 hlast.2

theorem settles_view : Settles (handleClientView user json) false := by
  refine Prog.wp_section fun state hstate => ?_
  obtain ⟨buf, hbuf⟩ := Option.isSome_iff_exists.1 (viewLoop_isSome state user ((viewFlags json).contains 'a')
    ((viewFlags json).contains 'l') true (jsonAppend (some []) (Text.lit "\"files\":["))
    hstate.name hstate.owner hstate.lastAccessUser)
  rw [hbuf]
  dsimp only
  split
  · exact Prog.wp_unlock rfl
  · exact Prog.wp_unlock rfl

theorem settles_listUsers : Settles handleClientListUsers false := by
  refine Prog.wp_section fun state _ => ?_
  split
  · exact Prog.wp_unlock rfl
  · split
    · exact Prog.wp_unlock rfl
    · exact Prog.wp_unlock rfl

theorem settles_info : Settles (handleClientInfo user json) false := by
  unfold handleClientInfo
  split
  · rfl
  · refine Prog.wp_section fun state _ => ?_
    split
    · exact Prog.wp_unlock rfl
    · split_ifs
      · exact Prog.wp_unlock rfl
      · split
        · split
          · exact Prog.wp_unlock rfl
          · exact Prog.wp_unlock rfl
        · exact Prog.wp_unlock rfl

theorem settles_markDown {α : Type} {server : Int} {next : Handler α} (h : Settles next false) :
    Settles (markDown server next) false := Prog.wp_section fun _ _ => Prog.wp_write (Prog.wp_unlock h)

/-- The servers are asked with the lock free. -/
theorem settles_offerBackup {primary : Nat} {servers : List Nat} :
    Settles (offerBackup primary payload servers) false := by
  induction servers with
  | nil => rfl
  | cons i rest ih =>
    unfold offerBackup
    split_ifs
    · exact ih
    · refine ⟨rfl, Prog.wp_unlock (Prog.wp_read fun state _ => ?_)⟩
      split_ifs
      · exact ih
      · refine Prog.wp_ask fun reply => ?_
        split
        · exact ih
        · split_ifs
          · rfl
          · exact ih

theorem settles_addFile {primary : Nat} {backup : Int} : Settles (addFile user name now primary backup) false := by
  refine Prog.wp_section fun state _ => ?_
  split
  · exact Prog.wp_unlock rfl
  · exact Prog.wp_write (Prog.wp_unlock rfl)

theorem settles_create : Settles (handleClientCreate user json now) false := by
  unfold handleClientCreate
  split
  · rfl
  · split_ifs
    · rfl
    · rfl
    · refine Prog.wp_section fun state _ => ?_
      split_ifs
      · exact Prog.wp_unlock rfl
      · split
        · exact Prog.wp_write (Prog.wp_unlock rfl)
        · refine Prog.wp_write ?_
          split_ifs
          · exact Prog.wp_unlock rfl
          · refine Prog.wp_unlock (Prog.wp_read fun state _ => ?_)
            split_ifs
            · rfl
            · split
              · rfl
              · refine Prog.wp_ask fun reply => ?_
                split
                · exact settles_markDown rfl
                · split_ifs
                  · rfl
                  · refine Prog.wp_section fun state _ => ?_
                    exact Prog.wp_unlock (Prog.wp_bind_free settles_offerBackup fun _ => settles_addFile)

theorem settles_issueTicket {server : Int} {file op : Text} {expiry : Int} :
    Settles (issueTicket server file user op expiry) false := by
  refine Prog.wp_ask fun drawn => ?_
  dsimp only
  split
  · rfl
  · refine Prog.wp_ask fun reply => ?_
    split
    · rfl
    · split_ifs
      · rfl
      · exact Prog.wp_ask fun _ => rfl

/-- Each attempt ends with the lock free. -/
theorem settles_obtainTicketForFile {perm : BitVec 32} {op : Text} {attempts : Nat} :
    Settles (obtainTicketForFile name user perm op now attempts) false := by
  induction attempts with
  | zero => rfl
  | succ attempts ih =>
    refine Prog.wp_section fun state _ => ?_
    split
    · exact Prog.wp_unlock rfl
    · split_ifs
      · exact Prog.wp_unlock rfl
      · split
        · exact Prog.wp_write (Prog.wp_unlock rfl)
        · refine Prog.wp_write (Prog.wp_unlock (Prog.wp_bind_free settles_issueTicket fun token => ?_))
          cases token with
          | some token => exact Prog.wp_section fun _ _ => Prog.wp_write (Prog.wp_unlock rfl)
          | none => exact settles_markDown ih

theorem settles_refuseTicket {code : ErrorCode} {denied : String} : Settles (refuseTicket code denied) false := by
  unfold refuseTicket
  split <;> rfl

theorem settles_respondWithEndpoint {server : Int} {op token : Text} {sentence : Int} :
    Settles (respondWithEndpoint name server op token sentence) false := by
  refine Prog.wp_read fun state _ => ?_
  split
  · rfl
  · split
    · split <;> rfl
    · rfl

theorem settles_lookupCommon {op : String} {perm : BitVec 32} {includeSentence : Bool} :
    Settles (handleLookupCommon user json now op perm includeSentence) false := by
  unfold handleLookupCommon
  split
  · rfl
  · refine Prog.wp_bind_free settles_obtainTicketForFile fun ticket => ?_
    cases ticket with
    | error code => exact settles_refuseTicket
    | ok ticket => exact settles_respondWithEndpoint

theorem settles_exec : Settles (handleClientExec user json now) false := by
  unfold handleClientExec
  split
  · rfl
  · refine Prog.wp_bind_free settles_obtainTicketForFile fun ticket => ?_
    cases ticket with
    | error code => exact settles_refuseTicket
    | ok ticket =>
      refine Prog.wp_ask fun content => ?_
      split
      · rfl
      · refine Prog.wp_ask fun output => ?_
        split
        · rfl
        · dsimp only
          split_ifs
          · rfl
          · rfl

theorem settles_addaccess : Settles (handleClientAddaccess user json) false := by
  unfold handleClientAddaccess
  split
  · refine Prog.wp_section fun state _ => ?_
    split
    · exact Prog.wp_unlock rfl
    · split_ifs
      · exact Prog.wp_unlock rfl
      · split
        · exact Prog.wp_unlock rfl
        · exact Prog.wp_write (Prog.wp_unlock rfl)
  · rfl

theorem settles_removeaccess : Settles (handleClientRemoveaccess user json) false := by
  unfold handleClientRemoveaccess
  split
  · refine Prog.wp_section fun state _ => ?_
    split
    · exact Prog.wp_unlock rfl
    · split_ifs
      · exact Prog.wp_unlock rfl
      · exact Prog.wp_write (Prog.wp_unlock rfl)
  · rfl

theorem settles_reqaccess : Settles (handleClientReqaccess user json) false := by
  unfold handleClientReqaccess
  split
  · split
    · rfl
    · refine Prog.wp_section fun state _ => ?_
      split
      · exact Prog.wp_unlock rfl
      · split_ifs
        · exact Prog.wp_unlock rfl
        · exact Prog.wp_unlock rfl
        · split
          · exact Prog.wp_unlock rfl
          · exact Prog.wp_write (Prog.wp_unlock rfl)
  · rfl

theorem settles_viewreqs : Settles (handleClientViewreqs user json) false := by
  unfold handleClientViewreqs
  split
  · rfl
  · dsimp only
    split_ifs
    · rfl
    · refine Prog.wp_section fun state _ => ?_
      split
      · exact Prog.wp_unlock rfl
      · split
        · exact Prog.wp_unlock rfl
        · exact Prog.wp_unlock rfl

theorem settles_handlereq : Settles (handleClientHandlereq user json) false := by
  unfold handleClientHandlereq
  split
  · dsimp only
    split
    · rfl
    · refine Prog.wp_section fun state _ => ?_
      split
      · exact Prog.wp_unlock rfl
      · split
        · exact Prog.wp_unlock rfl
        · split
          · exact Prog.wp_unlock rfl
          · split
            · exact Prog.wp_unlock rfl
            · split
              · exact Prog.wp_unlock rfl
              · split
                · split
                  · exact Prog.wp_unlock rfl
                  · exact Prog.wp_write (Prog.wp_unlock rfl)
                · exact Prog.wp_write (Prog.wp_unlock rfl)
  · rfl

theorem settles_undo : Settles (handleClientUndo user json) false := by
  unfold handleClientUndo
  split
  · rfl
  · refine Prog.wp_section fun state _ => ?_
    split
    · exact Prog.wp_unlock rfl
    · split_ifs
      · exact Prog.wp_unlock rfl
      · split
        · exact Prog.wp_write (Prog.wp_unlock rfl)
        · refine Prog.wp_write (Prog.wp_unlock ?_)
          split
          · rfl
          · refine Prog.wp_ask fun reply => ?_
            split
            · exact settles_markDown rfl
            · split_ifs
              · rfl
              · rfl

/-- What follows the first section has the lock free. -/
theorem settles_checkpointSection {perm : BitVec 32} {denied : String}
    {check : FileEntry → Text → Option (ErrorCode × String)} {next : Text → Text → FileEntry → Handler Reply}
    (h : ∀ name tag file, Settles (next name tag file) false) :
    Settles (checkpointSection user json perm denied check next) false := by
  unfold checkpointSection
  split
  · split_ifs
    · rfl
    · refine Prog.wp_section fun state _ => ?_
      split
      · exact Prog.wp_unlock rfl
      · split_ifs
        · exact Prog.wp_unlock rfl
        · split
          · exact Prog.wp_unlock rfl
          · exact Prog.wp_unlock (h _ _ _)
  · rfl

theorem settles_withPrimary {primary : Int} {next : Handler Reply} (h : Settles next false) :
    Settles (withPrimary primary next) false := by
  unfold withPrimary
  split_ifs
  · rfl
  · refine Prog.wp_read fun state _ => ?_
    split_ifs
    · rfl
    · exact h

theorem settles_withCheckpointPayload {type : String} {tag : Text} {next : Text → Handler Reply}
    (h : ∀ payload, Settles (next payload) false) :
    Settles (withCheckpointPayload type name tag user next) false := by
  unfold withCheckpointPayload
  split
  · split
    · rfl
    · exact h _
  · rfl

theorem settles_tellBackup {primary backup : Int} {next : Handler Reply} (h : Settles next false) :
    Settles (tellBackup primary backup payload next) false := by
  unfold tellBackup
  split_ifs
  · exact h
  · refine Prog.wp_read fun state _ => ?_
    split_ifs
    · exact Prog.wp_ask fun _ => h
    · exact h

theorem settles_checkpoint : Settles (handleClientCheckpoint user json now) false := by
  refine settles_checkpointSection fun name tag file => ?_
  refine settles_withPrimary (settles_withCheckpointPayload fun payload => Prog.wp_ask fun reply => ?_)
  split
  · rfl
  · split_ifs
    · rfl
    · refine Prog.wp_section fun state _ => ?_
      split
      · exact Prog.wp_unlock rfl
      · split_ifs
        · exact Prog.wp_unlock rfl
        · split
          · exact Prog.wp_unlock rfl
          · exact Prog.wp_write (Prog.wp_unlock (settles_tellBackup rfl))

theorem settles_forwardToAvailableServer {primary backup : Int} :
    Settles (forwardToAvailableServer primary backup payload) false := by
  refine Prog.wp_read fun state _ => ?_
  dsimp only
  split_ifs
  · refine Prog.wp_ask fun reply => ?_
    split
    · rfl
    · exact Prog.wp_ask fun _ => rfl
  · refine Prog.wp_ask fun reply => ?_
    split <;> rfl
  · exact Prog.wp_ask fun _ => rfl
  · rfl

theorem settles_viewcheckpoint : Settles (handleClientViewcheckpoint user json) false := by
  refine settles_checkpointSection fun name tag file => Prog.wp_read fun state _ => ?_
  split_ifs
  · rfl
  · refine settles_withCheckpointPayload fun payload => ?_
    refine Prog.wp_bind_free settles_forwardToAvailableServer fun reply => ?_
    cases reply with
    | none => rfl
    | some reply =>
      dsimp only
      split_ifs
      · rfl
      · split
        · rfl
        · split_ifs
          · rfl
          · rfl

theorem settles_revert : Settles (handleClientRevert user json) false := by
  refine settles_checkpointSection fun name tag file => ?_
  refine settles_withPrimary (settles_withCheckpointPayload fun payload => Prog.wp_ask fun reply => ?_)
  split
  · rfl
  · split_ifs
    · rfl
    · exact settles_tellBackup rfl

theorem settles_listcheckpoints : Settles (handleClientListcheckpoints user json) false := by
  unfold handleClientListcheckpoints
  split
  · rfl
  · refine Prog.wp_section fun state _ => ?_
    split
    · exact Prog.wp_unlock rfl
    · split_ifs
      · exact Prog.wp_unlock rfl
      · split
        · exact Prog.wp_unlock rfl
        · dsimp only
          split
          · exact Prog.wp_unlock rfl
          · split
            · exact Prog.wp_unlock rfl
            · split
              · exact Prog.wp_unlock rfl
              · exact Prog.wp_unlock rfl

end Settles

/-! ## The lock that is not taken -/

/-- The request is a `DELETE` that finds its file and a server for it, and the server answers `OK`. -/
def Deleted (user json : Text) (found : NmState) (answer : Option Text) : Prop :=
  jsonGetString json (Text.lit "type") 64 = some (Text.lit "DELETE") ∧
    (∃ r, (deleteBegin found user json).1 = .ok r) ∧ ∃ reply, answer = some reply ∧ isOk reply = true

section Runs

variable {user json : Text} {now : Int} {reads : Nat → NmState} {answers : Nat → Option Text}

/-- The name of a file fits the payload, and an answer `OK` leads to the exit that nothing locked for. -/
theorem orderly_sendDelete_iff {name : Text} {slot : Option Nat} {server : Int} (hname : name.length < NM_MAX_NAME) :
    Orderly false ((sendDelete name slot server).acts reads answers) ↔
      ¬ ∃ reply, answers 0 = some reply ∧ isOk reply = true := by
  have hpayload : format 256 (deleteFields name) = some (printMessage (deleteFields name)) := by
    have hname : List.length name < 128 := hname
    refine format_eq ?_
    simp [deleteFields, typeField, Value.print, Text.lit]
    omega
  unfold sendDelete
  rw [hpayload]
  dsimp only [Prog.acts]
  cases hanswer : answers 0 with
  | none => simp [markDown, refuse, Prog.acts, Orderly]
  | some reply =>
    by_cases hok : isOk reply = true
    · simp [hok, Prog.acts, Orderly]
    · simp [hok, refuse, Prog.acts, Orderly]

theorem orderly_delete_iff :
    Orderly false ((handleClientDelete user json).acts reads answers) ↔
      ¬ ((∃ r, (deleteBegin (reads 0) user json).1 = .ok r) ∧
        ∃ reply, answers 0 = some reply ∧ isOk reply = true) := by
  unfold handleClientDelete deleteBegin selectForRequest
  cases hname : jsonFile json with
  | none => simp [refuse, Prog.acts, Orderly]
  | some name =>
    dsimp only [Prog.acts]
    cases hfile : nmFindFile (reads 0) name with
    | none => simp [refuse, Prog.acts, Orderly]
    | some file =>
      dsimp only
      by_cases haccess : (!fileHasAccess file user NM_PERM_WRITE) = true
      · rw [if_pos haccess, if_pos haccess]
        simp [refuse, Prog.acts, Orderly]
      · rw [if_neg haccess, if_neg haccess]
        obtain ⟨chosen, selected⟩ := selectStorageServer (reads 0) name
        cases chosen with
        | none => simp [refuse, Prog.acts, Orderly]
        | some i =>
          have hshort : name.length < NM_MAX_NAME := length_jsonGetString_lt hname
          simpa [Prog.acts, Orderly] using orderly_sendDelete_iff hshort

/-- Requests of the other types give the lock back. -/
theorem settles_message (user : Text) (now : Int)
    (htype : jsonGetString json (Text.lit "type") 64 ≠ some (Text.lit "DELETE")) :
    Settles (handleClientMessage user json now) false := by
  unfold handleClientMessage
  split
  · rfl
  · next type hread =>
    have hdelete : type ≠ Text.lit "DELETE" := fun h => htype (by rw [hread, h])
    refine Prog.wp_ite (fun _ => settles_view) ?_
    refine Prog.wp_ite (fun _ => settles_listUsers) ?_
    refine Prog.wp_ite (fun _ => settles_info) ?_
    refine Prog.wp_ite (fun _ => settles_create) ?_
    refine Prog.wp_ite (fun h => absurd h hdelete) ?_
    refine Prog.wp_ite (fun _ => settles_lookupCommon) ?_
    refine Prog.wp_ite (fun _ => settles_lookupCommon) ?_
    refine Prog.wp_ite (fun _ => settles_lookupCommon) ?_
    refine Prog.wp_ite (fun _ => settles_checkpoint) ?_
    refine Prog.wp_ite (fun _ => settles_viewcheckpoint) ?_
    refine Prog.wp_ite (fun _ => settles_revert) ?_
    refine Prog.wp_ite (fun _ => settles_listcheckpoints) ?_
    refine Prog.wp_ite (fun _ => settles_addaccess) ?_
    refine Prog.wp_ite (fun _ => settles_removeaccess) ?_
    refine Prog.wp_ite (fun _ => settles_reqaccess) ?_
    refine Prog.wp_ite (fun _ => settles_viewreqs) ?_
    refine Prog.wp_ite (fun _ => settles_handlereq) ?_
    refine Prog.wp_ite (fun _ => settles_undo) ?_
    refine Prog.wp_ite (fun _ => settles_exec) ?_
    exact Prog.wp_ite (fun _ => rfl) rfl

theorem handleClientMessage_delete (htype : jsonGetString json (Text.lit "type") 64 = some (Text.lit "DELETE")) :
    handleClientMessage user json now = handleClientDelete user json := by
  unfold handleClientMessage
  rw [htype]
  rfl

/-- Of all requests, whatever they find and are answered, only a `DELETE` that its server carried out does not lock,
unlock and write in turn. -/
theorem orderly_iff (hreads : ∀ n, FitsArrays (reads n)) :
    Orderly false ((handleClientMessage user json now).acts reads answers) ↔
      ¬ Deleted user json (reads 0) (answers 0) := by
  by_cases htype : jsonGetString json (Text.lit "type") 64 = some (Text.lit "DELETE")
  · rw [handleClientMessage_delete htype, orderly_delete_iff, Deleted, and_iff_right htype]
  · have h := Prog.orderly_of_wp (settles_message user now htype) hreads answers
    exact iff_of_true h fun hdeleted => htype hdeleted.1

end Runs

/-- A server with a file of `alice`. -/
def aliceFile : NmState where
  servers := [⟨Text.lit "s", Text.lit "h", Text.lit "1", Text.lit "2", 5, true⟩]
  nextPrimaryIndex := 0
  nextBackupIndex := 0
  files := [newFileEntry (Text.lit "f") (Text.lit "alice") 0 (-1) 0]
  users := []
  cache := []
  requests := []

theorem fitsArrays_aliceFile : FitsArrays aliceFile where
  name := List.forall_mem_singleton.2 (by decide)
  owner := List.forall_mem_singleton.2 (by decide)
  lastAccessUser := List.forall_mem_singleton.2 (by decide)

/-- A message with these strings. -/
def message (fields : List (String × String)) : Text :=
  printMessage (fields.map fun f => (Text.lit f.1, .string (Text.lit f.2)))

/-- The server refuses. -/
theorem orderly_refused :
    Orderly false ((handleClientMessage (Text.lit "alice") (message [("type", "DELETE"), ("file", "f")]) 0).acts
      (fun _ => aliceFile) fun _ => some (message [("status", "ERR")])) := by
  refine (orderly_iff fun _ => fitsArrays_aliceFile).2 fun hdeleted => ?_
  obtain ⟨-, -, reply, hreply, hok⟩ := hdeleted
  cases hreply
  revert hok
  decide +kernel

/-- The server has removed the file. -/
theorem deleted_not_orderly :
    ∃ answers, ¬ Orderly false
      ((handleClientMessage (Text.lit "alice") (message [("type", "DELETE"), ("file", "f")]) 0).acts
        (fun _ => aliceFile) answers) :=
  ⟨fun _ => some (message [("status", "OK")]), by decide +kernel⟩

end CoWrite.Cluster.Handlers
