import CoWrite.Common.Error
import CoWrite.Lib.Runs
import CoWrite.Nm.State

/-!
# Requests that change the tables

The handlers of `nm_main.c`, each cut where it gives the state lock back: the tables before and after
a section, and the reply it ends the request with, if it ends it. `Event` lists the sections, and
`tables` is the system of their runs.

Every section keeps `Kept`: what is stored fits the buffers and number types, names of files are
valid and differ, users are named.
-/

namespace CoWrite.Nm

open CoWrite.Lib

/-- What `send_ok` and `send_error_response` are given. -/
inductive Response where
  | ok (op : Text)
  | error (code : ErrorCode) (message : Text)
deriving DecidableEq, Repr

/-- The name of a client peer: `CLIENT_HELLO` accepts no other. -/
structure Client where
  text : Text
  named : text ≠ []
  short : text.length < NM_MAX_USER

/-- A reading of the clock. -/
structure Time where
  val : Int
  lower : LONG_MIN ≤ val
  upper : val ≤ LONG_MAX

def jsonFile (json : Text) : Option Text := jsonGetString json (Text.lit "file") NM_MAX_NAME

/-! ## Handshakes -/

/-- `handle_handshake` at `CLIENT_HELLO`; `inUse` is what `active_users` says of the name. -/
def handleClientHello (state : NmState) (json : Text) (inUse : Bool) (now : Int) :
    Response × NmState :=
  match jsonGetString json (Text.lit "user") NM_MAX_USER with
  | none => (.error .BADREQ (Text.lit "missing user"), state)
  | some user =>
    if user = [] then (.error .INTERNAL (Text.lit "failed to register user"), state)
    else if inUse then (.error .CONFLICT (Text.lit "username already in use"), state)
    else (.ok (Text.lit "CLIENT"), nmAddUser state user now)

/-- `handle_ss_register` up to its acknowledgement. -/
def handleSsRegister (state : NmState) (json : Text) (fd : Nat) : Response × NmState :=
  match jsonGetString json (Text.lit "ssId") 64, jsonGetString json (Text.lit "host") 64,
    jsonGetString json (Text.lit "ctrlPort") 16, jsonGetString json (Text.lit "dataPort") 16 with
  | some id, some host, some ctrlPort, some dataPort =>
    match nmRegisterServer state id host ctrlPort dataPort fd with
    | (none, state) => (.error .INTERNAL (Text.lit "too many servers"), state)
    | (some _, state) => (.ok (Text.lit "SS"), state)
  | _, _, _, _ => (.error .BADREQ (Text.lit "invalid register payload"), state)

/-! ## Files -/

/-- `handle_client_create` up to the RPC: the server it picks. -/
def createBegin (state : NmState) (user json : Text) : Except Response (Text × Nat) × NmState :=
  match jsonFile json with
  | none => (.error (.error .BADREQ (Text.lit "missing file")), state)
  | some file =>
    if !validFilename file then (.error (.error .BADREQ (Text.lit "invalid name")), state)
    else if user = [] then (.error (.error .NOAUTH (Text.lit "anonymous user")), state)
    else if (nmFindFile state file).isSome then
      (.error (.error .EXISTS (Text.lit "file exists")), state)
    else
      match nmPickServer state with
      | (none, state) => (.error (.error .UNAVAILABLE (Text.lit "no storage server")), state)
      | (some i, state) => (.ok (file, i), state)

/-- The end of `handle_client_create`. -/
def createEnd (state : NmState) (user file : Text) (primary backup now : Int) :
    Response × NmState :=
  match nmAddFile state file user primary backup now with
  | none => (.error .INTERNAL (Text.lit "state update failed"), state)
  | some state =>
    let state := (nmGrantAccess state file user (NM_PERM_WRITE ||| NM_PERM_READ)).getD state
    (.ok (Text.lit "CREATE"), nmCachePut state file primary now)

/-- The first section of the requests that go to the server of a file: who may not is told
`denied`. -/
def selectForRequest (state : NmState) (user json : Text) (perm : BitVec 32) (denied : Text) :
    Except Response (Text × Int) × NmState :=
  match jsonFile json with
  | none => (.error (.error .BADREQ (Text.lit "missing file")), state)
  | some name =>
    match nmFindFile state name with
    | none => (.error (.error .NOTFOUND (Text.lit "file not found")), state)
    | some file =>
      if !fileHasAccess file user perm then (.error (.error .NOAUTH denied), state)
      else
        match selectStorageServer state name with
        | (none, state) => (.error (.error .UNAVAILABLE (Text.lit "server offline")), state)
        | (some i, state) => (.ok (name, i), state)

/-- `handle_client_delete` up to the RPC; it selects twice. -/
def deleteBegin (state : NmState) (user json : Text) : Except Response (Text × Int) × NmState :=
  match selectForRequest state user json NM_PERM_WRITE (Text.lit "no write access") with
  | (.ok (name, i), state) =>
    let (j, state) := selectStorageServer state name
    (.ok (name, j.getD i), state)
  | r => r

/-- The end of `handle_client_delete`. -/
def deleteEnd (state : NmState) (name : Text) : Response × NmState :=
  (.ok (Text.lit "DELETE"), (nmRemoveFile state name).getD state)

/-- `handle_client_undo` up to the RPC. -/
def undoBegin (state : NmState) (user json : Text) : Except Response (Text × Int) × NmState :=
  selectForRequest state user json NM_PERM_WRITE (Text.lit "no write access")

/-- One attempt of `obtain_ticket_for_file` up to the RPC. -/
def ticketBegin (state : NmState) (user json : Text) (perm : BitVec 32) :
    Except Response (Text × Int) × NmState :=
  selectForRequest state user json perm (Text.lit "access denied")

/-- The end of `handle_client_checkpoint`, its tag checked before. -/
def checkpointEnd (state : NmState) (user name tag : Text) (now : Int) : Response × NmState :=
  match nmFindFile state name with
  | none => (.error .NOTFOUND (Text.lit "file missing"), state)
  | some file =>
    if (nmFileFindCheckpoint file tag).isSome then
      (.error .EXISTS (Text.lit "checkpoint exists"), state)
    else
      match nmFileAddCheckpoint state name tag user now with
      | none => (.error .INTERNAL (Text.lit "checkpoint limit reached"), state)
      | some state => (.ok (Text.lit "CHECKPOINT"), state)

/-! ## Access -/

/-- The flags of a mode: `W` or `w` adds writing to reading. -/
def modePerm (mode : Text) : BitVec 32 :=
  if 'W' ∈ mode ∨ 'w' ∈ mode then NM_PERM_READ ||| NM_PERM_WRITE else NM_PERM_READ

/-- `handle_client_addaccess`. -/
def handleClientAddaccess (state : NmState) (user json : Text) : Response × NmState :=
  match jsonFile json, jsonGetString json (Text.lit "user") NM_MAX_USER,
    jsonGetString json (Text.lit "mode") 8 with
  | some name, some target, some mode =>
    match nmFindFile state name with
    | none => (.error .NOTFOUND (Text.lit "file not found"), state)
    | some file =>
      if file.owner ≠ user then (.error .NOAUTH (Text.lit "only owner"), state)
      else
        match nmGrantAccess state name target (modePerm mode) with
        | none => (.error .INTERNAL (Text.lit "grant failed"), state)
        | some state => (.ok (Text.lit "ADDACCESS"), state)
  | _, _, _ => (.error .BADREQ (Text.lit "missing fields"), state)

/-- `handle_client_removeaccess`. -/
def handleClientRemoveaccess (state : NmState) (user json : Text) : Response × NmState :=
  match jsonFile json, jsonGetString json (Text.lit "user") NM_MAX_USER with
  | some name, some target =>
    match nmFindFile state name with
    | none => (.error .NOTFOUND (Text.lit "file not found"), state)
    | some file =>
      if file.owner ≠ user then (.error .NOAUTH (Text.lit "only owner"), state)
      else (.ok (Text.lit "REMACCESS"), nmRemoveAccess state name target)
  | _, _ => (.error .BADREQ (Text.lit "missing fields"), state)

/-- `find_access_request`. -/
def findAccessRequest (state : NmState) (file requester : Text) : Option Nat :=
  state.requests.findIdx? fun req => req.file == file && req.requester == requester

/-- The end of `handle_client_reqaccess`: the requester's entry for the file, made when there is none,
is pending again. -/
def requestAccess (state : NmState) (file owner requester : Text) (perm : BitVec 32) :
    Option NmState :=
  match findAccessRequest state file requester with
  | some i =>
    let ask (req : AccessRequest) : AccessRequest :=
      { req with owner := Text.copyTo NM_MAX_USER owner, perm := perm, status := NM_REQUEST_PENDING }
    some { state with requests := state.requests.modify i ask }
  | none =>
    if state.requests.length ≥ NM_MAX_REQUESTS then none
    else
      let req : AccessRequest :=
        { file := Text.copyTo NM_MAX_NAME file
          owner := Text.copyTo NM_MAX_USER owner
          requester := Text.copyTo NM_MAX_USER requester
          perm := perm
          status := NM_REQUEST_PENDING }
      some { state with requests := state.requests ++ [req] }

/-- `handle_client_reqaccess`. -/
def handleClientReqaccess (state : NmState) (user json : Text) : Response × NmState :=
  match jsonFile json, jsonGetString json (Text.lit "mode") 8 with
  | some name, some mode =>
    if ¬ ('R' ∈ mode ∨ 'r' ∈ mode ∨ 'W' ∈ mode ∨ 'w' ∈ mode) then
      (.error .BADREQ (Text.lit "invalid mode"), state)
    else
      match nmFindFile state name with
      | none => (.error .NOTFOUND (Text.lit "file not found"), state)
      | some file =>
        if file.owner = user then
          (.error .CONFLICT (Text.lit "owner already has access"), state)
        else if nmCheckAccess state name user (modePerm mode) then
          (.error .CONFLICT (Text.lit "access already granted"), state)
        else
          match requestAccess state name file.owner user (modePerm mode) with
          | none => (.error .INTERNAL (Text.lit "request limit reached"), state)
          | some state => (.ok (Text.lit "REQACCESS"), state)
  | _, _ => (.error .BADREQ (Text.lit "missing fields"), state)

/-- `strcasecmp(s, upper) == 0` for a literal in capitals. -/
def equalsIgnoreCase (s upper : Text) : Bool := s.map Char.toUpper == upper

/-- `req->status = status`. -/
def setRequestStatus (state : NmState) (i : Nat) (status : Int) : NmState :=
  { state with requests := state.requests.modify i fun req => { req with status := status } }

/-- `handle_client_handlereq`. -/
def handleClientHandlereq (state : NmState) (user json : Text) : Response × NmState :=
  match jsonFile json, jsonGetString json (Text.lit "user") NM_MAX_USER,
    jsonGetString json (Text.lit "action") 16 with
  | some name, some requester, some action =>
    let approve := equalsIgnoreCase action (Text.lit "APPROVE")
    let deny := equalsIgnoreCase action (Text.lit "DENY")
    if !approve && !deny then (.error .BADREQ (Text.lit "invalid action"), state)
    else
      match nmFindFile state name with
      | none => (.error .NOTFOUND (Text.lit "file not found"), state)
      | some file =>
        if file.owner ≠ user then (.error .NOAUTH (Text.lit "only owner"), state)
        else
          match findAccessRequest state name requester with
          | none => (.error .NOTFOUND (Text.lit "request not found"), state)
          | some i =>
            match state.requests[i]? with
            | none => (.error .NOTFOUND (Text.lit "request not found"), state)
            | some req =>
              if req.status ≠ NM_REQUEST_PENDING then
                (.error .CONFLICT (Text.lit "request already handled"), state)
              else if approve then
                match nmGrantAccess state name requester req.perm with
                | none => (.error .INTERNAL (Text.lit "grant failed"), state)
                | some state =>
                  (.ok (Text.lit "HANDLEREQ"), setRequestStatus state i NM_REQUEST_APPROVED)
              else (.ok (Text.lit "HANDLEREQ"), setRequestStatus state i NM_REQUEST_DENIED)
  | _, _, _ => (.error .BADREQ (Text.lit "missing fields"), state)

/-! ## Messages of storage servers -/

/-- An `SS_FILE_UPDATE` as `handle_ss_file_update` reads it. -/
structure FileUpdate where
  file : Text
  words : Nat
  chars : Nat
  modified : Int
  lastAccess : Int
  lastUser : Text
deriving DecidableEq, Repr

/-- A count of an update: what is missing or negative counts as none. -/
def updateCount (json key : Text) : Nat := ((jsonGetInt json key).getD 0).toNat

/-- The fields of the message. Without `lastAccessUser` the handler uses a buffer it has not written;
no storage server sends such a message. -/
def readFileUpdate (json : Text) : Option FileUpdate :=
  match jsonFile json, jsonGetString json (Text.lit "lastAccessUser") NM_MAX_USER with
  | some file, some lastUser =>
    some {
      file := file
      words := updateCount json (Text.lit "words")
      chars := updateCount json (Text.lit "chars")
      modified := (jsonGetInt json (Text.lit "modified")).getD 0
      lastAccess := (jsonGetInt json (Text.lit "lastAccess")).getD 0
      lastUser := lastUser }
  | _, _ => none

/-- The table after `handle_ss_file_update`. -/
def fileUpdate (state : NmState) (u : FileUpdate) : NmState :=
  nmUpdateFileMetadata state u.file u.words u.chars u.modified u.lastAccess u.lastUser

/-! ## The tables after a handler -/

section Tables

variable (s : NmState) (user json : Text)

theorem handleClientHello_tables (inUse : Bool) (now : Int) : (handleClientHello s json inUse now).2 = s ∨
    ∃ user, jsonGetString json (Text.lit "user") NM_MAX_USER = some user ∧ user ≠ [] ∧
      (handleClientHello s json inUse now).2 = nmAddUser s user now := by
  fun_cases handleClientHello s json inUse now
  case case4 user hjson hne _ => exact .inr ⟨user, hjson, hne, rfl⟩
  all_goals exact .inl rfl

theorem handleSsRegister_tables (fd : Nat) : (handleSsRegister s json fd).2 = s ∨
    ∃ id host ctrlPort dataPort,
      (handleSsRegister s json fd).2 = (nmRegisterServer s id host ctrlPort dataPort fd).2 := by
  unfold handleSsRegister
  split
  · next id host ctrlPort dataPort _ _ _ _ =>
    refine .inr ⟨id, host, ctrlPort, dataPort, ?_⟩
    split
    · next heq => rw [heq]
    · next heq => rw [heq]
  · exact .inl rfl

theorem createBegin_tables : (createBegin s user json).2 = s ∨ (createBegin s user json).2 = (nmPickServer s).2 := by
  fun_cases createBegin s user json
  case case5 hpick => exact .inr (by rw [hpick])
  case case6 hpick => exact .inr (by rw [hpick])
  all_goals exact .inl rfl

/-- A request that goes to the server of a file selects it, if it comes that far. -/
theorem selectForRequest_tables (perm : BitVec 32) (denied : Text) :
    (selectForRequest s user json perm denied).2 = s ∨
      ∃ name, (selectForRequest s user json perm denied).2 = (selectStorageServer s name).2 := by
  fun_cases selectForRequest s user json perm denied
  case case4 name _ _ _ _ _ hsel => exact .inr ⟨name, by rw [hsel]⟩
  case case5 name _ _ _ _ _ _ hsel => exact .inr ⟨name, by rw [hsel]⟩
  all_goals exact .inl rfl

theorem checkpointEnd_tables (name tag : Text) (now : Int) : (checkpointEnd s user name tag now).2 = s ∨
    nmFileAddCheckpoint s name tag user now = some (checkpointEnd s user name tag now).2 := by
  fun_cases checkpointEnd s user name tag now
  case case4 hadd => exact .inr hadd
  all_goals exact .inl rfl

theorem handleClientAddaccess_tables : (handleClientAddaccess s user json).2 = s ∨
    ∃ name target perm, nmGrantAccess s name target perm = some (handleClientAddaccess s user json).2 := by
  fun_cases handleClientAddaccess s user json
  case case4 hgrant => exact .inr ⟨_, _, _, hgrant⟩
  all_goals exact .inl rfl

theorem handleClientRemoveaccess_tables : (handleClientRemoveaccess s user json).2 = s ∨
    ∃ name target, (handleClientRemoveaccess s user json).2 = nmRemoveAccess s name target := by
  fun_cases handleClientRemoveaccess s user json
  case case3 => exact .inr ⟨_, _, rfl⟩
  all_goals exact .inl rfl

/-- `REQACCESS` fails, or asks for a file that has an owner. -/
theorem handleClientReqaccess_tables : (handleClientReqaccess s user json).2 = s ∨
    ∃ name file perm, nmFindFile s name = some file ∧
      requestAccess s name file.owner user perm = some (handleClientReqaccess s user json).2 := by
  fun_cases handleClientReqaccess s user json
  case case6 hfind _ _ _ hrequest => exact .inr ⟨_, _, _, hfind, hrequest⟩
  all_goals exact .inl rfl

/-- `HANDLEREQ` fails, or settles a request, and grants what is approved. -/
theorem handleClientHandlereq_tables : (handleClientHandlereq s user json).2 = s ∨
    (∃ i name requester perm t, nmGrantAccess s name requester perm = some t ∧
      (handleClientHandlereq s user json).2 = setRequestStatus t i NM_REQUEST_APPROVED) ∨
    ∃ i, (handleClientHandlereq s user json).2 = setRequestStatus s i NM_REQUEST_DENIED := by
  fun_cases handleClientHandlereq s user json
  case case8 hgrant => exact .inr (.inl ⟨_, _, _, _, _, hgrant, rfl⟩)
  case case9 => exact .inr (.inr ⟨_, rfl⟩)
  all_goals exact .inl rfl

/-- Only the requests change. -/
theorem requestAccess_tables {s t : NmState} {file owner requester : Text} {perm : BitVec 32}
    (h : requestAccess s file owner requester perm = some t) : ∃ requests, t = { s with requests := requests } := by
  unfold requestAccess at h
  split at h
  · cases h
    exact ⟨_, rfl⟩
  · obtain ⟨-, h⟩ := Option.ite_none_left_eq_some.1 h
    cases h
    exact ⟨_, rfl⟩

/-- An entry changes at most its access list. -/
theorem nmGrantAccess_tables {s t : NmState} {name user : Text} {perm : BitVec 32}
    (h : nmGrantAccess s name user perm = some t) :
    ∃ file file', nmFindFile s name = some file ∧ grantAccess file user perm = some file' ∧
      t = s.modifyFile name fun _ => file' := by
  obtain ⟨file, hfind, h⟩ := Option.bind_eq_some_iff.1 h
  obtain ⟨file', hgrant, rfl⟩ := Option.map_eq_some_iff.1 h
  exact ⟨file, file', hfind, hgrant, rfl⟩

/-- An entry changes at most its checkpoints. -/
theorem nmFileAddCheckpoint_tables {s t : NmState} {name tag user : Text} {now : Int}
    (h : nmFileAddCheckpoint s name tag user now = some t) :
    ∃ entry, t = s.modifyFile name fun file => { file with checkpoints := file.checkpoints ++ [entry] } := by
  obtain ⟨_, -, h⟩ := Option.bind_eq_some_iff.1 h
  obtain ⟨-, h⟩ := Option.ite_none_left_eq_some.1 h
  obtain ⟨-, h⟩ := Option.ite_none_left_eq_some.1 h
  cases h
  exact ⟨_, rfl⟩

end Tables

/-! ## Runs -/

/-- The sections that change the tables, with what they find outside: the message, the clock, the
choices the RPCs left. -/
inductive Event where
  | hello (json : Text) (inUse : Bool) (now : Time)
  | register (json : Text) (fd : Nat)
  | disconnect (server : Nat)
  | markDown (server : Nat)
  | createBegin (user : Client) (json : Text)
  | createEnd (user : Client) (file : FileName) (primary : Nat) (backup : Option Nat) (now : Time)
  | deleteBegin (user : Client) (json : Text)
  | deleteEnd (file : Text)
  | undoBegin (user : Client) (json : Text)
  | ticketBegin (user : Client) (json : Text) (perm : BitVec 32)
  | ticketEnd (file : Text) (server : Int) (now : Time)
  | checkpointEnd (user : Client) (file : Text) (tag : FileName) (now : Time)
  | addaccess (user : Client) (json : Text)
  | removeaccess (user : Client) (json : Text)
  | reqaccess (user : Client) (json : Text)
  | handlereq (user : Client) (json : Text)
  | fileUpdate (json : Text)
  | assignBackup (file : Text) (primary : Int) (target : Nat)
  | syncFailed (file : Text) (attempted : Int)

/-- `int` of an index, `-1` for none. -/
def optIndex : Option Nat → Int
  | none => -1
  | some i => i

/-- The tables after a section. Servers are never removed, so an index found in an earlier section is
still one. -/
def tablesStep (s : NmState) : Event → Option NmState
  | .hello json inUse now => some (handleClientHello s json inUse now.val).2
  | .register json fd => some (handleSsRegister s json fd).2
  | .disconnect server => some (handleServerDisconnect s server).1
  | .markDown server => some (nmMarkServerDown s server)
  | .createBegin user json => some (createBegin s user.text json).2
  | .createEnd user file primary backup now =>
    if primary < s.servers.length ∧ ∀ i ∈ backup, i < s.servers.length then
      some (createEnd s user.text file.text primary (optIndex backup) now.val).2
    else none
  | .deleteBegin user json => some (deleteBegin s user.text json).2
  | .deleteEnd file => some (deleteEnd s file).2
  | .undoBegin user json => some (undoBegin s user.text json).2
  | .ticketBegin user json perm => some (ticketBegin s user.text json perm).2
  | .ticketEnd file server now => some (nmCachePut s file server now.val)
  | .checkpointEnd user file tag now => some (checkpointEnd s user.text file tag.text now.val).2
  | .addaccess user json => some (handleClientAddaccess s user.text json).2
  | .removeaccess user json => some (handleClientRemoveaccess s user.text json).2
  | .reqaccess user json => some (handleClientReqaccess s user.text json).2
  | .handlereq user json => some (handleClientHandlereq s user.text json).2
  | .fileUpdate json => (readFileUpdate json).map (fileUpdate s)
  | .assignBackup file primary target =>
    if target < s.servers.length then some (assignBackup s file primary target) else none
  | .syncFailed file attempted => some (dropFailedBackup s file attempted)

/-- Runs of the name manager's tables from the empty state. -/
def tables : System NmState Event := .ofStep (· = .clear) tablesStep

/-- A storage server says hello. -/
def registerEvent (id : Text) (fd : Nat) : Event :=
  .register (printMessage
    [(Text.lit "type", .string (Text.lit "SS_REGISTER")), (Text.lit "ssId", .string id),
      (Text.lit "host", .string (Text.lit "127.0.0.1")), (Text.lit "ctrlPort", .string (Text.lit "0")),
      (Text.lit "dataPort", .string (Text.lit "9001"))]) fd

def alice : Client := ⟨Text.lit "alice", by decide, by decide⟩

/-- Alice comes, two servers come, and she makes a file, with the second server as its backup. -/
def createFile (file : FileName) : List Event :=
  let now : Time := ⟨1700000000, by decide, by decide⟩
  [registerEvent (Text.lit "ss1") 4, registerEvent (Text.lit "ss2") 5,
    .hello (printMessage [(Text.lit "user", .string alice.text)]) false now,
    .createBegin alice (printMessage [(Text.lit "file", .string file.text)]),
    .createEnd alice file 0 (some 1) now]

/-- A run of the tables, and a fact about its end that can be computed. -/
theorem exists_tables_run {α : Type} (es : List Event) (check : List (NmState × Event) → NmState → α) (a : α)
    (h : (System.exec tablesStep [] .clear es).map (fun r => check r.1 r.2) = some a) :
    ∃ tr s, tables.Run tr s ∧ check tr s = a := by
  obtain ⟨⟨tr, s⟩, hexec, h⟩ := Option.map_eq_some_iff.1 h
  exact ⟨tr, s, System.Run.exec (.start rfl) hexec, h⟩

end CoWrite.Nm
