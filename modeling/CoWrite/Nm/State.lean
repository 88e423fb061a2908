import Mathlib.Data.BitVec
import CoWrite.Common.Error
import CoWrite.Common.Name
import CoWrite.Common.Number
import CoWrite.Lib.Tables

/-!
# The name manager's tables

`nm_state.c` but for its file, and the parts of `nm_main.c` that choose servers. The tables are lists
in the order of the arrays. `nm_find_file` goes through a hash chain in the source; names are unique,
so the model looks for the first entry with the name.
-/

namespace CoWrite.Nm

open CoWrite.Lib

abbrev NM_MAX_SERVERS : Nat := 32
abbrev NM_MAX_FILES : Nat := 512
abbrev NM_MAX_USERS : Nat := 512
abbrev NM_MAX_ACL : Nat := 64
abbrev NM_MAX_CACHE : Nat := 128
abbrev NM_MAX_REQUESTS : Nat := 1024
abbrev NM_MAX_NAME : Nat := 128
abbrev NM_MAX_USER : Nat := 64
abbrev NM_MAX_CHECKPOINTS : Nat := 128

abbrev NM_PERM_READ : BitVec 32 := 1
abbrev NM_PERM_WRITE : BitVec 32 := 2

abbrev NM_REQUEST_PENDING : Int := 0
abbrev NM_REQUEST_APPROVED : Int := 1
abbrev NM_REQUEST_DENIED : Int := 2

/-- `valid_filename`. -/
def validFilename (name : Text) : Bool := validName name

/-- `valid_checkpoint_tag`. -/
def validCheckpointTag (tag : Text) : Bool := validName tag

structure StorageServer where
  id : Text
  host : Text
  ctrlPort : Text
  dataPort : Text
  ctrlFd : Int
  online : Bool
deriving DecidableEq, Repr

structure FileAclEntry where
  user : Text
  perm : BitVec 32
deriving DecidableEq, Repr

structure CheckpointEntry where
  tag : Text
  user : Text
  timestamp : Int
deriving DecidableEq, Repr

structure FileEntry where
  name : Text
  owner : Text
  ssIndex : Int
  backupIndex : Int
  wordCount : Nat
  charCount : Nat
  created : Int
  modified : Int
  lastAccess : Int
  lastAccessUser : Text
  acl : List FileAclEntry
  checkpoints : List CheckpointEntry
deriving DecidableEq, Repr

structure UserEntry where
  name : Text
  lastSeen : Int
deriving DecidableEq, Repr

structure CacheEntry where
  name : Text
  ssIndex : Int
  lastUsed : Int
deriving DecidableEq, Repr

structure AccessRequest where
  file : Text
  owner : Text
  requester : Text
  perm : BitVec 32
  status : Int
deriving DecidableEq, Repr

/-- `struct nm_state`. -/
structure NmState where
  servers : List StorageServer
  nextPrimaryIndex : Nat
  nextBackupIndex : Nat
  files : List FileEntry
  users : List UserEntry
  cache : List CacheEntry
  requests : List AccessRequest
deriving DecidableEq, Repr

/-- `clear_state`. -/
def NmState.clear : NmState := ⟨[], 0, 0, [], [], [], []⟩

/-! ## Servers -/

/-- `server_is_available`. -/
def StorageServer.isAvailable (ss : StorageServer) : Bool := decide (ss.ctrlFd ≥ 0) && ss.online

/-- `nm_find_server_by_id`. -/
def nmFindServerById (state : NmState) (id : Text) : Option Nat :=
  state.servers.findIdx? fun ss => ss.id == id

/-- `nm_register_server`. -/
def nmRegisterServer (state : NmState) (id host ctrlPort dataPort : Text) (ctrlFd : Int) :
    Option Nat × NmState :=
  match nmFindServerById state id with
  | some i =>
    let register (ss : StorageServer) : StorageServer :=
      { ss with
        host := Text.copyTo NM_MAX_NAME host
        ctrlPort := Text.copyTo 16 ctrlPort
        dataPort := Text.copyTo 16 dataPort
        ctrlFd := ctrlFd
        online := true }
    (some i, { state with servers := state.servers.modify i register })
  | none =>
    if state.servers.length ≥ NM_MAX_SERVERS then (none, state)
    else
      let ss : StorageServer :=
        { id := Text.copyTo NM_MAX_NAME id
          host := Text.copyTo NM_MAX_NAME host
          ctrlPort := Text.copyTo 16 ctrlPort
          dataPort := Text.copyTo 16 dataPort
          ctrlFd := ctrlFd
          online := true }
      (some state.servers.length, { state with servers := state.servers ++ [ss] })

/-- `nm_get_server`. -/
def nmGetServer (state : NmState) (index : Int) : Option StorageServer :=
  if index < 0 then none else state.servers[index.toNat]?

/-- `server_is_available(nm_get_server(state, index))`. -/
def NmState.available (state : NmState) (index : Int) : Bool :=
  (nmGetServer state index).any StorageServer.isAvailable

/-- `nm_mark_server_down`. -/
def nmMarkServerDown (state : NmState) (index : Int) : NmState :=
  if index < 0 ∨ index ≥ state.servers.length then state
  else
    { state with
      servers := state.servers.modify index.toNat fun ss => { ss with ctrlFd := -1, online := false } }

/-- `nm_pick_server`. -/
def nmPickServer (state : NmState) : Option Nat × NmState :=
  let n := state.servers.length
  let index (offset : Nat) : Nat := (state.nextPrimaryIndex % n + offset) % n
  match (List.range n).find? fun offset => state.available (index offset) with
  | none => (none, state)
  | some offset =>
    (some (index offset), { state with nextPrimaryIndex := (index offset + 1) % n })

/-- `has_backup_candidate`. -/
def hasBackupCandidate (state : NmState) (primary : Int) : Bool :=
  (List.range state.servers.length).any fun (i : Nat) => (i : Int) != primary && state.available i

/-! ## Files -/

/-- `find_file_index`. -/
def findFileIndex (state : NmState) (name : Text) : Option Nat :=
  state.files.findIdx? fun file => file.name == name

/-- `nm_find_file`. -/
def nmFindFile (state : NmState) (name : Text) : Option FileEntry :=
  state.files.find? fun file => file.name == name

/-- An assignment through the pointer that `nm_find_file` returned. -/
def NmState.modifyFile (state : NmState) (name : Text) (f : FileEntry → FileEntry) : NmState :=
  match findFileIndex state name with
  | none => state
  | some i => { state with files := state.files.modify i f }

/-- An assignment through `nm_find_file` changes the entry found and no other. -/
theorem exists_modifyFile {s : NmState} {name : Text} {file : FileEntry}
    (h : nmFindFile s name = some file) (f : FileEntry → FileEntry) :
    file.name = name ∧ ∃ pre post, s.files = pre ++ file :: post ∧ (∀ x ∈ pre, x.name ≠ name) ∧
      s.modifyFile name f = { s with files := pre ++ f file :: post } := by
  obtain ⟨hname, pre, post, hfiles, hpre⟩ := List.find?_eq_some_iff_append.1 h
  have hpre : ∀ x ∈ pre, x.name ≠ name := fun x hx => by simpa using hpre x hx
  have hidx : findFileIndex s name = some pre.length := by
    unfold findFileIndex
    rw [hfiles, List.findIdx?_append, List.findIdx?_eq_none_iff.2 (by simpa using hpre)]
    simp [List.findIdx?_cons, hname]
  refine ⟨by simpa using hname, pre, post, hfiles, hpre, ?_⟩
  unfold NmState.modifyFile
  simp only [hidx]
  rw [hfiles, modify_append_length]

theorem modifyFile_of_none {s : NmState} {name : Text} (h : nmFindFile s name = none)
    (f : FileEntry → FileEntry) : s.modifyFile name f = s := by
  have hidx : findFileIndex s name = none := by
    unfold findFileIndex
    rw [List.findIdx?_eq_none_iff]
    simpa [nmFindFile] using h
  simp only [NmState.modifyFile, hidx]

/-- The entry that `nm_add_file` makes. -/
def newFileEntry (name owner : Text) (ssIndex backupIndex now : Int) : FileEntry where
  name := Text.copyTo NM_MAX_NAME name
  owner := Text.copyTo NM_MAX_USER owner
  ssIndex := ssIndex
  backupIndex := backupIndex
  wordCount := 0
  charCount := 0
  created := now
  modified := now
  lastAccess := now
  lastAccessUser := Text.copyTo NM_MAX_USER owner
  acl := []
  checkpoints := []

/-- `nm_add_file`. -/
def nmAddFile (state : NmState) (name owner : Text) (ssIndex backupIndex now : Int) :
    Option NmState :=
  if state.files.length ≥ NM_MAX_FILES then none
  else if (findFileIndex state name).isSome then none
  else some { state with files := state.files ++ [newFileEntry name owner ssIndex backupIndex now] }

/-- `nm_remove_file`. -/
def nmRemoveFile (state : NmState) (name : Text) : Option NmState :=
  (findFileIndex state name).map fun i => { state with files := swapRemove state.files i }

/-- `nm_update_file_metadata`. -/
def nmUpdateFileMetadata (state : NmState) (name : Text) (words chars : Nat)
    (modified lastAccess : Int) (lastUser : Text) : NmState :=
  state.modifyFile name fun file =>
    { file with
      wordCount := words
      charCount := chars
      modified := if modified ≠ 0 then modified else file.modified
      lastAccess := if lastAccess ≠ 0 then lastAccess else file.lastAccess
      lastAccessUser :=
        if lastUser ≠ [] then Text.copyTo NM_MAX_USER lastUser else file.lastAccessUser }

/-- `find_acl`. -/
def findAcl (file : FileEntry) (user : Text) : Option Nat :=
  file.acl.findIdx? fun entry => entry.user == user

/-- `nm_grant_access` for the file it finds; nothing when there is no room. -/
def grantAccess (file : FileEntry) (user : Text) (perm : BitVec 32) : Option FileEntry :=
  if file.owner = user then some file
  else
    match findAcl file user with
    | some i =>
      some { file with acl := file.acl.modify i fun entry => { entry with perm := entry.perm ||| perm } }
    | none =>
      if file.acl.length ≥ NM_MAX_ACL then none
      else
        some { file with
          acl := file.acl ++ [⟨Text.copyTo NM_MAX_USER user, perm ||| NM_PERM_READ⟩] }

/-- `nm_grant_access`. -/
def nmGrantAccess (state : NmState) (name user : Text) (perm : BitVec 32) : Option NmState :=
  (nmFindFile state name).bind fun file =>
    (grantAccess file user perm).map fun file' => state.modifyFile name fun _ => file'

/-- `nm_remove_access`. -/
def nmRemoveAccess (state : NmState) (name user : Text) : NmState :=
  state.modifyFile name fun file =>
    match findAcl file user with
    | none => file
    | some i => { file with acl := swapRemove file.acl i }

/-- The loop over the access list in `nm_check_access` and `file_has_access`. -/
def aclAllows (file : FileEntry) (user : Text) (perm : BitVec 32) : Bool :=
  (file.acl.find? fun entry => entry.user == user).any fun entry => entry.perm &&& perm == perm

/-- `nm_check_access`. -/
def nmCheckAccess (state : NmState) (name user : Text) (perm : BitVec 32) : Bool :=
  (nmFindFile state name).any fun file => file.owner == user || aclAllows file user perm

/-- `file_has_access`. -/
def fileHasAccess (file : FileEntry) (user : Text) (perm : BitVec 32) : Bool :=
  user != [] && (file.owner == user || aclAllows file user perm)

/-- `nm_file_find_checkpoint`. -/
def nmFileFindCheckpoint (file : FileEntry) (tag : Text) : Option CheckpointEntry :=
  file.checkpoints.find? fun entry => entry.tag == tag

/-- `nm_file_add_checkpoint`. -/
def nmFileAddCheckpoint (state : NmState) (name tag user : Text) (timestamp : Int) :
    Option NmState :=
  (nmFindFile state name).bind fun file =>
    if (nmFileFindCheckpoint file tag).isSome then none
    else if file.checkpoints.length ≥ NM_MAX_CHECKPOINTS then none
    else
      let entry : CheckpointEntry :=
        ⟨Text.copyTo NM_MAX_NAME tag, Text.copyTo NM_MAX_USER user, timestamp⟩
      some (state.modifyFile name fun file => { file with checkpoints := file.checkpoints ++ [entry] })

/-! ## Users and the cache -/

/-- `nm_add_user`; a full table stays as it is. -/
def nmAddUser (state : NmState) (user : Text) (now : Int) : NmState :=
  match state.users.findIdx? fun entry => entry.name == user with
  | some i =>
    { state with users := state.users.modify i fun entry => { entry with lastSeen := now } }
  | none =>
    if state.users.length ≥ NM_MAX_USERS then state
    else { state with users := state.users ++ [⟨Text.copyTo NM_MAX_USER user, now⟩] }

/-- The index of the entry that was not used for longest. -/
def oldestEntry : List CacheEntry → Nat
  | [] => 0
  | entry :: rest =>
    (rest.zipIdx 1).foldl
      (fun (best : Nat × Int) (e : CacheEntry × Nat) =>
        if e.1.lastUsed < best.2 then (e.2, e.1.lastUsed) else best)
      (0, entry.lastUsed) |>.1

/-- `nm_cache_put`. -/
def nmCachePut (state : NmState) (name : Text) (ssIndex now : Int) : NmState :=
  match state.cache.findIdx? fun entry => entry.name == name with
  | some i =>
    { state with
      cache := state.cache.modify i fun entry => { entry with ssIndex := ssIndex, lastUsed := now } }
  | none =>
    let cache :=
      if state.cache.length ≥ NM_MAX_CACHE then swapRemove state.cache (oldestEntry state.cache)
      else state.cache
    { state with cache := cache ++ [⟨Text.copyTo NM_MAX_NAME name, ssIndex, now⟩] }

/-! ## Placement -/

/-- `drop_backup_only`. -/
def dropBackup (file : FileEntry) : FileEntry := { file with backupIndex := -1 }

/-- The backup takes over. -/
def failover (file : FileEntry) : FileEntry :=
  { file with ssIndex := file.backupIndex, backupIndex := -1 }

/-- `select_storage_server` for the file with the name. -/
def selectStorageServer (state : NmState) (name : Text) : Option Int × NmState :=
  match nmFindFile state name with
  | none => (none, state)
  | some file =>
    if file.ssIndex ≥ 0 ∧ state.available file.ssIndex then (some file.ssIndex, state)
    else if file.backupIndex ≥ 0 then
      if state.available file.backupIndex then
        (some file.backupIndex, state.modifyFile name failover)
      else (none, state.modifyFile name dropBackup)
    else (none, state)

/-- What `handle_server_disconnect` does to one file. -/
def disconnectFile (state : NmState) (server : Int) (file : FileEntry) : FileEntry :=
  let file :=
    if file.ssIndex = server ∧ file.backupIndex ≥ 0 then
      if state.available file.backupIndex then failover file else dropBackup file
    else file
  if file.backupIndex = server then dropBackup file else file

theorem disconnectFile_cases (state : NmState) (server : Int) (file : FileEntry) :
    disconnectFile state server file = file ∨ disconnectFile state server file = failover file ∨
      disconnectFile state server file = dropBackup file := by
  simp only [disconnectFile]
  split_ifs <;> simp [dropBackup, failover]

@[simp] theorem disconnectFile_name (state : NmState) (server : Int) (file : FileEntry) :
    (disconnectFile state server file).name = file.name := by
  rcases disconnectFile_cases state server file with h | h | h <;> rw [h] <;> rfl

/-- The files `handle_server_disconnect` wants a new backup for. -/
def wantsBackup (state : NmState) (server : Int) (file : FileEntry) : Bool :=
  let file' := disconnectFile state server file
  (file.ssIndex == server || file.backupIndex == server) &&
    (file'.backupIndex < 0 && file'.ssIndex ≥ 0 && hasBackupCandidate state file'.ssIndex)

/-- `handle_server_disconnect` up to its calls of `try_assign_backup`: the tables, and the files these
calls are for. -/
def handleServerDisconnect (state : NmState) (server : Int) : NmState × List Text :=
  let state := nmMarkServerDown state server
  ({ state with files := state.files.map (disconnectFile state server) },
    (state.files.filter (wantsBackup state server)).map FileEntry.name)

/-- The end of a round of `replication_worker` that synced a new backup. -/
def assignBackup (state : NmState) (name : Text) (primary target : Int) : NmState :=
  state.modifyFile name fun file =>
    if file.ssIndex = primary then { file with backupIndex := target } else file

/-- What `handle_replication_failure` does to the table. -/
def dropFailedBackup (state : NmState) (name : Text) (attempted : Int) : NmState :=
  state.modifyFile name fun file => if file.backupIndex = attempted then dropBackup file else file

end CoWrite.Nm
