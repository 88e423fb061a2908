import CoWrite.Common.Scan
import CoWrite.Nm.Stored

/-!
# The state file

`nm_state_save` and `nm_state_load`, from the tables to the text of the file and back. The writer puts
single blanks between fields and a newline after each record. The reader takes lines of at most 511
bytes, cuts `FILE` records at blanks with `strtok_r` and reads the other records with `sscanf`, where
any white space ends a field.

`load_save_iff`: saved tables come back exactly when every field is a non-empty word in the sense of the
reader of its record (`Clean`). The checks on requests promise less, so `run_load_save_iff` is about the
tables of every run, and `blank_in_name` is a run that makes another file of one.
-/

namespace CoWrite.Nm

open CoWrite.Lib

/-! ## Writing -/

def serverLine (ss : StorageServer) : Text :=
  spaced [Text.lit "SERVER", ss.id, ss.host, ss.ctrlPort, ss.dataPort,
    printInt (if ss.online then 1 else 0)]

def fileLine (file : FileEntry) : Text :=
  spaced [Text.lit "FILE", file.name, file.owner, printInt file.ssIndex, printInt file.backupIndex,
    printNat file.wordCount, printNat file.charCount, printInt file.created, printInt file.modified,
    printInt file.lastAccess, file.lastAccessUser, printNat file.acl.length]

def checkpointLine (name : Text) (ck : CheckpointEntry) : Text :=
  spaced [Text.lit "CHECKPOINT", name, ck.tag, ck.user, printInt ck.timestamp]

def aclLine (acl : FileAclEntry) : Text :=
  spaced [Text.lit "ACL", acl.user, printInt acl.perm.toInt]

def userLine (user : UserEntry) : Text :=
  spaced [Text.lit "USER", user.name, printInt user.lastSeen]

def reqLine (req : AccessRequest) : Text :=
  spaced [Text.lit "REQ", req.file, req.owner, req.requester, printInt req.perm.toInt,
    printInt req.status]

def fileLines (file : FileEntry) : List Text :=
  fileLine file :: (file.checkpoints.map (checkpointLine file.name) ++ file.acl.map aclLine)

def saveLines (s : NmState) : List Text :=
  Text.lit "VERSION 1" :: (s.servers.map serverLine ++ (s.files.flatMap fileLines ++
    (s.users.map userLine ++ (s.requests.map reqLine ++ [Text.lit "END"]))))

/-- What `nm_state_save` leaves in the state file. -/
def nmStateSave (s : NmState) : Text := (saveLines s).flatMap (· ++ ['\n'])

/-! ## Reading records -/

/-- What the loader makes of one line, by its first word. -/
inductive Record where
  | server (fields : Text)
  | file (fields : Text)
  | acl (fields : Text)
  | checkpoint (fields : Text)
  | req (fields : Text)
  | user (fields : Text)
  | other
deriving DecidableEq, Repr

/-- `strncmp(line, tag, strlen(tag)) == 0`, with the rest of the line. -/
def afterTag (tag : String) (line : Text) : Option Text :=
  if (Text.lit tag).isPrefixOf line then some (line.drop (Text.lit tag).length) else none

def recordOf (line : Text) : Record :=
  match afterTag "SERVER " line with
  | some s => .server s
  | none =>
    match afterTag "FILE " line with
    | some s => .file s
    | none =>
      match afterTag "ACL " line with
      | some s => .acl s
      | none =>
        match afterTag "CHECKPOINT " line with
        | some s => .checkpoint s
        | none =>
          match afterTag "REQ " line with
          | some s => .req s
          | none =>
            match afterTag "USER " line with
            | some s => .user s
            | none => .other

/-- `sscanf(s, "%127s %127s %15s %15s %d", ..) == 5`. -/
def scanServer (s : Text) : Option StorageServer := do
  let (id, s) ← scanToken 127 s
  let (host, s) ← scanToken 127 s
  let (ctrlPort, s) ← scanToken 15 s
  let (dataPort, s) ← scanToken 15 s
  let (online, _) ← strtol s
  some ⟨id, host, ctrlPort, dataPort, -1, toInt32 online != 0⟩

/-- The last seven fields of a `FILE` record, after the ones that were read. -/
def scanCounts (name owner : Text) (ssIndex backupIndex : Int) : List Text → Option FileEntry
  | words :: chars :: created :: modified :: lastAccess :: lastUser :: _aclCount :: _ =>
    some {
      name := Text.copyTo NM_MAX_NAME name
      owner := Text.copyTo NM_MAX_USER owner
      ssIndex := ssIndex
      backupIndex := backupIndex
      wordCount := strtoull words
      charCount := strtoull chars
      created := atol created
      modified := atol modified
      lastAccess := atol lastAccess
      lastAccessUser := Text.copyTo NM_MAX_USER lastUser
      acl := []
      checkpoints := [] }
  | _ => none

/-- A `FILE` record: with eleven tokens it has a backup, with ten or twelve it has none. -/
def scanFile (s : Text) : Option FileEntry :=
  let tokens := (strtok s).take 12
  if tokens.length < 10 then none
  else
    match tokens with
    | name :: owner :: ss :: rest =>
      if tokens.length = 11 then
        match rest with
        | backup :: rest => scanCounts name owner (atoi ss) (atoi backup) rest
        | [] => none
      else scanCounts name owner (atoi ss) (-1) rest
    | _ => none

/-- `sscanf(s, "%63s %d", ..)` into a zeroed entry, however much it reads. -/
def scanAcl (s : Text) : FileAclEntry :=
  match scanToken 63 s with
  | none => ⟨[], 0⟩
  | some (user, s) => ⟨user, BitVec.ofInt 32 (((strtol s).map Prod.fst).getD 0)⟩

/-- `sscanf(s, "%127s %127s %63s %ld", ..) == 4`: the file's name and the entry. -/
def scanCheckpoint (s : Text) : Option (Text × CheckpointEntry) := do
  let (name, s) ← scanToken 127 s
  let (tag, s) ← scanToken 127 s
  let (user, s) ← scanToken 63 s
  let (timestamp, _) ← strtol s
  some (name, ⟨Text.copyTo NM_MAX_NAME tag, Text.copyTo NM_MAX_USER user, timestamp⟩)

/-- `sscanf(s, "%127s %63s %63s %d %d", ..) == 5`. -/
def scanReq (s : Text) : Option AccessRequest := do
  let (file, s) ← scanToken 127 s
  let (owner, s) ← scanToken 63 s
  let (requester, s) ← scanToken 63 s
  let (perm, s) ← strtol s
  let (status, _) ← strtol s
  some ⟨file, owner, requester, BitVec.ofInt 32 perm, toInt32 status⟩

/-- `sscanf(s, "%63s %ld", ..)` into a zeroed entry, however much it reads. -/
def scanUser (s : Text) : UserEntry :=
  match scanToken 63 s with
  | none => ⟨[], 0⟩
  | some (name, s) => ⟨name, ((strtol s).map Prod.fst).getD 0⟩

/-- The state being loaded and the index of `current_file`. -/
structure Loader where
  state : NmState
  current : Option Nat
deriving DecidableEq, Repr

/-- `ACL` for the current file. -/
def loadAcl (state : NmState) (current : Option Nat) (entry : FileAclEntry) : NmState :=
  match current with
  | none => state
  | some i =>
    let add (file : FileEntry) : FileEntry :=
      if file.acl.length < NM_MAX_ACL then { file with acl := file.acl ++ [entry] } else file
    { state with files := state.files.modify i add }

/-- `find_file_index` while the table is loaded. A loaded entry goes in front of its chain, and nothing
keeps two from having one name: the later one is found. -/
def findLoadedFile (state : NmState) (name : Text) : Option Nat :=
  (List.range state.files.length).reverse.find? fun i => state.files[i]?.any fun file => file.name == name

/-- `CHECKPOINT` for the file it names. -/
def loadCheckpoint (state : NmState) (name : Text) (entry : CheckpointEntry) : NmState :=
  match findLoadedFile state name with
  | none => state
  | some i =>
    let add (file : FileEntry) : FileEntry :=
      if file.checkpoints.length < NM_MAX_CHECKPOINTS then
        { file with checkpoints := file.checkpoints ++ [entry] }
      else file
    { state with files := state.files.modify i add }

/-- The body of the loop of `nm_state_load`. -/
def loadRecord (l : Loader) : Record → Loader
  | .server s =>
    match scanServer s with
    | some ss =>
      if l.state.servers.length < NM_MAX_SERVERS then
        ⟨{ l.state with servers := l.state.servers ++ [ss] }, none⟩
      else ⟨l.state, none⟩
    | none => ⟨l.state, none⟩
  | .file s =>
    if l.state.files.length ≥ NM_MAX_FILES then l
    else
      match scanFile s with
      | some file => ⟨{ l.state with files := l.state.files ++ [file] }, some l.state.files.length⟩
      | none => ⟨l.state, none⟩
  | .acl s => ⟨loadAcl l.state l.current (scanAcl s), l.current⟩
  | .checkpoint s =>
    match scanCheckpoint s with
    | some (name, entry) => ⟨loadCheckpoint l.state name entry, l.current⟩
    | none => l
  | .req s =>
    if l.state.requests.length < NM_MAX_REQUESTS then
      match scanReq s with
      | some req => ⟨{ l.state with requests := l.state.requests ++ [req] }, none⟩
      | none => ⟨l.state, none⟩
    else ⟨l.state, none⟩
  | .user s =>
    if l.state.users.length < NM_MAX_USERS then
      ⟨{ l.state with users := l.state.users ++ [scanUser s] }, none⟩
    else ⟨l.state, none⟩
  | .other => ⟨l.state, none⟩

def loadLine (l : Loader) (line : Text) : Loader := loadRecord l (recordOf line)

/-- The state after `nm_state_load` of a file with the text `s`. -/
def nmStateLoad (s : Text) : NmState := ((readLines s).foldl loadLine ⟨.clear, none⟩).state

/-- The tables without what the file leaves out. -/
def NmState.reloaded (s : NmState) : NmState :=
  { s with
    servers := s.servers.map fun ss => { ss with ctrlFd := -1 }
    nextPrimaryIndex := 0
    nextBackupIndex := 0
    cache := [] }

/-! ## Clean tables -/

structure StorageServer.Clean (ss : StorageServer) : Prop where
  id : Word ss.id
  host : Word ss.host
  ctrlPort : Word ss.ctrlPort
  dataPort : Word ss.dataPort

structure CheckpointEntry.Clean (ck : CheckpointEntry) : Prop where
  tag : Word ck.tag
  user : Word ck.user

structure FileEntry.Clean (file : FileEntry) : Prop where
  name : Token file.name
  owner : Token file.owner
  lastAccessUser : Token file.lastAccessUser
  /-- `sscanf` reads the name again in the records of checkpoints. -/
  checkpointName : file.checkpoints ≠ [] → Word file.name
  checkpoints : ∀ ck ∈ file.checkpoints, ck.Clean
  acl : ∀ entry ∈ file.acl, Word entry.user

structure AccessRequest.Clean (req : AccessRequest) : Prop where
  file : Word req.file
  owner : Word req.owner
  requester : Word req.requester

/-- Every text of the tables is a field that its reader gives back. -/
structure NmState.Clean (s : NmState) : Prop where
  servers : ∀ ss ∈ s.servers, ss.Clean
  files : ∀ file ∈ s.files, file.Clean
  users : ∀ user ∈ s.users, Word user.name
  requests : ∀ req ∈ s.requests, req.Clean

/-! ## Reading back one record -/

theorem recordOf_server (s : Text) : recordOf (Text.lit "SERVER" ++ ' ' :: s) = .server s := rfl

theorem recordOf_file (s : Text) : recordOf (Text.lit "FILE" ++ ' ' :: s) = .file s := rfl

theorem recordOf_acl (s : Text) : recordOf (Text.lit "ACL" ++ ' ' :: s) = .acl s := rfl

theorem recordOf_checkpoint (s : Text) : recordOf (Text.lit "CHECKPOINT" ++ ' ' :: s) = .checkpoint s := rfl

theorem recordOf_req (s : Text) : recordOf (Text.lit "REQ" ++ ' ' :: s) = .req s := rfl

theorem recordOf_user (s : Text) : recordOf (Text.lit "USER" ++ ' ' :: s) = .user s := rfl

/-- The next field of a saved record, which is a word and fits. -/
theorem scanToken_field {t : Text} (ht : Word t) {width : Nat} (hw : t.length < width + 1) (rest : Text) :
    scanToken width (t ++ ' ' :: rest) = some (t, ' ' :: rest) :=
  scanToken_append ht (by omega) (spaceHead_blank rest)

theorem strtol_field {z : Int} (h : IsTime z) (rest : Text) :
    strtol (printInt z ++ ' ' :: rest) = some (z, ' ' :: rest) :=
  strtol_printInt h (noDigitHead_cons (by decide))

theorem strtol_last {z : Int} (h : IsTime z) : strtol (printInt z) = some (z, []) := by
  simpa using strtol_printInt h noDigitHead_nil

theorem perm_isInt (perm : BitVec 32) : IsInt perm.toInt := by
  have := perm.toInt_lt
  have := perm.le_toInt
  unfold IsInt
  omega

theorem online_isTime (ss : StorageServer) : IsTime (if ss.online then 1 else 0) := by
  unfold IsTime LONG_MIN LONG_MAX
  split <;> omega

theorem scanServer_saved {ss : StorageServer} (h : ss.Stored) (hc : ss.Clean) :
    scanServer (spaced [ss.id, ss.host, ss.ctrlPort, ss.dataPort, printInt (if ss.online then 1 else 0)]) =
      some { ss with ctrlFd := -1 } := by
  simp only [scanServer, spaced_cons_cons, spaced_singleton, scanToken_blank, strtol_blank, Option.bind_eq_bind,
    Option.bind_some, scanToken_field hc.id h.id, scanToken_field hc.host h.host,
    scanToken_field hc.ctrlPort h.ctrlPort, scanToken_field hc.dataPort h.dataPort, strtol_last (online_isTime ss)]
  cases ss.online <;> simp [toInt32]

theorem token_printNat (n : Nat) : Token (printNat n) := by
  refine ⟨printNat_ne_nil n, fun hm => ?_, fun hm => ?_⟩ <;>
    exact absurd (isDigit_of_mem_printNat hm) (by decide)

theorem token_printInt (z : Int) : Token (printInt z) := by
  cases z with
  | ofNat n => exact token_printNat n
  | negSucc n =>
    obtain ⟨-, hb, hn⟩ := token_printNat (n + 1)
    exact ⟨by simp [printInt], by simpa [printInt] using hb, by simpa [printInt] using hn⟩

theorem atoi_index {n : Nat} (hn : n ≤ NM_MAX_SERVERS) {i : Int} (h : IsIndex n i) :
    atoi (printInt i) = i := by
  unfold IsIndex at h
  refine atoi_printInt ?_
  simp only [NM_MAX_SERVERS] at hn
  omega

theorem scanFile_saved {n : Nat} {file : FileEntry} (hn : n ≤ NM_MAX_SERVERS) (h : file.Stored n)
    (hc : file.Clean) :
    scanFile (spaced [file.name, file.owner, printInt file.ssIndex, printInt file.backupIndex,
      printNat file.wordCount, printNat file.charCount, printInt file.created, printInt file.modified,
      printInt file.lastAccess, file.lastAccessUser, printNat file.acl.length]) =
      some { file with acl := [], checkpoints := [] } := by
  rw [scanFile, strtok_spaced (by simp [hc.name, hc.owner, hc.lastAccessUser, token_printInt, token_printNat])
    (by simp)]
  simp [scanCounts, atoi_index hn h.ssIndex, atoi_index hn h.backupIndex, h.name.copyTo, h.owner.copyTo,
    h.lastAccessUser.copyTo, strtoull_printNat h.wordCount, strtoull_printNat h.charCount,
    atol_printInt h.created, atol_printInt h.modified, atol_printInt h.lastAccess]

theorem scanCheckpoint_saved {name : Text} {ck : CheckpointEntry} (hname : IsName name) (hword : Word name)
    (h : ck.Stored) (hc : ck.Clean) :
    scanCheckpoint (spaced [name, ck.tag, ck.user, printInt ck.timestamp]) = some (name, ck) := by
  simp only [scanCheckpoint, spaced_cons_cons, spaced_singleton, scanToken_blank, strtol_blank,
    Option.bind_eq_bind, Option.bind_some, scanToken_field hword hname.2, scanToken_field hc.tag h.tag.2,
    scanToken_field hc.user h.user.2, strtol_last h.timestamp, h.tag.copyTo, h.user.copyTo]

theorem scanAcl_saved {entry : FileAclEntry} (h : entry.Stored) (hc : Word entry.user) :
    scanAcl (spaced [entry.user, printInt entry.perm.toInt]) = entry := by
  simp [scanAcl, spaced_cons_cons, spaced_singleton, scanToken_field hc h.user, strtol_blank, strtol_last (perm_isInt _).isTime]

theorem scanUser_saved {user : UserEntry} (h : user.Stored) (hc : Word user.name) :
    scanUser (spaced [user.name, printInt user.lastSeen]) = user := by
  simp [scanUser, spaced_cons_cons, spaced_singleton, scanToken_field hc h.name.2, strtol_blank, strtol_last h.lastSeen]

theorem scanReq_saved {req : AccessRequest} (h : req.Stored) (hc : req.Clean) :
    scanReq (spaced [req.file, req.owner, req.requester, printInt req.perm.toInt, printInt req.status]) =
      some req := by
  simp [scanReq, spaced_cons_cons, spaced_singleton, scanToken_blank, strtol_blank, scanToken_field hc.file h.file.2,
    scanToken_field hc.owner h.owner.2, scanToken_field hc.requester h.requester.2,
    strtol_field (perm_isInt _).isTime, strtol_last h.status.isTime, toInt32_eq_self h.status]

/-! ## Reading back the lines -/

theorem fits_record {tag : String} (ht : '\n' ∉ Text.lit tag ∧ (Text.lit tag).length ≤ 10) {ts : List Text}
    (hn : ∀ t ∈ ts, '\n' ∉ t) (hl : (ts.map List.length).sum + ts.length ≤ 499) :
    Fits (spaced (Text.lit tag :: ts)) := by
  refine fits_spaced ?_ ?_
  · rw [List.forall_mem_cons]
    exact ⟨ht.1, hn⟩
  · simp only [List.map_cons, List.sum_cons, List.length_cons]
    omega

theorem fits_serverLine {ss : StorageServer} (h : ss.Stored) (hc : ss.Clean) : Fits (serverLine ss) := by
  have honline := length_printInt_le (online_isTime ss)
  have := h.id
  have := h.host
  have := h.ctrlPort
  have := h.dataPort
  refine fits_record (by decide) ?_ ?_
  · simp [hc.id.newline, hc.host.newline, hc.ctrlPort.newline, hc.dataPort.newline, (token_printInt _).newline]
  · simp [NM_MAX_NAME] at *
    omega

theorem fits_fileLine {n : Nat} {file : FileEntry} (h : file.Stored n) (hn : n ≤ NM_MAX_SERVERS)
    (hc : file.Clean) : Fits (fileLine file) := by
  have hindex {i : Int} (hi : IsIndex n i) : IsTime i := by
    unfold IsIndex at hi
    unfold IsTime LONG_MIN LONG_MAX
    simp only [NM_MAX_SERVERS] at hn
    omega
  have hname := h.name.2
  have howner := h.owner.2
  have hlast := h.lastAccessUser.2
  have := length_printInt_le (hindex h.ssIndex)
  have := length_printInt_le (hindex h.backupIndex)
  have := length_printNat_le (n := file.wordCount) (k := 20) (by decide) (by have := h.wordCount; omega)
  have := length_printNat_le (n := file.charCount) (k := 20) (by decide) (by have := h.charCount; omega)
  have := length_printInt_le h.created
  have := length_printInt_le h.modified
  have := length_printInt_le h.lastAccess
  have hacl := h.aclCount
  simp only [NM_MAX_ACL] at hacl
  have := length_printNat_le (n := file.acl.length) (k := 20) (by decide) (by omega)
  refine fits_record (by decide) ?_ ?_
  · simp [hc.name.newline, hc.owner.newline, hc.lastAccessUser.newline, (token_printInt _).newline,
      (token_printNat _).newline]
  · simp [NM_MAX_NAME, NM_MAX_USER] at *
    omega

theorem fits_checkpointLine {name : Text} {ck : CheckpointEntry} (hname : IsName name) (hword : Word name)
    (h : ck.Stored) (hc : ck.Clean) : Fits (checkpointLine name ck) := by
  have hname := hname.2
  have htag := h.tag.2
  have huser := h.user.2
  have := length_printInt_le h.timestamp
  refine fits_record (by decide) ?_ ?_
  · simp [hword.newline, hc.tag.newline, hc.user.newline, (token_printInt _).newline]
  · simp [NM_MAX_NAME, NM_MAX_USER] at *
    omega

theorem fits_aclLine {entry : FileAclEntry} (h : entry.Stored) (hc : Word entry.user) : Fits (aclLine entry) := by
  have huser := h.user
  have := length_printInt_le (perm_isInt entry.perm).isTime
  refine fits_record (by decide) ?_ ?_
  · simp [hc.newline, (token_printInt _).newline]
  · simp [NM_MAX_USER] at *
    omega

theorem fits_userLine {user : UserEntry} (h : user.Stored) (hc : Word user.name) : Fits (userLine user) := by
  have hname := h.name.2
  have := length_printInt_le h.lastSeen
  refine fits_record (by decide) ?_ ?_
  · simp [hc.newline, (token_printInt _).newline]
  · simp [NM_MAX_USER] at *
    omega

theorem fits_reqLine {req : AccessRequest} (h : req.Stored) (hc : req.Clean) : Fits (reqLine req) := by
  have hfile := h.file.2
  have howner := h.owner.2
  have hrequester := h.requester.2
  have := length_printInt_le (perm_isInt req.perm).isTime
  have := length_printInt_le h.status.isTime
  refine fits_record (by decide) ?_ ?_
  · simp [hc.file.newline, hc.owner.newline, hc.requester.newline, (token_printInt _).newline]
  · simp [NM_MAX_NAME, NM_MAX_USER] at *
    omega

theorem FileEntry.Clean.word {file : FileEntry} (h : file.Clean) {ck : CheckpointEntry}
    (hck : ck ∈ file.checkpoints) : Word file.name :=
  h.checkpointName (List.ne_nil_of_mem hck)

theorem fits_saveLines {s : NmState} (h : s.Stored) (hc : s.Clean) : ∀ l ∈ saveLines s, Fits l := by
  simp only [saveLines, List.forall_mem_cons, List.forall_mem_append, List.forall_mem_map, List.mem_flatMap,
    forall_exists_index, and_imp]
  have hfirst : Fits (Text.lit "VERSION 1") := ⟨by decide, by decide⟩
  have hend : Fits (Text.lit "END") := ⟨by decide, by decide⟩
  refine ⟨hfirst, fun ss hm => fits_serverLine (h.servers ss hm) (hc.servers ss hm), ?_,
    fun user hm => fits_userLine (h.users user hm) (hc.users user hm),
    fun req hm => fits_reqLine (h.requests req hm) (hc.requests req hm), hend, by simp⟩
  intro l file hm hl
  have hs := h.files file hm
  have hcl := hc.files file hm
  simp only [fileLines, List.mem_cons, List.mem_append, List.mem_map] at hl
  rcases hl with rfl | ⟨ck, hck, rfl⟩ | ⟨entry, he, rfl⟩
  · exact fits_fileLine hs h.serverCount hcl
  · exact fits_checkpointLine hs.name (hcl.word hck) (hs.checkpoints ck hck) (hcl.checkpoints ck hck)
  · exact fits_aclLine (hs.acl entry he) (hcl.acl entry he)

/-! ## Loading what was saved -/

/-- A loop that appends one entry for each element it is given. -/
theorem foldl_collect {σ α β : Type} (step : σ → α → σ) (view : List β → σ) (φ : α → β) (l : List α)
    (h : ∀ pre a post, l = pre ++ a :: post → step (view (pre.map φ)) a = view (pre.map φ ++ [φ a])) :
    l.foldl step (view []) = view (l.map φ) := by
  suffices ∀ pre post, l = pre ++ post → post.foldl step (view (pre.map φ)) = view (l.map φ) from
    this [] l rfl
  intro pre post
  induction post generalizing pre with
  | nil => rintro rfl; simp
  | cons a post ih =>
    intro heq
    rw [List.foldl_cons, h pre a post heq]
    simpa using ih (pre ++ [a]) (by simpa using heq)

theorem loadLine_server {ss : StorageServer} (h : ss.Stored) (hc : ss.Clean) (l : Loader)
    (hroom : l.state.servers.length < NM_MAX_SERVERS) :
    loadLine l (serverLine ss) =
      ⟨{ l.state with servers := l.state.servers ++ [{ ss with ctrlFd := -1 }] }, none⟩ := by
  unfold loadLine serverLine
  rw [spaced_cons_cons, recordOf_server]
  simp [loadRecord, scanServer_saved h hc, hroom]

theorem loadLine_file {n : Nat} (hn : n ≤ NM_MAX_SERVERS) {file : FileEntry} (h : file.Stored n)
    (hc : file.Clean) (l : Loader) (hroom : l.state.files.length < NM_MAX_FILES) :
    loadLine l (fileLine file) =
      ⟨{ l.state with files := l.state.files ++ [{ file with acl := [], checkpoints := [] }] },
        some l.state.files.length⟩ := by
  unfold loadLine fileLine
  rw [spaced_cons_cons, recordOf_file]
  simp [loadRecord, scanFile_saved hn h hc, Nat.not_le.2 hroom]

theorem loadLine_checkpoint {name : Text} {ck : CheckpointEntry} (hname : IsName name) (hword : Word name)
    (h : ck.Stored) (hc : ck.Clean) (l : Loader) :
    loadLine l (checkpointLine name ck) = ⟨loadCheckpoint l.state name ck, l.current⟩ := by
  unfold loadLine checkpointLine
  rw [spaced_cons_cons, recordOf_checkpoint]
  simp only [loadRecord, scanCheckpoint_saved hname hword h hc]

theorem loadLine_acl {entry : FileAclEntry} (h : entry.Stored) (hc : Word entry.user) (l : Loader) :
    loadLine l (aclLine entry) = ⟨loadAcl l.state l.current entry, l.current⟩ := by
  unfold loadLine aclLine
  rw [spaced_cons_cons, recordOf_acl]
  simp only [loadRecord, scanAcl_saved h hc]

theorem loadLine_user {user : UserEntry} (h : user.Stored) (hc : Word user.name) (l : Loader)
    (hroom : l.state.users.length < NM_MAX_USERS) :
    loadLine l (userLine user) = ⟨{ l.state with users := l.state.users ++ [user] }, none⟩ := by
  unfold loadLine userLine
  rw [spaced_cons_cons, recordOf_user]
  simp [loadRecord, scanUser_saved h hc, hroom]

theorem loadLine_req {req : AccessRequest} (h : req.Stored) (hc : req.Clean) (l : Loader)
    (hroom : l.state.requests.length < NM_MAX_REQUESTS) :
    loadLine l (reqLine req) = ⟨{ l.state with requests := l.state.requests ++ [req] }, none⟩ := by
  unfold loadLine reqLine
  rw [spaced_cons_cons, recordOf_req]
  simp [loadRecord, scanReq_saved h hc, hroom]

theorem length_lt_of_append {α : Type} {l pre post : List α} {a : α} {n : Nat} (hn : l.length ≤ n)
    (heq : l = pre ++ a :: post) : pre.length < n := by
  simp only [heq, List.length_append, List.length_cons] at hn
  omega

theorem findLoadedFile_last {s : NmState} {pre : List FileEntry} {file : FileEntry}
    (hs : s.files = pre ++ [file]) : findLoadedFile s file.name = some pre.length := by
  simp [findLoadedFile, hs, List.range_succ]

/-- The records of a file make its entry again. -/
theorem load_fileLines {n : Nat} (hn : n ≤ NM_MAX_SERVERS) {file : FileEntry} (h : file.Stored n)
    (hc : file.Clean) (l : Loader) (hroom : l.state.files.length < NM_MAX_FILES) :
    (fileLines file).foldl loadLine l =
      ⟨{ l.state with files := l.state.files ++ [file] }, some l.state.files.length⟩ := by
  let view (cks : List CheckpointEntry) (acl : List FileAclEntry) : Loader :=
    ⟨{ l.state with files := l.state.files ++ [{ file with acl := acl, checkpoints := cks }] },
      some l.state.files.length⟩
  have hck : (file.checkpoints.map (checkpointLine file.name)).foldl loadLine (view [] []) =
      view file.checkpoints [] := by
    rw [List.foldl_map]
    have := foldl_collect (fun l ck => loadLine l (checkpointLine file.name ck)) (view · []) id
      file.checkpoints ?_
    · simpa using this
    · intro pre ck post heq
      have hm : ck ∈ file.checkpoints := by simp [heq]
      have hlt := length_lt_of_append h.checkpointCount heq
      rw [loadLine_checkpoint h.name (hc.word hm) (h.checkpoints ck hm) (hc.checkpoints ck hm)]
      have hlast : findLoadedFile (view pre []).state file.name = some l.state.files.length :=
        @findLoadedFile_last _ l.state.files { file with acl := [], checkpoints := pre } rfl
      simp only [List.map_id, loadCheckpoint]
      rw [hlast]
      simp [view, modify_append_length, hlt]
  have hacl : (file.acl.map aclLine).foldl loadLine (view file.checkpoints []) = view file.checkpoints file.acl := by
    rw [List.foldl_map]
    have := foldl_collect (fun l entry => loadLine l (aclLine entry)) (view file.checkpoints) id file.acl ?_
    · simpa using this
    · intro pre entry post heq
      have hm : entry ∈ file.acl := by simp [heq]
      have hlt := length_lt_of_append h.aclCount heq
      rw [loadLine_acl (h.acl entry hm) (hc.acl entry hm)]
      simp [view, loadAcl, modify_append_length, hlt]
  rw [fileLines, List.foldl_cons, List.foldl_append, loadLine_file hn h hc l hroom]
  change (file.acl.map aclLine).foldl loadLine
    ((file.checkpoints.map (checkpointLine file.name)).foldl loadLine (view [] [])) = _
  rw [hck, hacl]

section Load

variable {s : NmState} (h : s.Stored) (hc : s.Clean)

include h hc

theorem load_servers :
    (s.servers.map serverLine).foldl loadLine ⟨.clear, none⟩ =
      ⟨{ NmState.clear with servers := s.reloaded.servers }, none⟩ := by
  rw [List.foldl_map]
  let view (l : List StorageServer) : Loader := ⟨{ NmState.clear with servers := l }, none⟩
  refine foldl_collect _ view _ s.servers ?_
  intro pre ss post heq
  have hm : ss ∈ s.servers := by simp [heq]
  have hlt := length_lt_of_append h.serverCount heq
  rw [loadLine_server (h.servers ss hm) (hc.servers ss hm) _ (by simpa [view] using hlt)]

theorem load_files (servers : List StorageServer) :
    ∃ current, (s.files.flatMap fileLines).foldl loadLine ⟨{ NmState.clear with servers := servers }, none⟩ =
      ⟨{ NmState.clear with servers := servers, files := s.files }, current⟩ := by
  rw [List.foldl_flatMap]
  let view (l : List FileEntry) : Loader :=
    ⟨{ NmState.clear with servers := servers, files := l }, if l = [] then none else some (l.length - 1)⟩
  have := foldl_collect (fun l file => (fileLines file).foldl loadLine l) view id s.files ?_
  · exact ⟨(view s.files).current, by simpa [view, NmState.clear] using this⟩
  · intro pre file post heq
    have hm : file ∈ s.files := by simp [heq]
    have hlt := length_lt_of_append h.fileCount heq
    rw [load_fileLines h.serverCount (h.files file hm) (hc.files file hm) _ (by simpa [view] using hlt)]
    simp [view]

theorem load_users (S : NmState) (hS : S.users = []) (current : Option Nat) :
    ∃ current', (s.users.map userLine).foldl loadLine ⟨S, current⟩ = ⟨{ S with users := s.users }, current'⟩ := by
  rw [List.foldl_map]
  let view (l : List UserEntry) : Loader := ⟨{ S with users := l }, if l = [] then current else none⟩
  have := foldl_collect (fun l user => loadLine l (userLine user)) view id s.users ?_
  · exact ⟨(view s.users).current, by simpa [view, ← hS] using this⟩
  · intro pre user post heq
    have hm : user ∈ s.users := by simp [heq]
    have hlt := length_lt_of_append h.userCount heq
    rw [loadLine_user (h.users user hm) (hc.users user hm) _ (by simpa [view] using hlt)]
    simp [view]

theorem load_requests (S : NmState) (hS : S.requests = []) (current : Option Nat) :
    ∃ current', (s.requests.map reqLine).foldl loadLine ⟨S, current⟩ =
      ⟨{ S with requests := s.requests }, current'⟩ := by
  rw [List.foldl_map]
  let view (l : List AccessRequest) : Loader := ⟨{ S with requests := l }, if l = [] then current else none⟩
  have := foldl_collect (fun l req => loadLine l (reqLine req)) view id s.requests ?_
  · exact ⟨(view s.requests).current, by simpa [view, ← hS] using this⟩
  · intro pre req post heq
    have hm : req ∈ s.requests := by simp [heq]
    have hlt := length_lt_of_append h.requestCount heq
    rw [loadLine_req (h.requests req hm) (hc.requests req hm) _ (by simpa [view] using hlt)]
    simp [view]

/-- Clean tables come back. -/
theorem load_save_of_clean : nmStateLoad (nmStateSave s) = s.reloaded := by
  have hother (l : Loader) (t : Text) (ht : recordOf t = .other) : loadLine l t = ⟨l.state, none⟩ := by
    simp only [loadLine, ht, loadRecord]
  obtain ⟨c₁, hfiles⟩ := load_files h hc s.reloaded.servers
  obtain ⟨c₂, husers⟩ := load_users h hc
    { NmState.clear with servers := s.reloaded.servers, files := s.files } rfl c₁
  obtain ⟨c₃, hrequests⟩ := load_requests h hc
    { NmState.clear with servers := s.reloaded.servers, files := s.files, users := s.users } rfl c₂
  unfold nmStateLoad nmStateSave
  rw [readLines_lines (fits_saveLines h hc), saveLines, List.foldl_cons, hother _ _ (by decide)]
  simp only [List.foldl_append]
  rw [load_servers h hc, hfiles, husers, hrequests, List.foldl_cons, hother _ _ (by decide)]
  rfl

end Load

/-! ## What a loaded state holds -/

/-- `sscanf` stored the text: it may be empty, but has no white space. -/
def Scanned (t : Text) : Prop := ∀ c ∈ t, isSpace c = false

/-- What the readers make of any file. An access entry whose user could not be read has no rights. -/
structure FileEntry.Loaded (file : FileEntry) : Prop where
  name : Token file.name
  owner : Token file.owner
  lastAccessUser : Token file.lastAccessUser
  checkpointName : file.checkpoints ≠ [] → Word file.name
  checkpoints : ∀ ck ∈ file.checkpoints, ck.Clean
  acl : ∀ entry ∈ file.acl, Scanned entry.user ∧ (entry.user = [] → entry.perm = 0)

structure NmState.Loaded (s : NmState) : Prop where
  servers : ∀ ss ∈ s.servers, ss.Clean
  files : ∀ file ∈ s.files, file.Loaded
  users : ∀ user ∈ s.users, Scanned user.name
  requests : ∀ req ∈ s.requests, req.Clean

theorem scanServer_clean {s : Text} {ss : StorageServer} (h : scanServer s = some ss) : ss.Clean := by
  simp only [scanServer, Option.bind_eq_bind, Option.bind_eq_some_iff, Prod.exists] at h
  obtain ⟨id, s₁, hid, host, s₂, hhost, ctrl, s₃, hctrl, data, s₄, hdata, n, s₅, -, h⟩ := h
  cases h
  exact ⟨word_of_scanToken hid, word_of_scanToken hhost, word_of_scanToken hctrl, word_of_scanToken hdata⟩

theorem scanReq_clean {s : Text} {req : AccessRequest} (h : scanReq s = some req) : req.Clean := by
  simp only [scanReq, Option.bind_eq_bind, Option.bind_eq_some_iff, Prod.exists] at h
  obtain ⟨file, s₁, hfile, owner, s₂, howner, requester, s₃, hreq, p, s₄, -, n, s₅, -, h⟩ := h
  cases h
  exact ⟨word_of_scanToken hfile, word_of_scanToken howner, word_of_scanToken hreq⟩

theorem copyTo_ne_nil {t : Text} (h : t ≠ []) {n : Nat} (hn : 1 < n) : Text.copyTo n t ≠ [] := by
  unfold Text.copyTo
  rw [Ne, List.take_eq_nil_iff]
  simp [h]
  omega

theorem mem_of_mem_copyTo {t : Text} {n : Nat} {c : Char} (h : c ∈ Text.copyTo n t) : c ∈ t :=
  List.mem_of_mem_take h

theorem word_copyTo {t : Text} (h : Word t) {n : Nat} (hn : 1 < n) : Word (Text.copyTo n t) :=
  ⟨copyTo_ne_nil h.1 hn, fun c hc => h.2 c (mem_of_mem_copyTo hc)⟩

theorem token_copyTo {t : Text} (h : Token t) {n : Nat} (hn : 1 < n) : Token (Text.copyTo n t) :=
  ⟨copyTo_ne_nil h.1 hn, fun hm => h.2.1 (mem_of_mem_copyTo hm), fun hm => h.2.2 (mem_of_mem_copyTo hm)⟩

theorem scanCheckpoint_clean {s name : Text} {ck : CheckpointEntry} (h : scanCheckpoint s = some (name, ck)) :
    Word name ∧ ck.Clean := by
  simp only [scanCheckpoint, Option.bind_eq_bind, Option.bind_eq_some_iff, Prod.exists] at h
  obtain ⟨name, s₁, hname, tag, s₂, htag, user, s₃, huser, n, s₄, -, h⟩ := h
  cases h
  exact ⟨word_of_scanToken hname, word_copyTo (word_of_scanToken htag) (by decide),
    word_copyTo (word_of_scanToken huser) (by decide)⟩

theorem scanAcl_loaded (s : Text) : Scanned (scanAcl s).user ∧ ((scanAcl s).user = [] → (scanAcl s).perm = 0) := by
  unfold scanAcl
  split
  · simp [Scanned]
  · next h =>
    have := word_of_scanToken h
    exact ⟨this.2, fun he => absurd he this.1⟩

theorem scanUser_loaded (s : Text) : Scanned (scanUser s).name := by
  unfold scanUser
  split
  · simp [Scanned]
  · next h => exact (word_of_scanToken h).2

theorem scanCounts_loaded {name owner : Text} {i j : Int} {ts : List Text} {file : FileEntry}
    (hname : Token name) (howner : Token owner) (hts : ∀ t ∈ ts, Token t)
    (h : scanCounts name owner i j ts = some file) : file.Loaded := by
  unfold scanCounts at h
  split at h
  · next lastUser _ _ =>
    cases h
    have hlast : Token lastUser := hts _ (by simp)
    exact {
      name := token_copyTo hname (by decide)
      owner := token_copyTo howner (by decide)
      lastAccessUser := token_copyTo hlast (by decide)
      checkpointName := by simp
      checkpoints := by simp
      acl := by simp }
  · cases h

theorem scanFile_loaded {s : Text} (hs : '\n' ∉ s) {file : FileEntry} (h : scanFile s = some file) :
    file.Loaded := by
  have htok : ∀ t ∈ (strtok s).take 12, Token t := fun t ht => token_of_mem_strtok hs (List.mem_of_mem_take ht)
  simp only [scanFile] at h
  split at h
  · cases h
  · split at h
    · next name owner ss rest heq =>
      rw [heq] at htok
      simp only [List.forall_mem_cons] at htok
      obtain ⟨hname, howner, -, hrest⟩ := htok
      split at h
      · split at h
        · rw [List.forall_mem_cons] at hrest
          exact scanCounts_loaded hname howner hrest.2 h
        · cases h
      · exact scanCounts_loaded hname howner hrest h
    · cases h

theorem afterTag_eq_some {tag : String} {line s : Text} (h : afterTag tag line = some s) (hl : '\n' ∉ line) :
    '\n' ∉ s := by
  unfold afterTag at h
  split at h
  · cases h
    exact fun hm => hl (List.mem_of_mem_drop hm)
  · cases h

theorem newline_of_recordOf_file {line s : Text} (h : recordOf line = .file s) (hl : '\n' ∉ line) : '\n' ∉ s := by
  unfold recordOf at h
  split at h
  · cases h
  · split at h
    · next heq =>
      cases h
      exact afterTag_eq_some heq hl
    · repeat' split at h
      all_goals cases h

theorem loadCheckpoint_loaded {s : NmState} (h : s.Loaded) {name : Text} {ck : CheckpointEntry}
    (hname : Word name) (hck : ck.Clean) : (loadCheckpoint s name ck).Loaded := by
  unfold loadCheckpoint
  cases hfind : findLoadedFile s name with
  | none => exact h
  | some i =>
    have hany := List.find?_some hfind
    simp only [Option.any_eq_true, beq_iff_eq] at hany
    obtain ⟨file, hi, rfl⟩ := hany
    obtain ⟨pre, post, hfiles, rfl⟩ := exists_append_of_getElem? hi
    have hall := h.files
    rw [hfiles, List.forall_mem_append, List.forall_mem_cons] at hall
    refine { h with files := ?_ }
    dsimp only
    rw [hfiles, modify_append_length, List.forall_mem_append, List.forall_mem_cons]
    refine ⟨hall.1, ?_, hall.2.2⟩
    split
    · refine { hall.2.1 with checkpointName := fun _ => hname, checkpoints := ?_ }
      simp only [List.forall_mem_append, List.forall_mem_singleton]
      exact ⟨hall.2.1.checkpoints, hck⟩
    · exact hall.2.1

theorem loadAcl_loaded {s : NmState} (h : s.Loaded) (current : Option Nat) (fields : Text) :
    (loadAcl s current (scanAcl fields)).Loaded := by
  unfold loadAcl
  split
  · exact h
  · refine { h with files := ?_ }
    refine forall_mem_modify h.files (fun file hm => ?_) _
    have hfile := h.files file hm
    split
    · refine { hfile with acl := ?_ }
      simp only [List.forall_mem_append, List.forall_mem_singleton]
      exact ⟨hfile.acl, scanAcl_loaded fields⟩
    · exact hfile

theorem loadLine_loaded {l : Loader} (h : l.state.Loaded) {line : Text} (hl : '\n' ∉ line) :
    (loadLine l line).state.Loaded := by
  unfold loadLine
  cases hrec : recordOf line with
  | server s =>
    simp only [loadRecord]
    split
    · next hscan =>
      split
      · refine { h with servers := ?_ }
        simp only [List.forall_mem_append, List.forall_mem_singleton]
        exact ⟨h.servers, scanServer_clean hscan⟩
      · exact h
    · exact h
  | file s =>
    simp only [loadRecord]
    split
    · exact h
    · split
      · next hscan =>
        refine { h with files := ?_ }
        simp only [List.forall_mem_append, List.forall_mem_singleton]
        exact ⟨h.files, scanFile_loaded (newline_of_recordOf_file hrec hl) hscan⟩
      · exact h
  | acl s => exact loadAcl_loaded h _ _
  | checkpoint s =>
    simp only [loadRecord]
    split
    · next hscan => exact loadCheckpoint_loaded h (scanCheckpoint_clean hscan).1 (scanCheckpoint_clean hscan).2
    · exact h
  | req s =>
    simp only [loadRecord]
    split
    · split
      · next hscan =>
        refine { h with requests := ?_ }
        simp only [List.forall_mem_append, List.forall_mem_singleton]
        exact ⟨h.requests, scanReq_clean hscan⟩
      · exact h
    · exact h
  | user s =>
    simp only [loadRecord]
    split
    · refine { h with users := ?_ }
      simp only [List.forall_mem_append, List.forall_mem_singleton]
      exact ⟨h.users, scanUser_loaded s⟩
    · exact h
  | other => exact h

theorem load_loaded (file : Text) : (nmStateLoad file).Loaded := by
  have hlines := newline_not_mem_readLines file
  unfold nmStateLoad
  generalize readLines file = lines at hlines
  suffices ∀ l : Loader, l.state.Loaded → (lines.foldl loadLine l).state.Loaded from
    this _ (by constructor <;> simp [NmState.clear])
  induction lines with
  | nil => exact fun _ h => h
  | cons line lines ih =>
    rw [List.forall_mem_cons] at hlines
    exact fun l h => ih hlines.2 _ (loadLine_loaded h hlines.1)

/-! ## Which tables come back -/

/-- The tables come back from the file exactly when all their texts are fields of its records. -/
theorem load_save_iff {s : NmState} (h : s.Stored) : nmStateLoad (nmStateSave s) = s.reloaded ↔ s.Clean := by
  constructor
  · intro heq
    have hl := load_loaded (nmStateSave s)
    rw [heq] at hl
    refine ⟨fun ss hm => ?_, fun file hm => ?_, fun user hm => ?_, fun req hm => hl.requests req hm⟩
    · have := hl.servers { ss with ctrlFd := -1 } (List.mem_map_of_mem hm)
      exact ⟨this.id, this.host, this.ctrlPort, this.dataPort⟩
    · have hf := hl.files file hm
      refine { hf with acl := fun entry he => ⟨fun hempty => ?_, (hf.acl entry he).1⟩ }
      exact ((h.files file hm).acl entry he).perm ((hf.acl entry he).2 hempty)
    · exact ⟨(h.users user hm).name.1, hl.users user hm⟩
  · exact load_save_of_clean h

/-- In every run, the tables that `nm_state_load` gets back from the file `nm_state_save` wrote are
exactly the clean ones. -/
theorem run_load_save_iff {tr : List (NmState × Event)} {s : NmState} (h : tables.Run tr s) :
    nmStateLoad (nmStateSave s) = s.reloaded ↔ s.Clean :=
  load_save_iff (stored_of_run h)

/-- With a plain name the file is saved and loaded again. -/
theorem run_load_save_notes : ∃ tr s, tables.Run tr s ∧ s.files.length = 1 ∧ s.Clean := by
  obtain ⟨tr, s, hrun, h⟩ := exists_tables_run (createFile ⟨Text.lit "notes", by decide, by decide⟩)
    (fun _ s => (s.files.length, decide (nmStateLoad (nmStateSave s) = s.reloaded))) (1, true) (by decide +kernel)
  rw [Prod.mk.injEq, decide_eq_true_eq] at h
  exact ⟨tr, s, hrun, h.1, (run_load_save_iff hrun).1 h.2⟩

/-- A name may have a blank. The file `a b` of Alice is then read back as a file `a` of `b`. -/
theorem blank_in_name : ∃ tr s, tables.Run tr s ∧ nmStateLoad (nmStateSave s) ≠ s.reloaded ∧
    s.files.map (fun f => (f.name, f.owner)) = [(Text.lit "a b", Text.lit "alice")] ∧
    (nmStateLoad (nmStateSave s)).files.map (fun f => (f.name, f.owner)) = [(['a'], ['b'])] := by
  obtain ⟨tr, s, hrun, h⟩ := exists_tables_run (createFile ⟨Text.lit "a b", by decide, by decide⟩)
    (fun _ s => decide (nmStateLoad (nmStateSave s) ≠ s.reloaded ∧
      s.files.map (fun f => (f.name, f.owner)) = [(Text.lit "a b", Text.lit "alice")] ∧
      (nmStateLoad (nmStateSave s)).files.map (fun f => (f.name, f.owner)) = [(['a'], ['b'])])) true
    (by decide +kernel)
  exact ⟨tr, s, hrun, of_decide_eq_true h⟩

end CoWrite.Nm
