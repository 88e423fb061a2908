import CoWrite.Nm.Requests

/-!
# What the tables hold

`NmState.Stored` holds of the tables in every run (`stored_of_run`): the counts are within the arrays, texts fit
their buffers, numbers their types, the names of files are valid and differ, and whoever owns, reads
or asks has a name. The ids and addresses of servers and the users of access lists may be empty:
nothing checks them.
-/

namespace CoWrite.Nm

open CoWrite.Lib

def IsTime (t : Int) : Prop := LONG_MIN ≤ t ∧ t ≤ LONG_MAX

instance (t : Int) : Decidable (IsTime t) := inferInstanceAs (Decidable (LONG_MIN ≤ t ∧ t ≤ LONG_MAX))

def IsInt (z : Int) : Prop := -2 ^ 31 ≤ z ∧ z < 2 ^ 31

def IsName (t : Text) : Prop := validName t = true ∧ t.length < NM_MAX_NAME

def Named (t : Text) : Prop := t ≠ [] ∧ t.length < NM_MAX_USER

theorem IsInt.isTime {z : Int} (h : IsInt z) : IsTime z := by
  unfold IsInt at h
  unfold IsTime LONG_MIN LONG_MAX
  omega

theorem Client.isNamed (c : Client) : Named c.text := ⟨c.named, c.short⟩

theorem isName_fileName (n : FileName) : IsName n.text := ⟨n.valid, n.short⟩

theorem Time.isTime (t : Time) : IsTime t.val := ⟨t.lower, t.upper⟩

theorem Named.copyTo {t : Text} (h : Named t) : Text.copyTo NM_MAX_USER t = t := Text.copyTo_eq_self h.2

theorem IsName.copyTo {t : Text} (h : IsName t) : Text.copyTo NM_MAX_NAME t = t := Text.copyTo_eq_self h.2

theorem isInt_toInt32 (z : Int) : IsInt (toInt32 z) := by
  unfold IsInt toInt32
  rw [Int.bmod_def]
  omega

theorem jsonGetInt_isInt {json key : Text} {z : Int} (h : jsonGetInt json key = some z) : IsInt z := by
  simp only [jsonGetInt, Option.bind_eq_some_iff, Option.map_eq_some_iff] at h
  obtain ⟨_, _, _, _, _, _, rfl⟩ := h
  exact isInt_toInt32 _

theorem getD_jsonGetInt_isInt (json key : Text) : IsInt ((jsonGetInt json key).getD 0) := by
  cases h : jsonGetInt json key with
  | none => simp [IsInt]
  | some z => exact jsonGetInt_isInt h

/-! ## The invariant -/

structure StorageServer.Stored (ss : StorageServer) : Prop where
  id : ss.id.length < NM_MAX_NAME
  host : ss.host.length < NM_MAX_NAME
  ctrlPort : ss.ctrlPort.length < 16
  dataPort : ss.dataPort.length < 16

/-- `-1` or the index of one of `n` servers. -/
def IsIndex (n : Nat) (i : Int) : Prop := -1 ≤ i ∧ i < n

structure FileAclEntry.Stored (entry : FileAclEntry) : Prop where
  user : entry.user.length < NM_MAX_USER
  perm : entry.perm ≠ 0

structure CheckpointEntry.Stored (entry : CheckpointEntry) : Prop where
  tag : IsName entry.tag
  user : Named entry.user
  timestamp : IsTime entry.timestamp

structure FileEntry.Stored (servers : Nat) (file : FileEntry) : Prop where
  name : IsName file.name
  owner : Named file.owner
  ssIndex : IsIndex servers file.ssIndex
  backupIndex : IsIndex servers file.backupIndex
  wordCount : file.wordCount < 2 ^ 64
  charCount : file.charCount < 2 ^ 64
  created : IsTime file.created
  modified : IsTime file.modified
  lastAccess : IsTime file.lastAccess
  lastAccessUser : Named file.lastAccessUser
  aclCount : file.acl.length ≤ NM_MAX_ACL
  acl : ∀ entry ∈ file.acl, entry.Stored
  checkpointCount : file.checkpoints.length ≤ NM_MAX_CHECKPOINTS
  checkpoints : ∀ entry ∈ file.checkpoints, entry.Stored

structure UserEntry.Stored (user : UserEntry) : Prop where
  name : Named user.name
  lastSeen : IsTime user.lastSeen

structure AccessRequest.Stored (req : AccessRequest) : Prop where
  file : IsName req.file
  owner : Named req.owner
  requester : Named req.requester
  status : IsInt req.status

structure NmState.Stored (s : NmState) : Prop where
  serverCount : s.servers.length ≤ NM_MAX_SERVERS
  servers : ∀ ss ∈ s.servers, ss.Stored
  fileCount : s.files.length ≤ NM_MAX_FILES
  files : ∀ file ∈ s.files, file.Stored s.servers.length
  names : (s.files.map FileEntry.name).Nodup
  userCount : s.users.length ≤ NM_MAX_USERS
  users : ∀ user ∈ s.users, user.Stored
  requestCount : s.requests.length ≤ NM_MAX_REQUESTS
  requests : ∀ req ∈ s.requests, req.Stored

theorem stored_clear : NmState.clear.Stored := by
  constructor <;> simp [NmState.clear]

/-- The entry of a name is the only one, so it is what is found. -/
theorem nmFindFile_of_mem {s : NmState} (h : s.Stored) {file : FileEntry} (hfile : file ∈ s.files) :
    nmFindFile s file.name = some file := by
  cases hfind : nmFindFile s file.name with
  | none => exact absurd (List.find?_eq_none.1 hfind file hfile) (by simp)
  | some found =>
    have hname : found.name = file.name := by simpa using List.find?_some hfind
    rw [List.inj_on_of_nodup_map h.names (List.mem_of_find?_eq_some hfind) hfile hname]

/-! ## Operations -/

theorem isIndex_none (n : Nat) : IsIndex n (-1) := by
  unfold IsIndex
  omega

theorem isIndex_optIndex {n : Nat} {i : Option Nat} (h : ∀ j ∈ i, j < n) : IsIndex n (optIndex i) := by
  cases i with
  | none => exact isIndex_none n
  | some i =>
    have := h i rfl
    simp only [IsIndex, optIndex]
    omega

theorem FileEntry.Stored.mono {m n : Nat} (hmn : m ≤ n) {file : FileEntry} (h : file.Stored m) :
    file.Stored n where
  __ := h
  ssIndex := ⟨h.ssIndex.1, by have := h.ssIndex.2; omega⟩
  backupIndex := ⟨h.backupIndex.1, by have := h.backupIndex.2; omega⟩

theorem dropBackup_stored {n : Nat} {file : FileEntry} (h : file.Stored n) : (dropBackup file).Stored n where
  __ := h
  backupIndex := isIndex_none n

theorem failover_stored {n : Nat} {file : FileEntry} (h : file.Stored n) : (failover file).Stored n where
  __ := h
  ssIndex := h.backupIndex
  backupIndex := isIndex_none n

theorem disconnectFile_stored {n : Nat} (s : NmState) (server : Int) {file : FileEntry}
    (h : file.Stored n) : (disconnectFile s server file).Stored n := by
  rcases disconnectFile_cases s server file with he | he | he
  · rwa [he]
  · rw [he]
    exact failover_stored h
  · rw [he]
    exact dropBackup_stored h

theorem grantAccess_stored {n : Nat} {file file' : FileEntry} (h : file.Stored n) {user : Text}
    {perm : BitVec 32} (hg : grantAccess file user perm = some file') :
    file'.Stored n ∧ file'.name = file.name := by
  unfold grantAccess at hg
  split at hg
  · cases hg
    exact ⟨h, rfl⟩
  · split at hg
    · cases hg
      refine ⟨{ h with aclCount := by simpa using h.aclCount, acl := ?_ }, rfl⟩
      refine forall_mem_modify h.acl (fun entry he => ?_) _
      exact ⟨(h.acl entry he).user, fun hz => (h.acl entry he).perm (by simp_all)⟩
    · split at hg
      · cases hg
      · next hroom =>
        cases hg
        refine ⟨{ h with aclCount := ?_, acl := ?_ }, rfl⟩
        · simp only [List.length_append, List.length_cons, List.length_nil]
          omega
        · simp only [List.forall_mem_append, List.forall_mem_singleton]
          exact ⟨h.acl, ⟨Text.length_copyTo_lt _ (by decide), fun hz => by simp at hz⟩⟩

theorem modifyFile_stored {s : NmState} (h : s.Stored) {name : Text} {f : FileEntry → FileEntry}
    (hf : ∀ file, nmFindFile s name = some file → file.Stored s.servers.length →
      (f file).Stored s.servers.length ∧ (f file).name = file.name) : (s.modifyFile name f).Stored := by
  cases hfind : nmFindFile s name with
  | none => rwa [modifyFile_of_none hfind]
  | some file =>
    obtain ⟨-, pre, post, hfiles, -, heq⟩ := exists_modifyFile hfind f
    have hall := h.files
    rw [hfiles, List.forall_mem_append, List.forall_mem_cons] at hall
    obtain ⟨hstored, hname⟩ := hf file hfind hall.2.1
    rw [heq]
    exact {
      h with
      fileCount := by simpa [hfiles] using h.fileCount
      files := by
        rw [List.forall_mem_append, List.forall_mem_cons]
        exact ⟨hall.1, hstored, hall.2.2⟩
      names := by simpa [hfiles, hname] using h.names }

theorem nmRegisterServer_stored {s s' : NmState} (h : s.Stored) {id host ctrlPort dataPort : Text} {fd : Int}
    {r : Option Nat} (hr : nmRegisterServer s id host ctrlPort dataPort fd = (r, s')) : s'.Stored := by
  obtain rfl : (nmRegisterServer s id host ctrlPort dataPort fd).2 = s' := by rw [hr]
  unfold nmRegisterServer
  have hcopy (n : Nat) (t : Text) (hn : 0 < n) := Text.length_copyTo_lt t hn
  split
  · refine { h with serverCount := by simpa using h.serverCount, servers := ?_, files := by simpa using h.files }
    refine forall_mem_modify h.servers (fun ss hss => ?_) _
    exact {
      id := (h.servers ss hss).id
      host := hcopy _ _ (by decide)
      ctrlPort := hcopy _ _ (by decide)
      dataPort := hcopy _ _ (by decide) }
  · split
    · exact h
    · next hroom =>
      refine { h with serverCount := ?_, servers := ?_, files := ?_ }
      · simp only [List.length_append, List.length_cons, List.length_nil]
        omega
      · simp only [List.forall_mem_append, List.forall_mem_singleton]
        refine ⟨h.servers, ?_⟩
        constructor <;> exact hcopy _ _ (by decide)
      · intro file hfile
        exact (h.files file hfile).mono (by simp)

theorem nmMarkServerDown_stored {s : NmState} (h : s.Stored) (index : Int) :
    (nmMarkServerDown s index).Stored := by
  unfold nmMarkServerDown
  split
  · exact h
  · refine { h with serverCount := by simpa using h.serverCount, servers := ?_, files := by simpa using h.files }
    refine forall_mem_modify h.servers (fun ss hss => ?_) _
    exact { h.servers ss hss with }

theorem nmPickServer_stored {s s' : NmState} (h : s.Stored) {r : Option Nat}
    (hp : nmPickServer s = (r, s')) : s'.Stored := by
  simp only [nmPickServer] at hp
  split at hp
  · cases hp
    exact h
  · cases hp
    exact { h with }

theorem handleServerDisconnect_stored {s : NmState} (h : s.Stored) (server : Int) :
    (handleServerDisconnect s server).1.Stored := by
  have h := nmMarkServerDown_stored h server
  simp only [handleServerDisconnect]
  refine { h with fileCount := by simpa using h.fileCount, files := ?_, names := ?_ }
  · intro file hfile
    obtain ⟨file, hm, rfl⟩ := List.mem_map.1 hfile
    exact disconnectFile_stored _ _ (h.files file hm)
  · simpa [List.map_map, Function.comp_def] using h.names

theorem nmAddFile_stored {s s' : NmState} (h : s.Stored) {name owner : Text} {primary backup now : Int}
    (hname : IsName name) (howner : Named owner) (hp : IsIndex s.servers.length primary)
    (hb : IsIndex s.servers.length backup) (hnow : IsTime now)
    (ha : nmAddFile s name owner primary backup now = some s') : s'.Stored := by
  unfold nmAddFile at ha
  split at ha
  · cases ha
  · next hroom =>
    split at ha
    · cases ha
    · next hnew =>
      cases ha
      have hentry : (newFileEntry name owner primary backup now).Stored s.servers.length := by
        constructor <;> simp only [newFileEntry, hname.copyTo, howner.copyTo, hname, howner, hp, hb, hnow]
        all_goals simp
      have hnew : ∀ file ∈ s.files, file.name ≠ name := by
        simpa [findFileIndex] using hnew
      refine { h with fileCount := ?_, files := ?_, names := ?_ }
      · simp only [List.length_append, List.length_cons, List.length_nil]
        omega
      · simp only [List.forall_mem_append, List.forall_mem_singleton]
        exact ⟨h.files, hentry⟩
      · simp only [List.map_append, List.map_cons, List.map_nil, newFileEntry, hname.copyTo]
        rw [List.nodup_append]
        refine ⟨h.names, by simp, ?_⟩
        intro a ha b hb
        obtain ⟨file, hfile, rfl⟩ := List.mem_map.1 ha
        rw [List.mem_singleton.1 hb]
        exact hnew file hfile

theorem nmGrantAccess_stored {s s' : NmState} (h : s.Stored) {name user : Text} {perm : BitVec 32}
    (hg : nmGrantAccess s name user perm = some s') : s'.Stored := by
  obtain ⟨file, file', hfile, hgrant, rfl⟩ := nmGrantAccess_tables hg
  refine modifyFile_stored h fun f hf hstored => ?_
  obtain rfl : file = f := by simpa [hfile] using hf
  exact grantAccess_stored hstored hgrant

theorem nmRemoveAccess_stored {s : NmState} (h : s.Stored) (name user : Text) :
    (nmRemoveAccess s name user).Stored := by
  refine modifyFile_stored h fun file _ hfile => ?_
  split
  · exact ⟨hfile, rfl⟩
  · refine ⟨{ hfile with aclCount := ?_, acl := ?_ }, rfl⟩
    · exact (length_swapRemove_le _ _).trans hfile.aclCount
    · exact fun entry he => hfile.acl entry (mem_of_mem_swapRemove he)

theorem nmFileAddCheckpoint_stored {s s' : NmState} (h : s.Stored) {name tag user : Text} {now : Int}
    (htag : IsName tag) (huser : Named user) (hnow : IsTime now)
    (ha : nmFileAddCheckpoint s name tag user now = some s') : s'.Stored := by
  obtain ⟨file, hfile, ha⟩ := Option.bind_eq_some_iff.1 ha
  split_ifs at ha with _ hroom
  cases ha
  refine modifyFile_stored h fun f hf hstored => ?_
  obtain rfl : file = f := by simpa [hfile] using hf
  refine ⟨{ hstored with checkpointCount := ?_, checkpoints := ?_ }, rfl⟩
  · simp only [List.length_append, List.length_cons, List.length_nil]
    omega
  · simp only [List.forall_mem_append, List.forall_mem_singleton]
    refine ⟨hstored.checkpoints, ?_⟩
    rw [htag.copyTo, huser.copyTo]
    exact ⟨htag, huser, hnow⟩

theorem nmRemoveFile_stored {s s' : NmState} (h : s.Stored) {name : Text}
    (hr : nmRemoveFile s name = some s') : s'.Stored := by
  obtain ⟨i, -, rfl⟩ := Option.map_eq_some_iff.1 hr
  exact {
    h with
    fileCount := (length_swapRemove_le _ _).trans h.fileCount
    files := fun file hfile => h.files file (mem_of_mem_swapRemove hfile)
    names := nodup_map_swapRemove h.names i }

theorem nmAddUser_stored {s : NmState} (h : s.Stored) {user : Text} {now : Int} (huser : Named user)
    (hnow : IsTime now) : (nmAddUser s user now).Stored := by
  unfold nmAddUser
  split
  · refine { h with userCount := by simpa using h.userCount, users := ?_ }
    refine forall_mem_modify h.users (fun entry he => ?_) _
    exact { name := (h.users entry he).name, lastSeen := hnow }
  · split
    · exact h
    · refine { h with userCount := ?_, users := ?_ }
      · simp only [List.length_append, List.length_cons, List.length_nil]
        omega
      · simp only [List.forall_mem_append, List.forall_mem_singleton]
        rw [huser.copyTo]
        exact ⟨h.users, huser, hnow⟩

theorem nmCachePut_stored {s : NmState} (h : s.Stored) (name : Text) (server now : Int) :
    (nmCachePut s name server now).Stored := by
  unfold nmCachePut
  split <;> exact { h with }

theorem selectStorageServer_stored {s s' : NmState} (h : s.Stored) {name : Text} {r : Option Int}
    (hsel : selectStorageServer s name = (r, s')) : s'.Stored := by
  unfold selectStorageServer at hsel
  split at hsel
  · cases hsel
    exact h
  · split_ifs at hsel <;> cases hsel
    · exact h
    · exact modifyFile_stored h fun _ _ hfile => ⟨failover_stored hfile, rfl⟩
    · exact modifyFile_stored h fun _ _ hfile => ⟨dropBackup_stored hfile, rfl⟩
    · exact h

theorem fileUpdate_stored {s : NmState} (h : s.Stored) {json : Text} {u : FileUpdate}
    (hu : readFileUpdate json = some u) : (fileUpdate s u).Stored := by
  have hcount (key : Text) : updateCount json key < 2 ^ 64 := by
    have := getD_jsonGetInt_isInt json key
    unfold IsInt at this
    unfold updateCount
    omega
  have htime (key : Text) : IsTime ((jsonGetInt json key).getD 0) := (getD_jsonGetInt_isInt json key).isTime
  unfold readFileUpdate at hu
  split at hu
  · next file lastUser _ hlast =>
    cases hu
    refine modifyFile_stored h fun file _ hfile => ⟨?_, rfl⟩
    refine {
      hfile with
      wordCount := hcount _
      charCount := hcount _
      modified := ?_
      lastAccess := ?_
      lastAccessUser := ?_ }
    · dsimp only
      split_ifs
      · exact htime _
      · exact hfile.modified
    · dsimp only
      split_ifs
      · exact htime _
      · exact hfile.lastAccess
    · have hlast : lastUser.length < NM_MAX_USER := length_jsonGetString_lt hlast
      dsimp only
      split_ifs with hempty
      · rw [Text.copyTo_eq_self hlast]
        exact ⟨hempty, hlast⟩
      · exact hfile.lastAccessUser
  · cases hu

theorem assignBackup_stored {s : NmState} (h : s.Stored) (name : Text) (primary : Int) {target : Nat}
    (ht : target < s.servers.length) : (assignBackup s name primary target).Stored := by
  have htarget : IsIndex s.servers.length target := ⟨by omega, by omega⟩
  refine modifyFile_stored h fun file _ hfile => ?_
  split
  · exact ⟨{ hfile with backupIndex := htarget }, rfl⟩
  · exact ⟨hfile, rfl⟩

theorem dropFailedBackup_stored {s : NmState} (h : s.Stored) (name : Text) (attempted : Int) :
    (dropFailedBackup s name attempted).Stored := by
  refine modifyFile_stored h fun file _ hfile => ?_
  split
  · exact ⟨dropBackup_stored hfile, rfl⟩
  · exact ⟨hfile, rfl⟩

/-! ## Sections -/

theorem createEnd_stored {s : NmState} (h : s.Stored) {user file : Text} {primary backup now : Int}
    (huser : Named user) (hfile : IsName file) (hp : IsIndex s.servers.length primary)
    (hb : IsIndex s.servers.length backup) (hnow : IsTime now) :
    (createEnd s user file primary backup now).2.Stored := by
  unfold createEnd
  split
  · exact h
  · next s' ha =>
    have h' := nmAddFile_stored h hfile huser hp hb hnow ha
    refine nmCachePut_stored ?_ _ _ _
    cases hg : nmGrantAccess s' file user (NM_PERM_WRITE ||| NM_PERM_READ) with
    | none => exact h'
    | some s'' => exact nmGrantAccess_stored h' hg

theorem selectForRequest_stored {s : NmState} (h : s.Stored) (user json : Text) (perm : BitVec 32)
    (denied : Text) : (selectForRequest s user json perm denied).2.Stored := by
  rcases selectForRequest_tables s user json perm denied with heq | ⟨name, heq⟩
  · rwa [heq]
  · rw [heq]
    exact selectStorageServer_stored h rfl

theorem deleteBegin_stored {s : NmState} (h : s.Stored) (user json : Text) :
    (deleteBegin s user json).2.Stored := by
  have h' := selectForRequest_stored h user json NM_PERM_WRITE (Text.lit "no write access")
  unfold deleteBegin
  split
  · next heq =>
    rw [heq] at h'
    exact selectStorageServer_stored h' rfl
  · exact h'

theorem handleClientAddaccess_stored {s : NmState} (h : s.Stored) (user json : Text) :
    (handleClientAddaccess s user json).2.Stored := by
  rcases handleClientAddaccess_tables s user json with heq | ⟨name, target, perm, hgrant⟩
  · rwa [heq]
  · exact nmGrantAccess_stored h hgrant

theorem handleClientRemoveaccess_stored {s : NmState} (h : s.Stored) (user json : Text) :
    (handleClientRemoveaccess s user json).2.Stored := by
  rcases handleClientRemoveaccess_tables s user json with heq | ⟨name, target, heq⟩
  · rwa [heq]
  · rw [heq]
    exact nmRemoveAccess_stored h name target

theorem isInt_status {status : Int} (h : status ∈ [NM_REQUEST_PENDING, NM_REQUEST_APPROVED, NM_REQUEST_DENIED]) :
    IsInt status := by
  simp only [List.mem_cons, List.not_mem_nil, or_false] at h
  rcases h with rfl | rfl | rfl <;> exact ⟨by decide, by decide⟩

theorem requestAccess_stored {s s' : NmState} (h : s.Stored) {file owner requester : Text}
    {perm : BitVec 32} (hfile : IsName file) (howner : Named owner) (hreq : Named requester)
    (hr : requestAccess s file owner requester perm = some s') : s'.Stored := by
  unfold requestAccess at hr
  split at hr
  · cases hr
    refine { h with requestCount := by simpa using h.requestCount, requests := ?_ }
    refine forall_mem_modify h.requests (fun req hm => ?_) _
    exact { h.requests req hm with owner := by rwa [howner.copyTo], status := isInt_status (by simp) }
  · split at hr
    · cases hr
    · cases hr
      refine { h with requestCount := ?_, requests := ?_ }
      · simp only [List.length_append, List.length_cons, List.length_nil]
        omega
      · simp only [List.forall_mem_append, List.forall_mem_singleton, hfile.copyTo, howner.copyTo,
          hreq.copyTo]
        exact ⟨h.requests, hfile, howner, hreq, isInt_status (by simp)⟩

theorem isName_of_nmFindFile {s : NmState} (h : s.Stored) {name : Text} {file : FileEntry}
    (hf : nmFindFile s name = some file) : IsName name ∧ file.Stored s.servers.length := by
  have hfile := h.files file (List.mem_of_find?_eq_some hf)
  obtain ⟨rfl, -⟩ := exists_modifyFile hf id
  exact ⟨hfile.name, hfile⟩

theorem handleClientReqaccess_stored {s : NmState} (h : s.Stored) {user : Text} (huser : Named user)
    (json : Text) : (handleClientReqaccess s user json).2.Stored := by
  rcases handleClientReqaccess_tables s user json with heq | ⟨name, file, perm, hfind, hreq⟩
  · rwa [heq]
  · obtain ⟨hname, hfile⟩ := isName_of_nmFindFile h hfind
    exact requestAccess_stored h hname hfile.owner huser hreq

theorem setRequestStatus_stored {s : NmState} (h : s.Stored) (i : Nat) {status : Int} (hs : IsInt status) :
    (setRequestStatus s i status).Stored := by
  refine { h with requestCount := by simpa [setRequestStatus] using h.requestCount, requests := ?_ }
  refine forall_mem_modify h.requests (fun req hm => ?_) _
  exact { h.requests req hm with status := hs }

theorem handleClientHandlereq_stored {s : NmState} (h : s.Stored) (user json : Text) :
    (handleClientHandlereq s user json).2.Stored := by
  rcases handleClientHandlereq_tables s user json with heq | ⟨i, name, requester, perm, t, hgrant, heq⟩ | ⟨i, heq⟩
  · rwa [heq]
  · rw [heq]
    exact setRequestStatus_stored (nmGrantAccess_stored h hgrant) i (isInt_status (by simp))
  · rw [heq]
    exact setRequestStatus_stored h i (isInt_status (by simp))

theorem checkpointEnd_stored {s : NmState} (h : s.Stored) {user tag : Text} {now : Int} (name : Text)
    (huser : Named user) (htag : IsName tag) (hnow : IsTime now) :
    (checkpointEnd s user name tag now).2.Stored := by
  rcases checkpointEnd_tables s user name tag now with heq | hadd
  · rwa [heq]
  · exact nmFileAddCheckpoint_stored h htag huser hnow hadd

theorem handleClientHello_stored {s : NmState} (h : s.Stored) (json : Text) (inUse : Bool) {now : Int}
    (hnow : IsTime now) : (handleClientHello s json inUse now).2.Stored := by
  rcases handleClientHello_tables s json inUse now with heq | ⟨user, huser, hne, heq⟩
  · rwa [heq]
  · rw [heq]
    exact nmAddUser_stored h ⟨hne, length_jsonGetString_lt huser⟩ hnow

theorem handleSsRegister_stored {s : NmState} (h : s.Stored) (json : Text) (fd : Nat) :
    (handleSsRegister s json fd).2.Stored := by
  rcases handleSsRegister_tables s json fd with heq | ⟨id, host, ctrlPort, dataPort, heq⟩
  · rwa [heq]
  · rw [heq]
    exact nmRegisterServer_stored h rfl

theorem createBegin_stored {s : NmState} (h : s.Stored) (user json : Text) :
    (createBegin s user json).2.Stored := by
  rcases createBegin_tables s user json with heq | heq
  · rwa [heq]
  · rw [heq]
    exact nmPickServer_stored h rfl

theorem tablesStep_stored {s s' : NmState} {e : Event} (h : s.Stored) (hs : tablesStep s e = some s') :
    s'.Stored := by
  cases e with
  | hello json inUse now => cases hs; exact handleClientHello_stored h json inUse now.isTime
  | register json fd => cases hs; exact handleSsRegister_stored h json fd
  | disconnect server => cases hs; exact handleServerDisconnect_stored h server
  | markDown server => cases hs; exact nmMarkServerDown_stored h server
  | createBegin user json => cases hs; exact createBegin_stored h _ _
  | createEnd user file primary backup now =>
    simp only [tablesStep] at hs
    split_ifs at hs with hindex
    cases hs
    have hp : IsIndex s.servers.length primary := ⟨by omega, by omega⟩
    exact createEnd_stored h user.isNamed (isName_fileName file) hp (isIndex_optIndex hindex.2) now.isTime
  | deleteBegin user json => cases hs; exact deleteBegin_stored h _ _
  | deleteEnd file =>
    cases hs
    simp only [deleteEnd]
    cases hr : nmRemoveFile s file with
    | none => exact h
    | some s' => exact nmRemoveFile_stored h hr
  | undoBegin user json => cases hs; exact selectForRequest_stored h _ _ _ _
  | ticketBegin user json perm => cases hs; exact selectForRequest_stored h _ _ _ _
  | ticketEnd file server now => cases hs; exact nmCachePut_stored h _ _ _
  | checkpointEnd user file tag now =>
    cases hs
    exact checkpointEnd_stored h file user.isNamed (isName_fileName tag) now.isTime
  | addaccess user json => cases hs; exact handleClientAddaccess_stored h _ _
  | removeaccess user json => cases hs; exact handleClientRemoveaccess_stored h _ _
  | reqaccess user json => cases hs; exact handleClientReqaccess_stored h user.isNamed _
  | handlereq user json => cases hs; exact handleClientHandlereq_stored h _ _
  | fileUpdate json =>
    obtain ⟨u, hu, rfl⟩ := Option.map_eq_some_iff.1 hs
    exact fileUpdate_stored h hu
  | assignBackup file primary target =>
    simp only [tablesStep] at hs
    split_ifs at hs with ht
    cases hs
    exact assignBackup_stored h file primary ht
  | syncFailed file attempted => cases hs; exact dropFailedBackup_stored h _ _

/-- What the tables hold in every run. -/
theorem stored_of_run {tr : List (NmState × Event)} {s : NmState} (h : tables.Run tr s) : s.Stored := by
  refine System.Run.invariant (I := NmState.Stored) (G := fun _ _ => True) ?_ ?_ h fun _ _ => trivial
  · rintro _ rfl
    exact stored_clear
  · exact fun _ _ _ h _ hs => tablesStep_stored h hs

end CoWrite.Nm
