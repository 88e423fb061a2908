import CoWrite.Nm.Stored

/-!
# Who may do what with a file

The access lists against the history of the requests. `grants` reads a run: the permissions given to a
user for a file since the file was created and the user last removed from it. `access_of_run` says that
in every run the lists allow exactly what these grants say, with reading in each of them.

Only creations, deletions and the three requests of an owner touch names, owners and access lists
(`access_frame`); `step_entry` says what each of them does to the entry of one file.
-/

namespace CoWrite.Nm

open CoWrite.Lib

/-! ## Grants -/

def NmState.owns (s : NmState) (user f : Text) : Prop := ∃ file, nmFindFile s f = some file ∧ file.owner = user

instance (s : NmState) (user f : Text) : Decidable (s.owns user f) :=
  match h : nmFindFile s f with
  | none => isFalse (by simp [NmState.owns, h])
  | some file => decidable_of_iff (file.owner = user) (by simp [NmState.owns, h])

/-- The file and the user that an `ADDACCESS`, `REMACCESS` or `HANDLEREQ` is about. -/
def IsAbout (json f u : Text) : Prop :=
  jsonFile json = some f ∧ jsonGetString json (Text.lit "user") NM_MAX_USER = some u

instance (json f u : Text) : Decidable (IsAbout json f u) := inferInstanceAs (Decidable (_ ∧ _))

/-- The action of a `HANDLEREQ` is `APPROVE`. -/
def approves (json : Text) : Bool :=
  (jsonGetString json (Text.lit "action") 16).any (equalsIgnoreCase · (Text.lit "APPROVE"))

/-- What the section gives `u` for `f`: an `ADDACCESS` by the owner, or an `APPROVE` by the owner of the
request of `u` that is pending, when it is answered `OK`. -/
def granted (s : NmState) (f u : Text) : Event → Option (BitVec 32)
  | .addaccess user json =>
    if s.owns user.text f ∧ IsAbout json f u ∧
        (handleClientAddaccess s user.text json).1 = .ok (Text.lit "ADDACCESS") then
      (jsonGetString json (Text.lit "mode") 8).map modePerm
    else none
  | .handlereq user json =>
    if s.owns user.text f ∧ IsAbout json f u ∧ approves json = true ∧
        (handleClientHandlereq s user.text json).1 = .ok (Text.lit "HANDLEREQ") then
      ((findAccessRequest s f u).bind (s.requests[·]?)).bind fun req =>
        if req.status = NM_REQUEST_PENDING then some req.perm else none
    else none
  | _ => none

/-- The section creates `f`, or removes `u` from it. -/
def resets (s : NmState) (f u : Text) : Event → Bool
  | .createEnd user file primary backup now =>
    file.text == f &&
      (createEnd s user.text file.text primary (optIndex backup) now.val).1 == .ok (Text.lit "CREATE")
  | .removeaccess user json =>
    decide (IsAbout json f u) &&
      (handleClientRemoveaccess s user.text json).1 == .ok (Text.lit "REMACCESS")
  | _ => false

/-- What was given to `u` for `f` since `f` was created and `u` was removed last, latest first. -/
def grants (f u : Text) : List (NmState × Event) → List (BitVec 32)
  | [] => []
  | (s, e) :: tr => if resets s f u e then [] else (granted s f u e).toList ++ grants f u tr

/-- Reading and the union of the grants. -/
def permUnion (gs : List (BitVec 32)) : BitVec 32 := gs.foldr (· ||| ·) NM_PERM_READ

/-! ## Access lists -/

/-- The permissions in the entry of a user. -/
def aclPerm (file : FileEntry) (user : Text) : Option (BitVec 32) :=
  (file.acl.find? fun entry => entry.user == user).map FileAclEntry.perm

theorem aclAllows_eq (file : FileEntry) (user : Text) (perm : BitVec 32) :
    aclAllows file user perm = (aclPerm file user).any fun p => p &&& perm == perm := by
  unfold aclAllows aclPerm
  rw [Option.any_map]

/-- Each user has one entry. -/
def OneEach (file : FileEntry) : Prop := (file.acl.map FileAclEntry.user).Nodup

theorem find?_eq_none_of_findIdx? {α : Type} {p : α → Bool} {l : List α} (h : l.findIdx? p = none) :
    l.find? p = none := by
  rw [List.find?_eq_none]
  rw [List.findIdx?_eq_none_iff] at h
  intro x hx
  simp [h x hx]

theorem grantAccess_name_owner {file file' : FileEntry} {user : Text} {perm : BitVec 32}
    (hg : grantAccess file user perm = some file') : file'.name = file.name ∧ file'.owner = file.owner := by
  unfold grantAccess at hg
  split at hg
  · cases hg
    exact ⟨rfl, rfl⟩
  · split at hg
    · cases hg
      exact ⟨rfl, rfl⟩
    · split at hg
      · cases hg
      · cases hg
        exact ⟨rfl, rfl⟩

/-- A grant leaves the entries of the others and adds to the one of the user. -/
theorem grantAccess_spec {file file' : FileEntry} {user : Text} {perm : BitVec 32} (hu : user.length < NM_MAX_USER)
    (hg : grantAccess file user perm = some file') (hone : OneEach file) :
    OneEach file' ∧ ∀ u, u ≠ file.owner →
      aclPerm file' u =
        if u = user then some ((aclPerm file u).getD NM_PERM_READ ||| perm) else aclPerm file u := by
  unfold grantAccess at hg
  split at hg
  · next howner =>
    cases hg
    refine ⟨hone, fun u hne => ?_⟩
    rw [if_neg fun e => hne (by rw [e, howner])]
  · split at hg
    · next i hi =>
      cases hg
      refine ⟨?_, fun u _ => ?_⟩
      · unfold OneEach
        have hmap : (file.acl.modify i fun entry => { entry with perm := entry.perm ||| perm }).map
            FileAclEntry.user = file.acl.map FileAclEntry.user := map_modify_of_eq (by intro entry; rfl) _ _
        rwa [hmap]
      · obtain ⟨pre, a, post, hacl, -, ha, -⟩ := exists_append_of_findIdx? hi
        have hsome : (file.acl.find? fun entry => entry.user == user).isSome = true := by
          rw [List.find?_isSome]
          exact ⟨a, by simp [hacl], by simpa using ha⟩
        have hkeep : ∀ entry : FileAclEntry, ({ entry with perm := entry.perm ||| perm } : FileAclEntry).user =
            entry.user := fun _ => rfl
        unfold aclPerm
        rw [find?_modify hi hkeep]
        by_cases hue : u = user
        · subst hue
          obtain ⟨entry, hentry⟩ := Option.isSome_iff_exists.1 hsome
          simp [hentry]
        · rw [if_neg (by simpa using hue), if_neg hue]
    · next hnone =>
      split at hg
      · cases hg
      · cases hg
        have hnew : file.acl.find? (fun entry => entry.user == user) = none := find?_eq_none_of_findIdx? hnone
        have hcopy : Text.copyTo NM_MAX_USER user = user := Text.copyTo_eq_self hu
        refine ⟨?_, fun u _ => ?_⟩
        · unfold OneEach
          rw [List.map_append, List.nodup_append]
          refine ⟨hone, by simp, fun a ha b hb => ?_⟩
          obtain ⟨entry, he, rfl⟩ := List.mem_map.1 ha
          have hb : b = user := by simpa [hcopy] using hb
          have := List.find?_eq_none.1 hnew entry he
          rw [hb]
          simpa using this
        · unfold aclPerm
          rw [List.find?_append, hcopy]
          by_cases hue : u = user
          · subst hue
            simp [hnew, BitVec.or_comm]
          · have hue' : (user == u) = false := by simpa using Ne.symm hue
            simp [hue, hue']

/-- Taking a user off the list leaves the entries of the others. -/
theorem removeAccess_spec {file file' : FileEntry} {user : Text}
    (h : file' = match findAcl file user with
      | none => file
      | some i => { file with acl := swapRemove file.acl i }) :
    file'.name = file.name ∧ file'.owner = file.owner ∧ (OneEach file → OneEach file' ∧
      ∀ u, aclPerm file' u = if u = user then none else aclPerm file u) := by
  cases hi : findAcl file user with
  | none =>
    rw [hi] at h
    subst h
    refine ⟨rfl, rfl, fun hone => ⟨hone, fun u => ?_⟩⟩
    split
    · next hu =>
      rw [hu, aclPerm, find?_eq_none_of_findIdx? hi]
      rfl
    · rfl
  | some i =>
    rw [hi] at h
    subst h
    refine ⟨rfl, rfl, fun hone => ⟨nodup_map_swapRemove hone i, fun u => ?_⟩⟩
    unfold aclPerm
    rw [find?_swapRemove hone hi]
    by_cases hu : u = user
    · simp [hu]
    · rw [if_neg (by simpa using hu), if_neg hu]

/-! ## Sections that leave access alone -/

/-- What access control reads of an entry. -/
def FileEntry.access (file : FileEntry) : Text × Text × List FileAclEntry := (file.name, file.owner, file.acl)

/-- The entries are the same for access control. -/
def SameAccess (s t : NmState) : Prop := t.files.map FileEntry.access = s.files.map FileEntry.access

theorem SameAccess.refl (s : NmState) : SameAccess s s := rfl

theorem SameAccess.trans {s t u : NmState} (h : SameAccess s t) (h' : SameAccess t u) : SameAccess s u :=
  Eq.trans h' h

theorem sameAccess_modifyFile (s : NmState) (name : Text) {f : FileEntry → FileEntry}
    (hf : ∀ file, (f file).access = file.access) : SameAccess s (s.modifyFile name f) := by
  cases hfind : nmFindFile s name with
  | none =>
    rw [modifyFile_of_none hfind]
    exact .refl s
  | some file =>
    obtain ⟨-, pre, post, hfiles, -, heq⟩ := exists_modifyFile hfind f
    rw [heq, SameAccess, hfiles]
    simp [hf]

theorem selectStorageServer_sameAccess (s : NmState) (name : Text) :
    SameAccess s (selectStorageServer s name).2 := by
  unfold selectStorageServer
  split
  · exact .refl s
  · split_ifs
    · exact .refl s
    · exact sameAccess_modifyFile s name fun _ => rfl
    · exact sameAccess_modifyFile s name fun _ => rfl
    · exact .refl s

theorem selectForRequest_sameAccess (s : NmState) (user json : Text) (perm : BitVec 32) (denied : Text) :
    SameAccess s (selectForRequest s user json perm denied).2 := by
  rcases selectForRequest_tables s user json perm denied with heq | ⟨name, heq⟩
  · rw [heq]
    exact .refl s
  · rw [heq]
    exact selectStorageServer_sameAccess s name

theorem deleteBegin_sameAccess (s : NmState) (user json : Text) : SameAccess s (deleteBegin s user json).2 := by
  have hselect := selectForRequest_sameAccess s user json NM_PERM_WRITE (Text.lit "no write access")
  unfold deleteBegin
  split
  · next heq =>
    rw [heq] at hselect
    exact hselect.trans (selectStorageServer_sameAccess _ _)
  · exact hselect

theorem nmAddUser_files (s : NmState) (user : Text) (now : Int) : (nmAddUser s user now).files = s.files := by
  unfold nmAddUser
  split
  · rfl
  · split <;> rfl

theorem nmRegisterServer_files (s : NmState) (id host ctrlPort dataPort : Text) (fd : Int) :
    (nmRegisterServer s id host ctrlPort dataPort fd).2.files = s.files := by
  unfold nmRegisterServer
  split
  · rfl
  · split <;> rfl

theorem nmMarkServerDown_files (s : NmState) (index : Int) : (nmMarkServerDown s index).files = s.files := by
  unfold nmMarkServerDown
  split <;> rfl

theorem nmPickServer_files (s : NmState) : (nmPickServer s).2.files = s.files := by
  simp only [nmPickServer]
  split <;> rfl

/-- The sections that are about owners and access lists. -/
def Event.isAccess : Event → Bool
  | .createEnd .. | .deleteEnd .. | .addaccess .. | .removeaccess .. | .handlereq .. => true
  | _ => false

/-- The other sections leave names, owners and access lists as they are. -/
theorem access_frame {s t : NmState} {e : Event} (h : tablesStep s e = some t) (he : e.isAccess = false) :
    SameAccess s t := by
  cases e with
  | createEnd | deleteEnd | addaccess | removeaccess | handlereq => cases he
  | hello json inUse now =>
    cases h
    rcases handleClientHello_tables s json inUse now.val with heq | ⟨user, -, -, heq⟩
    · rw [heq]
      exact .refl s
    · rw [heq, SameAccess, nmAddUser_files]
  | register json fd =>
    cases h
    rcases handleSsRegister_tables s json fd with heq | ⟨id, host, ctrlPort, dataPort, heq⟩
    · rw [heq]
      exact .refl s
    · rw [heq, SameAccess, nmRegisterServer_files]
  | disconnect server =>
    cases h
    simp only [SameAccess, handleServerDisconnect, nmMarkServerDown_files, List.map_map]
    refine List.map_congr_left fun file _ => ?_
    rcases disconnectFile_cases (nmMarkServerDown s server) server file with hd | hd | hd
    all_goals exact (congrArg FileEntry.access hd).trans rfl
  | markDown server =>
    cases h
    rw [SameAccess, nmMarkServerDown_files]
  | createBegin user json =>
    cases h
    rcases createBegin_tables s user.text json with heq | heq
    · rw [heq]
      exact .refl s
    · rw [heq, SameAccess, nmPickServer_files]
  | deleteBegin user json =>
    cases h
    exact deleteBegin_sameAccess s user.text json
  | undoBegin user json => cases h; exact selectForRequest_sameAccess _ _ _ _ _
  | ticketBegin user json perm => cases h; exact selectForRequest_sameAccess _ _ _ _ _
  | ticketEnd file server now =>
    cases h
    unfold nmCachePut
    split <;> rfl
  | checkpointEnd user file tag now =>
    cases h
    rcases checkpointEnd_tables s user.text file tag.text now.val with heq | hadd
    · rw [heq]
      exact .refl s
    · obtain ⟨entry, heq⟩ := nmFileAddCheckpoint_tables hadd
      rw [heq]
      exact sameAccess_modifyFile s _ fun _ => rfl
  | reqaccess user json =>
    cases h
    rcases handleClientReqaccess_tables s user.text json with heq | ⟨name, file, perm, -, hrequest⟩
    · rw [heq]
      exact .refl s
    · obtain ⟨requests, heq⟩ := requestAccess_tables hrequest
      rw [heq]
      exact .refl s
  | fileUpdate json =>
    obtain ⟨u, -, rfl⟩ := Option.map_eq_some_iff.1 h
    exact sameAccess_modifyFile s _ fun _ => rfl
  | assignBackup file primary target =>
    simp only [tablesStep] at h
    split at h
    · cases h
      refine sameAccess_modifyFile s _ fun file => ?_
      split <;> rfl
    · cases h
  | syncFailed file attempted =>
    cases h
    refine sameAccess_modifyFile s _ fun file => ?_
    split <;> rfl

/-! ## One step -/

/-- What the section makes of the entry of a file: the same name and owner, and the access list changed
as `resets` and `granted` say. -/
def Follows (s : NmState) (e : Event) (file file' : FileEntry) : Prop :=
  file'.name = file.name ∧ file'.owner = file.owner ∧ (OneEach file → OneEach file' ∧
    ∀ u, u ≠ file.owner → aclPerm file' u =
      if resets s file.name u e then none
      else
        match granted s file.name u e with
        | some g => some ((aclPerm file u).getD NM_PERM_READ ||| g)
        | none => aclPerm file u)

/-- The section is none of the ones that give or take access to the file. -/
theorem follows_of_access {s : NmState} {e : Event} {file file' : FileEntry}
    (hr : ∀ u, resets s file.name u e = false) (hg : ∀ u, granted s file.name u e = none)
    (h : file'.access = file.access) : Follows s e file file' := by
  obtain ⟨hname, howner, hacl⟩ : file'.name = file.name ∧ file'.owner = file.owner ∧ file'.acl = file.acl := by
    simpa [FileEntry.access] using h
  refine ⟨hname, howner, fun hone => ⟨?_, fun u _ => ?_⟩⟩
  · unfold OneEach
    rwa [hacl]
  · rw [hr u, hg u, if_neg (by simp), aclPerm, hacl]
    rfl

theorem resets_eq_false {s : NmState} {e : Event} (he : e.isAccess = false) (f u : Text) :
    resets s f u e = false := by
  cases e <;> first | rfl | cases he

theorem granted_eq_none {s : NmState} {e : Event} (he : e.isAccess = false) (f u : Text) :
    granted s f u e = none := by
  cases e <;> first | rfl | cases he

/-- `handle_client_addaccess` fails and changes nothing, or adds to the list of the owner's file. -/
theorem handleClientAddaccess_cases (s : NmState) (user json : Text) :
    (∃ code message, handleClientAddaccess s user json = (.error code message, s)) ∨
    ∃ name target mode file file', IsAbout json name target ∧
      jsonGetString json (Text.lit "mode") 8 = some mode ∧ nmFindFile s name = some file ∧ file.owner = user ∧
      grantAccess file target (modePerm mode) = some file' ∧
      handleClientAddaccess s user json = (.ok (Text.lit "ADDACCESS"), s.modifyFile name fun _ => file') := by
  fun_cases handleClientAddaccess s user json
  all_goals first | exact .inl ⟨_, _, rfl⟩ | skip
  next name target mode hmode htarget hname file hfind howner s' hgrant =>
    obtain ⟨file₁, hfile₁, hgrant⟩ := Option.bind_eq_some_iff.1 hgrant
    rw [hfind] at hfile₁
    cases hfile₁
    obtain ⟨file', hfile', rfl⟩ := Option.map_eq_some_iff.1 hgrant
    exact .inr ⟨name, target, mode, file, file', ⟨hname, htarget⟩, hmode, hfind, by simpa using howner, hfile', rfl⟩

/-- `handle_client_removeaccess` fails and changes nothing, or takes the user off the list of the owner's
file. -/
theorem handleClientRemoveaccess_cases (s : NmState) (user json : Text) :
    (∃ code message, handleClientRemoveaccess s user json = (.error code message, s)) ∨
    ∃ name target file, IsAbout json name target ∧ nmFindFile s name = some file ∧ file.owner = user ∧
      handleClientRemoveaccess s user json = (.ok (Text.lit "REMACCESS"), nmRemoveAccess s name target) := by
  fun_cases handleClientRemoveaccess s user json
  all_goals first | exact .inl ⟨_, _, rfl⟩ | skip
  next name target htarget hname file hfind howner =>
    exact .inr ⟨name, target, file, ⟨hname, htarget⟩, hfind, by simpa using howner, rfl⟩

/-- `handle_client_handlereq` leaves the files as they are, or approves a request that is pending. -/
theorem handleClientHandlereq_cases (s : NmState) (user json : Text) :
    (((∃ code message, (handleClientHandlereq s user json).1 = .error code message) ∨ approves json = false) ∧
      (handleClientHandlereq s user json).2.files = s.files) ∨
    ∃ name requester file req file', IsAbout json name requester ∧ approves json = true ∧
      nmFindFile s name = some file ∧ file.owner = user ∧
      (findAccessRequest s name requester).bind (s.requests[·]?) = some req ∧ req.status = NM_REQUEST_PENDING ∧
      grantAccess file requester req.perm = some file' ∧
      (handleClientHandlereq s user json).1 = .ok (Text.lit "HANDLEREQ") ∧
      (handleClientHandlereq s user json).2.files = (s.modifyFile name fun _ => file').files := by
  fun_cases handleClientHandlereq s user json
  all_goals first | exact .inl ⟨.inl ⟨_, _, rfl⟩, rfl⟩ | skip
  · next name requester action haction hreq hname approve deny _ file hfind howner i hi req hget hpending
      happrove s' hgrant =>
    obtain ⟨file₁, hfile₁, hgrant⟩ := Option.bind_eq_some_iff.1 hgrant
    rw [hfind] at hfile₁
    cases hfile₁
    obtain ⟨file', hfile', rfl⟩ := Option.map_eq_some_iff.1 hgrant
    refine .inr ⟨name, requester, file, req, file', ⟨hname, hreq⟩, ?_, hfind, by simpa using howner, ?_,
      by simpa using hpending, hfile', rfl, rfl⟩
    · rw [approves, haction]
      exact happrove
    · rw [hi]
      exact hget
  · next _ _ action haction _ _ _ _ _ _ _ _ _ _ _ _ _ happrove =>
    refine .inl ⟨.inr ?_, rfl⟩
    rw [approves, haction]
    simpa using happrove

/-- After an assignment to an entry there is the new one, and the others. -/
theorem mem_modifyFile {s : NmState} (h : s.Stored) {name : Text} {file x : FileEntry} {f : FileEntry → FileEntry}
    (hfind : nmFindFile s name = some file) (hx : x ∈ (s.modifyFile name f).files) :
    x = f file ∨ (x ∈ s.files ∧ x.name ≠ name) := by
  obtain ⟨rfl, pre, post, hfiles, hpre, heq⟩ := exists_modifyFile hfind f
  have hnames := h.names
  rw [hfiles] at hnames
  obtain ⟨-, hother⟩ := nodup_append_of_nodup_cons hnames
  rw [heq, List.mem_append, List.mem_cons] at hx
  rw [hfiles]
  rcases hx with hx | rfl | hx
  · exact .inr ⟨by simp [hx], hpre x hx⟩
  · exact .inl rfl
  · exact .inr ⟨by simp [hx], hother x (by simp [hx])⟩

/-- A grant changes the entry of its file as `granted` says, and no other. -/
theorem follows_of_grant {s : NmState} (h : s.Stored) {e : Event} {name target : Text} {file file' : FileEntry}
    {perm : BitVec 32} (hr : ∀ f u, resets s f u e = false)
    (hg : ∀ f u, granted s f u e = if f = name ∧ u = target then some perm else none)
    (hfind : nmFindFile s name = some file) (htarget : target.length < NM_MAX_USER)
    (hgrant : grantAccess file target perm = some file') {x : FileEntry}
    (hx : x ∈ (s.modifyFile name fun _ => file').files) : ∃ y ∈ s.files, Follows s e y x := by
  obtain ⟨hname, -⟩ := exists_modifyFile hfind id
  rcases mem_modifyFile h hfind hx with rfl | ⟨hxs, hne⟩
  · refine ⟨file, List.mem_of_find?_eq_some hfind, ?_⟩
    obtain ⟨hn, ho⟩ := grantAccess_name_owner hgrant
    refine ⟨hn, ho, fun h1 => ?_⟩
    obtain ⟨hone, hperm⟩ := grantAccess_spec htarget hgrant h1
    refine ⟨hone, fun u hu => ?_⟩
    rw [hperm u hu, hr, hg, hname]
    by_cases hut : u = target
    · rw [if_pos hut, if_neg (by simp), if_pos ⟨rfl, hut⟩]
    · rw [if_neg hut, if_neg (by simp), if_neg fun hc => hut hc.2]
  · refine ⟨x, hxs, follows_of_access (fun u => hr _ _) (fun u => ?_) rfl⟩
    rw [hg, if_neg fun hc => hne hc.1]

theorem IsAbout.unique {json f f' u u' : Text} (h : IsAbout json f u) : IsAbout json f' u' ↔ f' = f ∧ u' = u := by
  unfold IsAbout at *
  rw [h.1, h.2]
  simp [eq_comm]

theorem modifyFile_self {s : NmState} {name : Text} {file : FileEntry} (h : nmFindFile s name = some file) :
    s.modifyFile name (fun _ => file) = s := by
  obtain ⟨-, pre, post, hfiles, -, heq⟩ := exists_modifyFile h fun _ => file
  rw [heq, ← hfiles]

/-- `handle_client_create` fails at its end and changes nothing, or adds an entry; the grant to the owner
leaves it as it is. -/
theorem createEnd_cases (s : NmState) {user file : Text} (huser : user.length < NM_MAX_USER)
    (hfile : file.length < NM_MAX_NAME) (primary backup now : Int) :
    (∃ code message, createEnd s user file primary backup now = (.error code message, s)) ∨
    ((createEnd s user file primary backup now).1 = .ok (Text.lit "CREATE") ∧
      (∀ x ∈ s.files, x.name ≠ file) ∧
      (createEnd s user file primary backup now).2.files =
        s.files ++ [newFileEntry file user primary backup now]) := by
  unfold createEnd nmAddFile
  by_cases hfull : s.files.length ≥ NM_MAX_FILES
  · rw [if_pos hfull]
    exact .inl ⟨_, _, rfl⟩
  · rw [if_neg hfull]
    cases hidx : findFileIndex s file with
    | some i => exact .inl ⟨_, _, rfl⟩
    | none =>
      have hnew : ∀ x ∈ s.files, x.name ≠ file := by simpa [findFileIndex] using hidx
      let s' : NmState := { s with files := s.files ++ [newFileEntry file user primary backup now] }
      have hfind : nmFindFile s' file = some (newFileEntry file user primary backup now) := by
        simp only [nmFindFile, s']
        rw [List.find?_append, List.find?_eq_none.2 (by simpa using hnew)]
        simp [newFileEntry, Text.copyTo_eq_self hfile]
      have hgrant : nmGrantAccess s' file user (NM_PERM_WRITE ||| NM_PERM_READ) = some s' := by
        have howner : (newFileEntry file user primary backup now).owner = user := Text.copyTo_eq_self huser
        rw [nmGrantAccess, hfind, Option.bind_some, grantAccess, if_pos howner, Option.map_some,
          modifyFile_self hfind]
      refine .inr ⟨rfl, hnew, ?_⟩
      change (nmCachePut ((nmGrantAccess s' file user _).getD s') file primary now).files = s'.files
      rw [hgrant]
      unfold nmCachePut
      split <;> rfl

/-- Each entry after a section is a new one with an empty list, or follows from one before. -/
theorem step_entry {s t : NmState} {e : Event} (h : s.Stored) (hs : tablesStep s e = some t) {x : FileEntry}
    (hx : x ∈ t.files) :
    ((∀ u, resets s x.name u e = true) ∧ x.acl = []) ∨ ∃ file ∈ s.files, Follows s e file x := by
  by_cases he : e.isAccess = false
  · have hsame := access_frame hs he
    obtain ⟨file, hfile, heq⟩ := List.mem_map.1 (hsame ▸ List.mem_map_of_mem hx : x.access ∈ s.files.map FileEntry.access)
    exact .inr ⟨file, hfile, follows_of_access (fun _ => resets_eq_false he _ _) (fun _ => granted_eq_none he _ _)
      heq.symm⟩
  · cases e with
    | createEnd user file primary backup now =>
      simp only [tablesStep] at hs
      split at hs
      · cases hs
        rcases createEnd_cases s user.short file.short primary (optIndex backup) now.val with
          ⟨_, _, hrun⟩ | ⟨hok, hnew, hfiles⟩
        · rw [hrun] at hx
          refine .inr ⟨x, hx, follows_of_access (fun u => ?_) (fun _ => rfl) rfl⟩
          simp [resets, hrun]
        · rw [hfiles, List.mem_append, List.mem_singleton] at hx
          rcases hx with hx | rfl
          · refine .inr ⟨x, hx, follows_of_access (fun u => ?_) (fun _ => rfl) rfl⟩
            simp [resets, Ne.symm (hnew x hx)]
          · refine .inl ⟨fun u => ?_, rfl⟩
            simp [resets, hok, newFileEntry, Text.copyTo_eq_self file.short]
      · cases hs
    | deleteEnd file =>
      cases hs
      refine .inr ⟨x, ?_, follows_of_access (fun _ => rfl) (fun _ => rfl) rfl⟩
      simp only [deleteEnd, nmRemoveFile] at hx
      cases hi : findFileIndex s file with
      | none => simpa [hi] using hx
      | some i =>
        rw [hi] at hx
        exact mem_of_mem_swapRemove hx
    | addaccess user json =>
      cases hs
      right
      rcases handleClientAddaccess_cases s user.text json with
        ⟨_, _, hrun⟩ | ⟨name, target, mode, file, file', habout, hmode, hfind, howner, hgrant, hrun⟩
      · rw [hrun] at hx
        refine ⟨x, hx, follows_of_access (fun _ => rfl) (fun u => ?_) rfl⟩
        simp [granted, hrun]
      · rw [hrun] at hx
        refine follows_of_grant h (fun _ _ => rfl) (fun f u => ?_) hfind (length_jsonGetString_lt habout.2) hgrant hx
        rw [granted, hrun, hmode]
        refine if_congr ⟨fun hc => habout.unique.1 hc.2.1, fun hc => ⟨?_, habout.unique.2 hc, rfl⟩⟩ rfl rfl
        rw [hc.1]
        exact ⟨file, hfind, howner⟩
    | removeaccess user json =>
      cases hs
      right
      rcases handleClientRemoveaccess_cases s user.text json with
        ⟨_, _, hrun⟩ | ⟨name, target, file, habout, hfind, howner, hrun⟩
      · rw [hrun] at hx
        refine ⟨x, hx, follows_of_access (fun u => ?_) (fun _ => rfl) rfl⟩
        simp [resets, hrun]
      · rw [hrun] at hx
        have hresets (f u : Text) : resets s f u (.removeaccess user json) = decide (f = name ∧ u = target) := by
          simp [resets, hrun, habout.unique]
        rcases mem_modifyFile h hfind hx with hxf | ⟨hxs, hne⟩
        · refine ⟨file, List.mem_of_find?_eq_some hfind, ?_⟩
          obtain ⟨hname, -⟩ := exists_modifyFile hfind id
          obtain ⟨hn, ho, hspec⟩ := removeAccess_spec hxf
          refine ⟨hn, ho, fun hone => ⟨(hspec hone).1, fun u _ => ?_⟩⟩
          rw [(hspec hone).2 u, hresets, hname]
          simp [granted]
        · refine ⟨x, hxs, follows_of_access (fun u => ?_) (fun _ => rfl) rfl⟩
          rw [hresets]
          exact decide_eq_false fun hc => hne hc.1
    | handlereq user json =>
      cases hs
      right
      rcases handleClientHandlereq_cases s user.text json with
        ⟨hno, hfiles⟩ | ⟨name, requester, file, req, file', habout, happ, hfind, howner, hreq, hpending, hgrant, hok,
          hfiles⟩
      · rw [hfiles] at hx
        refine ⟨x, hx, follows_of_access (fun _ => rfl) (fun u => ?_) rfl⟩
        rcases hno with ⟨_, _, herr⟩ | hno
        · simp [granted, herr]
        · simp [granted, hno]
      · rw [hfiles] at hx
        refine follows_of_grant h (fun _ _ => rfl) (fun f u => ?_) hfind (length_jsonGetString_lt habout.2) hgrant hx
        rw [granted, hok]
        by_cases hc : f = name ∧ u = requester
        · have howns : s.owns user.text f := by
            rw [hc.1]
            exact ⟨file, hfind, howner⟩
          rw [if_pos hc, if_pos ⟨howns, habout.unique.2 hc, happ, rfl⟩, hc.1, hc.2, hreq]
          simp [hpending]
        · rw [if_neg hc, if_neg fun h => hc (habout.unique.1 h.2.1)]
    | _ => exact absurd rfl he

/-! ## Runs -/

/-- What grants leave in an access list. -/
def entryPerm (gs : List (BitVec 32)) : Option (BitVec 32) := if gs = [] then none else some (permUnion gs)

theorem entryPerm_cons (g : BitVec 32) (gs : List (BitVec 32)) :
    entryPerm (g :: gs) = some ((entryPerm gs).getD NM_PERM_READ ||| g) := by
  unfold entryPerm
  by_cases h : gs = []
  · subst h
    simp [permUnion, BitVec.or_comm]
  · rw [if_neg h, if_neg (by simp), permUnion, List.foldr_cons, BitVec.or_comm]
    rfl

/-- The access lists hold what the run granted. -/
def Explained (tr : List (NmState × Event)) (s : NmState) : Prop :=
  ∀ file ∈ s.files, OneEach file ∧ ∀ u, u ≠ file.owner → aclPerm file u = entryPerm (grants file.name u tr)

theorem explained_of_run {tr : List (NmState × Event)} {s : NmState} (h : tables.Run tr s) : Explained tr s := by
  induction h with
  | start h =>
    cases h
    intro file hfile
    simp [NmState.clear] at hfile
  | @step tr s t e hrun hs ih =>
    intro x hx
    rcases step_entry (stored_of_run hrun) hs hx with ⟨hreset, hacl⟩ | ⟨file, hfile, hname, howner, hacl⟩
    · refine ⟨by simp [OneEach, hacl], fun u _ => ?_⟩
      rw [grants, hreset u, if_pos rfl, aclPerm, hacl]
      rfl
    · obtain ⟨hone, hperm⟩ := ih file hfile
      obtain ⟨hone', hperm'⟩ := hacl hone
      refine ⟨hone', fun u hu => ?_⟩
      rw [howner] at hu
      rw [hperm' u hu, hname, grants, hperm u hu]
      split
      · rfl
      · split
        · next g hg => rw [hg, Option.toList_some, List.singleton_append, entryPerm_cons]
        · next hg => rw [hg, Option.toList_none, List.nil_append]

/-- **Access.** In every run the owner may do everything, and another user exactly what the grants since
the creation of the file and the user's last removal add up to, reading included; `nm_check_access` and
`file_has_access` agree. -/
theorem access_of_run {tr : List (NmState × Event)} {s : NmState} (h : tables.Run tr s) {f u : Text}
    {file : FileEntry} (hfile : nmFindFile s f = some file) (hu : u ≠ []) (perm : BitVec 32) :
    (u ≠ file.owner → (fileHasAccess file u perm = true ↔
      grants f u tr ≠ [] ∧ perm &&& permUnion (grants f u tr) = perm)) ∧
    fileHasAccess file file.owner perm = true ∧
    nmCheckAccess s f u perm = fileHasAccess file u perm := by
  have hm : file ∈ s.files := List.mem_of_find?_eq_some hfile
  obtain ⟨hname, -⟩ := exists_modifyFile hfile id
  refine ⟨fun hne => ?_, ?_, ?_⟩
  · have hperm := ((explained_of_run h) file hm).2 u hne
    have hne' : (file.owner == u) = false := by simpa using Ne.symm hne
    rw [fileHasAccess, aclAllows_eq, hperm, hname, entryPerm, hne', Bool.false_or]
    by_cases hg : grants f u tr = []
    · simp [hg]
    · simp [hg, hu, BitVec.and_comm]
  · have howner := ((stored_of_run h).files file hm).owner
    simp [fileHasAccess, howner.1]
  · rw [nmCheckAccess, hfile, Option.any_some, fileHasAccess]
    simp [hu]

/-- Bob asks for reading, Alice lets him; then she also lets him write. -/
theorem access_of_bob : ∃ tr s file, tables.Run tr s ∧ nmFindFile s (Text.lit "notes") = some file ∧
    grants (Text.lit "notes") (Text.lit "bob") tr = [NM_PERM_READ ||| NM_PERM_WRITE, NM_PERM_READ] ∧
    fileHasAccess file (Text.lit "bob") NM_PERM_WRITE = true := by
  let bob : Client := ⟨Text.lit "bob", by decide, by decide⟩
  let about (fields : List (String × String)) : Text :=
    printMessage ((("file", "notes") :: fields).map fun p => (Text.lit p.1, .string (Text.lit p.2)))
  obtain ⟨tr, s, hrun, hcheck⟩ := exists_tables_run
    (createFile ⟨Text.lit "notes", by decide, by decide⟩ ++
      [.reqaccess bob (about [("mode", "R")]), .handlereq alice (about [("user", "bob"), ("action", "approve")]),
        .addaccess alice (about [("user", "bob"), ("mode", "W")])])
    (fun tr s => (grants (Text.lit "notes") bob.text tr, (nmFindFile s (Text.lit "notes")).map FileEntry.owner))
    ([NM_PERM_READ ||| NM_PERM_WRITE, NM_PERM_READ], some alice.text) (by decide +kernel)
  rw [Prod.mk.injEq] at hcheck
  obtain ⟨file, hfile, howner⟩ := Option.map_eq_some_iff.1 hcheck.2
  have hother : bob.text ≠ file.owner := by
    rw [howner]
    decide
  refine ⟨tr, s, file, hrun, hfile, hcheck.1, ((access_of_run hrun hfile bob.named NM_PERM_WRITE).1 hother).2 ?_⟩
  rw [hcheck.1]
  exact ⟨by simp, by decide⟩

end CoWrite.Nm
