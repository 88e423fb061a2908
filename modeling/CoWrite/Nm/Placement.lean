import CoWrite.Nm.Availability

/-!
# Where files are kept

A file is kept by its primary and, when it has one, by its backup. `placement_step` says what any section does to
the two indices of an entry: it leaves them, drops the backup, makes the backup the primary when it is available,
or sets the backup; entries are made by `createEnd` alone.
-/

namespace CoWrite.Nm

open CoWrite.Lib

/-! ## What sections leave alone -/

/-- The part `π` of the entries is the same. -/
def SameEntries {α : Type*} (π : FileEntry → α) (s t : NmState) : Prop := t.files.map π = s.files.map π

section SameEntries

variable {α : Type*} {π : FileEntry → α} {s t : NmState}

theorem sameEntries_of_files (h : t.files = s.files) : SameEntries π s t := by
  unfold SameEntries
  rw [h]

theorem sameEntries_modifyFile (s : NmState) (name : Text) {f : FileEntry → FileEntry} (hf : ∀ file, π (f file) = π file) :
    SameEntries π s (s.modifyFile name f) := by
  cases hfind : nmFindFile s name with
  | none => exact sameEntries_of_files (by rw [modifyFile_of_none hfind])
  | some file =>
    obtain ⟨-, pre, post, hfiles, -, heq⟩ := exists_modifyFile hfind f
    rw [heq, SameEntries, hfiles]
    simp [hf]

theorem sameEntries_grantAccess (hacl : ∀ file acl, π { file with acl := acl } = π file) {name user : Text}
    {perm : BitVec 32} (h : nmGrantAccess s name user perm = some t) : SameEntries π s t := by
  obtain ⟨file, hfind, h⟩ := Option.bind_eq_some_iff.1 h
  obtain ⟨file', hgrant, rfl⟩ := Option.map_eq_some_iff.1 h
  obtain ⟨-, pre, post, hfiles, -, heq⟩ := exists_modifyFile hfind fun _ => file'
  have hsame : π file' = π file := by
    unfold grantAccess at hgrant
    split at hgrant
    · cases hgrant
      rfl
    · split at hgrant
      · cases hgrant
        exact hacl file _
      · split_ifs at hgrant
        cases hgrant
        exact hacl file _
  rw [heq, SameEntries, hfiles]
  simp [hsame]

/-- What is found under a name is the same too, if the part has the name. -/
theorem find_of_sameEntries {β : Type*} {ρ : FileEntry → Text × β} (hname : ∀ file, (ρ file).1 = file.name)
    (h : SameEntries ρ s t) (name : Text) : (nmFindFile t name).map ρ = (nmFindFile s name).map ρ := by
  have hfind (u : NmState) : (nmFindFile u name).map ρ = (u.files.map ρ).find? fun x => x.1 == name := by
    rw [List.find?_map]
    simp only [Function.comp_def, hname]
    rfl
  rw [hfind, hfind, h]

/-- Two parts that are the same are the same together. -/
theorem SameEntries.prod {β : Type*} {ρ : FileEntry → β} (h : SameEntries π s t) (h' : SameEntries ρ s t) :
    SameEntries (fun file => (π file, ρ file)) s t := by
  unfold SameEntries
  apply List.ext_getElem?
  intro i
  have hi := congrArg (·[i]?) h
  have hi' := congrArg (·[i]?) h'
  simp only [List.getElem?_map] at hi hi' ⊢
  cases hs : s.files[i]? with
  | none =>
    rw [hs, Option.map_none, Option.map_eq_none_iff] at hi
    rw [hi]
  | some file =>
    rw [hs, Option.map_some, Option.map_eq_some_iff] at hi hi'
    obtain ⟨file', ht, hfile⟩ := hi
    obtain ⟨file'', ht', hfile'⟩ := hi'
    obtain rfl : file' = file'' := Option.some.inj (ht.symm.trans ht')
    rw [ht, Option.map_some, Option.map_some, hfile, hfile']

end SameEntries

/-- What placement reads of an entry. -/
def FileEntry.placement (file : FileEntry) : Text × Int × Int := (file.name, file.ssIndex, file.backupIndex)

/-- The entries are the same for placement. -/
def SamePlacement (s t : NmState) : Prop := t.files.map FileEntry.placement = s.files.map FileEntry.placement

theorem samePlacement_of_files {s t : NmState} (h : t.files = s.files) : SamePlacement s t :=
  sameEntries_of_files h

theorem SamePlacement.trans {s t u : NmState} (h : SamePlacement s t) (h' : SamePlacement t u) : SamePlacement s u :=
  Eq.trans h' h

/-- The sections that place files. -/
def Event.isPlacement : Event → Bool
  | .disconnect .. | .createEnd .. | .deleteBegin .. | .deleteEnd .. | .undoBegin .. | .ticketBegin ..
  | .assignBackup .. | .syncFailed .. => true
  | _ => false

/-- The other sections, but for updates, change access lists, and `checkpointEnd` a list of checkpoints. -/
theorem entries_frame {α : Type*} {π : FileEntry → α} (hacl : ∀ file acl, π { file with acl := acl } = π file)
    {s t : NmState} {e : Event} (hcheckpoints : ∀ user name tag now, e = .checkpointEnd user name tag now →
      ∀ file checkpoints, π { file with checkpoints := checkpoints } = π file)
    (h : tablesStep s e = some t) (he : e.isPlacement = false) (hupdate : ∀ json, e ≠ .fileUpdate json) :
    SameEntries π s t := by
  cases e with
  | disconnect | createEnd | deleteBegin | deleteEnd | undoBegin | ticketBegin | assignBackup | syncFailed => cases he
  | hello json inUse now =>
    cases h
    rcases handleClientHello_tables s json inUse now.val with heq | ⟨user, -, -, heq⟩
    · rw [heq]
      exact sameEntries_of_files rfl
    · rw [heq]
      exact sameEntries_of_files (nmAddUser_files ..)
  | register json fd =>
    cases h
    rcases handleSsRegister_tables s json fd with heq | ⟨id, host, ctrlPort, dataPort, heq⟩
    · rw [heq]
      exact sameEntries_of_files rfl
    · rw [heq]
      exact sameEntries_of_files (nmRegisterServer_files ..)
  | markDown server =>
    cases h
    exact sameEntries_of_files (nmMarkServerDown_files s server)
  | createBegin user json =>
    cases h
    rcases createBegin_tables s user.text json with heq | heq
    · rw [heq]
      exact sameEntries_of_files rfl
    · rw [heq]
      exact sameEntries_of_files (nmPickServer_files s)
  | ticketEnd file server now =>
    cases h
    unfold nmCachePut
    split <;> rfl
  | checkpointEnd user file tag now =>
    cases h
    rcases checkpointEnd_tables s user.text file tag.text now.val with heq | hadd
    · rw [heq]
      exact sameEntries_of_files rfl
    · obtain ⟨entry, heq⟩ := nmFileAddCheckpoint_tables hadd
      rw [heq]
      exact sameEntries_modifyFile _ _ fun entry => hcheckpoints user file tag now rfl entry _
  | addaccess user json =>
    cases h
    rcases handleClientAddaccess_tables s user.text json with heq | ⟨name, target, perm, hgrant⟩
    · rw [heq]
      exact sameEntries_of_files rfl
    · exact sameEntries_grantAccess hacl hgrant
  | removeaccess user json =>
    cases h
    rcases handleClientRemoveaccess_tables s user.text json with heq | ⟨name, target, heq⟩
    · rw [heq]
      exact sameEntries_of_files rfl
    · rw [heq]
      refine sameEntries_modifyFile _ _ ?_
      intro file
      split
      · rfl
      · exact hacl file _
  | reqaccess user json =>
    cases h
    rcases handleClientReqaccess_tables s user.text json with heq | ⟨name, file, perm, -, hrequest⟩
    · rw [heq]
      exact sameEntries_of_files rfl
    · obtain ⟨requests, heq⟩ := requestAccess_tables hrequest
      rw [heq]
      exact sameEntries_of_files rfl
  | handlereq user json =>
    cases h
    rcases handleClientHandlereq_tables s user.text json with
      heq | ⟨i, name, requester, perm, t, hgrant, heq⟩ | ⟨i, heq⟩
    · rw [heq]
      exact sameEntries_of_files rfl
    · rw [heq]
      show SameEntries π s t
      exact sameEntries_grantAccess hacl hgrant
    · rw [heq]
      exact sameEntries_of_files rfl
  | fileUpdate json => exact absurd rfl (hupdate json)

/-- The other sections leave the primaries and the backups as they are. -/
theorem placement_frame {s t : NmState} {e : Event} (h : tablesStep s e = some t) (he : e.isPlacement = false) :
    SamePlacement s t := by
  by_cases hupdate : ∃ json, e = .fileUpdate json
  · obtain ⟨json, rfl⟩ := hupdate
    obtain ⟨u, -, rfl⟩ := Option.map_eq_some_iff.1 h
    exact sameEntries_modifyFile _ _ fun _ => rfl
  · rw [not_exists] at hupdate
    exact entries_frame (fun _ _ => rfl) (fun _ _ _ _ _ _ _ => rfl) h he hupdate

/-! ## One section -/

/-- What a section that takes the tables from `s` to `t` makes of the placement of an entry. -/
inductive Moves (s t : NmState) (e : Event) (file file' : FileEntry) : Prop where
  | kept (primary : file'.ssIndex = file.ssIndex) (backup : file'.backupIndex = file.backupIndex)
  | dropped (primary : file'.ssIndex = file.ssIndex) (backup : file'.backupIndex = -1)
  /-- The backup takes over. -/
  | takenOver (primary : file'.ssIndex = file.backupIndex) (backup : file'.backupIndex = -1)
      (before : s.available file.backupIndex = true) (after : t.available file.backupIndex = true)
  | assigned (primary : file'.ssIndex = file.ssIndex) (name : Text) (backup : Nat)
      (event : e = .assignBackup name file.ssIndex backup) (assigned : file'.backupIndex = backup)

theorem moves_of_placement {s t : NmState} (e : Event) {file file' : FileEntry} (h : file'.placement = file.placement) :
    Moves s t e file file' := by
  cases h' : file'.placement
  unfold FileEntry.placement at h
  injection h with _ h
  injection h with hprimary hbackup
  exact .kept hprimary hbackup

theorem moves_select {s : NmState} (hs : s.Stored) (e : Event) {name : Text} {file' : FileEntry}
    (hmem : file' ∈ (selectStorageServer s name).2.files) : ∃ file ∈ s.files, file'.name = file.name ∧
      Moves s (selectStorageServer s name).2 e file file' := by
  have hkept (h : file' ∈ s.files) (t : NmState) : ∃ file ∈ s.files, file'.name = file.name ∧ Moves s t e file file' :=
    ⟨file', h, rfl, .kept rfl rfl⟩
  have hservers := beside_servers.selectStorageServer_eq s name
  unfold selectStorageServer at hmem hservers ⊢
  cases hfind : nmFindFile s name with
  | none =>
    simp only [hfind] at hmem
    exact hkept hmem _
  | some file =>
    have hfile := List.mem_of_find?_eq_some hfind
    simp only [hfind] at hmem hservers ⊢
    split_ifs at hmem hservers ⊢ with hprimary hbackup havailable
    · exact hkept hmem _
    · rcases mem_modifyFile hs hfind hmem with rfl | ⟨hold, -⟩
      · refine ⟨file, hfile, rfl, .takenOver rfl rfl havailable ?_⟩
        exact (available_congr hservers _).trans havailable
      · exact hkept hold _
    · rcases mem_modifyFile hs hfind hmem with rfl | ⟨hold, -⟩
      · exact ⟨file, hfile, rfl, .dropped rfl rfl⟩
      · exact hkept hold _
    · exact hkept hmem _

/-- The entry that was assigned to is found under its name. -/
theorem nmFindFile_modifyFile {s : NmState} {name : Text} {file : FileEntry} (h : nmFindFile s name = some file)
    {f : FileEntry → FileEntry} (hf : (f file).name = file.name) :
    nmFindFile (s.modifyFile name f) name = some (f file) := by
  obtain ⟨hname, pre, post, -, hpre, heq⟩ := exists_modifyFile h f
  unfold nmFindFile
  rw [heq, List.find?_append, List.find?_eq_none.2 (by simpa using hpre), Option.none_or, List.find?_cons_of_pos]
  simp [hf, hname]

/-- What is found after an assignment is what was found before, assigned to if it has the name. -/
theorem nmFindFile_modifyFile_map (s : NmState) (name n : Text) {f : FileEntry → FileEntry}
    (hf : ∀ file, (f file).name = file.name) :
    nmFindFile (s.modifyFile name f) n = (nmFindFile s n).map fun file => if n = name then f file else file := by
  cases hfind : nmFindFile s name with
  | none =>
    rw [modifyFile_of_none hfind]
    by_cases hn : n = name
    · rw [hn, hfind]
      rfl
    · simp [hn]
  | some file =>
    by_cases hn : n = name
    · subst hn
      rw [nmFindFile_modifyFile hfind (hf file), hfind]
      simp
    · obtain ⟨hname, pre, post, hfiles, -, heq⟩ := exists_modifyFile hfind f
      have hother : (file.name == n) = false := by simpa [hname] using Ne.symm hn
      unfold nmFindFile
      rw [heq, hfiles, List.find?_append, List.find?_append, List.find?_cons_of_neg, List.find?_cons_of_neg]
      · simp [hn]
      · simp [hother]
      · simp [hf, hother]

/-- Selecting again selects the same server. -/
theorem select_again {s t : NmState} {name : Text} {i : Int} (h : selectStorageServer s name = (some i, t)) :
    selectStorageServer t name = (some i, t) := by
  unfold selectStorageServer at h
  cases hfind : nmFindFile s name with
  | none =>
    rw [hfind] at h
    cases h
  | some file =>
    simp only [hfind] at h
    split_ifs at h with hprimary hbackup havailable
    · cases h
      simp only [selectStorageServer, hfind, if_pos hprimary]
    · cases h
      have hfind' := nmFindFile_modifyFile hfind (f := failover) rfl
      have hprimary' : (failover file).ssIndex ≥ 0 ∧
          (s.modifyFile name failover).available (failover file).ssIndex = true :=
        ⟨hbackup, (available_congr (beside_servers.modifyFile_eq ..) _).trans havailable⟩
      simp only [selectStorageServer, hfind', if_pos hprimary']
      rfl
    · cases h
    · cases h

theorem select_of_selectForRequest {s t : NmState} {user json name : Text} {perm : BitVec 32} {denied : Text} {i : Int}
    (h : selectForRequest s user json perm denied = (.ok (name, i), t)) :
    selectStorageServer s name = (some i, t) := by
  revert h
  fun_cases selectForRequest s user json perm denied
  case case5 hsel =>
    intro h
    cases h
    exact hsel
  all_goals
    intro h
    cases h

/-- The second selection of a deletion changes nothing. -/
theorem deleteBegin_tables (s : NmState) (user json : Text) : (deleteBegin s user json).2 =
    (selectForRequest s user json NM_PERM_WRITE (Text.lit "no write access")).2 := by
  unfold deleteBegin
  split
  · next heq =>
    rw [heq, select_again (select_of_selectForRequest heq)]
  · rfl

theorem moves_selectForRequest {s : NmState} (hs : s.Stored) (e : Event) (user json : Text) (perm : BitVec 32)
    (denied : Text) {file' : FileEntry} (hmem : file' ∈ (selectForRequest s user json perm denied).2.files) :
    ∃ file ∈ s.files, file'.name = file.name ∧ Moves s (selectForRequest s user json perm denied).2 e file file' := by
  rcases selectForRequest_tables s user json perm denied with heq | ⟨name, heq⟩
  · rw [heq] at hmem
    exact ⟨file', hmem, rfl, .kept rfl rfl⟩
  · rw [heq] at hmem ⊢
    exact moves_select hs e hmem

theorem moves_disconnectFile (s : NmState) (server : Nat) (e : Event) (file : FileEntry) :
    Moves s (handleServerDisconnect s server).1 e file (disconnectFile (nmMarkServerDown s server) server file) := by
  have hdrop (file' : FileEntry) (hss : file'.ssIndex = file.ssIndex) :
      Moves s (handleServerDisconnect s server).1 e file (dropBackup file') := .dropped hss rfl
  unfold disconnectFile
  by_cases hprimary : file.ssIndex = server ∧ file.backupIndex ≥ 0
  · rw [if_pos hprimary]
    by_cases hbackup : (nmMarkServerDown s server).available file.backupIndex = true
    · have hne : (server : Int) ≠ file.backupIndex := by
        intro heq
        rw [← heq, not_available_nmMarkServerDown] at hbackup
        cases hbackup
      have hnone : (failover file).backupIndex ≠ server := by
        change (-1 : Int) ≠ server
        omega
      simp only [if_pos hbackup, if_neg hnone]
      refine .takenOver rfl rfl ?_ hbackup
      rwa [available_nmMarkServerDown hne] at hbackup
    · simp only [if_neg hbackup]
      split
      · exact hdrop _ rfl
      · exact hdrop _ rfl
  · rw [if_neg hprimary]
    dsimp only
    split
    · exact hdrop _ rfl
    · exact .kept rfl rfl

theorem mem_of_deleteEnd {s : NmState} {name : Text} {file : FileEntry} (h : file ∈ (deleteEnd s name).2.files) :
    file ∈ s.files := by
  unfold deleteEnd nmRemoveFile at h
  cases hi : findFileIndex s name with
  | none =>
    rw [hi] at h
    exact h
  | some i =>
    rw [hi] at h
    exact mem_of_mem_swapRemove h

/-- **What a section does to the placement of the entries it leaves**: each was there before under its name, or
`createEnd` made it. -/
theorem placement_step {s t : NmState} (hs : s.Stored) {e : Event} (h : tablesStep s e = some t) {file' : FileEntry}
    (hmem : file' ∈ t.files) : (∃ file ∈ s.files, file'.name = file.name ∧ Moves s t e file file') ∨
      (∃ user file primary backup now, e = .createEnd user file primary backup now ∧ file'.name = file.text ∧
        (∀ x ∈ s.files, x.name ≠ file.text) ∧ file'.ssIndex = primary ∧ file'.backupIndex = optIndex backup) := by
  by_cases he : e.isPlacement = false
  · have hsame := placement_frame h he
    obtain ⟨file, hfile, heq⟩ := List.mem_map.1
      (hsame ▸ List.mem_map_of_mem hmem : file'.placement ∈ s.files.map FileEntry.placement)
    exact .inl ⟨file, hfile, (congrArg Prod.fst heq).symm, moves_of_placement e heq.symm⟩
  · cases e with
    | disconnect server =>
      cases h
      simp only [handleServerDisconnect, nmMarkServerDown_files, List.mem_map] at hmem
      obtain ⟨file, hfile, rfl⟩ := hmem
      exact .inl ⟨file, hfile, disconnectFile_name _ _ _, moves_disconnectFile s server _ file⟩
    | createEnd user file primary backup now =>
      obtain ⟨-, h⟩ := Option.ite_none_right_eq_some.1 h
      cases h
      rcases createEnd_cases s user.short file.short primary (optIndex backup) now.val with
        ⟨_, _, hrun⟩ | ⟨-, hnew, hfiles⟩
      · rw [hrun] at hmem
        exact .inl ⟨file', hmem, rfl, .kept rfl rfl⟩
      · rw [hfiles, List.mem_append, List.mem_singleton] at hmem
        rcases hmem with hold | rfl
        · exact .inl ⟨file', hold, rfl, .kept rfl rfl⟩
        · exact .inr ⟨user, file, primary, backup, now, rfl, Text.copyTo_eq_self file.short, hnew, rfl, rfl⟩
    | deleteBegin user json =>
      cases h
      rw [deleteBegin_tables] at hmem ⊢
      exact .inl (moves_selectForRequest hs _ _ _ _ _ hmem)
    | deleteEnd file =>
      cases h
      exact .inl ⟨file', mem_of_deleteEnd hmem, rfl, .kept rfl rfl⟩
    | undoBegin user json =>
      cases h
      exact .inl (moves_selectForRequest hs _ _ _ _ _ hmem)
    | ticketBegin user json perm =>
      cases h
      exact .inl (moves_selectForRequest hs _ _ _ _ _ hmem)
    | assignBackup name primary target =>
      obtain ⟨-, h⟩ := Option.ite_none_right_eq_some.1 h
      cases h
      cases hfind : nmFindFile s name with
      | none =>
        rw [assignBackup, modifyFile_of_none hfind] at hmem
        exact .inl ⟨file', hmem, rfl, .kept rfl rfl⟩
      | some file =>
        rcases mem_modifyFile hs hfind hmem with rfl | ⟨hold, -⟩
        · refine .inl ⟨file, List.mem_of_find?_eq_some hfind, ?_⟩
          by_cases hprimary : file.ssIndex = primary
          · rw [if_pos hprimary]
            subst hprimary
            exact ⟨rfl, .assigned rfl name target rfl rfl⟩
          · rw [if_neg hprimary]
            exact ⟨rfl, .kept rfl rfl⟩
        · exact .inl ⟨file', hold, rfl, .kept rfl rfl⟩
    | syncFailed name attempted =>
      cases h
      cases hfind : nmFindFile s name with
      | none =>
        rw [dropFailedBackup, modifyFile_of_none hfind] at hmem
        exact .inl ⟨file', hmem, rfl, .kept rfl rfl⟩
      | some file =>
        rcases mem_modifyFile hs hfind hmem with rfl | ⟨hold, -⟩
        · refine .inl ⟨file, List.mem_of_find?_eq_some hfind, ?_⟩
          split
          · exact ⟨rfl, .dropped rfl rfl⟩
          · exact ⟨rfl, .kept rfl rfl⟩
        · exact .inl ⟨file', hold, rfl, .kept rfl rfl⟩
    | _ => exact absurd rfl he

/-! ## What placing leaves alone -/

/-- The sections that make entries, remove them, or enter what a server told of them. -/
def Event.isEntry : Event → Bool
  | .createEnd .. | .deleteEnd .. | .fileUpdate .. => true
  | _ => false

section Parts

variable {α : Type*} {π : FileEntry → α}
  (hplace : ∀ file primary backup, π { file with ssIndex := primary, backupIndex := backup } = π file)

include hplace

theorem sameEntries_select (s : NmState) (name : Text) : SameEntries π s (selectStorageServer s name).2 := by
  unfold selectStorageServer
  split
  · rfl
  · split_ifs
    · rfl
    · exact sameEntries_modifyFile s name fun file => hplace file _ _
    · exact sameEntries_modifyFile s name fun file => hplace file file.ssIndex _
    · rfl

theorem sameEntries_selectForRequest (s : NmState) (user json : Text) (perm : BitVec 32) (denied : Text) :
    SameEntries π s (selectForRequest s user json perm denied).2 := by
  rcases selectForRequest_tables s user json perm denied with heq | ⟨name, heq⟩
  · rw [heq]
    rfl
  · rw [heq]
    exact sameEntries_select hplace s name

/-- Every other section leaves a part that is not about servers, access lists and checkpoints. -/
theorem parts_frame (hacl : ∀ file acl, π { file with acl := acl } = π file) {s t : NmState} {e : Event}
    (hcheckpoints : ∀ user name tag now, e = .checkpointEnd user name tag now →
      ∀ file checkpoints, π { file with checkpoints := checkpoints } = π file)
    (h : tablesStep s e = some t) (he : e.isEntry = false) : SameEntries π s t := by
  have hdrop (file : FileEntry) : π (dropBackup file) = π file := hplace file file.ssIndex _
  by_cases hplacement : e.isPlacement = false
  · refine entries_frame hacl hcheckpoints h hplacement ?_
    rintro json rfl
    cases he
  · cases e with
    | disconnect server =>
      cases h
      simp only [SameEntries, handleServerDisconnect, nmMarkServerDown_files, List.map_map]
      apply List.map_congr_left
      intro file _
      rcases disconnectFile_cases (nmMarkServerDown s server) server file with heq | heq | heq
      · simp only [Function.comp_apply, heq]
      · simp only [Function.comp_apply, heq]
        exact hplace file _ _
      · simp only [Function.comp_apply, heq]
        exact hdrop file
    | createEnd user file primary backup now => cases he
    | deleteBegin user json =>
      cases h
      rw [deleteBegin_tables]
      exact sameEntries_selectForRequest hplace ..
    | deleteEnd file => cases he
    | undoBegin user json =>
      cases h
      exact sameEntries_selectForRequest hplace ..
    | ticketBegin user json perm =>
      cases h
      exact sameEntries_selectForRequest hplace ..
    | assignBackup name primary target =>
      obtain ⟨-, h⟩ := Option.ite_none_right_eq_some.1 h
      cases h
      refine sameEntries_modifyFile s name ?_
      intro file
      split
      · exact hplace file file.ssIndex _
      · rfl
    | syncFailed name attempted =>
      cases h
      refine sameEntries_modifyFile s name ?_
      intro file
      split
      · exact hdrop file
      · rfl
    | _ => exact absurd rfl hplacement

end Parts

/-- What an update reports of a file. -/
def FileEntry.report (file : FileEntry) : Text × Nat × Nat × Int :=
  (file.name, file.wordCount, file.charCount, file.modified)

/-- The other sections leave the counts and the times as they are. -/
theorem report_frame {s t : NmState} {e : Event} (h : tablesStep s e = some t) (he : e.isEntry = false) :
    SameEntries FileEntry.report s t :=
  parts_frame (fun _ _ _ => rfl) (fun _ _ => rfl) (fun _ _ _ _ _ _ _ => rfl) h he

/-- **What a section does to the checkpoints of the entries it leaves**: nothing, unless it lists one; new entries have
none. -/
theorem checkpoints_step {s t : NmState} {e : Event} (h : tablesStep s e = some t)
    (hlist : ∀ user name tag now, e ≠ .checkpointEnd user name tag now) {file' : FileEntry} (hmem : file' ∈ t.files) :
    file'.checkpoints = [] ∨ ∃ file ∈ s.files, file'.name = file.name ∧ file'.checkpoints = file.checkpoints := by
  have hsame (heq : SameEntries (fun file => (file.name, file.checkpoints)) s t) :
      ∃ file ∈ s.files, file'.name = file.name ∧ file'.checkpoints = file.checkpoints := by
    obtain ⟨file, hfile, hparts⟩ := List.mem_map.1 (heq ▸ List.mem_map_of_mem hmem)
    rw [Prod.mk.injEq] at hparts
    exact ⟨file, hfile, hparts.1.symm, hparts.2.symm⟩
  by_cases he : e.isEntry = false
  · refine .inr (hsame ?_)
    apply parts_frame (fun _ _ _ => rfl) (fun _ _ => rfl) _ h he
    intro user name tag now heq
    exact absurd heq (hlist user name tag now)
  · cases e with
    | createEnd user file primary backup now =>
      obtain ⟨-, h⟩ := Option.ite_none_right_eq_some.1 h
      cases h
      rcases createEnd_cases s user.short file.short primary (optIndex backup) now.val with
        ⟨_, _, hrun⟩ | ⟨-, -, hfiles⟩
      · rw [hrun] at hmem
        exact .inr ⟨file', hmem, rfl, rfl⟩
      · rw [hfiles, List.mem_append, List.mem_singleton] at hmem
        rcases hmem with hold | rfl
        · exact .inr ⟨file', hold, rfl, rfl⟩
        · exact .inl rfl
    | deleteEnd name =>
      cases h
      exact .inr ⟨file', mem_of_deleteEnd hmem, rfl, rfl⟩
    | fileUpdate json =>
      obtain ⟨u, -, rfl⟩ := Option.map_eq_some_iff.1 h
      exact .inr (hsame (sameEntries_modifyFile s u.file fun _ => rfl))
    | _ => exact absurd rfl he

/-! ## Backups that take over -/

/-- A request for the file finds its primary down and its backup there. -/
def selectsBackup (s : NmState) (user json : Text) (perm : BitVec 32) (file : FileEntry) : Bool :=
  jsonFile json == some file.name && fileHasAccess file user perm && !s.available file.ssIndex &&
    s.available file.backupIndex

/-- The section makes the backup of the file its primary. -/
def promotes (s : NmState) : Event → FileEntry → Bool
  | .disconnect server, file =>
    file.ssIndex == (server : Int) && s.available file.backupIndex && file.backupIndex != (server : Int)
  | .deleteBegin user json, file | .undoBegin user json, file => selectsBackup s user.text json NM_PERM_WRITE file
  | .ticketBegin user json perm, file => selectsBackup s user.text json perm file
  | _, _ => false

theorem index_nonneg_of_available {s : NmState} {i : Int} (h : s.available i = true) : 0 ≤ i := by
  by_contra hneg
  rw [NmState.available, nmGetServer, if_pos (by omega)] at h
  cases h

/-- The primary of an entry is the one of before, unless the backup took over. -/
def FollowsPrimary (s : NmState) (e : Event) (file' : FileEntry) : Prop :=
  ∃ file ∈ s.files, file'.name = file.name ∧
    (file'.ssIndex = file.ssIndex ∨ (promotes s e file = true ∧ file'.ssIndex = file.backupIndex))

theorem primary_disconnect (s : NmState) (server : Nat) (file : FileEntry) :
    (disconnectFile (nmMarkServerDown s server) server file).ssIndex = file.ssIndex ∨
      (promotes s (.disconnect server) file = true ∧
        (disconnectFile (nmMarkServerDown s server) server file).ssIndex = file.backupIndex) := by
  have hlast (file' : FileEntry) : (if file'.backupIndex = server then dropBackup file' else file').ssIndex = file'.ssIndex := by
    split
    · rfl
    · rfl
  unfold disconnectFile
  dsimp only
  rw [hlast]
  split
  · next hprimary =>
    split
    · next hbackup =>
      have hne : file.backupIndex ≠ server := by
        intro heq
        rw [heq, not_available_nmMarkServerDown] at hbackup
        cases hbackup
      rw [available_nmMarkServerDown hne.symm] at hbackup
      refine .inr ⟨?_, rfl⟩
      simp [promotes, hprimary.1, hbackup, hne]
    · exact .inl rfl
  · exact .inl rfl

/-- A request that selects the backup of a file makes it the primary. -/
theorem primary_selectForRequest {s : NmState} (hs : s.Stored) {user json : Text} {perm : BitVec 32} {denied : Text}
    {file' : FileEntry} (hmem : file' ∈ (selectForRequest s user json perm denied).2.files) :
    ∃ file ∈ s.files, file'.name = file.name ∧
      (file'.ssIndex = file.ssIndex ∨ (selectsBackup s user json perm file = true ∧ file'.ssIndex = file.backupIndex)) := by
  have hkept (h : file' ∈ s.files) : ∃ file ∈ s.files, file'.name = file.name ∧
      (file'.ssIndex = file.ssIndex ∨ (selectsBackup s user json perm file = true ∧ file'.ssIndex = file.backupIndex)) :=
    ⟨file', h, rfl, .inl rfl⟩
  -- what selecting does, for a user who may
  have hselect {name : Text} {file : FileEntry} (hjson : jsonFile json = some name) (hfind : nmFindFile s name = some file)
      (haccess : fileHasAccess file user perm = true) (hmem : file' ∈ (selectStorageServer s name).2.files) :
      ∃ file ∈ s.files, file'.name = file.name ∧
        (file'.ssIndex = file.ssIndex ∨ (selectsBackup s user json perm file = true ∧ file'.ssIndex = file.backupIndex)) := by
    have hfile := List.mem_of_find?_eq_some hfind
    obtain ⟨hname, -⟩ := exists_modifyFile hfind id
    simp only [selectStorageServer, hfind] at hmem
    split_ifs at hmem with hprimary hbackup havailable
    · exact hkept hmem
    · rcases mem_modifyFile hs hfind hmem with rfl | ⟨hold, -⟩
      · have hdown : s.available file.ssIndex = false := by
          by_contra hup
          rw [Bool.not_eq_false] at hup
          exact hprimary ⟨index_nonneg_of_available hup, hup⟩
        refine ⟨file, hfile, rfl, .inr ⟨?_, rfl⟩⟩
        simp [selectsBackup, hjson, hname, haccess, hdown, havailable]
      · exact hkept hold
    · rcases mem_modifyFile hs hfind hmem with rfl | ⟨hold, -⟩
      · exact ⟨file, hfile, rfl, .inl rfl⟩
      · exact hkept hold
    · exact hkept hmem
  revert hmem
  fun_cases selectForRequest s user json perm denied
  case case4 name hjson file hfind haccess _ hsel =>
    intro hmem
    refine hselect hjson hfind (by simpa using haccess) ?_
    rw [hsel]
    exact hmem
  case case5 name hjson file hfind haccess _ _ hsel =>
    intro hmem
    refine hselect hjson hfind (by simpa using haccess) ?_
    rw [hsel]
    exact hmem
  all_goals exact hkept

/-- **The primaries after a section**: an entry keeps its own, gets its backup, or is new. -/
theorem primary_step {s t : NmState} (hs : s.Stored) {e : Event} (h : tablesStep s e = some t) {file' : FileEntry}
    (hmem : file' ∈ t.files) :
    FollowsPrimary s e file' ∨ ((∀ x ∈ s.files, x.name ≠ file'.name) ∧ ∃ primary : Nat, file'.ssIndex = primary) := by
  have hkept (hold : file' ∈ s.files) : FollowsPrimary s e file' := ⟨file', hold, rfl, .inl rfl⟩
  have hmodify {name : Text} {f : FileEntry → FileEntry} (hf : ∀ file, (f file).name = file.name ∧
      (f file).ssIndex = file.ssIndex) (hmem : file' ∈ (s.modifyFile name f).files) : FollowsPrimary s e file' := by
    cases hfind : nmFindFile s name with
    | none =>
      rw [modifyFile_of_none hfind] at hmem
      exact hkept hmem
    | some file =>
      rcases mem_modifyFile hs hfind hmem with rfl | ⟨hold, -⟩
      · exact ⟨file, List.mem_of_find?_eq_some hfind, (hf file).1, .inl (hf file).2⟩
      · exact hkept hold
  by_cases he : e.isPlacement = false
  · have hsame := placement_frame h he
    obtain ⟨file, hfile, heq⟩ := List.mem_map.1
      (hsame ▸ List.mem_map_of_mem hmem : file'.placement ∈ s.files.map FileEntry.placement)
    have hprimary := congrArg (fun p => p.2.1) heq
    exact .inl ⟨file, hfile, (congrArg Prod.fst heq).symm, .inl hprimary.symm⟩
  · cases e with
    | disconnect server =>
      cases h
      simp only [handleServerDisconnect, nmMarkServerDown_files, List.mem_map] at hmem
      obtain ⟨file, hfile, rfl⟩ := hmem
      exact .inl ⟨file, hfile, disconnectFile_name _ _ _, primary_disconnect s server file⟩
    | createEnd user file primary backup now =>
      obtain ⟨-, h⟩ := Option.ite_none_right_eq_some.1 h
      cases h
      rcases createEnd_cases s user.short file.short primary (optIndex backup) now.val with
        ⟨_, _, hrun⟩ | ⟨-, hnew, hfiles⟩
      · rw [hrun] at hmem
        exact .inl (hkept hmem)
      · rw [hfiles, List.mem_append, List.mem_singleton] at hmem
        rcases hmem with hold | rfl
        · exact .inl (hkept hold)
        · have hname : (newFileEntry file.text user.text primary (optIndex backup) now.val).name = file.text :=
            Text.copyTo_eq_self file.short
          rw [hname]
          exact .inr ⟨hnew, primary, rfl⟩
    | deleteBegin user json =>
      cases h
      rw [deleteBegin_tables] at hmem
      exact .inl (primary_selectForRequest hs hmem)
    | deleteEnd file =>
      cases h
      exact .inl (hkept (mem_of_deleteEnd hmem))
    | undoBegin user json =>
      cases h
      exact .inl (primary_selectForRequest hs hmem)
    | ticketBegin user json perm =>
      cases h
      exact .inl (primary_selectForRequest hs hmem)
    | assignBackup name primary target =>
      obtain ⟨-, h⟩ := Option.ite_none_right_eq_some.1 h
      cases h
      refine .inl (hmodify ?_ hmem)
      intro file
      split
      · exact ⟨rfl, rfl⟩
      · exact ⟨rfl, rfl⟩
    | syncFailed name attempted =>
      cases h
      refine .inl (hmodify ?_ hmem)
      intro file
      split
      · exact ⟨rfl, rfl⟩
      · exact ⟨rfl, rfl⟩
    | _ => exact absurd rfl he

end CoWrite.Nm
