import CoWrite.Nm.Worker

/-!
# Files that want a backup

A file whose primary is available wants a backup when it has none and another server is available. The places that
drop or use up a backup leave a task behind, or a handler that goes on to schedule one: `Attended` says so of every
file. Three places do not. `select_storage_server` makes the backup the primary and schedules nothing.
`handle_client_create` leaves a file without a backup to a scan that may be over. `schedule_replication` drops a
task when another one for the file is queued, which may be stale. `backups_of_run`: in the runs that keep clear of
these three, no file is left without a backup when all tasks are done.
-/

namespace CoWrite.Nm

open CoWrite.Lib

/-- The file is without a backup that it could have. -/
def NmState.Wants (nm : NmState) (file : FileEntry) : Prop :=
  file.backupIndex < 0 ∧ nm.available file.ssIndex = true ∧ hasBackupCandidate nm file.ssIndex = true

/-- The task is to assign a backup to the file, from the primary that the file has. -/
def ReplicationTask.Assigns (task : ReplicationTask) (file : FileEntry) : Prop :=
  task.assignMode = true ∧ task.file = file.name ∧ task.primaryIndex = file.ssIndex

/-- The job comes to a task for the file, which is the entry `i` of the table. -/
def Job.Attends (i : Nat) (file : FileEntry) : Job → Prop
  | .examine task | .choose task _ | .sync task .. | .conclude task _ | .failure task _ | .schedule task _ =>
    task.Assigns file
  | .tryAssign name => name = file.name
  | .scan j => j ≤ i
  | _ => False

/-! ## Candidates -/

theorem hasBackupCandidate_iff {nm : NmState} {primary : Int} :
    hasBackupCandidate nm primary = true ↔ ∃ i : Nat, (i : Int) ≠ primary ∧ nm.available i = true := by
  unfold hasBackupCandidate
  simp only [List.any_eq_true, List.mem_range, Bool.and_eq_true, bne_iff_ne]
  constructor
  · rintro ⟨i, -, h⟩
    exact ⟨i, h⟩
  · rintro ⟨i, hne, havailable⟩
    obtain ⟨-, ss, hget, -⟩ := available_iff.1 havailable
    exact ⟨i, (List.getElem?_eq_some_iff.1 hget).1, hne, havailable⟩

theorem exists_backupCandidate {nm : NmState} {primary : Int} (h : hasBackupCandidate nm primary = true) :
    ∃ i, backupCandidate nm primary = some i := by
  obtain ⟨i, hi, hcandidate⟩ := List.any_eq_true.1 h
  exact Option.isSome_iff_exists.1 (List.find?_isSome.2 ⟨i, hi, hcandidate⟩)

/-- Fewer servers are available. -/
def Fewer (nm nm' : NmState) : Prop := ∀ k, nm'.available k = true → nm.available k = true

theorem fewer_of_servers {nm nm' : NmState} (h : nm'.servers = nm.servers) : Fewer nm nm' := by
  intro k hk
  rwa [available_congr h] at hk

theorem fewer_nmMarkServerDown (nm : NmState) (i : Int) : Fewer nm (nmMarkServerDown nm i) := by
  intro k hk
  by_cases hne : i = k
  · subst hne
    rw [not_available_nmMarkServerDown] at hk
    cases hk
  · rwa [available_nmMarkServerDown hne] at hk

/-- A file wants no backup that it did not want when more servers were available. -/
theorem Fewer.wants {nm nm' : NmState} (h : Fewer nm nm') {file file' : FileEntry}
    (hplacement : file'.placement = file.placement) (hwants : nm'.Wants file') : nm.Wants file := by
  obtain ⟨hbackup, hprimary, hcandidate⟩ := hwants
  obtain ⟨-, hss, hb⟩ : file'.name = file.name ∧ file'.ssIndex = file.ssIndex ∧ file'.backupIndex = file.backupIndex := by
    simpa [FileEntry.placement] using hplacement
  rw [hss] at hprimary hcandidate
  rw [hb] at hbackup
  obtain ⟨i, hne, hi⟩ := hasBackupCandidate_iff.1 hcandidate
  exact ⟨hbackup, h _ hprimary, hasBackupCandidate_iff.2 ⟨i, hne, h _ hi⟩⟩

/-! ## Sections that leave no file wanting -/

/-- No entry of the new table wants a backup, but those that did before and have the same primary. -/
def Tended (nm nm' : NmState) : Prop :=
  ∀ (i : Nat) (file' : FileEntry), nm'.files[i]? = some file' → nm'.Wants file' →
    ∃ file, nm.files[i]? = some file ∧ file'.name = file.name ∧ file'.ssIndex = file.ssIndex ∧ nm.Wants file

theorem Tended.refl (nm : NmState) : Tended nm nm := by
  intro i file hfile hwants
  exact ⟨file, hfile, rfl, rfl, hwants⟩

theorem tended_of_samePlacement {nm nm' : NmState} (h : SamePlacement nm nm') (hfewer : Fewer nm nm') :
    Tended nm nm' := by
  intro i file' hfile' hwants
  have hget := congrArg (fun l => l[i]?) h
  simp only [List.getElem?_map, hfile', Option.map_some] at hget
  obtain ⟨file, hfile, hplacement⟩ := Option.map_eq_some_iff.1 hget.symm
  have hname := congrArg Prod.fst hplacement
  have hss := congrArg (fun p => p.2.1) hplacement
  exact ⟨file, hfile, hname.symm, hss.symm, hfewer.wants hplacement.symm hwants⟩

/-- The entries of the table after an assignment through `nm_find_file`. -/
theorem getElem?_modifyFile {nm : NmState} {name : Text} {f : FileEntry → FileEntry} {i : Nat} {file' : FileEntry}
    (h : (nm.modifyFile name f).files[i]? = some file') : nm.files[i]? = some file' ∨
      ∃ file, nmFindFile nm name = some file ∧ nm.files[i]? = some file ∧ file' = f file := by
  cases hfind : nmFindFile nm name with
  | none =>
    rw [modifyFile_of_none hfind] at h
    exact .inl h
  | some file =>
    obtain ⟨-, pre, post, hfiles, -, heq⟩ := exists_modifyFile hfind f
    rw [heq] at h
    rw [hfiles]
    rcases Nat.lt_trichotomy i pre.length with hlt | rfl | hgt
    · rw [List.getElem?_append_left hlt] at h
      exact .inl ((List.getElem?_append_left hlt).trans h)
    · simp only [List.getElem?_append_right (Nat.le_refl _), Nat.sub_self, List.getElem?_cons_zero,
        Option.some.injEq] at h ⊢
      exact .inr ⟨file, rfl, rfl, h.symm⟩
    · obtain ⟨k, rfl⟩ := Nat.exists_eq_add_of_lt hgt
      simp only [List.getElem?_append_right (Nat.le_of_lt hgt)] at h ⊢
      have hk : pre.length + k + 1 - pre.length = k + 1 := by omega
      rw [hk, List.getElem?_cons_succ] at h
      rw [hk, List.getElem?_cons_succ]
      exact .inl h

/-- The request makes the backup of its file the primary, and a third server is available. -/
def NmState.FailsOver (nm : NmState) (user json : Text) (perm : BitVec 32) : Prop :=
  ∃ name file, jsonFile json = some name ∧ nmFindFile nm name = some file ∧ fileHasAccess file user perm = true ∧
    nm.available file.ssIndex = false ∧ nm.available file.backupIndex = true ∧
      hasBackupCandidate nm file.backupIndex = true

theorem tended_select {nm : NmState} {name : Text}
    (h : ∀ file, nmFindFile nm name = some file → nm.available file.ssIndex = false →
      nm.available file.backupIndex = true → hasBackupCandidate nm file.backupIndex = false) :
    Tended nm (selectStorageServer nm name).2 := by
  have hfewer : Fewer nm (selectStorageServer nm name).2 := fewer_of_servers (beside_servers.selectStorageServer_eq nm name)
  unfold selectStorageServer at hfewer ⊢
  cases hfind : nmFindFile nm name with
  | none => exact Tended.refl nm
  | some file =>
    simp only [hfind] at hfewer ⊢
    split_ifs at hfewer ⊢ with hprimary hbackup havailable
    · exact Tended.refl nm
    · have hdown : nm.available file.ssIndex = false := by
        refine Bool.eq_false_of_not_eq_true fun hss => hprimary ⟨?_, hss⟩
        exact (available_iff.1 hss).1
      intro i file' hfile' hwants
      rcases getElem?_modifyFile hfile' with hold | ⟨found, hfound, -, rfl⟩
      · exact ⟨file', hold, rfl, rfl, hfewer.wants rfl hwants⟩
      · obtain rfl : file = found := Option.some.inj (hfind.symm.trans hfound)
        obtain ⟨-, -, hcandidate⟩ := hwants
        obtain ⟨k, hne, hk⟩ := hasBackupCandidate_iff.1 hcandidate
        have hthird := hasBackupCandidate_iff.2 ⟨k, hne, hfewer _ hk⟩
        exact absurd hthird (Bool.eq_false_iff.1 (h file hfind hdown havailable))
    · intro i file' hfile' hwants
      rcases getElem?_modifyFile hfile' with hold | ⟨found, hfound, -, rfl⟩
      · exact ⟨file', hold, rfl, rfl, hfewer.wants rfl hwants⟩
      · obtain rfl : file = found := Option.some.inj (hfind.symm.trans hfound)
        have hss := hfewer _ hwants.2.1
        exact absurd ⟨(available_iff.1 hss).1, hss⟩ hprimary
    · exact Tended.refl nm

theorem tended_selectForRequest {nm : NmState} {user json : Text} {perm : BitVec 32} (denied : Text)
    (h : ¬ nm.FailsOver user json perm) : Tended nm (selectForRequest nm user json perm denied).2 := by
  have hselect {name : Text} {file : FileEntry} (hname : jsonFile json = some name)
      (hfind : nmFindFile nm name = some file) (haccess : ¬ (!fileHasAccess file user perm) = true) :
      Tended nm (selectStorageServer nm name).2 := by
    refine tended_select ?_
    intro found hfound hdown hbackup
    obtain rfl : file = found := Option.some.inj (hfind.symm.trans hfound)
    refine Bool.eq_false_of_not_eq_true fun hthird => h ⟨name, file, hname, hfind, ?_, hdown, hbackup, hthird⟩
    simpa using haccess
  fun_cases selectForRequest nm user json perm denied
  case case4 name hname file hfind haccess state hsel =>
    have := hselect hname hfind haccess
    rwa [hsel] at this
  case case5 name hname file hfind haccess i state hsel =>
    have := hselect hname hfind haccess
    rwa [hsel] at this
  all_goals exact Tended.refl nm

/-- Selecting the server for the request of the event, a backup becomes the primary with a third server available. -/
def Event.FailsOver (nm : NmState) : Event → Prop
  | .deleteBegin user json | .undoBegin user json => nm.FailsOver user.text json NM_PERM_WRITE
  | .ticketBegin user json perm => nm.FailsOver user.text json perm
  | _ => False

theorem tended_of_other {nm nm' : NmState} {e : Event} (he : e.isOther = true) (hclear : ¬ e.FailsOver nm)
    (h : tablesStep nm e = some nm') : Tended nm nm' := by
  by_cases hplacement : e.isPlacement = false
  · refine tended_of_samePlacement (placement_frame h hplacement) ?_
    by_cases hservers : e.isAboutServers = false
    · exact fewer_of_servers (servers_frame h hservers)
    · cases e with
      | markDown server =>
        cases h
        exact fewer_nmMarkServerDown nm server
      | register | disconnect => cases he
      | _ => exact absurd rfl hservers
  · cases e with
    | undoBegin user json =>
      cases h
      exact tended_selectForRequest _ hclear
    | ticketBegin user json perm =>
      cases h
      exact tended_selectForRequest _ hclear
    | disconnect | createEnd | deleteBegin | deleteEnd | assignBackup | syncFailed => cases he
    | _ => exact absurd rfl hplacement

theorem tended_createBegin (nm : NmState) (user : Client) (json : Text) :
    Tended nm (createBegin nm user.text json).2 :=
  tended_of_samePlacement (placement_frame (e := .createBegin user json) rfl rfl)
    (fewer_of_servers (apart_servers.createBegin_eq nm user.text json))

theorem tended_deleteBegin {nm : NmState} {user : Client} {json : Text}
    (h : ¬ nm.FailsOver user.text json NM_PERM_WRITE) : Tended nm (deleteBegin nm user.text json).2 := by
  rw [deleteBegin_tables]
  exact tended_selectForRequest _ h

theorem handleSsRegister_error {nm nm' : NmState} {json : Text} {fd : Nat} {code : ErrorCode} {message : Text}
    (h : handleSsRegister nm json fd = (.error code message, nm')) : nm' = nm := by
  unfold handleSsRegister at h
  split at h
  · split at h
    · next hregister =>
      cases h
      unfold nmRegisterServer at hregister
      split at hregister
      · cases hregister
      · split at hregister
        · cases hregister
          rfl
        · cases hregister
    · cases h
  · cases h
    rfl

/-- The files that want a backup after a server is lost wanted one before, or `handle_server_disconnect` goes on to
assign one. -/
theorem wants_disconnect {nm : NmState} {server i : Nat} {file' : FileEntry}
    (hfile' : (handleServerDisconnect nm server).1.files[i]? = some file')
    (hwants : (handleServerDisconnect nm server).1.Wants file') :
    (nm.files[i]? = some file' ∧ nm.Wants file') ∨ file'.name ∈ (handleServerDisconnect nm server).2 := by
  simp only [handleServerDisconnect, nmMarkServerDown_files, List.getElem?_map, Option.map_eq_some_iff] at hfile'
  obtain ⟨file, hfile, rfl⟩ := hfile'
  have hmarked : (nmMarkServerDown nm server).Wants (disconnectFile (nmMarkServerDown nm server) server file) := hwants
  by_cases hconcerned : file.ssIndex = server ∨ file.backupIndex = server
  · refine .inr ?_
    rw [disconnectFile_name]
    refine List.mem_map_of_mem (List.mem_filter.2 ⟨?_, ?_⟩)
    · rw [nmMarkServerDown_files]
      exact List.mem_of_getElem? hfile
    · obtain ⟨hbackup, hprimary, hcandidate⟩ := hmarked
      have hss := (available_iff.1 hprimary).1
      simp [wantsBackup, hconcerned, hbackup, hcandidate, hss]
  · rw [not_or] at hconcerned
    have hsame : disconnectFile (nmMarkServerDown nm server) server file = file := by
      have hprimary : ¬ (file.ssIndex = server ∧ file.backupIndex ≥ 0) := fun h => hconcerned.1 h.1
      simp only [disconnectFile, if_neg hprimary, if_neg hconcerned.2]
    rw [hsame] at hmarked ⊢
    exact .inl ⟨hfile, (fewer_nmMarkServerDown nm server).wants rfl hmarked⟩

namespace Replication

/-! ## The jobs that attend to a file -/

/-- A task in the queue is for the file, or a job that is left to a thread comes to one. -/
def Attended (s : Replication) (i : Nat) (file : FileEntry) : Prop :=
  (∃ task ∈ s.queue, task.Assigns file) ∨ ∃ job ∈ s.jobs, job.Attends i file

/-- Every file that wants a backup is attended to. -/
def AllAttended (s : Replication) : Prop :=
  ∀ (i : Nat) (file : FileEntry), s.nm.files[i]? = some file → s.nm.Wants file → s.Attended i file

/-- Running the job does not leave a file without a task. -/
def JobClear (s : Replication) (o : Outcome) : Job → Prop
  | .createEnd _ file primary none =>
    s.nm.files.length < NM_MAX_FILES → nmFindFile s.nm file.text = none → s.nm.available primary = true →
      hasBackupCandidate s.nm primary = true → ∃ i ≤ s.nm.files.length, .scan i ∈ s.jobs
  | .schedule task _ =>
    ∀ file ∈ s.nm.files, s.nm.Wants file → task.Assigns file → o.pushed = true ∧
      ∀ existing ∈ s.queue, existing.assignMode = true → existing.file = task.file →
        existing.primaryIndex = task.primaryIndex
  | .deletePrimary .. => o.reply = .ok → ∀ i, .scan i ∉ s.jobs
  | _ => True

/-- **Steps that leave no file without a task**: no request makes a backup the primary while a third server is
available; no file is made without a backup that it could have, unless a scan is under way; no task to assign a
backup is dropped for one with another primary; and no file is deleted during a scan. -/
def Clear (s : Replication) : Event → Prop
  | .delete user json => ¬ s.nm.FailsOver user.text json NM_PERM_WRITE
  | .other e => ¬ e.FailsOver s.nm
  | .run t o => ∀ job jobs, s.threads[t]? = some (job :: jobs) → s.JobClear o job
  | _ => True

theorem Attended.mono {s t : Replication} {i : Nat} {file file' : FileEntry} (h : s.Attended i file)
    (hname : file'.name = file.name) (hss : file'.ssIndex = file.ssIndex) (hqueue : s.queue ⊆ t.queue)
    (hjobs : s.jobs ⊆ t.jobs) : t.Attended i file' := by
  have hassigns {task : ReplicationTask} (htask : task.Assigns file) : task.Assigns file' := by
    obtain ⟨hassign, hfile, hprimary⟩ := htask
    exact ⟨hassign, hfile.trans hname.symm, hprimary.trans hss.symm⟩
  rcases h with ⟨task, htask, h⟩ | ⟨job, hjob, h⟩
  · exact .inl ⟨task, hqueue htask, hassigns h⟩
  · refine .inr ⟨job, hjobs hjob, ?_⟩
    cases job with
    | tryAssign name => exact h.trans hname.symm
    | scan j => exact h
    | examine task => exact hassigns h
    | choose task owner => exact hassigns h
    | sync task owner target => exact hassigns h
    | conclude task target => exact hassigns h
    | failure task attempted => exact hassigns h
    | schedule task ofUpdate => exact hassigns h
    | _ => cases h

/-- Steps that take nothing away leave all files attended to. -/
theorem AllAttended.mono {s t : Replication} (h : s.AllAttended) (hnm : Tended s.nm t.nm) (hqueue : s.queue ⊆ t.queue)
    (hjobs : s.jobs ⊆ t.jobs) : t.AllAttended := by
  intro i file' hfile' hwants
  obtain ⟨file, hfile, hname, hss, hwants⟩ := hnm i file' hfile' hwants
  exact (h i file hfile hwants).mono hname hss hqueue hjobs

theorem jobs_subset_spawn (s : Replication) (nm : NmState) (new : List Job) : s.jobs ⊆ (s.spawn nm new).jobs := by
  intro job hjob
  unfold spawn Replication.jobs
  rw [List.flatten_append]
  exact List.mem_append_left _ hjob

theorem mem_spawn {s : Replication} (nm : NmState) {new : List Job} {job : Job} (h : job ∈ new) :
    job ∈ (s.spawn nm new).jobs := by
  unfold spawn Replication.jobs
  rw [List.flatten_append, List.flatten_singleton]
  exact List.mem_append_right _ h

/-- After a run of the first job of a thread the other jobs are left. -/
theorem mem_set_of_mem_jobs {s : Replication} {t : Nat} {job : Job} {rest new : List Job}
    (ht : s.threads[t]? = some (job :: rest)) {j : Job} (h : j ∈ s.jobs) :
    j = job ∨ j ∈ (s.threads.set t (new ++ rest)).flatten := by
  obtain ⟨thread, hthread, hj⟩ := List.mem_flatten.1 h
  obtain ⟨k, hk⟩ := List.getElem?_of_mem hthread
  by_cases hkt : k = t
  · subst hkt
    obtain rfl := Option.some.inj (hk.symm.trans ht)
    rcases List.mem_cons.1 hj with rfl | hj
    · exact .inl rfl
    · refine .inr (List.mem_flatten.2 ⟨new ++ rest, ?_, List.mem_append_right _ hj⟩)
      exact List.mem_set (List.getElem?_eq_some_iff.1 ht).1 _
  · refine .inr (List.mem_flatten.2 ⟨thread, ?_, hj⟩)
    refine List.mem_of_getElem? (i := k) ?_
    rw [List.getElem?_set_ne (Ne.symm hkt)]
    exact hk

theorem mem_set_of_mem_new {s : Replication} {t : Nat} {job : Job} {rest new : List Job}
    (ht : s.threads[t]? = some (job :: rest)) {j : Job} (h : j ∈ new) :
    j ∈ (s.threads.set t (new ++ rest)).flatten := by
  refine List.mem_flatten.2 ⟨new ++ rest, ?_, List.mem_append_left _ h⟩
  exact List.mem_set (List.getElem?_eq_some_iff.1 ht).1 _

/-- The jobs that leave an entry wanting a backup: a sync that failed, the end of a creation and of a deletion. -/
def LeavesWanting (o : Outcome) : Job → Prop
  | .failure task _ => task.assignMode = false
  | .createEnd .. => True
  | .deletePrimary .. => o.reply = .ok
  | _ => False

theorem tended_of_run {nm nm' : NmState} {queue queue' : List ReplicationTask} {o : Outcome} {job : Job}
    {new : List Job} (hjob : job.Valid nm.servers.length) (hleaves : ¬ LeavesWanting o job)
    (h : job.run nm queue o = some (nm', queue', new)) : Tended nm nm' := by
  cases job with
  | next =>
    cases queue with
    | nil => cases h
    | cons task queue =>
      cases h
      exact Tended.refl _
  | conclude task target =>
    cases h
    split
    · next hassign =>
      have htarget := (hjob hassign).1
      intro i file' hfile' hwants
      have hfewer : Fewer nm (assignBackup nm task.file task.primaryIndex target) :=
        fewer_of_servers (beside_servers.modifyFile_eq ..)
      rcases getElem?_modifyFile hfile' with hold | ⟨file, -, hfile, rfl⟩
      · exact ⟨file', hold, rfl, rfl, hfewer.wants rfl hwants⟩
      · by_cases hprimary : file.ssIndex = task.primaryIndex
        · rw [if_pos hprimary] at hwants
          have hbackup : target < 0 := hwants.1
          omega
        · rw [if_neg hprimary] at hwants ⊢
          exact ⟨file, hfile, rfl, rfl, hfewer.wants rfl hwants⟩
    · exact Tended.refl _
  | failure task attempted =>
    have hassign : task.assignMode = true := Bool.eq_true_of_not_eq_false hleaves
    simp only [Job.run, handleReplicationFailure, if_pos hassign, Option.some.injEq, Prod.mk.injEq] at h
    obtain ⟨rfl, -⟩ := h
    exact Tended.refl _
  | schedule task ofUpdate =>
    simp only [Job.run] at h
    split at h
    · cases h
      exact Tended.refl _
    · cases h
      exact Tended.refl _
  | scan i =>
    simp only [Job.run] at h
    split at h
    · cases h
      exact Tended.refl _
    · cases h
      exact Tended.refl _
  | createPrimary user file primary =>
    simp only [Job.run] at h
    split at h
    · cases h
      exact tended_of_samePlacement (samePlacement_of_files (nmMarkServerDown_files _ _)) (fewer_nmMarkServerDown _ _)
    · cases h
      exact Tended.refl _
    · cases h
      exact Tended.refl _
  | createEnd user file primary backup => exact absurd trivial hleaves
  | deletePrimary name server =>
    simp only [Job.run] at h
    split at h
    · cases h
      exact tended_of_samePlacement (samePlacement_of_files (nmMarkServerDown_files _ _)) (fewer_nmMarkServerDown _ _)
    · cases h
      exact Tended.refl _
    · next hreply => exact absurd hreply hleaves
  | _ =>
    cases h
    exact Tended.refl _

/-- **What a job that attends to a file leaves**: a task in the queue or another job that attends to it, or no want. -/
theorem attends_of_run {s : Replication} (hI : s.Inv) {nm' : NmState} {queue' : List ReplicationTask} {o : Outcome}
    {job : Job} {new : List Job} (hjob : job.Valid s.nm.servers.length) (hclear : s.JobClear o job)
    (h : job.run s.nm s.queue o = some (nm', queue', new)) {i : Nat} {file : FileEntry}
    (hfile : s.nm.files[i]? = some file) (hwants : s.nm.Wants file) (hattends : job.Attends i file)
    (hleft : ∃ file' ∈ nm'.files, file'.name = file.name ∧ nm'.Wants file') :
    (∃ task ∈ queue', task.Assigns file) ∨ ∃ j ∈ new, j.Attends i file := by
  have hfind := nmFindFile_of_mem hI.stored (List.mem_of_getElem? hfile)
  have hstored := hI.stored.files file (List.mem_of_getElem? hfile)
  have hss := (available_iff.1 hwants.2.1).1
  have hnonempty : file.name ≠ [] := by
    intro hnil
    have hvalid := hstored.name.1
    rw [hnil] at hvalid
    cases hvalid
  cases job with
  | examine task =>
    cases h
    obtain ⟨hassign, hname, hprimary⟩ := hattends
    refine .inr ⟨.choose task file.owner, ?_, hassign, hname, hprimary⟩
    rw [examineTask, hname, hfind]
    dsimp only
    rw [if_neg (by omega), if_pos hassign]
    exact List.mem_singleton_self _
  | choose task owner =>
    cases h
    obtain ⟨k, hk⟩ := exists_backupCandidate hwants.2.2
    refine .inr ⟨.sync task owner k, ?_, hattends⟩
    rw [chooseTarget, hattends.2.2, hk]
    exact List.mem_singleton_self _
  | sync task owner target =>
    cases h
    unfold syncTask
    split
    · exact .inr ⟨.conclude task target, List.mem_singleton_self _, hattends⟩
    · exact .inr ⟨.failure task target, List.mem_singleton_self _, hattends⟩
  | conclude task target =>
    cases h
    obtain ⟨hassign, hname, hprimary⟩ := hattends
    obtain ⟨file', hfile', hname', hwants'⟩ := hleft
    rw [if_pos hassign, assignBackup, hname] at hfile'
    rcases mem_modifyFile hI.stored hfind hfile' with rfl | ⟨-, hne⟩
    · rw [if_pos hprimary.symm] at hwants'
      have htarget := (hjob hassign).1
      have hnone : target < 0 := hwants'.1
      omega
    · exact absurd hname' hne
  | failure task attempted =>
    obtain ⟨hassign, hname, -⟩ := hattends
    simp only [Job.run, handleReplicationFailure, if_pos hassign, Option.some.injEq, Prod.mk.injEq] at h
    obtain ⟨-, -, rfl⟩ := h
    exact .inr ⟨.tryAssign task.file, List.mem_singleton_self _, hname⟩
  | tryAssign name =>
    cases h
    obtain rfl : name = file.name := hattends
    have htask : tryAssignBackup s.nm file.name = some (newTask file.name file.owner file.ssIndex (-1) true) := by
      have hbackup := hwants.1
      rw [tryAssignBackup, if_neg hnonempty, hfind, Option.bind_some, if_neg (by omega)]
    rw [htask]
    exact .inr ⟨.schedule _ false, List.mem_singleton_self _, rfl, hstored.name.copyTo, rfl⟩
  | schedule task ofUpdate =>
    obtain ⟨hassign, hname, hprimary⟩ := hattends
    obtain ⟨hpushed, hqueued⟩ := hclear file (List.mem_of_getElem? hfile) hwants ⟨hassign, hname, hprimary⟩
    have hvalid : ¬ (task.file = [] ∨ task.primaryIndex < 0 ∨ (task.assignMode = false ∧ task.backupIndex < 0)) := by
      rw [hname, hprimary, hassign]
      simp [hnonempty, hss]
    simp only [Job.run, scheduleReplication, if_neg hvalid, if_pos hpushed] at h
    by_cases hcovered : (s.queue.any fun existing => existing.covers task) = true
    · rw [if_pos hcovered] at h
      cases h
      obtain ⟨existing, hmem, hcovers⟩ := List.any_eq_true.1 hcovered
      simp only [ReplicationTask.covers, hassign, Bool.and_true, Bool.not_true, Bool.and_false, Bool.false_and,
        Bool.or_false, Bool.and_eq_true, beq_iff_eq] at hcovers
      obtain ⟨hsame, hmode⟩ := hcovers
      exact .inl ⟨existing, hmem, hmode, hsame.trans hname, (hqueued existing hmem hmode hsame).trans hprimary⟩
    · rw [if_neg hcovered] at h
      cases h
      exact .inl ⟨task, List.mem_append_right _ (List.mem_singleton_self _), hassign, hname, hprimary⟩
  | scan j =>
    have hj : j ≤ i := hattends
    simp only [Job.run] at h
    split at h
    · next hnone =>
      have := List.getElem?_eq_none_iff.1 hnone
      have := (List.getElem?_eq_some_iff.1 hfile).1
      omega
    · next found hfound =>
      cases h
      rcases Nat.lt_or_eq_of_le hj with hlt | rfl
      · refine .inr ⟨.scan (j + 1), ?_, hlt⟩
        split <;> simp
      · obtain rfl := Option.some.inj (hfile.symm.trans hfound)
        rw [if_pos hwants.1]
        exact .inr ⟨.tryAssign file.name, List.mem_cons_self, rfl⟩
  | _ => cases hattends

theorem subset_of_schedule {queue queue' : List ReplicationTask} {task : ReplicationTask} {pushed : Bool}
    (h : scheduleReplication queue task pushed = some queue') : queue ⊆ queue' := by
  unfold scheduleReplication at h
  split_ifs at h
  · cases h
    exact List.Subset.refl _
  · cases h
    exact List.subset_append_left _ _

/-- A task leaves the queue only to be examined. -/
theorem queue_of_run {nm nm' : NmState} {queue queue' : List ReplicationTask} {o : Outcome} {job : Job}
    {new : List Job} (h : job.run nm queue o = some (nm', queue', new)) {task : ReplicationTask}
    (htask : task ∈ queue) : task ∈ queue' ∨ .examine task ∈ new := by
  cases job with
  | next =>
    cases queue with
    | nil => cases h
    | cons head queue =>
      cases h
      rcases List.mem_cons.1 htask with rfl | htask
      · exact .inr List.mem_cons_self
      · exact .inl htask
  | failure task attempted =>
    simp only [Job.run, Option.some.injEq, Prod.mk.injEq] at h
    obtain ⟨-, rfl, -⟩ := h
    exact .inl htask
  | schedule scheduled ofUpdate =>
    simp only [Job.run] at h
    split at h
    · next hschedule =>
      cases h
      exact .inl (subset_of_schedule hschedule htask)
    · cases h
      exact .inl htask
  | scan i =>
    simp only [Job.run] at h
    split at h
    · cases h
      exact .inl htask
    · cases h
      exact .inl htask
  | createPrimary user file primary =>
    simp only [Job.run] at h
    split at h
    all_goals
      cases h
      exact .inl htask
  | deletePrimary name server =>
    simp only [Job.run] at h
    split at h
    all_goals
      cases h
      exact .inl htask
  | _ =>
    cases h
    exact .inl htask

section Run

variable {s : Replication} {thread : Nat} {job : Job} {rest new : List Job} {nm' : NmState}
  {queue' : List ReplicationTask} {o : Outcome} (ht : s.threads[thread]? = some (job :: rest))
  (hrun : job.run s.nm s.queue o = some (nm', queue', new))

include ht hrun

/-- A file that was attended to still is, unless it was the job that was run that attended to it. -/
theorem Attended.run {i : Nat} {file file' : FileEntry} (h : s.Attended i file) (hname : file'.name = file.name)
    (hss : file'.ssIndex = file.ssIndex) (hjob : job.Attends i file →
      (∃ task ∈ queue', task.Assigns file) ∨ ∃ j ∈ new, j.Attends i file) :
    Attended { s with nm := nm', queue := queue', threads := s.threads.set thread (new ++ rest) } i file' := by
  refine Attended.mono (s := { s with nm := nm', queue := queue', threads := s.threads.set thread (new ++ rest) }) ?_
    hname hss (List.Subset.refl _) (List.Subset.refl _)
  have hleft {j : Job} (hj : j ∈ s.jobs) (hattends : j.Attends i file) :
      Attended { s with nm := nm', queue := queue', threads := s.threads.set thread (new ++ rest) } i file := by
    rcases mem_set_of_mem_jobs ht hj with rfl | hj
    · rcases hjob hattends with htask | ⟨j, hj, hattends⟩
      · exact .inl htask
      · exact .inr ⟨j, mem_set_of_mem_new ht hj, hattends⟩
    · exact .inr ⟨j, hj, hattends⟩
  rcases h with ⟨task, htask, hassigns⟩ | ⟨j, hj, hattends⟩
  · rcases queue_of_run hrun htask with htask | hexamine
    · exact .inl ⟨task, htask, hassigns⟩
    · exact .inr ⟨.examine task, mem_set_of_mem_new ht hexamine, hassigns⟩
  · exact hleft hj hattends

end Run

/-- A new file without a backup is behind a scan, or no server could have it. -/
theorem wants_of_createEnd {s : Replication} (hI : s.Inv) {o : Outcome} {user : Client} {file : FileName} {primary : Nat}
    {backup : Option Nat} (hjob : (Job.createEnd user file primary backup).Valid s.nm.servers.length)
    (hclear : s.JobClear o (.createEnd user file primary backup)) {i : Nat} {file' : FileEntry}
    (hfile' : (Nm.createEnd s.nm user.text file.text primary (optIndex backup) o.now.val).2.files[i]? = some file')
    (hwants : (Nm.createEnd s.nm user.text file.text primary (optIndex backup) o.now.val).2.Wants file') :
    (s.nm.files[i]? = some file' ∧ s.nm.Wants file') ∨ ∃ j ≤ i, .scan j ∈ s.jobs := by
  have hfewer : Fewer s.nm (Nm.createEnd s.nm user.text file.text primary (optIndex backup) o.now.val).2 :=
    fewer_of_servers (beside_servers.createEnd_eq ..)
  have hwants := hfewer.wants rfl hwants
  rcases createEnd_cases s.nm user.short file.short primary (optIndex backup) o.now.val with
    ⟨_, _, herror⟩ | ⟨-, hnew, hfiles⟩
  · rw [herror] at hfile'
    exact .inl ⟨hfile', hwants⟩
  rw [hfiles] at hfile'
  rcases Nat.lt_or_ge i s.nm.files.length with hlt | hge
  · rw [List.getElem?_append_left hlt] at hfile'
    exact .inl ⟨hfile', hwants⟩
  rw [List.getElem?_append_right hge] at hfile'
  have hi : i = s.nm.files.length := by
    have := (List.getElem?_eq_some_iff.1 hfile').1
    rw [List.length_singleton] at this
    omega
  rw [hi, Nat.sub_self, List.getElem?_cons_zero] at hfile'
  obtain rfl := Option.some.inj hfile'
  cases backup with
  | some k =>
    have hnone : (k : Int) < 0 := hwants.1
    omega
  | none =>
    have hroom : s.nm.files.length < NM_MAX_FILES := by
      have hprimary : IsIndex s.nm.servers.length primary := ⟨by omega, Int.ofNat_lt.2 hjob.1⟩
      have hcount := (createEnd_stored hI.stored user.isNamed (isName_fileName file) hprimary
        (isIndex_none _) o.now.isTime).fileCount
      have hlength := congrArg List.length hfiles
      rw [List.length_append, List.length_singleton] at hlength
      change (Nm.createEnd s.nm user.text file.text primary (-1) o.now.val).2.files.length = _ at hlength
      omega
    have hfind : nmFindFile s.nm file.text = none := by
      refine List.find?_eq_none.2 ?_
      simpa using hnew
    obtain ⟨j, hj, hscan⟩ := hclear hroom hfind hwants.2.1 hwants.2.2
    exact .inr ⟨j, by omega, hscan⟩

/-- **Which files want a backup after a job**: those that did before, the one that the job leaves to another job,
and the one that a scan comes to. -/
theorem wants_of_run {s : Replication} (hI : s.Inv) {nm' : NmState} {queue' : List ReplicationTask} {o : Outcome}
    {job : Job} {new : List Job} (hjob : job.Valid s.nm.servers.length) (hclear : s.JobClear o job)
    (hrun : job.run s.nm s.queue o = some (nm', queue', new)) {i : Nat} {file' : FileEntry}
    (hfile' : nm'.files[i]? = some file') (hwants : nm'.Wants file') :
    (∃ (k : Nat) (file : FileEntry), s.nm.files[k]? = some file ∧ file'.name = file.name ∧
      file'.ssIndex = file.ssIndex ∧ s.nm.Wants file ∧
      (k = i ∨ ((∀ j, .scan j ∉ s.jobs) ∧ ¬ job.Attends i file))) ∨
    (∃ j ∈ new, j.Attends i file') ∨ ∃ j ≤ i, .scan j ∈ s.jobs ∧ ∀ j, job ≠ .scan j := by
  by_cases hleaves : LeavesWanting o job
  · cases job with
    | failure task attempted =>
      have hassign : task.assignMode = false := hleaves
      simp only [Job.run, Option.some.injEq, Prod.mk.injEq] at hrun
      rcases handleReplicationFailure_cases s.nm task attempted with ⟨hmode, -⟩ | heq | ⟨file, hfind, hbackup, heq⟩
      · rw [hassign] at hmode
        cases hmode
      · rw [heq] at hrun
        obtain ⟨rfl, -⟩ := hrun
        exact .inl ⟨i, file', hfile', rfl, rfl, hwants, .inl rfl⟩
      · rw [heq] at hrun
        obtain ⟨rfl, -, rfl⟩ := hrun
        have hfewer : Fewer s.nm (dropFailedBackup s.nm task.file attempted) := fewer_of_servers (beside_servers.modifyFile_eq ..)
        rcases getElem?_modifyFile hfile' with hold | ⟨found, hfound, -, rfl⟩
        · exact .inl ⟨i, file', hold, rfl, rfl, hfewer.wants rfl hwants, .inl rfl⟩
        · obtain rfl : file = found := Option.some.inj (hfind.symm.trans hfound)
          rw [if_pos hbackup] at hwants ⊢
          have hss : file.ssIndex ≥ 0 := (available_iff.1 hwants.2.1).1
          have hname : file.name = task.file := by simpa using List.find?_some hfind
          refine .inr (.inl ⟨.tryAssign task.file, ?_, hname.symm⟩)
          simp only [decide_eq_true hss, if_true]
          exact List.mem_singleton_self _
    | createEnd user file primary backup =>
      cases hrun
      rcases wants_of_createEnd hI hjob hclear hfile' hwants with ⟨hold, hwants⟩ | ⟨j, hj, hscan⟩
      · exact .inl ⟨i, file', hold, rfl, rfl, hwants, .inl rfl⟩
      · exact .inr (.inr ⟨j, hj, hscan, fun _ => Job.noConfusion⟩)
    | deletePrimary name server =>
      have hreply : o.reply = .ok := hleaves
      simp only [Job.run, hreply, Option.some.injEq, Prod.mk.injEq] at hrun
      obtain ⟨rfl, -⟩ := hrun
      obtain ⟨k, hk⟩ := List.getElem?_of_mem (mem_of_deleteEnd (List.mem_of_getElem? hfile'))
      have hfewer : Fewer s.nm (deleteEnd s.nm name).2 := fewer_of_servers (beside_servers.deleteEnd_eq s.nm name)
      exact .inl ⟨k, file', hk, rfl, rfl, hfewer.wants rfl hwants, .inr ⟨hclear hreply, id⟩⟩
    | _ => cases hleaves
  · obtain ⟨file, hfile, hname, hss, hwants⟩ := tended_of_run hjob hleaves hrun i file' hfile' hwants
    exact .inl ⟨i, file, hfile, hname, hss, hwants, .inl rfl⟩

/-- A job that is not a scan attends to an entry wherever it is. -/
theorem Attended.move {s : Replication} (hscan : ∀ j, .scan j ∉ s.jobs) {k : Nat} {file : FileEntry}
    (h : s.Attended k file) (i : Nat) : s.Attended i file := by
  rcases h with htask | ⟨job, hjob, h⟩
  · exact .inl htask
  · refine .inr ⟨job, hjob, ?_⟩
    cases job with
    | scan j => exact absurd hjob (hscan j)
    | _ => exact h

theorem allAttended_run {s t : Replication} {thread : Nat} {o : Outcome} (hI : s.Inv) (h : s.AllAttended)
    (hclear : s.Clear (.run thread o)) (hs : s.step (.run thread o) = some t) : t.AllAttended := by
  simp only [step] at hs
  split at hs
  · next job rest ht =>
    obtain ⟨⟨nm', queue', new⟩, hrun, rfl⟩ := Option.map_eq_some_iff.1 hs
    have hmem : job ∈ s.jobs := List.mem_flatten.2 ⟨_, List.mem_of_getElem? ht, List.mem_cons_self⟩
    have hjob := hI.jobs job hmem
    have hclear := hclear job rest ht
    intro i file' hfile' hwants'
    rcases wants_of_run hI hjob hclear hrun hfile' hwants' with
      ⟨k, file, hfile, hname, hss, hwants, hplace⟩ | ⟨j, hj, hattends⟩ | ⟨j, hj, hscan, hne⟩
    · have hattended := h k file hfile hwants
      rcases hplace with rfl | ⟨hscan, hnot⟩
      · refine hattended.run ht hrun hname hss fun hattends => ?_
        exact attends_of_run hI hjob hclear hrun hfile hwants hattends
          ⟨file', List.mem_of_getElem? hfile', hname, hwants'⟩
      · exact (hattended.move hscan i).run ht hrun hname hss fun hattends => absurd hattends hnot
    · exact .inr ⟨j, mem_set_of_mem_new ht hj, hattends⟩
    · rcases mem_set_of_mem_jobs ht hscan with heq | hleft
      · exact absurd heq.symm (hne j)
      · exact .inr ⟨.scan j, hleft, hj⟩
  · cases hs

/-- **A step that is clear of the three places leaves every file attended to.** -/
theorem allAttended_step {s t : Replication} {e : Event} (hI : s.Inv) (h : s.AllAttended) (hclear : s.Clear e)
    (hs : s.step e = some t) : t.AllAttended := by
  cases e with
  | create user json =>
    have hnm := tended_createBegin s.nm user json
    simp only [step] at hs
    split at hs
    · next hbegin =>
      rw [hbegin] at hnm
      obtain ⟨file, -, rfl⟩ := Option.map_eq_some_iff.1 hs
      exact h.mono hnm (List.Subset.refl _) (jobs_subset_spawn s _ _)
    · next hbegin =>
      rw [hbegin] at hnm
      cases hs
      exact h.mono hnm (List.Subset.refl _) (List.Subset.refl _)
  | delete user json =>
    have hnm := tended_deleteBegin hclear
    simp only [step] at hs
    split at hs
    · next hbegin =>
      rw [hbegin] at hnm
      cases hs
      exact h.mono hnm (List.Subset.refl _) (jobs_subset_spawn s _ _)
    · next hbegin =>
      rw [hbegin] at hnm
      cases hs
      exact h.mono hnm (List.Subset.refl _) (List.Subset.refl _)
  | register json fd =>
    simp only [step] at hs
    split at hs
    · cases hs
      intro i file _ _
      exact .inr ⟨.scan 0, mem_spawn _ (List.mem_singleton_self _), Nat.zero_le i⟩
    · next hregister =>
      cases hs
      rw [handleSsRegister_error hregister]
      exact h
  | disconnect server =>
    cases hs
    intro i file' hfile' hwants
    rcases wants_disconnect hfile' hwants with ⟨hold, hwants⟩ | hname
    · exact (h i file' hold hwants).mono rfl rfl (List.Subset.refl _) (jobs_subset_spawn s _ _)
    · exact .inr ⟨.tryAssign file'.name, mem_spawn _ (List.mem_map_of_mem hname), rfl⟩
  | send json =>
    cases hs
    exact h
  | deliver i =>
    obtain ⟨json, -, hs⟩ := Option.bind_eq_some_iff.1 hs
    rcases handleSsFileUpdate_cases s.nm json with heq | ⟨u, file, hread, -, heq⟩
    · rw [heq] at hs
      cases hs
      exact h.mono (Tended.refl _) (List.Subset.refl _) (jobs_subset_spawn s s.nm [])
    · have hstep : tablesStep s.nm (.fileUpdate json) = some (fileUpdate s.nm u) := by
        rw [tablesStep, hread]
        rfl
      rw [heq] at hs
      cases hs
      refine h.mono ?_ (List.Subset.refl _) (jobs_subset_spawn s (fileUpdate s.nm u) _)
      exact tended_of_samePlacement (placement_frame hstep rfl) (fewer_of_servers (servers_frame hstep rfl))
  | other e =>
    obtain ⟨hother, hs⟩ := Option.ite_none_right_eq_some.1 hs
    obtain ⟨nm, hnm, rfl⟩ := Option.map_eq_some_iff.1 hs
    exact h.mono (tended_of_other hother hclear hnm) (List.Subset.refl _) (List.Subset.refl _)
  | run thread o => exact allAttended_run hI h hclear hs

/-! ## When everything is done -/

/-- The job has to do with an assignment. -/
def isPending : Job → Bool
  | .next | .createPrimary .. | .createBackup .. | .createEnd .. | .deletePrimary .. => false
  | _ => true

/-- The queue is empty, the worker waits, and no handler has a task to schedule. -/
def Settled (s : Replication) : Prop := s.queue = [] ∧ ∀ job ∈ s.jobs, isPending job = false

theorem not_attended_of_settled {s : Replication} (h : s.Settled) (i : Nat) (file : FileEntry) :
    ¬ s.Attended i file := by
  rintro (⟨task, htask, -⟩ | ⟨job, hjob, hattends⟩)
  · rw [h.1] at htask
    cases htask
  · have hidle := h.2 job hjob
    cases job with
    | next | createPrimary | createBackup | createEnd | deletePrimary => cases hattends
    | _ => cases hidle

/-- **Every file gets a backup that it can have**: in a run of clear steps, when all tasks are done, a file whose
primary is available has a backup if another server is available. -/
theorem backups_of_run {tr : List (Replication × Event)} {s : Replication} (h : system.Run tr s)
    (hclear : System.Meets Clear tr) : System.Throughout (fun s => s.Settled → ∀ file ∈ s.nm.files,
      s.nm.available file.ssIndex = true → hasBackupCandidate s.nm file.ssIndex = true → 0 ≤ file.backupIndex) tr s := by
  have hall : System.Throughout (fun s => s.Inv ∧ s.AllAttended) tr s := by
    refine h.invariant_all (G := Clear) ?_ ?_ hclear
    · rintro _ rfl
      refine ⟨inv_initial, ?_⟩
      intro i file hfile
      cases hfile
    · intro s e t hI hclear hs
      exact ⟨hI.1.step hs, allAttended_step hI.1 hI.2 hclear hs⟩
  have hgoal {s : Replication} (hs : s.Inv ∧ s.AllAttended) (hsettled : s.Settled) {file : FileEntry}
      (hfile : file ∈ s.nm.files) (hprimary : s.nm.available file.ssIndex = true)
      (hcandidate : hasBackupCandidate s.nm file.ssIndex = true) : 0 ≤ file.backupIndex := by
    by_contra hnone
    obtain ⟨i, hi⟩ := List.getElem?_of_mem hfile
    exact not_attended_of_settled hsettled i file (hs.2 i file hi ⟨by omega, hprimary, hcandidate⟩)
  refine ⟨fun hsettled file => hgoal hall.1 hsettled, ?_⟩
  intro p hp hsettled file
  exact hgoal (hall.2 p hp) hsettled

/-- Steps that are seen to be clear. -/
def isClear (p : Replication × Event) : Bool :=
  match p.2 with
  | .delete .. | .other _ => false
  | .run t o =>
    match p.1.threads[t]? with
    | some (.createEnd _ _ primary none :: _) => !hasBackupCandidate p.1.nm primary
    | some (.schedule .. :: _) => o.pushed && p.1.queue.isEmpty
    | some (.deletePrimary .. :: _) => false
    | _ => true
  | _ => true

theorem clear_of_isClear {s : Replication} {e : Event} (h : isClear (s, e) = true) : s.Clear e := by
  cases e with
  | delete user json => cases h
  | other e => cases h
  | run t o =>
    intro job jobs ht
    simp only [isClear, ht] at h
    cases job with
    | createEnd user file primary backup =>
      cases backup with
      | some k => trivial
      | none =>
        intro _ _ _ hcandidate
        change (!hasBackupCandidate s.nm primary) = true at h
        rw [hcandidate] at h
        cases h
    | schedule task ofUpdate =>
      obtain ⟨hpushed, hqueue⟩ := Bool.and_eq_true_iff.1 h
      intro file _ _ _
      refine ⟨hpushed, ?_⟩
      rw [List.isEmpty_iff.1 hqueue]
      intro existing hexisting
      cases hexisting
    | deletePrimary name server => cases h
    | _ => trivial
  | _ => trivial

/-- A file is made while there is one server, another server registers, and the worker assigns it as the backup. -/
def secondServer (file : FileName) : List Event :=
  [.register (registration (Text.lit "ss1")) 4, .run 1 allOk,
    .create alice (printMessage [(Text.lit "file", .string file.text)]), .run 2 allOk, .run 2 allOk, .run 2 allOk,
    .run 2 allOk, .register (registration (Text.lit "ss2")) 5, .run 3 allOk, .run 3 allOk, .run 3 allOk, .run 3 allOk,
    .run 0 allOk, .run 0 allOk, .run 0 allOk, .run 0 allOk, .run 0 allOk]

theorem backups_second : ∃ tr s, system.Run tr s ∧ s.Settled ∧ s.nm.files.map FileEntry.name = [Text.lit "notes"] ∧
    System.Throughout (fun s => s.Settled → ∀ file ∈ s.nm.files, s.nm.available file.ssIndex = true →
      hasBackupCandidate s.nm file.ssIndex = true → 0 ≤ file.backupIndex) tr s := by
  have hexec : (System.exec step [] initial (secondServer ⟨Text.lit "notes", by decide, by decide⟩)).map (fun r =>
      r.1.all isClear && r.2.queue.isEmpty && (r.2.jobs.all fun job => !isPending job) &&
        decide (r.2.nm.files.map FileEntry.name = [Text.lit "notes"])) = some true := by decide +kernel
  obtain ⟨⟨tr, s⟩, hexec, hcheck⟩ := Option.map_eq_some_iff.1 hexec
  simp only [Bool.and_eq_true, decide_eq_true_eq, List.all_eq_true, Bool.not_eq_true', List.isEmpty_iff] at hcheck
  obtain ⟨⟨⟨hclear, hqueue⟩, hjobs⟩, hnames⟩ := hcheck
  have hrun : system.Run tr s := System.Run.exec (.start rfl) hexec
  refine ⟨tr, s, hrun, ⟨hqueue, hjobs⟩, hnames, backups_of_run hrun ?_⟩
  intro p hp
  exact clear_of_isClear (hclear p hp)

/-- There are three servers. The primary of a file is found to be down, and the next request for the file makes the
backup its primary. -/
def failedOver (file : FileName) : List Event :=
  [.register (registration (Text.lit "ss1")) 4, .run 1 allOk, .register (registration (Text.lit "ss2")) 5, .run 2 allOk,
    .register (registration (Text.lit "ss3")) 6, .run 3 allOk,
    .create alice (printMessage [(Text.lit "file", .string file.text)]), .run 4 allOk, .run 4 allOk, .run 4 allOk,
    .run 4 allOk, .other (.markDown 0),
    .other (.ticketBegin alice (printMessage [(Text.lit "file", .string file.text)]) NM_PERM_READ)]

/-- Two servers are available, nothing is left to do, no update is on its way, and the file has no backup. -/
theorem failover_without_backup : ∃ tr s, system.Run tr s ∧ s.Settled ∧ s.updates = [] ∧ ∃ file ∈ s.nm.files,
    s.nm.available file.ssIndex = true ∧ hasBackupCandidate s.nm file.ssIndex = true ∧ file.backupIndex < 0 := by
  have hexec : (System.exec step [] initial (failedOver ⟨Text.lit "notes", by decide, by decide⟩)).map (fun r =>
      r.2.queue.isEmpty && (r.2.jobs.all fun job => !isPending job) && r.2.updates.isEmpty &&
        r.2.nm.files.any fun file => r.2.nm.available file.ssIndex && hasBackupCandidate r.2.nm file.ssIndex &&
          decide (file.backupIndex < 0)) = some true := by decide +kernel
  obtain ⟨⟨tr, s⟩, hexec, hcheck⟩ := Option.map_eq_some_iff.1 hexec
  simp only [Bool.and_eq_true, decide_eq_true_eq, List.all_eq_true, Bool.not_eq_true', List.isEmpty_iff,
    List.any_eq_true] at hcheck
  obtain ⟨⟨⟨hqueue, hjobs⟩, hupdates⟩, file, hfile, ⟨hprimary, hcandidate⟩, hbackup⟩ := hcheck
  exact ⟨tr, s, System.Run.exec (.start rfl) hexec, ⟨hqueue, hjobs⟩, hupdates, file, hfile, hprimary, hcandidate,
    hbackup⟩

end Replication

end CoWrite.Nm
