import CoWrite.Cluster.MirrorJobs

/-!
# Runs with backups

Every step keeps `Mirroring.Inv`, so `mirrored_of_run`: when no update is on the way and the worker is idle, every
backup has the text of its primary, in every run in which each change of a text has a time of its own or is followed by
a sync anyway.
-/

namespace CoWrite.Cluster

open CoWrite.Lib
open CoWrite.Nm
open CoWrite.Ss (Server Env Op Placed dataPath)
open Reporting (OnTime FitsInt)

namespace Mirroring

/-! ### Threads that start -/

section Spawn

variable {dirs : Nat → Text} {s : Mirroring} (h : Inv dirs s) {m : Replication} {extra : List (List Job)}
  (hthreads : m.threads = s.manager.threads ++ extra)

include h hthreads

theorem Inv.firstJob_spawn : ({ s with manager := m } : Mirroring).firstJob 0 = s.firstJob 0 := by
  have hlen := h.alone.length_pos
  show (m.threads[0]?).bind List.head? = (s.manager.threads[0]?).bind List.head?
  rw [hthreads, List.getElem?_append_left hlen]

omit h in
theorem mem_jobs_extra {j : Job} (hj : j ∈ m.jobs) : j ∈ s.manager.jobs ∨ ∃ thread ∈ extra, j ∈ thread := by
  unfold Replication.jobs at hj
  rw [hthreads, List.flatten_append, List.mem_append] at hj
  rcases hj with hold | hnew
  · exact .inl hold
  · exact .inr (List.mem_flatten.1 hnew)

omit h in
theorem mem_jobs_of_mem {j : Job} (hj : j ∈ s.manager.jobs) : j ∈ m.jobs := by
  unfold Replication.jobs
  rw [hthreads, List.flatten_append]
  exact List.mem_append_left _ hj

theorem Inv.spawn (hmanager : m.Inv) (hup : allUp m.nm = true) (hqueue : m.queue = s.manager.queue)
    (hkeeps : Keeps s.manager.nm m.nm)
    (hentries : ∀ file' ∈ m.nm.files, ∃ file ∈ s.manager.nm.files, file'.name = file.name ∧
      entryServers file' = entryServers file)
    (hextra : ∀ thread ∈ extra, ∀ j ∈ thread, ({ s with manager := m } : Mirroring).JobFits dirs j ∧
      isRound j = false ∧ j ≠ .next)
    (hmirrors : ∀ file ∈ m.nm.files, ∀ c, ({ s with manager := m } : Mirroring).Watched file c →
      ({ s with manager := m } : Mirroring).Due file ∨ ({ s with manager := m } : Mirroring).Same dirs file c) :
    Inv dirs { s with manager := m } := by
  have hlen := h.alone.length_pos
  refine ⟨hmanager, h.placed, h.sized, hup, ⟨?_, ?_⟩, ?_, ?_, ?_, ?_, hmirrors⟩
  · show m.threads[0]? = _ ∨ ∃ job, _ ∧ m.threads[0]? = _
    rw [hthreads, List.getElem?_append_left hlen]
    exact h.alone.worker
  · intro t h0 thread hthread j hj
    replace hthread : m.threads[t]? = some thread := hthread
    rw [hthreads] at hthread
    by_cases ht : t < s.manager.threads.length
    · rw [List.getElem?_append_left ht] at hthread
      exact h.alone.others t h0 thread hthread j hj
    · rw [List.getElem?_append_right (Nat.not_lt.1 ht)] at hthread
      exact (hextra thread (List.mem_of_getElem? hthread) j hj).2
  · intro hfetched
    rw [h.firstJob_spawn hthreads]
    exact h.syncing hfetched
  · intro task htask
    replace htask : task ∈ m.queue := htask
    rw [hqueue] at htask
    exact (h.tasks task htask).mono hkeeps
  · intro j hj
    rcases mem_jobs_extra hthreads hj with hold | ⟨thread, hthread, hj⟩
    · refine JobFits.mono ?_ ?_ (h.jobs j hold)
      · exact hkeeps
      · rfl
    · exact (hextra thread hthread j hj).1
  · intro file' hfile' i hi hi0
    obtain ⟨file, hfile, hname, hservers⟩ := hentries file' hfile'
    rw [hname]
    rw [hservers] at hi
    exact h.holders file hfile i hi hi0

omit h in
/-- What is due stays due when a thread starts. -/
theorem due_spawn (hqueue : m.queue = s.manager.queue) {file file' : FileEntry} (hname : file'.name = file.name)
    (hupdates : ∀ frame ∈ s.manager.updates, ∀ u ∈ readFileUpdate frame, u.file = file.name →
      u.stamp file ≠ file.modified → frame ∈ m.updates ∧ u.stamp file' ≠ file'.modified) (hdue : s.Due file) :
    ({ s with manager := m } : Mirroring).Due file' := by
  rcases hdue with ⟨frame, hframe, u, hread, hu, hstamp⟩ | ⟨task, htask, heq⟩ | ⟨j, hj, hleads⟩
  · obtain ⟨hmem, hstamp'⟩ := hupdates frame hframe u hread hu hstamp
    exact .inl ⟨frame, hmem, u, hread, hu.trans hname.symm, hstamp'⟩
  · refine .inr (.inl ⟨task, ?_, heq.trans hname.symm⟩)
    show task ∈ m.queue
    rw [hqueue]
    exact htask
  · refine .inr (.inr ⟨j, mem_jobs_of_mem hthreads hj, ?_⟩)
    rw [hname]
    exact hleads

variable (extra) in
/-- A thread that leaves the files and the updates as they are. -/
theorem Inv.started (hmanager : m.Inv) (hup : allUp m.nm = true) (hqueue : m.queue = s.manager.queue)
    (hfiles : m.nm.files = s.manager.nm.files) (hupdates : m.updates = s.manager.updates)
    (hextra : ∀ thread ∈ extra, ∀ j ∈ thread, ({ s with manager := m } : Mirroring).JobFits dirs j ∧
      isRound j = false ∧ j ≠ .next) : Inv dirs { s with manager := m } := by
  refine h.spawn hthreads hmanager hup hqueue (keeps_of_files hfiles) ?_ hextra ?_
  · rw [hfiles]
    exact fun file hfile => ⟨file, hfile, rfl, rfl⟩
  · rw [hfiles]
    intro file hfile c hw
    rw [watched_congr (h.firstJob_spawn hthreads) rfl] at hw
    rcases h.mirrors file hfile c hw with hdue | hsame
    · left
      refine due_spawn hthreads hqueue rfl ?_ hdue
      intro frame hframe u _ _ hstamp
      rw [hupdates]
      exact ⟨hframe, hstamp⟩
    · exact .inr ((same_congr (h.firstJob_spawn hthreads) rfl rfl file c).2 hsame)

end Spawn

/-! ### Updates -/

section Deliver

variable {dirs : Nat → Text} {s : Mirroring} (h : Inv dirs s)

include h

/-- A server that a sync is under way for is a candidate. -/
theorem Inv.hasBackupCandidate {file : FileEntry} (hfile : file ∈ s.manager.nm.files) (hbackup : file.backupIndex < 0)
    {c : Int} (htarget : s.target file.name = some c) :
    Nm.hasBackupCandidate s.manager.nm file.ssIndex = true := by
  have hcandidate {task : ReplicationTask} (hname : task.file = file.name) (hfits : TaskFits s.manager.nm task)
      (hvalid : task.assignMode = true → 0 ≤ c ∧ c < s.manager.nm.servers.length ∧ c ≠ task.primaryIndex) :
      Nm.hasBackupCandidate s.manager.nm file.ssIndex = true := by
    obtain ⟨entry, hentry, heq, hprimary, hsync, -⟩ := hfits
    obtain rfl : file = entry :=
      List.inj_on_of_nodup_map h.manager.stored.names hfile hentry (hname.symm.trans heq.symm)
    have hassign : task.assignMode = true := by
      by_contra hmode
      have := hsync (by simpa using hmode)
      omega
    obtain ⟨h0, hlt, hne⟩ := hvalid hassign
    have hmem : c.toNat ∈ List.range s.manager.nm.servers.length := List.mem_range.2 (by omega)
    have havailable := List.all_eq_true.1 h.up c.toNat hmem
    refine List.any_eq_true.2 ⟨c.toNat, hmem, ?_⟩
    rw [havailable, Int.toNat_of_nonneg h0, hprimary]
    simpa using hne
  unfold target at htarget
  split at htarget
  · next task owner target hjob =>
    obtain ⟨⟨hname, -⟩, heq⟩ := Option.ite_none_right_eq_some.1 htarget
    cases heq
    have hmem := mem_jobs_of_firstJob hjob
    exact hcandidate hname (h.jobs _ hmem).1 (h.manager.jobs _ hmem)
  · next task target hjob =>
    obtain ⟨hname, heq⟩ := Option.ite_none_right_eq_some.1 htarget
    cases heq
    have hmem := mem_jobs_of_firstJob hjob
    exact hcandidate hname (h.jobs _ hmem).1 (h.manager.jobs _ hmem)
  · cases htarget

section Frame

variable {i : Nat} {json : Text} (hjson : s.manager.updates[i]? = some json) {m : Replication}
  (hmanager : m.Inv) (hup : allUp m.nm = true) (hqueue : m.queue = s.manager.queue)
  (hupdates : m.updates = s.manager.updates.eraseIdx i)

include hjson

omit h in
/-- An update that was on the way and is not the one that is handled. -/
theorem mem_updates_of_ne (hupdates : m.updates = s.manager.updates.eraseIdx i) {frame : Text}
    (hframe : frame ∈ s.manager.updates) (hne : frame ≠ json) : frame ∈ m.updates := by
  rw [hupdates]
  exact Holding.mem_eraseIdx_of_ne hjson hframe hne

include hmanager hup hqueue hupdates

/-- An update that changes nothing. -/
theorem Inv.ignored (hthreads : m.threads = s.manager.threads ++ [[]]) (hnm : m.nm = s.manager.nm)
    (hnone : ∀ u ∈ readFileUpdate json, nmFindFile s.manager.nm u.file = none) : Inv dirs { s with manager := m } := by
  have hfirst := h.firstJob_spawn hthreads
  have hfiles : m.nm.files = s.manager.nm.files := by rw [hnm]
  refine h.spawn hthreads hmanager hup hqueue (keeps_of_files hfiles) ?_ ?_ ?_
  · rw [hfiles]
    exact fun file hfile => ⟨file, hfile, rfl, rfl⟩
  · intro thread hthread j hj
    rw [List.mem_singleton.1 hthread] at hj
    cases hj
  · rw [hfiles]
    intro file hfile c hw
    rw [watched_congr hfirst rfl] at hw
    rcases h.mirrors file hfile c hw with hdue | hsame
    · left
      refine due_spawn hthreads hqueue rfl ?_ hdue
      intro frame hframe u hread hu hstamp
      refine ⟨mem_updates_of_ne hjson hupdates hframe ?_, hstamp⟩
      rintro rfl
      have hfind := nmFindFile_of_mem h.manager.stored hfile
      rw [← hu, hnone u hread] at hfind
      cases hfind
    · exact .inr ((same_congr hfirst rfl rfl file c).2 hsame)

variable {u : FileUpdate} (hread : readFileUpdate json = some u) {entry : FileEntry}
  (hfind : nmFindFile s.manager.nm u.file = some entry)
  (hthreads : m.threads = s.manager.threads ++ [updateJobs s.manager.nm u entry])

include hread hfind hthreads

omit hmanager hup in
/-- The file that the update is about: a sync is under way, or its stamp is not new. -/
theorem Inv.updated_mirror {entry' : FileEntry} (hname : entry'.name = entry.name)
    (hprimary : entry'.ssIndex = entry.ssIndex) (hbackup : entry'.backupIndex = entry.backupIndex) (hmodified : entry'.modified = u.stamp entry) {c : Int}
    (hw : s.Watched entry' c) : ({ s with manager := m } : Mirroring).Due entry' ∨ s.Same dirs entry' c := by
  have hentry := List.mem_of_find?_eq_some hfind
  have hfile : entry.name = u.file := by simpa using List.find?_some hfind
  obtain ⟨h0, -, -⟩ := h.manager.placed entry hentry
  have hcopy : Text.copyTo NM_MAX_NAME u.file = entry'.name := by
    have hlong := (h.manager.stored.files entry hentry).name.2
    rw [hfile] at hlong
    rw [hname, hfile]
    exact Text.copyTo_eq_self hlong
  -- a task that the update leaves to be scheduled
  have hjobs (task : ReplicationTask) (ofUpdate : Bool) (htask : task.file = entry'.name)
      (hj : updateJobs s.manager.nm u entry = [.schedule task ofUpdate]) :
      ({ s with manager := m } : Mirroring).Due entry' := by
    refine .inr (.inr ⟨.schedule task ofUpdate, ?_, htask⟩)
    unfold Replication.jobs
    show _ ∈ m.threads.flatten
    rw [hthreads, List.flatten_append, hj]
    exact List.mem_append_right _ (by simp)
  have hw : s.Watched entry c := by
    unfold Watched at hw ⊢
    rwa [hname, hbackup] at hw
  by_cases hsync : u.stamp entry ≠ entry.modified ∧ entry.backupIndex ≥ 0
  · left
    refine hjobs (newTask u.file entry.owner entry.ssIndex entry.backupIndex false) true hcopy ?_
    unfold updateJobs
    rw [if_pos hsync]
  by_cases hneg : entry.backupIndex < 0
  · left
    refine hjobs (newTask u.file entry.owner entry.ssIndex (-1) true) false hcopy ?_
    have htarget : s.target entry.name = some c := by
      rcases hw with ⟨rfl, hc0⟩ | htarget
      · omega
      · exact htarget
    unfold updateJobs
    rw [if_neg hsync, if_pos ⟨hneg, h0, h.hasBackupCandidate hentry hneg htarget⟩]
  have hstamp : u.stamp entry = entry.modified := by
    by_contra hne
    exact hsync ⟨hne, by omega⟩
  rcases h.mirrors entry hentry c hw with hdue | hsame
  · left
    refine due_spawn hthreads hqueue hname ?_ hdue
    intro frame hframe v hv hvfile hvstamp
    constructor
    · refine mem_updates_of_ne hjson hupdates hframe ?_
      rintro rfl
      rw [hread] at hv
      cases hv
      exact hvstamp hstamp
    · unfold FileUpdate.stamp at hvstamp ⊢
      rw [hmodified, hstamp]
      exact hvstamp
  · right
    unfold Same at hsame ⊢
    rw [hname, hprimary]
    exact hsame

/-- An update of a file that is known. -/
theorem Inv.updated (hnm : m.nm = fileUpdate s.manager.nm u) : Inv dirs { s with manager := m } := by
  have hfirst := h.firstJob_spawn hthreads
  have hentry := List.mem_of_find?_eq_some hfind
  have hname : entry.name = u.file := by simpa using List.find?_some hfind
  obtain ⟨-, -, hplaced⟩ := h.manager.placed entry hentry
  -- the entry with what the update tells
  obtain ⟨g, hg, hgname, hgprimary, hgbackup, hgmodified⟩ : ∃ g : FileEntry → FileEntry,
      fileUpdate s.manager.nm u = s.manager.nm.modifyFile u.file g ∧ (g entry).name = entry.name ∧
        (g entry).ssIndex = entry.ssIndex ∧ (g entry).backupIndex = entry.backupIndex ∧
          (g entry).modified = u.stamp entry := ⟨_, rfl, rfl, rfl, rfl, rfl⟩
  rw [hg] at hnm
  have hmem : g entry ∈ m.nm.files := by
    rw [hnm]
    exact List.mem_of_find?_eq_some (nmFindFile_modifyFile hfind hgname)
  have hcases {file' : FileEntry} (hfile' : file' ∈ m.nm.files) :
      file' = g entry ∨ (file' ∈ s.manager.nm.files ∧ file'.name ≠ u.file) := by
    rw [hnm] at hfile'
    exact mem_modifyFile h.manager.stored hfind hfile'
  have hcopy : (g entry).name = Text.copyTo NM_MAX_NAME u.file := by
    have hlong := (h.manager.stored.files entry hentry).name.2
    rw [hname] at hlong
    rw [hgname, hname]
    exact (Text.copyTo_eq_self hlong).symm
  have hfitsSync (hb : 0 ≤ entry.backupIndex) :
      TaskFits m.nm (newTask u.file entry.owner entry.ssIndex entry.backupIndex false) := by
    refine ⟨g entry, hmem, hcopy, hgprimary, fun _ => ⟨hgbackup.symm, hb⟩, ?_⟩
    intro hmode
    cases hmode
  have hfitsAssign (hb : entry.backupIndex < 0) :
      TaskFits m.nm (newTask u.file entry.owner entry.ssIndex (-1) true) := by
    refine ⟨g entry, hmem, hcopy, hgprimary, ?_, fun _ => .inl ?_⟩
    · intro hmode
      cases hmode
    · rw [hgbackup]
      omega
  refine h.spawn hthreads hmanager hup hqueue ?_ ?_ ?_ ?_
  · intro file hfile
    rw [hnm]
    rcases mem_modifyFile_of_mem hfind g hfile with hsame | ⟨rfl, hchanged⟩
    · exact ⟨file, hsame, rfl, rfl, .inl rfl⟩
    · exact ⟨_, hchanged, hgname, hgprimary, .inl hgbackup⟩
  · intro file' hfile'
    rcases hcases hfile' with rfl | ⟨hold, -⟩
    · refine ⟨entry, hentry, hgname, ?_⟩
      unfold entryServers
      rw [hgprimary, hgbackup]
    · exact ⟨file', hold, rfl, rfl⟩
  · intro thread hthread j hj
    rw [List.mem_singleton.1 hthread] at hj
    unfold updateJobs at hj
    split_ifs at hj with hsync hassign
    · rw [List.mem_singleton.1 hj]
      exact ⟨hfitsSync hsync.2, rfl, by simp⟩
    · rw [List.mem_singleton.1 hj]
      exact ⟨hfitsAssign hassign.1, rfl, by simp⟩
    · cases hj
  · intro file' hfile' c hw
    rw [watched_congr hfirst rfl] at hw
    rw [same_congr hfirst rfl rfl]
    rcases hcases hfile' with rfl | ⟨hold, hne⟩
    · exact h.updated_mirror hjson hqueue hupdates hread hfind hthreads hgname hgprimary hgbackup hgmodified hw
    rcases h.mirrors file' hold c hw with hdue | hsame
    · left
      refine due_spawn hthreads hqueue rfl ?_ hdue
      intro frame hframe v hv hvfile hvstamp
      refine ⟨mem_updates_of_ne hjson hupdates hframe ?_, hvstamp⟩
      rintro rfl
      rw [hread] at hv
      cases hv
      exact hne hvfile.symm
    · exact .inr hsame

end Frame

theorem Inv.deliver {i : Nat} {json : Text} (hjson : s.manager.updates[i]? = some json) {m : Replication}
    (hm : { s.manager with updates := s.manager.updates.eraseIdx i }.spawn (handleSsFileUpdate s.manager.nm json).1
      (handleSsFileUpdate s.manager.nm json).2 = m) (hmanager : m.Inv) (hup : allUp m.nm = true) :
    Inv dirs { s with manager := m } := by
  have hthreads : m.threads = s.manager.threads ++ [(handleSsFileUpdate s.manager.nm json).2] := by
    rw [← hm]
    rfl
  have hqueue : m.queue = s.manager.queue := by
    rw [← hm]
    rfl
  have hupdates : m.updates = s.manager.updates.eraseIdx i := by
    rw [← hm]
    rfl
  have hnm : m.nm = (handleSsFileUpdate s.manager.nm json).1 := by
    rw [← hm]
    rfl
  unfold handleSsFileUpdate at hthreads hnm
  cases hread : readFileUpdate json with
  | none =>
    rw [hread] at hthreads hnm
    refine h.ignored hjson hmanager hup hqueue hupdates hthreads hnm ?_
    intro u hu
    rw [hread] at hu
    cases hu
  | some u =>
    rw [hread] at hthreads hnm
    dsimp only at hthreads hnm
    cases hfind : nmFindFile s.manager.nm u.file with
    | none =>
      rw [hfind] at hthreads hnm
      refine h.ignored hjson hmanager hup hqueue hupdates hthreads hnm ?_
      intro v hv
      rw [hread] at hv
      cases hv
      exact hfind
    | some entry =>
      rw [hfind] at hthreads hnm
      exact h.updated hjson hmanager hup hqueue hupdates hread hfind hthreads hnm

end Deliver

theorem createBegin_files (s : NmState) (user json : Text) : (createBegin s user json).2.files = s.files := by
  fun_cases createBegin s user json
  case case5 hpick =>
    have := nmPickServer_files s
    rwa [hpick] at this
  case case6 hpick =>
    have := nmPickServer_files s
    rwa [hpick] at this
  all_goals rfl

/-! ## Steps -/

section Steps

variable {dirs : Nat → Text} {s : Mirroring} (h : Inv dirs s)

include h

/-- What a server reads is what stands at the path of the file. -/
theorem Inv.stored_of_readText {k : Nat} {name text : Text} (hread : readText (s.servers k) name = some text) :
    s.stored dirs k name = some text := by
  obtain ⟨view, hview, hdata⟩ := Option.bind_eq_some_iff.1 hread
  unfold stored
  rwa [← ((h.placed k).hasPaths name view hview).dataEq]

theorem Inv.fetch {task : ReplicationTask} {owner : Text} {target : Int}
    (hjob : s.firstJob 0 = some (.sync task owner target)) (hnone : s.fetched = none) {text : Text}
    (hread : readText (s.servers task.primaryIndex.toNat) task.file = some text) :
    Inv dirs { s with fetched := some text } := by
  have hmem := mem_jobs_of_firstJob hjob
  obtain ⟨⟨entry, hentry, hname, hprimary, -, -⟩, -⟩ := h.jobs _ hmem
  refine ⟨h.manager, h.placed, h.sized, h.up, h.alone, fun _ => ⟨task, owner, target, hjob⟩, h.tasks, ?_, h.holders, ?_⟩
  · exact h.jobs
  · intro file hfile c hw
    have hjob' : ({ s with fetched := some text } : Mirroring).firstJob 0 = some (.sync task owner target) := hjob
    by_cases hsame : task.file = file.name
    · right
      obtain rfl : file = entry :=
        List.inj_on_of_nodup_map h.manager.stored.names hfile hentry (hsame.symm.trans hname.symm)
      unfold Same
      rw [coming_of_fetched dirs hjob' hsame rfl, hprimary, ← hsame]
      exact (h.stored_of_readText hread).symm
    · have hbackup : c = file.backupIndex ∧ 0 ≤ c := by
        rcases hw with hbackup | htarget
        · exact hbackup
        · unfold Mirroring.target at htarget
          rw [hjob'] at htarget
          dsimp only at htarget
          rw [if_neg (fun hand => hsame hand.1)] at htarget
          cases htarget
      rcases h.mirrors file hfile c (.inl hbackup) with (hupdate | hqueued | ⟨j, hj, hleads⟩) | heq
      · exact .inl (.inl hupdate)
      · exact .inl (.inr (.inl hqueued))
      · refine .inl (.inr (.inr ⟨j, hj, ?_⟩))
        cases j with
        | sync task' owner' target' =>
          -- the only sync is the one that has fetched its text
          have hfirst := h.firstJob_of_round hj rfl
          rw [hjob] at hfirst
          cases hfirst
          exact absurd hleads.1 hsame
        | _ => exact hleads
      · right
        unfold Same at heq ⊢
        rw [coming_of_unfetched hnone] at heq
        refine Eq.trans ?_ heq
        unfold coming
        rw [hjob']
        dsimp only
        rw [if_neg hsame]
        rfl

theorem Inv.run {t : Nat} {o : Nm.Outcome} {op : Option Op} {job : Job} (hjob : s.firstJob t = some job)
    (hwell : s.goesWell job o op = true)
    (hG : ∀ k ∈ commandTarget s.manager.nm job, ∀ c ∈ op, OnTime c ∧ LeavesOthers (dirs k) (s.servers k) c)
    {u : Holding} (hs : s.toHolding.step (.run t o op) = some u) (hup : allUp u.manager.nm = true) :
    Inv dirs { toHolding := u, fetched := if t = 0 then none else s.fetched } := by
  obtain ⟨job', hjob', hs⟩ := Option.bind_eq_some_iff.1 hs
  obtain rfl : job = job' := Option.some.inj (hjob.symm.trans hjob')
  obtain ⟨hanswers, hs⟩ := Option.ite_none_right_eq_some.1 hs
  obtain ⟨m, hm, rfl⟩ := Option.map_eq_some_iff.1 hs
  obtain ⟨hafter, hdone⟩ := h.carryOut hjob hwell hanswers hG
  obtain ⟨thread, ht, hhead⟩ := Option.bind_eq_some_iff.1 hjob
  obtain ⟨rest, rfl⟩ : ∃ rest, thread = job :: rest := by
    cases thread with
    | nil => cases hhead
    | cons j rest =>
      cases hhead
      exact ⟨rest, rfl⟩
  have hmanager := h.manager.step hm
  simp only [Replication.step, ht] at hm
  obtain ⟨⟨nm, queue, new⟩, hrun, rfl⟩ := Option.map_eq_some_iff.1 hm
  -- no DELETE is under way
  have hdeletes : s.toHolding.backupToDelete job o.reply = [] := by
    have hfits := h.jobs job (mem_jobs_of_firstJob hjob)
    cases job with
    | deletePrimary => exact hfits.elim
    | _ => rfl
  rw [hdeletes, List.append_nil]
  by_cases h0 : t = 0
  · apply hafter.runRound ht hrun hmanager hup h0
    rintro task owner target rfl
    cases op with
    | none => simp [goesWell] at hwell
    | some c =>
      cases c with
      | sync env f owner' content =>
        simp only [goesWell, Bool.and_eq_true, beq_iff_eq] at hwell
        obtain ⟨-, ⟨hcan, hok⟩, hfetched⟩ := hwell
        have htarget : commandTarget s.manager.nm (.sync task owner target) = some target.toNat := if_pos hcan
        obtain ⟨hhas, hstored⟩ := hdone target.toNat htarget hok task.file rfl
        exact ⟨if_pos ⟨hcan, hok⟩, _, hfetched, hhas, hstored.trans hfetched⟩
      | _ => simp [goesWell] at hwell
  · apply hafter.runOther ht hrun hmanager hup h0 (Bool.and_eq_true_iff.1 hwell).1
    intro k hk hok name hname
    exact hdone k hk hok name hname

theorem Inv.manage {e : Replication.Event} (he : takesPart e = true) {m : Replication}
    (hs : s.manager.step e = some m) (hup : allUp m.nm = true) : Inv dirs { s with manager := m } := by
  have hmanager := h.manager.step hs
  cases e with
  | register json fd =>
    have hregister : (handleSsRegister s.manager.nm json fd).2.files = s.manager.nm.files := by
      rcases handleSsRegister_tables s.manager.nm json fd with heq | ⟨id, host, ctrlPort, dataPort, heq⟩
      · rw [heq]
      · rw [heq, nmRegisterServer_files]
    simp only [Replication.step] at hs
    split at hs
    · next heq =>
      rw [heq] at hregister
      cases hs
      refine h.started [[.scan 0]] rfl hmanager hup rfl hregister rfl ?_
      intro thread hthread j hj
      rw [List.mem_singleton.1 hthread] at hj
      rw [List.mem_singleton.1 hj]
      exact ⟨trivial, rfl, by simp⟩
    · next heq =>
      rw [heq] at hregister
      cases hs
      exact h.started [] (List.append_nil _).symm hmanager hup rfl hregister rfl
        (fun thread hthread => by cases hthread)
  | create user json =>
    have hcreate := createBegin_files s.manager.nm user.text json
    simp only [Replication.step] at hs
    split at hs
    · next heq =>
      rw [heq] at hcreate
      obtain ⟨file, -, rfl⟩ := Option.map_eq_some_iff.1 hs
      refine h.started [[_]] rfl hmanager hup rfl hcreate rfl ?_
      intro thread hthread j hj
      rw [List.mem_singleton.1 hthread] at hj
      rw [List.mem_singleton.1 hj]
      exact ⟨trivial, rfl, by simp⟩
    · next heq =>
      rw [heq] at hcreate
      cases hs
      exact h.started [] (List.append_nil _).symm hmanager hup rfl hcreate rfl
        (fun thread hthread => by cases hthread)
  | deliver i =>
    obtain ⟨json, hjson, hs⟩ := Option.bind_eq_some_iff.1 hs
    exact h.deliver hjson (Option.some.inj hs) hmanager hup
  | _ => cases he

theorem Inv.step {e : Event} {t : Mirroring} (hG : s.Stamped dirs e) (hs : step s e = some t) : Inv dirs t := by
  cases e with
  | manager e =>
    obtain ⟨he, hs⟩ := Option.ite_none_right_eq_some.1 hs
    obtain ⟨u, hu, rfl⟩ := Option.map_eq_some_iff.1 hs
    obtain ⟨hstep, hup⟩ := Option.filter_eq_some_iff.1 hu
    simp only [Holding.step] at hstep
    split at hstep
    · cases hstep
    · obtain ⟨m, hm, rfl⟩ := Option.map_eq_some_iff.1 hstep
      exact h.manage he hm hup
  | run t o op =>
    obtain ⟨job, hjob, hs⟩ := Option.bind_eq_some_iff.1 hs
    obtain ⟨hwell, hs⟩ := Option.ite_none_right_eq_some.1 hs
    obtain ⟨u, hu, rfl⟩ := Option.map_eq_some_iff.1 hs
    obtain ⟨hstep, hup⟩ := Option.filter_eq_some_iff.1 hu
    exact h.run hjob hwell (hG job hjob) hstep hup
  | fetch =>
    simp only [Mirroring.step] at hs
    split at hs
    · next hjob =>
      obtain ⟨hnone, hs⟩ := Option.ite_none_right_eq_some.1 hs
      obtain ⟨text, hread, rfl⟩ := Option.map_eq_some_iff.1 hs
      exact h.fetch hjob (Option.isNone_iff_eq_none.1 hnone) hread
    · cases hs
  | change k op =>
    obtain ⟨hpermits, hs⟩ := Option.ite_none_right_eq_some.1 hs
    cases hs
    obtain ⟨htime, hleaves, htells⟩ := hG
    exact h.change hpermits htime hleaves htells

end Steps

theorem inv_started {dirs : Nat → Text} {s : Mirroring} (h : Started dirs s) : Inv dirs s where
  manager := by
    rw [h.manager]
    exact Replication.inv_initial
  placed := h.placed
  sized := h.sized
  up := by
    rw [h.manager]
    rfl
  alone := by
    rw [h.manager]
    refine ⟨.inl rfl, ?_⟩
    intro t h0 thread hthread
    rw [show Replication.initial.threads = [[.next]] from rfl, List.getElem?_eq_none (by simp; omega)] at hthread
    cases hthread
  syncing hfetched := absurd h.fetched hfetched
  tasks := by
    intro task htask
    rw [h.manager] at htask
    cases htask
  jobs := by
    intro job hjob
    rw [h.manager] at hjob
    rw [List.mem_singleton.1 hjob]
    trivial
  holders := by
    intro file hfile
    rw [h.manager] at hfile
    cases hfile
  mirrors := by
    intro file hfile
    rw [h.manager] at hfile
    cases hfile

/-- **Every backup has the text of its primary when nothing is on the way**, in every run in which each change of a
text has a time of its own or is followed by a sync anyway. -/
theorem mirrored_of_run {dirs : Nat → Text} {tr : List (Mirroring × Event)} {s : Mirroring}
    (h : (system dirs).Run tr s) (hG : System.Meets (Stamped dirs) tr) : System.Throughout (Mirrored dirs) tr s := by
  have hI := h.invariant_all (I := Inv dirs) (fun _ => inv_started) (fun _ _ _ hI hG hs => hI.step hG hs) hG
  exact ⟨hI.1.mirrored, fun p hp => (hI.2 p hp).mirrored⟩

/-! ## Two runs -/

instance (dir : Text) (srv : Server) (op : Op) : Decidable (LeavesOthers dir srv op) :=
  inferInstanceAs (Decidable (∀ file ∈ srv.state.files, file.name ≠ op.file.text →
    dataPath dir file.name ∉ op.paths dir))

instance (s : Mirroring) (name : Text) : (job : Job) → Decidable (s.leads name job)
  | .schedule task _ | .examine task | .check task _ | .choose task _ => inferInstanceAs (Decidable (task.file = name))
  | .sync task _ _ => inferInstanceAs (Decidable (task.file = name ∧ s.fetched = none))
  | .next | .conclude .. | .failure .. | .tryAssign _ | .scan _ | .createPrimary .. | .createBackup .. | .createEnd ..
  | .deletePrimary .. => isFalse id

instance (s : Mirroring) (file : FileEntry) : Decidable (s.Due file) :=
  inferInstanceAs (Decidable ((∃ frame ∈ s.manager.updates, ∃ u ∈ readFileUpdate frame, u.file = file.name ∧
    u.stamp file ≠ file.modified) ∨ (∃ task ∈ s.manager.queue, task.file = file.name) ∨
      ∃ job ∈ s.manager.jobs, s.leads file.name job))

instance (dirs : Nat → Text) (s : Mirroring) (k : Nat) (op : Op) (file : FileEntry) : Decidable (s.Tells dirs k op file) :=
  inferInstanceAs (Decidable (s.Due file ∨
    (op.run (s.servers k)).fs (dataPath (dirs k) op.file.text) = s.stored dirs k op.file.text ∨
      (FitsInt (dirs k) (op.run (s.servers k)) op.file ∧
        ∃ now ∈ stampedAt op, toInt32 now ≠ 0 ∧ toInt32 now ≠ file.modified)))

instance (dirs : Nat → Text) (s : Mirroring) : (e : Event) → Decidable (s.Stamped dirs e)
  | .run t _ op => inferInstanceAs (Decidable (∀ job ∈ s.firstJob t, ∀ k ∈ commandTarget s.manager.nm job, ∀ c ∈ op,
      OnTime c ∧ LeavesOthers (dirs k) (s.servers k) c))
  | .change k op => inferInstanceAs (Decidable (OnTime op ∧ LeavesOthers (dirs k) (s.servers k) op ∧
      ∀ file ∈ nmFindFile s.manager.nm op.file.text, (0 ≤ file.backupIndex ∨ s.target file.name ≠ none) →
        s.Tells dirs k op file))
  | .manager _ | .fetch => isTrue trivial

instance (s : Mirroring) : Decidable s.Quiet :=
  inferInstanceAs (Decidable (s.manager.updates = [] ∧ s.manager.queue = [] ∧ isWaiting (s.firstJob 0) = true ∧
    ∀ job ∈ s.manager.jobs, isScheduling job = false))

/-- The name manager and servers without files. -/
def empty : Mirroring where
  toHolding := .empty
  fetched := none

theorem started_empty : Started (fun _ => Text.lit "/s") empty where
  manager := rfl
  placed _ := Placed.init _
  sized k name view hview := by cases hview
  fetched := rfl

def okAt (now : Time) : Nm.Outcome := ⟨.ok, true, now⟩

/-- Two servers register, and Alice makes a file on both and writes it, some time later. -/
def writtenLater (file : FileName) (now : Time) (later : Int) : List Event :=
  let create : Op := .create file alice.text ⟨now.val, true, true, true⟩
  [.manager (.register (Replication.registration (Text.lit "ss1")) 4),
    .manager (.register (Replication.registration (Text.lit "ss2")) 5),
    .manager (.create alice (Holding.fileMessage file)), .run 3 (okAt now) (some create), .run 3 (okAt now) none,
    .run 3 (okAt now) (some create), .run 3 (okAt now) none,
    .change 0 (.commit (.allOk later) file alice.text (Ss.writeOf (Text.lit "Hi there."))), .manager (.deliver 0)]

/-- A second later the change is told with another time, and synced. -/
theorem mirrored_later : ∃ tr s file, (system fun _ => Text.lit "/s").Run tr s ∧ s.Quiet ∧ file ∈ s.manager.nm.files ∧
    file.backupIndex = 1 ∧ s.stored (fun _ => Text.lit "/s") 1 file.name = some (Text.lit "Hi there.") := by
  let dirs (_ : Nat) : Text := Text.lit "/s"
  let f : FileName := ⟨Text.lit "f", by decide, by decide⟩
  let now : Time := ⟨1700000000, Reporting.isTime_now.1, Reporting.isTime_now.2⟩
  let events := writtenLater f now 1700000001 ++ [.run 4 (okAt now) none, .run 0 (okAt now) none,
    .run 0 (okAt now) none, .run 0 (okAt now) none, .fetch,
    .run 0 (okAt now) (some (.sync (.allOk 1700000001) f alice.text (Text.lit "Hi there."))), .run 0 (okAt now) none]
  have hexec : ((System.exec step [] empty events).any fun r =>
      decide (∀ p ∈ r.1, Stamped dirs p.1 p.2) && decide r.2.Quiet && r.2.manager.nm.files.any fun file =>
        decide (file.ssIndex = 0) && decide (file.backupIndex = 1) &&
          decide (r.2.stored dirs 0 file.name = some (Text.lit "Hi there."))) = true := by decide +kernel
  obtain ⟨⟨tr, s⟩, hexec, hcheck⟩ := (Option.any_eq_true _ _).1 hexec
  obtain ⟨hcheck, hfile⟩ := Bool.and_eq_true_iff.1 hcheck
  obtain ⟨hG, hquiet⟩ := Bool.and_eq_true_iff.1 hcheck
  obtain ⟨file, hfile, hcheck⟩ := List.any_eq_true.1 hfile
  simp only [Bool.and_eq_true, decide_eq_true_eq] at hcheck
  obtain ⟨⟨hprimary, hbackup⟩, hstored⟩ := hcheck
  replace hG : ∀ p ∈ tr, Stamped dirs p.1 p.2 := of_decide_eq_true hG
  replace hquiet : s.Quiet := of_decide_eq_true hquiet
  have hrun : (system dirs).Run tr s := System.Run.exec (.start started_empty) hexec
  have hmirrored := (mirrored_of_run hrun hG).1 hquiet file hfile (by omega)
  rw [hprimary, hbackup] at hmirrored
  exact ⟨tr, s, file, hrun, hquiet, hfile, hbackup, hmirrored.trans hstored⟩

/-- A change in the second in which the file was made is told and not synced. -/
theorem same_second_lags : ∃ tr s file, (system fun _ => Text.lit "/s").Run tr s ∧ s.Quiet ∧
    file ∈ s.manager.nm.files ∧ file.ssIndex = 0 ∧ file.backupIndex = 1 ∧
    s.stored (fun _ => Text.lit "/s") 0 file.name = some (Text.lit "Hi there.") ∧
    s.stored (fun _ => Text.lit "/s") 1 file.name = some [] := by
  let dirs (_ : Nat) : Text := Text.lit "/s"
  let events := writtenLater ⟨Text.lit "f", by decide, by decide⟩
    ⟨1700000000, Reporting.isTime_now.1, Reporting.isTime_now.2⟩ 1700000000
  have hexec : ((System.exec step [] empty events).any fun r =>
      decide r.2.Quiet && r.2.manager.nm.files.any fun file =>
        decide (file.ssIndex = 0) && decide (file.backupIndex = 1) &&
          decide (r.2.stored dirs 0 file.name = some (Text.lit "Hi there.")) &&
            decide (r.2.stored dirs 1 file.name = some [])) = true := by decide +kernel
  obtain ⟨⟨tr, s⟩, hexec, hcheck⟩ := (Option.any_eq_true _ _).1 hexec
  obtain ⟨hquiet, hfile⟩ := Bool.and_eq_true_iff.1 hcheck
  obtain ⟨file, hfile, hcheck⟩ := List.any_eq_true.1 hfile
  simp only [Bool.and_eq_true, decide_eq_true_eq] at hcheck
  obtain ⟨⟨⟨hprimary, hbackup⟩, hstored⟩, hempty⟩ := hcheck
  exact ⟨tr, s, file, System.Run.exec (.start started_empty) hexec, of_decide_eq_true hquiet, hfile, hprimary, hbackup,
    hstored, hempty⟩

end Mirroring

end CoWrite.Cluster
