import CoWrite.Cluster.Mirrors

/-!
# Syncs and the queue

The jobs of the name manager keep `Mirroring.Inv`. A job of the worker hands a sync that is due on to the next one, up
to the fetch; the other jobs put tasks into the queue or enter a file that was made on its servers.
-/

namespace CoWrite.Cluster

open CoWrite.Lib
open CoWrite.Nm
open Holding (mem_jobs_new mem_jobs_after)
open Replication (mem_jobs_run)

namespace Mirroring

/-! ## Steps of the name manager -/

/-- Every entry keeps its primary, and its backup once it has one. -/
def Keeps (nm nm' : NmState) : Prop :=
  ∀ file ∈ nm.files, ∃ file' ∈ nm'.files, file'.name = file.name ∧ file'.ssIndex = file.ssIndex ∧
    (file'.backupIndex = file.backupIndex ∨ (file.backupIndex < 0 ∧ file'.backupIndex = candidate file.ssIndex))

theorem keeps_of_files {nm nm' : NmState} (h : nm'.files = nm.files) : Keeps nm nm' := by
  intro file hfile
  rw [← h] at hfile
  exact ⟨file, hfile, rfl, rfl, .inl rfl⟩

theorem candidate_nonneg (primary : Int) : 0 ≤ candidate primary := by
  unfold candidate
  split <;> omega

theorem TaskFits.mono {nm nm' : NmState} (hkeeps : Keeps nm nm') {task : ReplicationTask} (h : TaskFits nm task) :
    TaskFits nm' task := by
  obtain ⟨file, hfile, hname, hprimary, hsync, hassign⟩ := h
  obtain ⟨file', hfile', hname', hprimary', hbackup⟩ := hkeeps file hfile
  refine ⟨file', hfile', hname'.trans hname, hprimary'.trans hprimary, ?_, ?_⟩
  · intro hmode
    obtain ⟨heq, h0⟩ := hsync hmode
    rcases hbackup with hsame | ⟨hneg, -⟩
    · exact ⟨heq.trans hsame.symm, h0⟩
    · omega
  · intro hmode
    have h0 := candidate_nonneg task.primaryIndex
    rcases hbackup with hsame | ⟨-, hcandidate⟩
    · rw [hsame]
      exact hassign hmode
    · rw [hcandidate, hprimary]
      exact .inr rfl

theorem nmFindFile_none_of_keeps {nm nm' : NmState} (hkeeps : Keeps nm nm') {name : Text}
    (h : nmFindFile nm' name = none) : nmFindFile nm name = none := by
  refine List.find?_eq_none.2 ?_
  intro file hfile
  obtain ⟨file', hfile', hname, -⟩ := hkeeps file hfile
  rw [← hname]
  exact List.find?_eq_none.1 h file' hfile'

/-- A thread goes on: what the job left of the tables and of the queue, and the jobs of the thread. -/
def advance (s : Mirroring) (t : Nat) (nm : NmState) (queue : List ReplicationTask) (jobs : List Job) : Mirroring where
  manager := { s.manager with nm := nm, queue := queue, threads := s.manager.threads.set t jobs }
  servers := s.servers
  deletes := s.deletes
  fetched := if t = 0 then none else s.fetched

section Congr

variable {dirs : Nat → Text} {s s' : Mirroring} (hfirst : s'.firstJob 0 = s.firstJob 0)
  (hfetched : s'.fetched = s.fetched)

include hfirst hfetched

theorem watched_congr (file : FileEntry) (c : Int) : s'.Watched file c ↔ s.Watched file c := by
  unfold Watched target
  rw [hfirst, hfetched]

theorem same_congr (hservers : s'.servers = s.servers) (file : FileEntry) (c : Int) :
    s'.Same dirs file c ↔ s.Same dirs file c := by
  unfold Same coming stored
  rw [hfirst, hfetched, hservers]

end Congr

theorem JobFits.mono {dirs : Nat → Text} {s s' : Mirroring} (hkeeps : Keeps s.manager.nm s'.manager.nm)
    (hservers : s'.servers = s.servers) {job : Job} (h : s.JobFits dirs job) : s'.JobFits dirs job := by
  have hmade {name : Text} {k : Nat} (hmade : s.Made dirs name k) : s'.Made dirs name k := by
    intro hnone
    unfold stored
    rw [hservers]
    exact hmade (nmFindFile_none_of_keeps hkeeps hnone)
  cases job with
  | schedule task ofUpdate => exact TaskFits.mono hkeeps h
  | examine task => exact TaskFits.mono hkeeps h
  | check task owner => exact ⟨h.1.mono hkeeps, h.2⟩
  | choose task owner => exact ⟨h.1.mono hkeeps, h.2⟩
  | sync task owner target => exact ⟨h.1.mono hkeeps, h.2⟩
  | conclude task target =>
    refine ⟨h.1.mono hkeeps, h.2.1, ?_⟩
    rw [hservers]
    exact h.2.2
  | createBackup user file primary count i => exact hmade h
  | createEnd user file primary backup => exact ⟨hmade h.1, fun i hi => hmade (h.2 i hi)⟩
  | _ => exact h

section Advance

variable {dirs : Nat → Text} {s : Mirroring} (h : Inv dirs s) {t : Nat} {job : Job} {rest new : List Job}
  (ht : s.manager.threads[t]? = some (job :: rest)) {nm : NmState} {queue : List ReplicationTask}

include ht

omit ht in
theorem firstJob_advance (h0 : t ≠ 0) : (s.advance t nm queue (new ++ rest)).firstJob 0 = s.firstJob 0 := by
  show ((s.manager.threads.set t (new ++ rest))[0]?).bind List.head? = (s.manager.threads[0]?).bind List.head?
  rw [List.getElem?_set_ne h0]

variable (new) in
/-- A sync that is due stays due when the job goes on to it. -/
theorem due_advance {file file' : FileEntry} (hname : file'.name = file.name)
    (hmodified : file'.modified = file.modified)
    (hqueue : ∀ task ∈ s.manager.queue, task.file = file.name → (∃ task ∈ queue, task.file = file.name) ∨
      ∃ j ∈ new, (s.advance t nm queue (new ++ rest)).leads file.name j)
    (hjob : s.leads file.name job → (∃ task ∈ queue, task.file = file.name) ∨
      ∃ j ∈ new, (s.advance t nm queue (new ++ rest)).leads file.name j)
    (hdue : s.Due file) : (s.advance t nm queue (new ++ rest)).Due file' := by
  have hgoes (hgoes : (∃ task ∈ queue, task.file = file.name) ∨
      ∃ j ∈ new, (s.advance t nm queue (new ++ rest)).leads file.name j) :
      (s.advance t nm queue (new ++ rest)).Due file' := by
    right
    rw [hname]
    rcases hgoes with htask | ⟨j, hj, hleads⟩
    · exact .inl htask
    · exact .inr ⟨j, mem_jobs_new ht hj, hleads⟩
  rcases hdue with ⟨frame, hframe, u, hread, hu, hstamp⟩ | ⟨task, htask, htaskname⟩ | ⟨j, hj, hleads⟩
  · refine .inl ⟨frame, hframe, u, hread, hu.trans hname.symm, ?_⟩
    unfold FileUpdate.stamp at hstamp ⊢
    rwa [hmodified]
  · exact hgoes (hqueue task htask htaskname)
  · rcases mem_jobs_after new ht hj with rfl | hrest
    · exact hgoes (hjob hleads)
    · refine .inr (.inr ⟨j, hrest, ?_⟩)
      rw [hname]
      cases j with
      | sync task owner target =>
        refine ⟨hleads.1, ?_⟩
        unfold advance
        dsimp only
        rw [hleads.2, ite_self]
      | _ => exact hleads

include h

variable (new) in
theorem Inv.advance (hmanager : (s.advance t nm queue (new ++ rest)).manager.Inv) (hup : allUp nm = true)
    (hkeeps : Keeps s.manager.nm nm) (hqueue : ∀ task ∈ queue, task ∈ s.manager.queue ∨ TaskFits nm task)
    (hnew : ∀ j ∈ new, (s.advance t nm queue (new ++ rest)).JobFits dirs j)
    (hothers : t ≠ 0 → ∀ j ∈ new, isRound j = false ∧ j ≠ .next)
    (hworker : t = 0 → new ++ rest = [.next] ∨ ∃ j, isRound j = true ∧ new ++ rest = [j, .next])
    (hholders : ∀ file' ∈ nm.files, ∀ i ∈ entryServers file', 0 ≤ i → HasFile (s.servers i.toNat) file'.name)
    (hmirrors : ∀ file' ∈ nm.files, ∀ c, (s.advance t nm queue (new ++ rest)).Watched file' c →
      (s.advance t nm queue (new ++ rest)).Due file' ∨ (s.advance t nm queue (new ++ rest)).Same dirs file' c) :
    Inv dirs (s.advance t nm queue (new ++ rest)) := by
  have hlt : t < s.manager.threads.length := (List.getElem?_eq_some_iff.1 ht).1
  have hself : (s.manager.threads.set t (new ++ rest))[t]? = some (new ++ rest) := List.getElem?_set_self hlt
  refine ⟨hmanager, h.placed, h.sized, hup, ⟨?_, ?_⟩, ?_, ?_, ?_, hholders, hmirrors⟩
  · by_cases h0 : t = 0
    · subst h0
      have hthread : (s.advance 0 nm queue (new ++ rest)).manager.threads[0]? = some (new ++ rest) := hself
      rcases hworker rfl with heq | ⟨j, hj, heq⟩
      · exact .inl (hthread.trans (congrArg some heq))
      · exact .inr ⟨j, hj, hthread.trans (congrArg some heq)⟩
    · have hthread : (s.advance t nm queue (new ++ rest)).manager.threads[0]? = s.manager.threads[0]? :=
        List.getElem?_set_ne h0
      rw [hthread]
      exact h.alone.worker
  · intro u hu thread hthread j hj
    by_cases htu : t = u
    · subst htu
      rw [show (s.advance t nm queue (new ++ rest)).manager.threads[t]? = some (new ++ rest) from hself] at hthread
      cases hthread
      rcases List.mem_append.1 hj with hnewj | hrest
      · exact hothers hu j hnewj
      · exact h.alone.others t hu _ ht j (List.mem_cons_of_mem _ hrest)
    · rw [show (s.advance t nm queue (new ++ rest)).manager.threads[u]? = s.manager.threads[u]? from
        List.getElem?_set_ne htu] at hthread
      exact h.alone.others u hu thread hthread j hj
  · intro hfetched
    by_cases h0 : t = 0
    · subst h0
      exact absurd rfl hfetched
    · rw [firstJob_advance h0]
      unfold Mirroring.advance at hfetched
      dsimp only at hfetched
      rw [if_neg h0] at hfetched
      exact h.syncing hfetched
  · intro task htask
    rcases hqueue task htask with hold | hfits
    · exact (h.tasks task hold).mono hkeeps
    · exact hfits
  · intro j hj
    rcases mem_jobs_run ht hj with hold | hnewj
    · refine JobFits.mono ?_ ?_ (h.jobs j hold)
      · exact hkeeps
      · rfl
    · exact hnew j hnewj

end Advance

/-! ### Jobs of other threads -/

/-- A task that fits is queued, or one that makes it needless is. -/
theorem Inv.schedule {dirs : Nat → Text} {s : Mirroring} (h : Inv dirs s) {task : ReplicationTask}
    (hfits : TaskFits s.manager.nm task) : ∃ queue, scheduleReplication s.manager.queue task true = some queue ∧
      (∀ x ∈ s.manager.queue, x ∈ queue) ∧ (∀ x ∈ queue, x ∈ s.manager.queue ∨ x = task) ∧
        ∃ x ∈ queue, x.file = task.file := by
  obtain ⟨file, hfile, hname, hprimary, hsync, -⟩ := hfits
  have hvalid : ¬ (task.file = [] ∨ task.primaryIndex < 0 ∨ (task.assignMode = false ∧ task.backupIndex < 0)) := by
    rintro (hempty | hneg | ⟨hmode, hneg⟩)
    · have hvalid := (h.manager.stored.files file hfile).name.1
      rw [hname.trans hempty] at hvalid
      cases hvalid
    · have := (h.manager.placed file hfile).1
      omega
    · have := (hsync hmode).2
      omega
  unfold scheduleReplication
  rw [if_neg hvalid]
  by_cases hcovers : (s.manager.queue.any fun existing => existing.covers task) = true
  · rw [if_pos hcovers]
    refine ⟨_, rfl, fun x hx => hx, fun x hx => .inl hx, ?_⟩
    obtain ⟨existing, hmem, hcover⟩ := List.any_eq_true.1 hcovers
    refine ⟨existing, hmem, ?_⟩
    unfold ReplicationTask.covers at hcover
    exact beq_iff_eq.1 (Bool.and_eq_true_iff.1 hcover).1
  · rw [if_neg hcovers, if_pos rfl]
    refine ⟨_, rfl, fun x hx => List.mem_append_left _ hx, ?_, task, ?_, rfl⟩
    rotate_left
    · exact List.mem_append_right _ (List.mem_singleton_self _)
    intro x hx
    rcases List.mem_append.1 hx with hold | hnew
    · exact .inl hold
    · exact .inr (List.mem_singleton.1 hnew)

/-- A task to assign a backup is made for a file without one. -/
theorem Inv.tryAssign {dirs : Nat → Text} {s : Mirroring} (h : Inv dirs s) {name : Text} {task : ReplicationTask}
    (htry : tryAssignBackup s.manager.nm name = some task) : TaskFits s.manager.nm task := by
  unfold tryAssignBackup at htry
  split_ifs at htry
  obtain ⟨file, hfind, htry⟩ := Option.bind_eq_some_iff.1 htry
  split_ifs at htry with hnone
  cases htry
  have hfile := List.mem_of_find?_eq_some hfind
  have hname : file.name = name := by simpa using List.find?_some hfind
  have hlong := (h.manager.stored.files file hfile).name.2
  rw [hname] at hlong
  refine ⟨file, hfile, ?_, rfl, ?_, fun _ => ?_⟩
  · exact hname.trans (Text.copyTo_eq_self hlong).symm
  · intro hmode
    cases hmode
  · rcases (h.manager.placed file hfile).2.2 with hbackup | hbackup
    · exact .inl hbackup
    · exact absurd (.inl hbackup.1) hnone

section Others

variable {dirs : Nat → Text} {s : Mirroring} (h : Inv dirs s) {t : Nat} (h0 : t ≠ 0) {job : Job} {rest new : List Job}
  (ht : s.manager.threads[t]? = some (job :: rest)) {nm : NmState} {queue : List ReplicationTask}

include h h0 ht

variable (new) in
/-- A job of another thread than the worker that leaves the files as they are. -/
theorem Inv.other (hmanager : (s.advance t nm queue (new ++ rest)).manager.Inv) (hup : allUp nm = true)
    (hfiles : nm.files = s.manager.nm.files) (hkept : ∀ task ∈ s.manager.queue, task ∈ queue)
    (hqueue : ∀ task ∈ queue, task ∈ s.manager.queue ∨ TaskFits nm task)
    (hleads : ∀ name, s.leads name job → ∃ task ∈ queue, task.file = name)
    (hnew : ∀ j ∈ new, (s.advance t nm queue (new ++ rest)).JobFits dirs j)
    (hothers : ∀ j ∈ new, isRound j = false ∧ j ≠ .next) : Inv dirs (s.advance t nm queue (new ++ rest)) := by
  have hfirst : (s.advance t nm queue (new ++ rest)).firstJob 0 = s.firstJob 0 := firstJob_advance h0
  have hfetched : (s.advance t nm queue (new ++ rest)).fetched = s.fetched := if_neg h0
  refine h.advance _ ht hmanager hup (keeps_of_files hfiles) hqueue hnew (fun _ => hothers)
    (fun heq => absurd heq h0) ?_ ?_
  · rw [hfiles]
    exact h.holders
  · rw [hfiles]
    intro file hfile c hw
    rw [watched_congr hfirst hfetched] at hw
    rcases h.mirrors file hfile c hw with hdue | hsame
    · left
      exact due_advance _ ht rfl rfl (fun task htask hname => .inl ⟨task, hkept task htask, hname⟩)
        (fun hlead => .inl (hleads _ hlead)) hdue
    · exact .inr ((same_congr hfirst hfetched rfl file c).2 hsame)

/-- The end of a CREATE that enters the file. -/
theorem Inv.entered {user : Client} {file : FileName} {primary : Nat} {backup : Option Nat} {now : Int}
    (hmanager : (s.advance t nm s.manager.queue rest).manager.Inv) (hup : allUp nm = true)
    (hjob : job = .createEnd user file primary backup) (hnone : ∀ x ∈ s.manager.nm.files, x.name ≠ file.text)
    (hfiles : nm.files = s.manager.nm.files ++ [newFileEntry file.text user.text primary (optIndex backup) now]) :
    Inv dirs (s.advance t nm s.manager.queue rest) := by
  subst hjob
  have hfirst : (s.advance t nm s.manager.queue ([] ++ rest)).firstJob 0 = s.firstJob 0 := firstJob_advance h0
  have hfetched : (s.advance t nm s.manager.queue ([] ++ rest)).fetched = s.fetched := if_neg h0
  have hmem : Job.createEnd user file primary backup ∈ s.manager.jobs :=
    List.mem_flatten.2 ⟨_, List.mem_of_getElem? ht, List.mem_cons_self⟩
  have hnotfound : nmFindFile s.manager.nm file.text = none :=
    List.find?_eq_none.2 fun x hx => by simpa using hnone x hx
  obtain ⟨hprimary, hbackup⟩ := h.jobs _ hmem
  have hprimary := hprimary hnotfound
  have hname : (newFileEntry file.text user.text primary (optIndex backup) now).name = file.text :=
    Text.copyTo_eq_self file.short
  have hoptIndex {c : Int} (hc : c = optIndex backup) (hc0 : 0 ≤ c) : ∃ i, backup = some i ∧ c = (i : Int) := by
    cases backup with
    | none =>
      subst hc
      cases hc0
    | some i => exact ⟨i, rfl, hc⟩
  -- no task is about a file that is not there
  have htask {task : ReplicationTask} (hfits : TaskFits s.manager.nm task) : task.file ≠ file.text := by
    obtain ⟨entry, hentry, heq, -⟩ := hfits
    rw [← heq]
    exact hnone entry hentry
  have hkeeps : Keeps s.manager.nm nm := by
    intro x hx
    refine ⟨x, ?_, rfl, rfl, .inl rfl⟩
    rw [hfiles]
    exact List.mem_append_left _ hx
  refine h.advance [] ht hmanager hup hkeeps (fun _ htask => .inl htask)
    (fun j hj => by cases hj) (fun _ j hj => by cases hj) (fun heq => absurd heq h0) ?_ ?_
  · intro file' hfile' i hi hi0
    rw [hfiles] at hfile'
    rcases List.mem_append.1 hfile' with hold | hentry
    · exact h.holders file' hold i hi hi0
    · rw [List.mem_singleton.1 hentry] at hi ⊢
      rw [hname]
      rcases List.mem_cons.1 hi with rfl | hi
      · exact hprimary.1
      · obtain ⟨k, hk, rfl⟩ := hoptIndex (List.mem_singleton.1 hi) hi0
        exact (hbackup k hk hnotfound).1
  · intro file' hfile' c hw
    rw [watched_congr hfirst hfetched] at hw
    rw [same_congr hfirst hfetched rfl]
    rw [hfiles] at hfile'
    rcases List.mem_append.1 hfile' with hold | hentry
    · rcases h.mirrors file' hold c hw with hdue | hsame
      · left
        exact due_advance [] ht rfl rfl (fun task htask heq => .inl ⟨task, htask, heq⟩) (fun hlead => hlead.elim) hdue
      · exact .inr hsame
    · right
      rw [List.mem_singleton.1 hentry] at hw ⊢
      have hfits (j : Job) (hj : s.firstJob 0 = some j) := h.jobs j (mem_jobs_of_firstJob hj)
      unfold Same coming
      rw [hname]
      have hstored : s.stored dirs c.toNat file.text = s.stored dirs primary file.text := by
        rcases hw with ⟨hc, hc0⟩ | htarget
        · obtain ⟨k, hk, rfl⟩ := hoptIndex hc hc0
          exact (hbackup k hk hnotfound).2.trans hprimary.2.symm
        · exfalso
          unfold target at htarget
          rw [hname] at htarget
          split at htarget
          · next hj =>
            exact htask (hfits _ hj).1 (Option.ite_none_right_eq_some.1 htarget).1.1
          · next hj =>
            exact htask (hfits _ hj).1 (Option.ite_none_right_eq_some.1 htarget).1
          · cases htarget
      split
      · next hj _ =>
        rw [if_neg (htask (hfits _ hj).1)]
        exact hstored
      · exact hstored

end Others

/-! ### Jobs of the worker -/

/-- The server that is assigned when all are available. -/
theorem backupCandidate_eq {nm : NmState} (hup : allUp nm = true) {primary : Int} {i : Nat}
    (h : backupCandidate nm primary = some i) : (i : Int) = candidate primary := by
  obtain ⟨hi, -, hbefore⟩ := List.find?_range_eq_some.1 h
  have hup (j : Nat) (hj : j < nm.servers.length) : nm.available j = true :=
    List.all_eq_true.1 hup j (List.mem_range.2 hj)
  obtain ⟨hne, -⟩ := Bool.and_eq_true_iff.1 hi
  have hne : (i : Int) ≠ primary := by simpa using hne
  have hlt : i < nm.servers.length := List.mem_range.1 (List.mem_of_find?_eq_some h)
  have hprimary (j : Nat) (hj : j < i) : (j : Int) = primary := by
    have hfail := hbefore j hj
    rw [hup j (by omega), Bool.and_true] at hfail
    simpa using hfail
  unfold candidate
  by_cases hzero : i = 0
  · subst hzero
    rw [if_neg (fun heq => hne heq.symm)]
    rfl
  · have h0 := hprimary 0 (by omega)
    by_cases hone : i = 1
    · subst hone
      rw [if_pos (show primary = 0 from h0.symm)]
      rfl
    · have h1 := hprimary 1 (by omega)
      omega

theorem backupCandidate_ne_none {nm : NmState} (hup : allUp nm = true) {primary backup : Int} (h0 : 0 ≤ backup)
    (hlt : backup < nm.servers.length) (hne : backup ≠ primary) : backupCandidate nm primary ≠ none := by
  intro hnone
  have hmem : backup.toNat ∈ List.range nm.servers.length := List.mem_range.2 (by omega)
  have hfail := List.find?_eq_none.1 hnone backup.toNat hmem
  have havailable := List.all_eq_true.1 hup backup.toNat hmem
  rw [Int.toNat_of_nonneg h0] at hfail havailable
  rw [havailable] at hfail
  simp [hne] at hfail

section Unfetched

variable {s : Mirroring} (hfetched : s.fetched = none)

include hfetched

theorem coming_of_unfetched (dirs : Nat → Text) (name : Text) (c : Int) :
    s.coming dirs name c = s.stored dirs c.toNat name := by
  unfold coming
  rw [hfetched]
  split
  · next heq => cases heq
  · rfl

theorem watched_of_unfetched {job : Job} (hjob : s.firstJob 0 = some job)
    (hconclude : ∀ task target, job ≠ .conclude task target) {file : FileEntry} {c : Int} (hw : s.Watched file c) :
    c = file.backupIndex ∧ 0 ≤ c := by
  rcases hw with hbackup | htarget
  · exact hbackup
  · unfold target at htarget
    rw [hjob] at htarget
    split at htarget
    · rw [hfetched] at htarget
      simp at htarget
    · next heq => exact absurd (Option.some.inj heq) (hconclude _ _)
    · cases htarget

end Unfetched

section Worker

variable {dirs : Nat → Text} {s : Mirroring} (h : Inv dirs s) {job following : Job} {rest : List Job}
  (ht : s.manager.threads[0]? = some (job :: rest)) {nm : NmState} {queue : List ReplicationTask}

include ht

theorem firstJob_of_thread : s.firstJob 0 = some job := by
  unfold Holding.firstJob
  rw [ht]
  rfl

theorem firstJob_advance_self (jobs : List Job) :
    (s.advance 0 nm queue (following :: jobs)).firstJob 0 = some following := by
  show ((s.manager.threads.set 0 (following :: jobs))[0]?).bind List.head? = some following
  rw [List.getElem?_set_self (List.getElem?_eq_some_iff.1 ht).1]
  rfl

include h

/-- Nothing is fetched before the sync. -/
theorem Inv.unfetched (hsync : ∀ task owner target, job ≠ .sync task owner target) : s.fetched = none := by
  by_contra hfetched
  obtain ⟨task, owner, target, hjob⟩ := h.syncing hfetched
  rw [firstJob_of_thread ht] at hjob
  exact hsync task owner target (Option.some.inj hjob)

/-- A job of the worker before the sync and the one that follows. -/
theorem Inv.work {new : List Job} (hmanager : (s.advance 0 nm queue (new ++ rest)).manager.Inv) (hup : allUp nm = true)
    (hfiles : nm.files = s.manager.nm.files) (hqueue : ∀ task ∈ queue, task ∈ s.manager.queue)
    (hsync : ∀ task owner target, job ≠ .sync task owner target)
    (hnew : ∀ j ∈ new, (s.advance 0 nm queue (new ++ rest)).JobFits dirs j)
    (hworker : new ++ rest = [.next] ∨ ∃ j, isRound j = true ∧ (∀ task target, j ≠ .conclude task target) ∧
      new ++ rest = [j, .next])
    (hdue : ∀ file ∈ s.manager.nm.files, 0 ≤ file.backupIndex → s.Due file →
      (s.advance 0 nm queue (new ++ rest)).Due file) : Inv dirs (s.advance 0 nm queue (new ++ rest)) := by
  have hnone := h.unfetched ht hsync
  refine h.advance _ ht hmanager hup (keeps_of_files hfiles) (fun task htask => .inl (hqueue task htask)) hnew
    (fun h0 => absurd rfl h0) (fun _ => ?_) ?_ ?_
  · rcases hworker with heq | ⟨j, hj, -, heq⟩
    · exact .inl heq
    · exact .inr ⟨j, hj, heq⟩
  · rw [hfiles]
    exact h.holders
  · rw [hfiles]
    intro file hfile c hw
    have hw : c = file.backupIndex ∧ 0 ≤ c := by
      rcases hworker with heq | ⟨j, -, hj, heq⟩
      · rw [heq] at hw
        exact watched_of_unfetched rfl (firstJob_advance_self ht _) (by simp) hw
      · rw [heq] at hw
        exact watched_of_unfetched rfl (firstJob_advance_self ht _) hj hw
    rcases h.mirrors file hfile c (.inl hw) with hold | hsame
    · exact .inl (hdue file hfile (hw.1 ▸ hw.2) hold)
    · right
      unfold Same at hsame ⊢
      rw [coming_of_unfetched hnone] at hsame
      rw [coming_of_unfetched rfl]
      exact hsame

end Worker

section Worker

variable {dirs : Nat → Text} {s : Mirroring} (h : Inv dirs s) {job : Job} {rest : List Job}
  (ht : s.manager.threads[0]? = some (job :: rest))

include h ht

/-- The worker has a job of a round and then takes the next task. -/
theorem Inv.worker_cases : (job = .next ∧ rest = []) ∨ (isRound job = true ∧ rest = [.next]) := by
  rcases h.alone.worker with hidle | ⟨j, hj, hthread⟩
  · rw [ht] at hidle
    cases hidle
    exact .inl ⟨rfl, rfl⟩
  · rw [ht] at hthread
    cases hthread
    exact .inr ⟨hj, rfl⟩

theorem Inv.rest_of_round (hround : isRound job = true) : rest = [.next] := by
  rcases h.worker_cases ht with ⟨rfl, -⟩ | ⟨-, heq⟩
  · cases hround
  · exact heq

/-- A job of a round before the sync hands its task on to the next one. -/
theorem Inv.handOn {j : Job} (hround : isRound job = true) (hsync : ∀ task owner target, job ≠ .sync task owner target)
    (hj : isRound j = true) (hconclude : ∀ task target, j ≠ .conclude task target)
    (hmanager : (s.advance 0 s.manager.nm s.manager.queue ([j] ++ rest)).manager.Inv)
    (hfits : (s.advance 0 s.manager.nm s.manager.queue ([j] ++ rest)).JobFits dirs j)
    (hleads : ∀ name, s.leads name job → (s.advance 0 s.manager.nm s.manager.queue ([j] ++ rest)).leads name j) :
    Inv dirs (s.advance 0 s.manager.nm s.manager.queue ([j] ++ rest)) := by
  obtain rfl := h.rest_of_round ht hround
  refine h.work ht hmanager h.up rfl (fun _ hx => hx) hsync ?_ (.inr ⟨j, hj, hconclude, rfl⟩) ?_
  · intro j' hj'
    rw [List.mem_singleton.1 hj']
    exact hfits
  · intro file _ _ hdue
    exact due_advance _ ht rfl rfl (fun task htask heq => .inl ⟨task, htask, heq⟩)
      (fun hlead => .inr ⟨j, List.mem_singleton_self _, hleads _ hlead⟩) hdue

/-- A sync that was answered. -/
theorem Inv.synced {task : ReplicationTask} {owner : Text} {target : Int} (hjob : job = .sync task owner target)
    (hmanager : (s.advance 0 s.manager.nm s.manager.queue (.conclude task target :: rest)).manager.Inv)
    {content : Text} (hfetched : s.fetched = some content) (hhas : HasFile (s.servers target.toNat) task.file)
    (hstored : s.stored dirs target.toNat task.file = some content) :
    Inv dirs (s.advance 0 s.manager.nm s.manager.queue (.conclude task target :: rest)) := by
  subst hjob
  have hrest := h.rest_of_round ht rfl
  have hfirst := firstJob_of_thread ht
  have hafter : (s.advance 0 s.manager.nm s.manager.queue (.conclude task target :: rest)).firstJob 0 =
      some (.conclude task target) := firstJob_advance_self ht rest
  obtain ⟨hfits, htarget⟩ := h.jobs _ (mem_jobs_of_firstJob hfirst)
  refine h.advance [.conclude task target] ht hmanager h.up (keeps_of_files rfl) (fun _ htask => .inl htask)
    ?_ (fun h0 => absurd rfl h0) (fun _ => .inr ⟨_, rfl, by rw [hrest]; rfl⟩) h.holders ?_
  · intro j hj
    rw [List.mem_singleton.1 hj]
    exact ⟨hfits, htarget, hhas⟩
  · intro file hfile c hw
    replace hw : (s.advance 0 s.manager.nm s.manager.queue (.conclude task target :: rest)).Watched file c := hw
    have hcoming := coming_of_unfetched (s := s.advance 0 s.manager.nm s.manager.queue (.conclude task target :: rest))
      rfl dirs file.name c
    by_cases hname : task.file = file.name
    · -- the server that is to have the text is the one that has stored it
      have hc : c = target := by
        rcases hw with ⟨rfl, hc0⟩ | hc
        · obtain ⟨entry, hentry, heq, hprimary, hsync, hassign⟩ := hfits
          obtain rfl : file = entry :=
            List.inj_on_of_nodup_map h.manager.stored.names hfile hentry (hname.symm.trans heq.symm)
          obtain ⟨-, htarget⟩ := htarget
          cases hmode : task.assignMode with
          | true =>
            rw [if_pos hmode] at htarget
            rcases hassign hmode with hnone | hcandidate
            · omega
            · exact hcandidate.trans htarget.symm
          | false =>
            rw [if_neg (by simp [hmode])] at htarget
            exact (hsync hmode).1.symm.trans htarget.symm
        · unfold Mirroring.target at hc
          rw [hafter] at hc
          dsimp only at hc
          rw [if_pos hname] at hc
          exact (Option.some.inj hc).symm
      subst hc
      have hwatched : s.Watched file c := by
        right
        unfold Mirroring.target
        rw [hfirst]
        dsimp only
        rw [if_pos ⟨hname, by simp [hfetched]⟩]
      rcases h.mirrors file hfile c hwatched with hdue | hsame
      · left
        refine due_advance [.conclude task c] ht rfl rfl (fun task htask heq => .inl ⟨task, htask, heq⟩) ?_ hdue
        rintro ⟨-, hnone⟩
        rw [hfetched] at hnone
        cases hnone
      · right
        unfold Same at hsame ⊢
        rw [coming_of_fetched dirs hfirst hname hfetched] at hsame
        refine (hcoming.trans ?_).trans hsame
        rw [← hname]
        exact hstored
    · have hbackup : c = file.backupIndex ∧ 0 ≤ c := by
        rcases hw with hbackup | hc
        · exact hbackup
        · unfold Mirroring.target at hc
          rw [hafter] at hc
          dsimp only at hc
          rw [if_neg hname] at hc
          cases hc
      rcases h.mirrors file hfile c (.inl hbackup) with hdue | hsame
      · left
        refine due_advance [.conclude task target] ht rfl rfl (fun task htask heq => .inl ⟨task, htask, heq⟩) ?_ hdue
        rintro ⟨heq, -⟩
        exact absurd heq hname
      · right
        unfold Same at hsame ⊢
        refine hcoming.trans (Eq.trans ?_ hsame)
        unfold coming
        rw [hfirst, hfetched]
        dsimp only
        rw [if_neg hname]
        rfl

end Worker

/-- What an assignment keeps of the files. -/
theorem mem_modifyFile_of_mem {nm : NmState} {name : Text} {file x : FileEntry} (hfind : nmFindFile nm name = some file)
    (f : FileEntry → FileEntry) (hx : x ∈ nm.files) :
    (x ∈ (nm.modifyFile name f).files) ∨ (x = file ∧ f file ∈ (nm.modifyFile name f).files) := by
  obtain ⟨-, pre, post, hfiles, -, heq⟩ := exists_modifyFile hfind f
  rw [hfiles] at hx
  rw [heq]
  rcases List.mem_append.1 hx with hpre | hx
  · exact .inl (List.mem_append_left _ hpre)
  · rcases List.mem_cons.1 hx with rfl | hpost
    · exact .inr ⟨rfl, List.mem_append_right _ List.mem_cons_self⟩
    · exact .inl (List.mem_append_right _ (List.mem_cons_of_mem _ hpost))

section Worker

variable {dirs : Nat → Text} {s : Mirroring} (h : Inv dirs s) {task : ReplicationTask} {target : Int} {rest : List Job}
  (ht : s.manager.threads[0]? = some (.conclude task target :: rest))

include h ht

/-- The end of a round: the files are as they were, or the one of the task has the backup that was synced. -/
theorem Inv.concluded {nm : NmState} (hmanager : (s.advance 0 nm s.manager.queue rest).manager.Inv)
    (hup : allUp nm = true) (hkeeps : Keeps s.manager.nm nm)
    (hentries : ∀ file' ∈ nm.files, ∃ file ∈ s.manager.nm.files, file'.name = file.name ∧ file'.ssIndex = file.ssIndex ∧
      file'.modified = file.modified ∧ (file'.backupIndex = file.backupIndex ∨
        (file.name = task.file ∧ file'.backupIndex = target))) :
    Inv dirs (s.advance 0 nm s.manager.queue rest) := by
  have hrest := h.rest_of_round ht rfl
  have hfirst := firstJob_of_thread ht
  obtain ⟨-, -, hhas⟩ := h.jobs _ (mem_jobs_of_firstJob hfirst)
  have hnone := h.unfetched ht (by simp)
  refine h.advance [] ht hmanager hup hkeeps (fun _ htask => .inl htask) (fun j hj => by cases hj)
    (fun h0 => absurd rfl h0) (fun _ => .inl hrest) ?_ ?_
  · intro file' hfile' i hi hi0
    obtain ⟨file, hfile, hname, hprimary, -, hbackup⟩ := hentries file' hfile'
    rw [hname]
    rcases List.mem_cons.1 hi with rfl | hi
    · rw [hprimary]
      exact h.holders file hfile _ List.mem_cons_self (hprimary ▸ hi0)
    · rw [List.mem_singleton.1 hi] at hi0 ⊢
      rcases hbackup with hsame | ⟨heq, hassigned⟩
      · rw [hsame] at hi0 ⊢
        exact h.holders file hfile _ (List.mem_cons_of_mem _ (List.mem_singleton_self _)) hi0
      · rw [hassigned, heq]
        exact hhas
  · intro file' hfile' c hw
    replace hw : (s.advance 0 nm s.manager.queue rest).Watched file' c := hw
    obtain ⟨file, hfile, hname, hprimary, hmodified, hbackup⟩ := hentries file' hfile'
    have hafter : (s.advance 0 nm s.manager.queue rest).firstJob 0 = some .next := by
      rw [hrest]
      exact firstJob_advance_self ht []
    obtain ⟨hc, hc0⟩ := watched_of_unfetched rfl hafter (by simp) hw
    -- the backup had the text, or was to have it
    have hwatched : s.Watched file c := by
      rcases hbackup with hsame | ⟨heq, hassigned⟩
      · exact .inl ⟨hc.trans hsame, hc0⟩
      · right
        unfold Mirroring.target
        rw [hfirst]
        dsimp only
        rw [if_pos heq.symm, hc, hassigned]
    rcases h.mirrors file hfile c hwatched with hdue | hsame
    · left
      exact due_advance [] ht hname hmodified (fun task htask heq => .inl ⟨task, htask, heq⟩)
        (fun hlead => hlead.elim) hdue
    · right
      unfold Same at hsame ⊢
      rw [coming_of_unfetched hnone] at hsame
      rw [coming_of_unfetched rfl, hname, hprimary]
      exact hsame

/-- `assign_mode` at the end of a round. -/
theorem Inv.assigned (hassign : task.assignMode = true) :
    Keeps s.manager.nm (assignBackup s.manager.nm task.file task.primaryIndex target) ∧
      ∀ file' ∈ (assignBackup s.manager.nm task.file task.primaryIndex target).files, ∃ file ∈ s.manager.nm.files,
        file'.name = file.name ∧ file'.ssIndex = file.ssIndex ∧ file'.modified = file.modified ∧
          (file'.backupIndex = file.backupIndex ∨ (file.name = task.file ∧ file'.backupIndex = target)) := by
  obtain ⟨⟨entry, hentry, hname, hprimary, -, hcandidate⟩, ⟨-, htarget⟩, -⟩ :=
    h.jobs _ (mem_jobs_of_firstJob (firstJob_of_thread ht))
  rw [if_pos hassign] at htarget
  have hfind := nmFindFile_of_mem h.manager.stored hentry
  rw [hname] at hfind
  have hnonneg := candidate_nonneg task.primaryIndex
  constructor
  · intro file hfile
    rcases mem_modifyFile_of_mem hfind (fun file => if file.ssIndex = task.primaryIndex then
        { file with backupIndex := target } else file) hfile with hsame | ⟨rfl, hmem⟩
    · exact ⟨file, hsame, rfl, rfl, .inl rfl⟩
    · rw [if_pos hprimary] at hmem
      refine ⟨_, hmem, rfl, rfl, ?_⟩
      rcases hcandidate hassign with hnone | hbackup
      · right
        rw [hprimary]
        exact ⟨by omega, htarget⟩
      · exact .inl (htarget.trans hbackup.symm)
  · intro file' hfile'
    rcases mem_modifyFile h.manager.stored hfind hfile' with rfl | ⟨hold, -⟩
    · rw [if_pos hprimary]
      exact ⟨entry, hentry, rfl, rfl, rfl, .inr ⟨hname, rfl⟩⟩
    · exact ⟨file', hold, rfl, rfl, rfl, .inl rfl⟩

end Worker

/-! ### A job of any thread -/

section Run

variable {dirs : Nat → Text} {s : Mirroring} (h : Inv dirs s) {t : Nat} {job : Job} {rest new : List Job}
  (ht : s.manager.threads[t]? = some (job :: rest)) {nm : NmState} {queue : List ReplicationTask} {o : Nm.Outcome}
  (hrun : job.run s.manager.nm s.manager.queue o = some (nm, queue, new))
  (hmanager : (s.advance t nm queue (new ++ rest)).manager.Inv) (hup : allUp nm = true)

include h ht hrun hmanager hup

/-- A job of the worker. -/
theorem Inv.runRound (h0 : t = 0) (hwell : ∀ task owner target, job = .sync task owner target →
      syncTask s.manager.nm task target o.reply = [.conclude task target] ∧ ∃ content, s.fetched = some content ∧
        HasFile (s.servers target.toNat) task.file ∧ s.stored dirs target.toNat task.file = some content) :
    Inv dirs (s.advance t nm queue (new ++ rest)) := by
  subst h0
  have hfits := h.jobs job (mem_jobs_of_firstJob (firstJob_of_thread ht))
  have hcases := h.worker_cases ht
  cases job with
  | next =>
    obtain ⟨-, rfl⟩ : Job.next = .next ∧ rest = [] := by
      rcases hcases with heq | ⟨hround, -⟩
      · exact heq
      · cases hround
    simp only [Job.run] at hrun
    split at hrun
    · cases hrun
    · next task tasks hqueue =>
      cases hrun
      refine h.work ht hmanager hup rfl ?_ (by simp) ?_ (.inr ⟨_, rfl, by simp, rfl⟩) ?_
      · intro x hx
        rw [hqueue]
        exact List.mem_cons_of_mem _ hx
      · intro j hj
        rcases List.mem_cons.1 hj with rfl | hj
        · refine h.tasks task ?_
          rw [hqueue]
          exact List.mem_cons_self
        · rw [List.mem_singleton.1 hj]
          trivial
      · intro file _ _ hdue
        refine due_advance _ ht rfl rfl ?_ (fun hlead => hlead.elim) hdue
        intro x hx heq
        rw [hqueue] at hx
        rcases List.mem_cons.1 hx with rfl | hx
        · exact .inr ⟨_, List.mem_cons_self, heq⟩
        · exact .inl ⟨x, hx, heq⟩
  | examine task =>
    obtain rfl := h.rest_of_round ht rfl
    cases hrun
    obtain ⟨file, hfile, hname, hprimary, -⟩ := id hfits
    have hfind := nmFindFile_of_mem h.manager.stored hfile
    rw [hname] at hfind
    have hvalid : ¬ (file.ssIndex < 0 ∨ file.ssIndex ≠ task.primaryIndex) := by
      have := (h.manager.placed file hfile).1
      omega
    have hexamine : ∃ j, examineTask s.manager.nm task = [j] ∧ isRound j = true ∧ (∀ x target, j ≠ .conclude x target) ∧
        (s.advance 0 s.manager.nm s.manager.queue ([j] ++ [.next])).JobFits dirs j ∧
          ∀ name, task.file = name → (s.advance 0 s.manager.nm s.manager.queue ([j] ++ [.next])).leads name j := by
      unfold examineTask
      rw [hfind]
      dsimp only
      rw [if_neg hvalid]
      cases hmode : task.assignMode with
      | true => exact ⟨_, if_pos rfl, rfl, by simp, ⟨hfits, hmode⟩, fun _ heq => heq⟩
      | false => exact ⟨_, if_neg (by simp), rfl, by simp, ⟨hfits, hmode⟩, fun _ heq => heq⟩
    obtain ⟨j, heq, hround, hconclude, hjob, hleads⟩ := hexamine
    rw [heq] at hmanager ⊢
    exact h.handOn ht rfl (by simp) hround hconclude hmanager hjob hleads
  | check task owner =>
    obtain rfl := h.rest_of_round ht rfl
    cases hrun
    obtain ⟨⟨file, hfile, hname, -, hsync, -⟩, hmode⟩ := id hfits
    have hfind := nmFindFile_of_mem h.manager.stored hfile
    rw [hname] at hfind
    have hcheck : checkTask s.manager.nm task owner = [.sync task owner task.backupIndex] := by
      unfold checkTask
      rw [hfind]
      dsimp only
      rw [if_neg (by simpa using (hsync hmode).1.symm)]
    rw [hcheck] at hmanager ⊢
    refine h.handOn ht rfl (by simp) rfl (by simp) hmanager ?_ fun _ hlead => ⟨hlead, rfl⟩
    refine ⟨hfits.1, (hsync hmode).2, ?_⟩
    rw [if_neg (by simp [hmode])]
  | choose task owner =>
    obtain rfl := h.rest_of_round ht rfl
    cases hrun
    obtain ⟨⟨file, hfile, hname, hprimary, -, hassign⟩, hmode⟩ := id hfits
    cases hcandidate : backupCandidate s.manager.nm task.primaryIndex with
    | none =>
      have hchoose : chooseTarget s.manager.nm task owner = [] := by
        unfold chooseTarget
        rw [hcandidate]
      rw [hchoose] at hmanager ⊢
      refine h.work ht hmanager hup rfl (fun _ hx => hx) (by simp) (fun j hj => by cases hj) (.inl rfl) ?_
      intro file' hfile' hbackup hdue
      refine due_advance _ ht rfl rfl (fun task htask heq => .inl ⟨task, htask, heq⟩) ?_ hdue
      intro hlead
      exfalso
      -- the file has a backup, which is a server to choose
      obtain rfl : file' = file :=
        List.inj_on_of_nodup_map h.manager.stored.names hfile' hfile (hlead.symm.trans hname.symm)
      rcases (h.manager.placed file' hfile).2.2 with hnone | ⟨-, hlt, hne⟩
      · omega
      · rw [hprimary] at hne
        exact backupCandidate_ne_none h.up hbackup hlt hne hcandidate
    | some i =>
      have hchoose : chooseTarget s.manager.nm task owner = [.sync task owner i] := by
        unfold chooseTarget
        rw [hcandidate]
      rw [hchoose] at hmanager ⊢
      refine h.handOn ht rfl (by simp) rfl (by simp) hmanager ?_ fun _ hlead => ⟨hlead, rfl⟩
      refine ⟨hfits.1, Int.natCast_nonneg i, ?_⟩
      rw [if_pos hmode]
      exact backupCandidate_eq h.up hcandidate
  | sync task owner target =>
    obtain ⟨hsync, content, hfetched, hhas, hstored⟩ := hwell task owner target rfl
    cases hrun
    rw [hsync] at hmanager ⊢
    exact h.synced ht rfl hmanager hfetched hhas hstored
  | conclude task target =>
    cases hrun
    by_cases hmode : task.assignMode = true
    · rw [if_pos hmode] at hmanager hup ⊢
      obtain ⟨hkeeps, hentries⟩ := h.assigned ht hmode
      exact h.concluded ht hmanager hup hkeeps hentries
    · rw [if_neg hmode] at hmanager hup ⊢
      exact h.concluded ht hmanager hup (keeps_of_files rfl) fun file hfile => ⟨file, hfile, rfl, rfl, rfl, .inl rfl⟩
  | _ =>
    rcases hcases with ⟨heq, -⟩ | ⟨hround, -⟩
    · cases heq
    · cases hround

/-- A job of another thread. -/
theorem Inv.runOther (h0 : t ≠ 0) (hpushed : o.pushed = true)
    (hdone : ∀ k ∈ commandTarget s.manager.nm job, o.reply = .ok → ∀ name ∈ jobFile job,
      HasFile (s.servers k) name ∧ s.stored dirs k name = s.textOf job) :
    Inv dirs (s.advance t nm queue (new ++ rest)) := by
  have hmem : job ∈ s.manager.jobs := List.mem_flatten.2 ⟨_, List.mem_of_getElem? ht, List.mem_cons_self⟩
  have hfits := h.jobs job hmem
  obtain ⟨hround, hnext⟩ := h.alone.others t h0 _ ht job List.mem_cons_self
  -- the jobs that leave the files and the queue alone
  have hplain (hfiles : nm.files = s.manager.nm.files) (hqueue : queue = s.manager.queue)
      (hleads : ∀ name, ¬ s.leads name job) (hnew : ∀ j ∈ new, (s.advance t nm queue (new ++ rest)).JobFits dirs j)
      (hothers : ∀ j ∈ new, isRound j = false ∧ j ≠ .next) : Inv dirs (s.advance t nm queue (new ++ rest)) := by
    subst hqueue
    exact h.other h0 _ ht hmanager hup hfiles (fun _ hx => hx) (fun _ hx => .inl hx)
      (fun name hlead => absurd hlead (hleads name)) hnew hothers
  have hmade {name : Text} {k : Nat} (hmade : s.Made dirs name k) (hfiles : nm.files = s.manager.nm.files) :
      (s.advance t nm queue (new ++ rest)).Made dirs name k := by
    intro hnone
    exact hmade (nmFindFile_none_of_keeps (keeps_of_files hfiles) hnone)
  cases job with
  | schedule task ofUpdate =>
    obtain ⟨tasks, hschedule, hkept, hfrom, hqueued⟩ := h.schedule hfits
    simp only [Job.run, hpushed, hschedule] at hrun
    cases hrun
    refine h.other h0 [] ht hmanager hup rfl hkept ?_ ?_ (fun j hj => by cases hj) (fun j hj => by cases hj)
    · intro x hx
      rcases hfrom x hx with hold | rfl
      · exact .inl hold
      · exact .inr hfits
    · intro name hlead
      obtain ⟨x, hx, heq⟩ := hqueued
      exact ⟨x, hx, heq.trans hlead⟩
  | tryAssign name =>
    cases hrun
    refine hplain rfl rfl (fun _ hlead => hlead) ?_ ?_
    · intro j hj
      obtain ⟨task, htask, rfl⟩ := List.mem_map.1 hj
      exact h.tryAssign (Option.mem_toList.1 htask)
    · intro j hj
      obtain ⟨task, -, rfl⟩ := List.mem_map.1 hj
      exact ⟨rfl, by simp⟩
  | scan i =>
    simp only [Job.run] at hrun
    split at hrun
    · cases hrun
      exact hplain rfl rfl (fun _ hlead => hlead) (fun j hj => by cases hj) (fun j hj => by cases hj)
    · cases hrun
      refine hplain rfl rfl (fun _ hlead => hlead) ?_ ?_
      · intro j hj
        split at hj
        · rcases List.mem_cons.1 hj with rfl | hj
          · trivial
          · rw [List.mem_singleton.1 hj]
            trivial
        · rw [List.mem_singleton.1 hj]
          trivial
      · intro j hj
        split at hj
        · rcases List.mem_cons.1 hj with rfl | hj
          · exact ⟨rfl, by simp⟩
          · rw [List.mem_singleton.1 hj]
            exact ⟨rfl, by simp⟩
        · rw [List.mem_singleton.1 hj]
          exact ⟨rfl, by simp⟩
  | createPrimary user file primary =>
    simp only [Job.run] at hrun
    split at hrun
    · cases hrun
      exact hplain (nmMarkServerDown_files _ _) rfl (fun _ hlead => hlead) (fun j hj => by cases hj)
        (fun j hj => by cases hj)
    · cases hrun
      exact hplain rfl rfl (fun _ hlead => hlead) (fun j hj => by cases hj) (fun j hj => by cases hj)
    · next hok =>
      cases hrun
      refine hplain rfl rfl (fun _ hlead => hlead) ?_ ?_
      · intro j hj
        rw [List.mem_singleton.1 hj]
        intro _
        exact hdone primary rfl hok file.text rfl
      · intro j hj
        rw [List.mem_singleton.1 hj]
        exact ⟨rfl, by simp⟩
  | createBackup user file primary count i =>
    cases hrun
    refine hplain rfl rfl (fun _ hlead => hlead) ?_ ?_
    · intro j hj
      have hprimary := hmade hfits rfl
      rcases mem_placeBackup hj with rfl | rfl | ⟨hlt, hne, havailable, hok, rfl⟩
      · exact ⟨hprimary, fun i hi => by cases hi⟩
      · exact hprimary
      · refine ⟨hprimary, ?_⟩
        intro k hk
        cases hk
        intro _
        exact hdone i (if_pos ⟨hlt, hne, havailable⟩) hok file.text rfl
    · intro j hj
      rcases mem_placeBackup hj with rfl | rfl | ⟨-, -, -, -, rfl⟩
      · exact ⟨rfl, by simp⟩
      · exact ⟨rfl, by simp⟩
      · exact ⟨rfl, by simp⟩
  | createEnd user file primary backup =>
    cases hrun
    rcases createEnd_cases s.manager.nm user.short file.short primary (optIndex backup) o.now.val with
      ⟨code, message, herror⟩ | ⟨-, hnone, hfiles⟩
    · exact hplain (by rw [herror]) rfl (fun _ hlead => hlead) (fun j hj => by cases hj) (fun j hj => by cases hj)
    · exact h.entered h0 ht hmanager hup rfl hnone hfiles
  | failure | deletePrimary => exact hfits.elim
  | next => exact absurd rfl hnext
  | _ => cases hround

end Run

end Mirroring

end CoWrite.Cluster
