import CoWrite.Nm.Placement

/-!
# Placement and replication

Where a file is kept is decided by four kinds of threads: the requests that create and delete files, those that
select a server and fail over on the way, the threads of connections that are lost or that register, and the
replication worker. Each works in sections under the state lock or the lock of the queue, with RPCs between them,
and carries what it read from one section into the next.

`Job` lists the sections that are left to a thread, and `Replication` is the name manager with all of them:
`step` runs the first job of any thread, or starts a thread. Every step changes the tables as one of
`tablesStep` does (`step_tables`).
-/

namespace CoWrite.Nm

open CoWrite.Lib

/-! ## The queue -/

/-- `struct replication_task`. -/
structure ReplicationTask where
  file : Text
  owner : Text
  primaryIndex : Int
  backupIndex : Int
  assignMode : Bool
deriving DecidableEq, Repr

/-- The task that `schedule_replication` makes of its arguments. -/
def newTask (file owner : Text) (primary backup : Int) (assignMode : Bool) : ReplicationTask where
  file := Text.copyTo NM_MAX_NAME file
  owner := Text.copyTo NM_MAX_USER owner
  primaryIndex := primary
  backupIndex := backup
  assignMode := assignMode

/-- The test on a task that is queued: the new one is not needed. -/
def ReplicationTask.covers (existing task : ReplicationTask) : Bool :=
  existing.file == task.file &&
    (existing.assignMode && task.assignMode ||
      !existing.assignMode && !task.assignMode && existing.primaryIndex == task.primaryIndex &&
        existing.backupIndex == task.backupIndex)

/-- `schedule_replication`; `pushed` is what `array_push` says. -/
def scheduleReplication (queue : List ReplicationTask) (task : ReplicationTask) (pushed : Bool) :
    Option (List ReplicationTask) :=
  if task.file = [] ∨ task.primaryIndex < 0 ∨ (task.assignMode = false ∧ task.backupIndex < 0) then none
  else if queue.any fun existing => existing.covers task then some queue
  else if pushed then some (queue ++ [task])
  else none

/-- `try_assign_backup`: the task it schedules. -/
def tryAssignBackup (nm : NmState) (name : Text) : Option ReplicationTask :=
  if name = [] then none
  else
    (nmFindFile nm name).bind fun file =>
      if file.backupIndex ≥ 0 ∨ file.ssIndex < 0 then none
      else some (newTask name file.owner file.ssIndex (-1) true)

/-! ## The sections -/

/-- What is left to do of a handler or of the worker, section by section. -/
inductive Job where
  /-- The worker takes a task. -/
  | next
  /-- It reads the file of the task. -/
  | examine (task : ReplicationTask)
  /-- It checks that the backup is still the one to sync. -/
  | check (task : ReplicationTask) (owner : Text)
  /-- It chooses a backup to assign. -/
  | choose (task : ReplicationTask) (owner : Text)
  /-- `replicate_file_to_backup`. -/
  | sync (task : ReplicationTask) (owner : Text) (target : Int)
  /-- The end of a round that succeeded. -/
  | conclude (task : ReplicationTask) (target : Int)
  /-- `handle_replication_failure`. -/
  | failure (task : ReplicationTask) (attempted : Int)
  | tryAssign (name : Text)
  /-- `schedule_replication`; the handler of an update takes its failure for a failed sync. -/
  | schedule (task : ReplicationTask) (ofUpdate : Bool)
  /-- The loop of `handle_ss_register`, from a file on. -/
  | scan (i : Nat)
  /-- `handle_client_create` with the command sent to the primary. -/
  | createPrimary (user : Client) (file : FileName) (primary : Nat)
  /-- Its loop over the servers for a backup. -/
  | createBackup (user : Client) (file : FileName) (primary count i : Nat)
  | createEnd (user : Client) (file : FileName) (primary : Nat) (backup : Option Nat)
  /-- `handle_client_delete` with the command sent. -/
  | deletePrimary (name : Text) (server : Int)

/-- What an RPC comes to. -/
inductive Reply where
  | unreachable
  | refused
  | ok
deriving DecidableEq, Repr

/-- What a section finds outside. -/
structure Outcome where
  reply : Reply
  /-- `array_push`. -/
  pushed : Bool
  now : Time

/-- The worker reads the file of its task. -/
def examineTask (nm : NmState) (task : ReplicationTask) : List Job :=
  match nmFindFile nm task.file with
  | none => []
  | some file =>
    if file.ssIndex < 0 ∨ file.ssIndex ≠ task.primaryIndex then []
    else if task.assignMode then [.choose task file.owner]
    else [.check task file.owner]

def checkTask (nm : NmState) (task : ReplicationTask) (owner : Text) : List Job :=
  match nmFindFile nm task.file with
  | none => []
  | some file => if file.backupIndex ≠ task.backupIndex then [] else [.sync task owner task.backupIndex]

/-- The first server that is available, other than the primary. -/
def backupCandidate (nm : NmState) (primary : Int) : Option Nat :=
  (List.range nm.servers.length).find? fun (i : Nat) => (i : Int) != primary && nm.available i

def chooseTarget (nm : NmState) (task : ReplicationTask) (owner : Text) : List Job :=
  match backupCandidate nm task.primaryIndex with
  | none => []
  | some i => [.sync task owner i]

/-- What `replicate_file_to_backup` checks before its RPCs. -/
def canReplicate (nm : NmState) (primary backup : Int) : Bool :=
  !(decide (primary < 0) || decide (backup < 0) || primary == backup) && nm.available primary && nm.available backup

/-- `replicate_file_to_backup`, and the branch the worker takes on it. -/
def syncTask (nm : NmState) (task : ReplicationTask) (target : Int) (reply : Reply) : List Job :=
  if canReplicate nm task.primaryIndex target = true ∧ reply = .ok then [.conclude task target]
  else [.failure task target]

/-- `handle_replication_failure`: the table, and whether a backup is to be assigned. -/
def handleReplicationFailure (nm : NmState) (task : ReplicationTask) (attempted : Int) : NmState × Bool :=
  if task.assignMode then (nm, true)
  else
    match nmFindFile nm task.file with
    | none => (nm, false)
    | some file =>
      if file.backupIndex = attempted then (dropFailedBackup nm task.file attempted, decide (file.ssIndex ≥ 0))
      else (nm, false)

/-- The time of the last change that the entry has after the update. -/
def FileUpdate.stamp (u : FileUpdate) (file : FileEntry) : Int := if u.modified ≠ 0 then u.modified else file.modified

/-- What `handle_ss_file_update` schedules for the file it found: a sync when the time of the last change is another
one, or the assignment of a backup that is missing. -/
def updateJobs (nm : NmState) (u : FileUpdate) (file : FileEntry) : List Job :=
  if u.stamp file ≠ file.modified ∧ file.backupIndex ≥ 0 then
    [.schedule (newTask u.file file.owner file.ssIndex file.backupIndex false) true]
  else if file.backupIndex < 0 ∧ file.ssIndex ≥ 0 ∧ hasBackupCandidate nm file.ssIndex = true then
    [.schedule (newTask u.file file.owner file.ssIndex (-1) true) false]
  else []

/-- `handle_ss_file_update`. -/
def handleSsFileUpdate (nm : NmState) (json : Text) : NmState × List Job :=
  match readFileUpdate json with
  | none => (nm, [])
  | some u =>
    match nmFindFile nm u.file with
    | none => (nm, [])
    | some file => (fileUpdate nm u, updateJobs nm u file)

/-- A round of the loop over the servers in `handle_client_create`. -/
def placeBackup (nm : NmState) (user : Client) (file : FileName) (primary count i : Nat) (reply : Reply) : List Job :=
  if count ≤ i then [.createEnd user file primary none]
  else if i = primary ∨ nm.available i = false ∨ reply ≠ .ok then [.createBackup user file primary count (i + 1)]
  else [.createEnd user file primary (some i)]

/-- A job with what is left of it: the tables, the queue and the jobs it comes to. Nothing when it waits. -/
def Job.run (nm : NmState) (queue : List ReplicationTask) (o : Outcome) :
    Job → Option (NmState × List ReplicationTask × List Job)
  | .next =>
    match queue with
    | [] => none
    | task :: queue => some (nm, queue, [.examine task, .next])
  | .examine task => some (nm, queue, examineTask nm task)
  | .check task owner => some (nm, queue, checkTask nm task owner)
  | .choose task owner => some (nm, queue, chooseTarget nm task owner)
  | .sync task _ target => some (nm, queue, syncTask nm task target o.reply)
  | .conclude task target =>
    some (if task.assignMode then assignBackup nm task.file task.primaryIndex target else nm, queue, [])
  | .failure task attempted =>
    let (nm, needAssign) := handleReplicationFailure nm task attempted
    some (nm, queue, if needAssign then [.tryAssign task.file] else [])
  | .tryAssign name => some (nm, queue, (tryAssignBackup nm name).toList.map fun task => .schedule task false)
  | .schedule task ofUpdate =>
    match scheduleReplication queue task o.pushed with
    | some queue => some (nm, queue, [])
    | none => some (nm, queue, if ofUpdate then [.failure task task.backupIndex] else [])
  | .scan i =>
    match nm.files[i]? with
    | none => some (nm, queue, [])
    | some file =>
      some (nm, queue, if file.backupIndex < 0 then [.tryAssign file.name, .scan (i + 1)] else [.scan (i + 1)])
  | .createPrimary user file primary =>
    match o.reply with
    | .unreachable => some (nmMarkServerDown nm primary, queue, [])
    | .refused => some (nm, queue, [])
    | .ok => some (nm, queue, [.createBackup user file primary nm.servers.length 0])
  | .createBackup user file primary count i => some (nm, queue, placeBackup nm user file primary count i o.reply)
  | .createEnd user file primary backup =>
    some ((Nm.createEnd nm user.text file.text primary (optIndex backup) o.now.val).2, queue, [])
  | .deletePrimary name server =>
    match o.reply with
    | .unreachable => some (nmMarkServerDown nm server, queue, [])
    | .refused => some (nm, queue, [])
    | .ok => some ((deleteEnd nm name).2, queue, [])

/-! ## The threads -/

/-- The tables, the queue, what is left to each thread, and the updates of storage servers that were sent. -/
structure Replication where
  nm : NmState
  queue : List ReplicationTask
  threads : List (List Job)
  updates : List Text

/-- The sections that neither place files nor leave anything to be done: the others have events of their own. -/
def Event.isOther : Event → Bool
  | .hello .. | .markDown .. | .undoBegin .. | .ticketBegin .. | .ticketEnd .. | .checkpointEnd .. | .addaccess ..
  | .removeaccess .. | .reqaccess .. | .handlereq .. => true
  | _ => false

namespace Replication

inductive Event where
  | create (user : Client) (json : Text)
  | delete (user : Client) (json : Text)
  | register (json : Text) (fd : Nat)
  | disconnect (server : Nat)
  /-- A storage server sends an update. -/
  | send (json : Text)
  /-- An update is handled, in any order. -/
  | deliver (i : Nat)
  /-- A section of another handler; `select_storage_server` is called in some. -/
  | other (e : Nm.Event)
  /-- The first job of a thread. -/
  | run (thread : Nat) (o : Outcome)

/-- A handler whose first section is over. -/
def spawn (s : Replication) (nm : NmState) (jobs : List Job) : Replication :=
  { s with nm := nm, threads := s.threads ++ [jobs] }

def step (s : Replication) : Event → Option Replication
  | .create user json =>
    match createBegin s.nm user.text json with
    | (.ok (name, i), nm) =>
      (FileName.ofText name).map fun file => s.spawn nm [.createPrimary user file i]
    | (.error _, nm) => some { s with nm := nm }
  | .delete user json =>
    match deleteBegin s.nm user.text json with
    | (.ok (name, i), nm) => some (s.spawn nm [.deletePrimary name i])
    | (.error _, nm) => some { s with nm := nm }
  | .register json fd =>
    match handleSsRegister s.nm json fd with
    | (.ok _, nm) => some (s.spawn nm [.scan 0])
    | (.error .., nm) => some { s with nm := nm }
  | .disconnect server =>
    let (nm, names) := handleServerDisconnect s.nm server
    some (s.spawn nm (names.map .tryAssign))
  | .send json => some { s with updates := s.updates ++ [json] }
  | .deliver i =>
    (s.updates[i]?).bind fun json =>
      let (nm, jobs) := handleSsFileUpdate s.nm json
      some ({ s with updates := s.updates.eraseIdx i }.spawn nm jobs)
  | .other e => if e.isOther then (tablesStep s.nm e).map fun nm => { s with nm := nm } else none
  | .run t o =>
    match s.threads[t]? with
    | some (job :: jobs) =>
      (job.run s.nm s.queue o).map fun (nm, queue, new) =>
        { s with nm := nm, queue := queue, threads := s.threads.set t (new ++ jobs) }
    | _ => none

/-- The name manager starts with empty tables and the worker. -/
def initial : Replication := ⟨.clear, [], [[.next]], []⟩

def system : System Replication Event := .ofStep (· = initial) step

/-- The jobs of all threads. -/
def jobs (s : Replication) : List Job := s.threads.flatten

end Replication

/-! ## What the threads hold -/

/-- The primary is a server, and so is the backup, another one, if there is one. -/
def FileEntry.Placed (servers : Nat) (file : FileEntry) : Prop :=
  0 ≤ file.ssIndex ∧ file.ssIndex < servers ∧
    (file.backupIndex = -1 ∨ (0 ≤ file.backupIndex ∧ file.backupIndex < servers ∧ file.backupIndex ≠ file.ssIndex))

def NmState.Placed (s : NmState) : Prop := ∀ file ∈ s.files, file.Placed s.servers.length

/-- The servers that the job has chosen are servers, and not one for both. -/
def Job.Valid (servers : Nat) : Job → Prop
  | .check task _ => task.assignMode = false
  | .sync task _ target | .conclude task target =>
    task.assignMode = true → 0 ≤ target ∧ target < servers ∧ target ≠ task.primaryIndex
  | .createPrimary _ _ primary => primary < servers
  | .createBackup _ _ primary count _ => primary < servers ∧ count ≤ servers
  | .createEnd _ _ primary backup => primary < servers ∧ ∀ i ∈ backup, i < servers ∧ i ≠ primary
  | _ => True

theorem Job.Valid.mono {m n : Nat} (hmn : m ≤ n) {job : Job} (h : job.Valid m) : job.Valid n := by
  cases job with
  | sync task owner target =>
    intro hassign
    obtain ⟨h0, h1, hne⟩ := h hassign
    exact ⟨h0, by omega, hne⟩
  | conclude task target =>
    intro hassign
    obtain ⟨h0, h1, hne⟩ := h hassign
    exact ⟨h0, by omega, hne⟩
  | createPrimary user file primary => exact Nat.lt_of_lt_of_le h hmn
  | createBackup user file primary count i => exact ⟨Nat.lt_of_lt_of_le h.1 hmn, Nat.le_trans h.2 hmn⟩
  | createEnd user file primary backup =>
    refine ⟨Nat.lt_of_lt_of_le h.1 hmn, ?_⟩
    intro i hi
    exact ⟨Nat.lt_of_lt_of_le (h.2 i hi).1 hmn, (h.2 i hi).2⟩
  | _ => trivial

/-- A section never makes one server both. -/
def Event.KeepsApart : Event → Prop
  | .createEnd _ _ primary backup _ => ∀ i ∈ backup, i ≠ primary
  | .assignBackup _ primary target => (target : Int) ≠ primary
  | _ => True

theorem placed_step {s t : NmState} (hs : s.Stored) (hp : s.Placed) {e : Event} (h : tablesStep s e = some t)
    (he : e.KeepsApart) : t.Placed := by
  have hle := servers_length_le h
  intro file' hmem
  rcases placement_step hs h hmem with ⟨file, hfile, -, hmoves⟩ | ⟨user, file, primary, backup, now, rfl, -, -, hss, hb⟩
  · obtain ⟨h0, h1, hbackup⟩ := hp file hfile
    cases hmoves with
    | kept primary backup =>
      unfold FileEntry.Placed
      rw [primary, backup]
      omega
    | dropped primary backup =>
      unfold FileEntry.Placed
      rw [primary, backup]
      omega
    | takenOver primary backup before after =>
      have hbefore := (available_iff.1 before).1
      unfold FileEntry.Placed
      rw [primary, backup]
      omega
    | assigned primary name target event assigned =>
      subst event
      have htarget : target < s.servers.length := by
        obtain ⟨htarget, -⟩ := Option.ite_none_right_eq_some.1 h
        exact htarget
      have hne : (target : Int) ≠ file.ssIndex := he
      unfold FileEntry.Placed
      rw [primary, assigned]
      omega
  · obtain ⟨⟨hprimary, hbackups⟩, -⟩ := Option.ite_none_right_eq_some.1 h
    unfold FileEntry.Placed
    rw [hss, hb]
    cases backup with
    | none =>
      refine ⟨by omega, by omega, .inl rfl⟩
    | some i =>
      have hi := hbackups i rfl
      have hne := he i rfl
      refine ⟨by omega, by omega, .inr ⟨?_, ?_, ?_⟩⟩
      · exact Int.natCast_nonneg i
      · change (i : Int) < _
        omega
      · change (i : Int) ≠ _
        omega

/-! ## Jobs and steps -/

/-- The candidate is an available server other than the primary. -/
theorem backupCandidate_spec {nm : NmState} {primary : Int} {i : Nat} (h : backupCandidate nm primary = some i) :
    i < nm.servers.length ∧ (i : Int) ≠ primary ∧ nm.available i = true := by
  have hmem := List.mem_of_find?_eq_some h
  have hsome := List.find?_some h
  simp only [Bool.and_eq_true, bne_iff_ne] at hsome
  exact ⟨List.mem_range.1 hmem, hsome⟩

section Members

variable {nm : NmState} {task : ReplicationTask} {job : Job}

theorem mem_examineTask (h : job ∈ examineTask nm task) :
    ∃ owner, (task.assignMode = true ∧ job = .choose task owner) ∨ (task.assignMode = false ∧ job = .check task owner) := by
  unfold examineTask at h
  split at h
  · cases h
  · next file _ =>
    split_ifs at h with hstale hassign
    · cases h
    · exact ⟨file.owner, .inl ⟨hassign, List.mem_singleton.1 h⟩⟩
    · exact ⟨file.owner, .inr ⟨Bool.eq_false_of_not_eq_true hassign, List.mem_singleton.1 h⟩⟩

theorem mem_checkTask {owner : Text} (h : job ∈ checkTask nm task owner) : job = .sync task owner task.backupIndex := by
  unfold checkTask at h
  split at h
  · cases h
  · split_ifs at h
    · cases h
    · exact List.mem_singleton.1 h

theorem mem_chooseTarget {owner : Text} (h : job ∈ chooseTarget nm task owner) :
    ∃ i, backupCandidate nm task.primaryIndex = some i ∧ job = .sync task owner i := by
  unfold chooseTarget at h
  split at h
  · cases h
  · next i hi => exact ⟨i, hi, List.mem_singleton.1 h⟩

theorem mem_syncTask {target : Int} {reply : Reply} (h : job ∈ syncTask nm task target reply) :
    job = .conclude task target ∨ job = .failure task target := by
  unfold syncTask at h
  split at h
  · exact .inl (List.mem_singleton.1 h)
  · exact .inr (List.mem_singleton.1 h)

theorem mem_placeBackup {user : Client} {file : FileName} {primary count i : Nat} {reply : Reply}
    (h : job ∈ placeBackup nm user file primary count i reply) :
    job = .createEnd user file primary none ∨ job = .createBackup user file primary count (i + 1) ∨
      (i < count ∧ i ≠ primary ∧ nm.available i = true ∧ reply = .ok ∧
        job = .createEnd user file primary (some i)) := by
  unfold placeBackup at h
  split_ifs at h with hcount hskip
  · exact .inl (List.mem_singleton.1 h)
  · exact .inr (.inl (List.mem_singleton.1 h))
  · simp only [not_or, Bool.not_eq_false, not_not] at hskip
    obtain ⟨hne, havailable, hok⟩ := hskip
    exact .inr (.inr ⟨Nat.not_le.1 hcount, hne, havailable, hok, List.mem_singleton.1 h⟩)

end Members

/-- What one step may do to the tables: nothing, or what a section does that keeps the two servers apart. -/
def Changes (nm nm' : NmState) : Prop := nm' = nm ∨ ∃ e : Event, e.KeepsApart ∧ tablesStep nm e = some nm'

/-- What a failure comes to: a new task to assign, nothing, or the loss of the backup. -/
theorem handleReplicationFailure_cases (nm : NmState) (task : ReplicationTask) (attempted : Int) :
    (task.assignMode = true ∧ handleReplicationFailure nm task attempted = (nm, true)) ∨
      handleReplicationFailure nm task attempted = (nm, false) ∨
      ∃ file, nmFindFile nm task.file = some file ∧ file.backupIndex = attempted ∧
        handleReplicationFailure nm task attempted =
          (dropFailedBackup nm task.file attempted, decide (file.ssIndex ≥ 0)) := by
  unfold handleReplicationFailure
  by_cases hassign : task.assignMode = true
  · exact .inl ⟨hassign, if_pos hassign⟩
  · rw [if_neg hassign]
    cases nmFindFile nm task.file with
    | none => exact .inr (.inl rfl)
    | some file =>
      by_cases hbackup : file.backupIndex = attempted
      · exact .inr (.inr ⟨file, rfl, hbackup, if_pos hbackup⟩)
      · exact .inr (.inl (if_neg hbackup))

theorem handleReplicationFailure_changes (nm : NmState) (task : ReplicationTask) (attempted : Int) :
    Changes nm (handleReplicationFailure nm task attempted).1 := by
  rcases handleReplicationFailure_cases nm task attempted with ⟨-, heq⟩ | heq | ⟨file, -, -, heq⟩
  · exact .inl (by rw [heq])
  · exact .inl (by rw [heq])
  · exact .inr ⟨.syncFailed task.file attempted, trivial, by rw [heq]; rfl⟩

/-- A job changes the tables as one section does, and comes to valid jobs. -/
theorem Job.run_spec {nm nm' : NmState} {queue queue' : List ReplicationTask} {o : Outcome} {job : Job}
    {new : List Job} (hjob : job.Valid nm.servers.length) (h : job.run nm queue o = some (nm', queue', new)) :
    Changes nm nm' ∧ ∀ j ∈ new, j.Valid nm.servers.length := by
  cases job with
  | next =>
    cases queue with
    | nil => cases h
    | cons task queue =>
      cases h
      refine ⟨.inl rfl, ?_⟩
      intro j hj
      simp only [List.mem_cons, List.not_mem_nil, or_false] at hj
      rcases hj with rfl | rfl <;> trivial
  | examine task =>
    cases h
    refine ⟨.inl rfl, ?_⟩
    intro j hj
    obtain ⟨owner, ⟨-, rfl⟩ | ⟨hassign, rfl⟩⟩ := mem_examineTask hj
    · trivial
    · exact hassign
  | check task owner =>
    cases h
    refine ⟨.inl rfl, ?_⟩
    intro j hj
    rw [mem_checkTask hj]
    intro hassign
    rw [hjob] at hassign
    cases hassign
  | choose task owner =>
    cases h
    refine ⟨.inl rfl, ?_⟩
    intro j hj
    obtain ⟨i, hi, rfl⟩ := mem_chooseTarget hj
    intro _
    obtain ⟨hlt, hne, -⟩ := backupCandidate_spec hi
    exact ⟨Int.natCast_nonneg i, by omega, hne⟩
  | sync task owner target =>
    cases h
    refine ⟨.inl rfl, ?_⟩
    intro j hj
    rcases mem_syncTask hj with rfl | rfl
    · exact hjob
    · trivial
  | conclude task target =>
    cases h
    refine ⟨?_, by simp⟩
    by_cases hassign : task.assignMode = true
    · rw [if_pos hassign]
      obtain ⟨h0, hlt, hne⟩ := hjob hassign
      obtain ⟨i, rfl⟩ := Int.eq_ofNat_of_zero_le h0
      refine .inr ⟨.assignBackup task.file task.primaryIndex i, hne, ?_⟩
      rw [tablesStep, if_pos (by omega)]
    · rw [if_neg hassign]
      exact .inl rfl
  | failure task attempted =>
    simp only [Job.run, Option.some.injEq, Prod.mk.injEq] at h
    obtain ⟨rfl, rfl, rfl⟩ := h
    refine ⟨handleReplicationFailure_changes nm task attempted, ?_⟩
    intro j hj
    rw [List.mem_ite_nil_right, List.mem_singleton] at hj
    rw [hj.2]
    trivial
  | tryAssign name =>
    cases h
    refine ⟨.inl rfl, ?_⟩
    intro j hj
    obtain ⟨task, -, rfl⟩ := List.mem_map.1 hj
    trivial
  | schedule task ofUpdate =>
    simp only [Job.run] at h
    split at h
    · cases h
      exact ⟨.inl rfl, by simp⟩
    · cases h
      refine ⟨.inl rfl, ?_⟩
      intro j hj
      rw [List.mem_ite_nil_right, List.mem_singleton] at hj
      rw [hj.2]
      trivial
  | scan i =>
    simp only [Job.run] at h
    split at h
    · cases h
      exact ⟨.inl rfl, by simp⟩
    · cases h
      refine ⟨.inl rfl, ?_⟩
      intro j hj
      split at hj
      · simp only [List.mem_cons, List.not_mem_nil, or_false] at hj
        rcases hj with rfl | rfl <;> trivial
      · rw [List.mem_singleton.1 hj]
        trivial
  | createPrimary user file primary =>
    simp only [Job.run] at h
    split at h
    · cases h
      exact ⟨.inr ⟨.markDown primary, trivial, rfl⟩, by simp⟩
    · cases h
      exact ⟨.inl rfl, by simp⟩
    · cases h
      refine ⟨.inl rfl, ?_⟩
      intro j hj
      rw [List.mem_singleton.1 hj]
      exact ⟨hjob, Nat.le_refl _⟩
  | createBackup user file primary count i =>
    cases h
    refine ⟨.inl rfl, ?_⟩
    intro j hj
    rcases mem_placeBackup hj with rfl | rfl | ⟨hlt, hne, -, -, rfl⟩
    · refine ⟨hjob.1, ?_⟩
      intro i hi
      cases hi
    · exact hjob
    · refine ⟨hjob.1, ?_⟩
      intro i' hi'
      cases hi'
      exact ⟨Nat.lt_of_lt_of_le hlt hjob.2, hne⟩
  | createEnd user file primary backup =>
    cases h
    refine ⟨.inr ⟨.createEnd user file primary backup o.now, fun i hi => (hjob.2 i hi).2, ?_⟩, by simp⟩
    rw [tablesStep, if_pos ⟨hjob.1, fun i hi => (hjob.2 i hi).1⟩]
  | deletePrimary name server =>
    simp only [Job.run] at h
    split at h
    · cases h
      refine ⟨?_, by simp⟩
      by_cases hserver : server < 0
      · exact .inl (if_pos (.inl hserver))
      · obtain ⟨i, rfl⟩ := Int.eq_ofNat_of_zero_le (Int.not_lt.1 hserver)
        exact .inr ⟨.markDown i, trivial, rfl⟩
    · cases h
      exact ⟨.inl rfl, by simp⟩
    · cases h
      exact ⟨.inr ⟨.deleteEnd name, trivial, rfl⟩, by simp⟩

theorem nmPickServer_lt {nm nm' : NmState} {i : Nat} (h : nmPickServer nm = (some i, nm')) :
    i < nm.servers.length := by
  unfold nmPickServer at h
  dsimp only at h
  split at h
  · cases h
  · next offset hfind =>
    cases h
    have hmem := List.mem_range.1 (List.mem_of_find?_eq_some hfind)
    exact Nat.mod_lt _ (by omega)

theorem createBegin_lt {nm nm' : NmState} {user json name : Text} {i : Nat}
    (h : createBegin nm user json = (.ok (name, i), nm')) : i < nm.servers.length := by
  revert h
  fun_cases createBegin nm user json
  case case6 hpick =>
    intro h
    cases h
    exact nmPickServer_lt hpick
  all_goals
    intro h
    cases h

theorem mem_updateJobs {nm : NmState} {u : FileUpdate} {file : FileEntry} {job : Job} (h : job ∈ updateJobs nm u file) :
    ∃ task ofUpdate, job = .schedule task ofUpdate := by
  unfold updateJobs at h
  split_ifs at h
  · exact ⟨_, _, List.mem_singleton.1 h⟩
  · exact ⟨_, _, List.mem_singleton.1 h⟩
  · cases h

/-- An update that is not of a file in the table changes nothing. -/
theorem handleSsFileUpdate_cases (nm : NmState) (json : Text) :
    handleSsFileUpdate nm json = (nm, []) ∨ ∃ u file, readFileUpdate json = some u ∧ nmFindFile nm u.file = some file ∧
      handleSsFileUpdate nm json = (fileUpdate nm u, updateJobs nm u file) := by
  unfold handleSsFileUpdate
  split
  · exact .inl rfl
  · next u hread =>
    split
    · exact .inl rfl
    · next file hfind => exact .inr ⟨u, file, hread, hfind, rfl⟩

theorem changes_of_step {nm nm' : NmState} (e : Event) (he : e.KeepsApart) (h : tablesStep nm e = some nm') :
    Changes nm nm' := .inr ⟨e, he, h⟩

namespace Replication

theorem mem_jobs_spawn {s : Replication} {nm : NmState} {jobs : List Job} {job : Job}
    (h : job ∈ (s.spawn nm jobs).jobs) : job ∈ s.jobs ∨ job ∈ jobs := by
  unfold spawn Replication.jobs at h
  rw [List.flatten_append, List.flatten_singleton, List.mem_append] at h
  exact h

/-- After a run of the first job of a thread there are its new jobs, and those of before. -/
theorem mem_jobs_run {s : Replication} {t : Nat} {job : Job} {rest new : List Job}
    (ht : s.threads[t]? = some (job :: rest)) {j : Job} (h : j ∈ (s.threads.set t (new ++ rest)).flatten) :
    j ∈ s.jobs ∨ j ∈ new := by
  obtain ⟨thread, hthread, hj⟩ := List.mem_flatten.1 h
  rcases List.mem_or_eq_of_mem_set hthread with hold | rfl
  · exact .inl (List.mem_flatten.2 ⟨thread, hold, hj⟩)
  · rcases List.mem_append.1 hj with hnew | hrest
    · exact .inr hnew
    · exact .inl (List.mem_flatten.2 ⟨_, List.mem_of_getElem? ht, List.mem_cons_of_mem _ hrest⟩)

/-- What every step keeps: the tables are those of a run of their own. -/
structure Inv (s : Replication) : Prop where
  tables : ∃ tr, tables.Run tr s.nm
  placed : s.nm.Placed
  jobs : ∀ job ∈ s.jobs, job.Valid s.nm.servers.length

/-- A step changes the tables as one section does, and leaves valid jobs. -/
theorem step_spec {s t : Replication} {e : Event} (hjobs : ∀ job ∈ s.jobs, job.Valid s.nm.servers.length)
    (hs : s.step e = some t) : Changes s.nm t.nm ∧ ∀ job ∈ t.jobs, job.Valid s.nm.servers.length := by
  have hspawn {nm : NmState} {new : List Job} (hnew : ∀ j ∈ new, j.Valid s.nm.servers.length)
      (u : Replication) (hu : u.threads = s.threads) : ∀ job ∈ (u.spawn nm new).jobs, job.Valid s.nm.servers.length := by
    intro job hjob
    rcases mem_jobs_spawn hjob with hold | hjob
    · unfold Replication.jobs at hold
      rw [hu] at hold
      exact hjobs job hold
    · exact hnew job hjob
  cases e with
  | create user json =>
    have hchange : Changes s.nm (createBegin s.nm user.text json).2 :=
      changes_of_step (.createBegin user json) trivial rfl
    simp only [step] at hs
    split at hs
    · next name i nm hbegin =>
      rw [hbegin] at hchange
      obtain ⟨file, -, rfl⟩ := Option.map_eq_some_iff.1 hs
      refine ⟨hchange, hspawn ?_ s rfl⟩
      intro j hj
      rw [List.mem_singleton.1 hj]
      exact createBegin_lt hbegin
    · next hbegin =>
      rw [hbegin] at hchange
      cases hs
      exact ⟨hchange, hjobs⟩
  | delete user json =>
    have hchange : Changes s.nm (deleteBegin s.nm user.text json).2 :=
      changes_of_step (.deleteBegin user json) trivial rfl
    simp only [step] at hs
    split at hs
    · next hbegin =>
      rw [hbegin] at hchange
      cases hs
      refine ⟨hchange, hspawn ?_ s rfl⟩
      intro j hj
      rw [List.mem_singleton.1 hj]
      trivial
    · next hbegin =>
      rw [hbegin] at hchange
      cases hs
      exact ⟨hchange, hjobs⟩
  | register json fd =>
    have hchange : Changes s.nm (handleSsRegister s.nm json fd).2 :=
      changes_of_step (.register json fd) trivial rfl
    simp only [step] at hs
    split at hs
    · next hregister =>
      rw [hregister] at hchange
      cases hs
      refine ⟨hchange, hspawn ?_ s rfl⟩
      intro j hj
      rw [List.mem_singleton.1 hj]
      trivial
    · next hregister =>
      rw [hregister] at hchange
      cases hs
      exact ⟨hchange, hjobs⟩
  | disconnect server =>
    cases hs
    refine ⟨changes_of_step (.disconnect server) trivial rfl, hspawn ?_ s rfl⟩
    intro j hj
    obtain ⟨name, -, rfl⟩ := List.mem_map.1 hj
    trivial
  | send json =>
    cases hs
    exact ⟨.inl rfl, hjobs⟩
  | deliver i =>
    obtain ⟨json, -, hs⟩ := Option.bind_eq_some_iff.1 hs
    rcases handleSsFileUpdate_cases s.nm json with heq | ⟨u, file, hread, -, heq⟩
    · rw [heq] at hs
      cases hs
      refine ⟨.inl rfl, hspawn ?_ _ rfl⟩
      intro j hj
      cases hj
    · rw [heq] at hs
      cases hs
      refine ⟨changes_of_step (.fileUpdate json) trivial ?_, hspawn ?_ _ rfl⟩
      · rw [tablesStep, hread]
        rfl
      · intro j hj
        obtain ⟨task, ofUpdate, rfl⟩ := mem_updateJobs hj
        trivial
  | other e =>
    obtain ⟨hother, hs⟩ := Option.ite_none_right_eq_some.1 hs
    obtain ⟨nm, hnm, rfl⟩ := Option.map_eq_some_iff.1 hs
    have hapart : e.KeepsApart := by cases e <;> trivial
    exact ⟨changes_of_step e hapart hnm, hjobs⟩
  | run t o =>
    simp only [step] at hs
    split at hs
    · next job rest ht =>
      obtain ⟨⟨nm, queue, new⟩, hrun, rfl⟩ := Option.map_eq_some_iff.1 hs
      have hjob : job.Valid s.nm.servers.length :=
        hjobs job (List.mem_flatten.2 ⟨_, List.mem_of_getElem? ht, List.mem_cons_self⟩)
      obtain ⟨hchange, hnew⟩ := Job.run_spec hjob hrun
      refine ⟨hchange, ?_⟩
      intro j hj
      rcases mem_jobs_run ht hj with hold | hj
      · exact hjobs j hold
      · exact hnew j hj
    · cases hs

theorem Inv.stored {s : Replication} (h : s.Inv) : s.nm.Stored := by
  obtain ⟨tr, hrun⟩ := h.tables
  exact stored_of_run hrun

theorem inv_initial : initial.Inv := by
  refine ⟨⟨[], .start rfl⟩, ?_, ?_⟩
  · intro file hfile
    cases hfile
  · intro job hjob
    rw [List.mem_singleton.1 hjob]
    trivial

theorem Inv.step {s t : Replication} {e : Event} (h : s.Inv) (hs : s.step e = some t) : t.Inv := by
  obtain ⟨hchange, hjobs⟩ := step_spec h.jobs hs
  rcases hchange with heq | ⟨e', hapart, hstep⟩
  · refine ⟨?_, ?_, ?_⟩
    · rw [heq]
      exact h.tables
    · rw [heq]
      exact h.placed
    · rw [heq]
      exact hjobs
  · refine ⟨?_, placed_step h.stored h.placed hstep hapart, ?_⟩
    · obtain ⟨tr, hrun⟩ := h.tables
      exact ⟨_, hrun.step hstep⟩
    · intro job hjob
      exact (hjobs job hjob).mono (servers_length_le hstep)

theorem inv_of_run {tr : List (Replication × Event)} {s : Replication} (h : system.Run tr s) : s.Inv := by
  refine h.invariant (I := Inv) (G := fun _ _ => True) ?_ ?_ fun _ _ => trivial
  · rintro _ rfl
    exact inv_initial
  · intro s e t hI _ hs
    exact hI.step hs

/-- An entry gets another primary only if that was its backup, available at the time. -/
def MovesToBackup (nm nm' : NmState) : Prop :=
  ∀ file ∈ nm.files, ∀ file' ∈ nm'.files, file'.name = file.name → file'.ssIndex ≠ file.ssIndex →
    file'.ssIndex = file.backupIndex ∧ nm.available file.backupIndex = true ∧
      nm'.available file.backupIndex = true

theorem movesToBackup_of_changes {nm nm' : NmState} (hs : nm.Stored) (h : Changes nm nm') : MovesToBackup nm nm' := by
  intro file hfile file' hfile' hname hne
  rcases h with rfl | ⟨e, -, hstep⟩
  · rw [List.inj_on_of_nodup_map hs.names hfile' hfile hname] at hne
    exact absurd rfl hne
  · rcases placement_step hs hstep hfile' with ⟨before, hbefore, hname', hmoves⟩ | ⟨_, _, _, _, _, -, hname', hnew, -⟩
    · obtain rfl := List.inj_on_of_nodup_map hs.names hbefore hfile (hname'.symm.trans hname)
      cases hmoves with
      | kept primary backup => exact absurd primary hne
      | dropped primary backup => exact absurd primary hne
      | takenOver primary backup before after => exact ⟨primary, before, after⟩
      | assigned primary name backup event assigned => exact absurd primary hne
    · exact absurd (hname.symm.trans hname') (hnew file hfile)

/-- **Files stay with servers that have them**: in every run each file has a primary and perhaps another server
as its backup, and the next step gives a file another primary only by making its available backup the primary. -/
theorem placed_of_run {tr : List (Replication × Event)} {s : Replication} (h : system.Run tr s) :
    s.nm.Placed ∧ ∀ e t, s.step e = some t → MovesToBackup s.nm t.nm := by
  have hI := inv_of_run h
  refine ⟨hI.placed, ?_⟩
  intro e t hs
  exact movesToBackup_of_changes hI.stored (step_spec hI.jobs hs).1

/-- The message of a storage server that registers. -/
def registration (id : Text) : Text :=
  printMessage
    [(Text.lit "ssId", .string id), (Text.lit "host", .string (Text.lit "127.0.0.1")),
      (Text.lit "ctrlPort", .string (Text.lit "0")), (Text.lit "dataPort", .string (Text.lit "9001"))]

theorem isTime_epoch : LONG_MIN ≤ 0 ∧ 0 ≤ LONG_MAX := by decide

/-- Everything succeeds. -/
def allOk : Outcome := ⟨.ok, true, ⟨0, isTime_epoch.1, isTime_epoch.2⟩⟩

/-- Two servers register and Alice makes a file, with the second server as its backup. -/
def placeFile (file : FileName) : List Event :=
  [.register (registration (Text.lit "ss1")) 4, .register (registration (Text.lit "ss2")) 5,
    .create alice (printMessage [(Text.lit "file", .string file.text)]), .run 3 allOk, .run 3 allOk, .run 3 allOk,
    .run 3 allOk]

/-- A file follows its backup when its primary is lost. -/
theorem placed_notes : ∃ tr s t, system.Run tr s ∧ s.step (.disconnect 0) = some t ∧
    t.nm.files.map FileEntry.ssIndex ≠ s.nm.files.map FileEntry.ssIndex ∧ s.nm.Placed ∧ MovesToBackup s.nm t.nm := by
  have hexec : (System.exec step [] initial (placeFile ⟨Text.lit "notes", by decide, by decide⟩)).map (fun r =>
      decide (r.2.nm.files.map FileEntry.ssIndex = [0]) && (r.2.step (.disconnect 0)).any fun t =>
        decide (t.nm.files.map FileEntry.ssIndex = [1])) = some true := by decide +kernel
  obtain ⟨⟨tr, s⟩, hexec, hcheck⟩ := Option.map_eq_some_iff.1 hexec
  have hrun : system.Run tr s := System.Run.exec (.start rfl) hexec
  obtain ⟨hbefore, hafter⟩ := Bool.and_eq_true_iff.1 hcheck
  obtain ⟨t, hs, ht⟩ := (Option.any_eq_true ..).1 hafter
  refine ⟨tr, s, t, hrun, hs, ?_, (placed_of_run hrun).1, (placed_of_run hrun).2 _ _ hs⟩
  rw [of_decide_eq_true hbefore, of_decide_eq_true ht]
  decide

end Replication

end CoWrite.Nm
