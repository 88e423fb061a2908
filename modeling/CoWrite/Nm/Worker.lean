import CoWrite.Nm.Replication

/-!
# The replication worker alone

When no message arrives, only `replication_worker` changes the queue. A task it takes leaves the queue for good,
but for a sync that fails, which drops the backup and puts a task to assign another one into its place, and for an
assignment that fails, which is put back as it was. `emptied_iff`: the loop comes to rest on an empty queue exactly
when only finitely many assignments fail.
-/

namespace CoWrite.Nm

open CoWrite.Lib

/-! ## A measure for tasks and jobs -/

/-- What a task still costs in the queue. -/
def ReplicationTask.weight (task : ReplicationTask) : Nat := if task.assignMode then 6 else 13

/-- What a job of the worker still costs, if no assignment fails. -/
def Job.weight : Job → Nat
  | .examine task => if task.assignMode then 5 else 12
  | .check .. => 11
  | .choose task _ => if task.assignMode then 4 else 11
  | .sync task .. => if task.assignMode then 3 else 10
  | .conclude .. => 1
  | .failure task _ => if task.assignMode then 0 else 9
  | .tryAssign _ => 8
  | .schedule task _ => task.weight + 1
  | _ => 0

/-- The jobs of a round of the worker. -/
def Job.isWork : Job → Bool
  | .examine _ | .check .. | .choose .. | .sync .. | .conclude .. | .failure .. | .tryAssign _ | .schedule .. => true
  | _ => false

def jobsWeight (jobs : List Job) : Nat := (jobs.map Job.weight).sum

def queueWeight (queue : List ReplicationTask) : Nat := (queue.map ReplicationTask.weight).sum

/-- An assignment has failed. -/
def Job.FailsAssign : Job → Prop
  | .failure task _ => task.assignMode = true
  | _ => False

theorem queueWeight_schedule {queue queue' : List ReplicationTask} {task : ReplicationTask} {pushed : Bool}
    (h : scheduleReplication queue task pushed = some queue') : queueWeight queue' ≤ queueWeight queue + task.weight := by
  unfold scheduleReplication at h
  split_ifs at h
  · cases h
    omega
  · cases h
    simp [queueWeight]

theorem tryAssignBackup_assigns {nm : NmState} {name : Text} {task : ReplicationTask}
    (h : tryAssignBackup nm name = some task) : task.assignMode = true := by
  unfold tryAssignBackup at h
  split_ifs at h
  obtain ⟨file, -, h⟩ := Option.bind_eq_some_iff.1 h
  split_ifs at h
  cases h
  rfl

/-- **Each job of a round costs more than what it comes to**, unless it is an assignment that failed. -/
theorem Job.run_weight {nm nm' : NmState} {queue queue' : List ReplicationTask} {o : Outcome} {job : Job}
    {new : List Job} (hwork : job.isWork = true) (hfails : ¬ job.FailsAssign)
    (h : job.run nm queue o = some (nm', queue', new)) :
    queueWeight queue' + jobsWeight new < queueWeight queue + job.weight := by
  cases job with
  | examine task =>
    cases h
    unfold examineTask
    split
    · simp [jobsWeight, Job.weight]
      split <;> omega
    · split_ifs with hstale hassign
      · simp [jobsWeight, Job.weight]
        split <;> omega
      · simp [jobsWeight, Job.weight, hassign]
      · simp [jobsWeight, Job.weight, hassign]
  | check task owner =>
    cases h
    unfold checkTask
    split
    · simp [jobsWeight, Job.weight]
    · split_ifs
      · simp [jobsWeight, Job.weight]
      · simp [jobsWeight, Job.weight]
        split <;> omega
  | choose task owner =>
    cases h
    unfold chooseTarget
    split
    · simp [jobsWeight, Job.weight]
      split <;> omega
    · simp [jobsWeight, Job.weight]
      split <;> omega
  | sync task owner target =>
    cases h
    unfold syncTask
    split
    · simp [jobsWeight, Job.weight]
      split <;> omega
    · simp [jobsWeight, Job.weight]
      split <;> omega
  | conclude task target =>
    cases h
    simp [jobsWeight, Job.weight]
  | failure task attempted =>
    have hassign : task.assignMode = false := Bool.eq_false_of_not_eq_true hfails
    simp only [Job.run, Option.some.injEq, Prod.mk.injEq] at h
    obtain ⟨-, rfl, rfl⟩ := h
    split
    · simp [jobsWeight, Job.weight, hassign]
    · simp [jobsWeight, Job.weight, hassign]
  | tryAssign name =>
    cases h
    cases htry : tryAssignBackup nm name with
    | none => simp [jobsWeight, Job.weight]
    | some task => simp [jobsWeight, Job.weight, ReplicationTask.weight, tryAssignBackup_assigns htry]
  | schedule task ofUpdate =>
    simp only [Job.run] at h
    split at h
    · next hschedule =>
      cases h
      have := queueWeight_schedule hschedule
      simp only [jobsWeight, Job.weight, List.map_nil, List.sum_nil]
      omega
    · cases h
      split
      · simp [jobsWeight, Job.weight, ReplicationTask.weight]
        split <;> omega
      · simp [jobsWeight, Job.weight]
  | _ => cases hwork

/-- A job of a round does not wait. -/
theorem Job.run_isSome (nm : NmState) (queue : List ReplicationTask) (o : Outcome) {job : Job}
    (hwork : job.isWork = true) : ∃ r, job.run nm queue o = some r := by
  cases job with
  | schedule task ofUpdate =>
    simp only [Job.run]
    cases scheduleReplication queue task o.pushed with
    | some queue => exact ⟨_, rfl⟩
    | none => exact ⟨_, rfl⟩
  | next => cases hwork
  | scan i => cases hwork
  | createPrimary user file primary => cases hwork
  | createBackup user file primary count i => cases hwork
  | createEnd user file primary backup => cases hwork
  | deletePrimary name server => cases hwork
  | _ => exact ⟨_, rfl⟩

/-- It leaves jobs of the round. -/
theorem Job.run_isWork {nm nm' : NmState} {queue queue' : List ReplicationTask} {o : Outcome} {job : Job}
    {new : List Job} (hwork : job.isWork = true) (h : job.run nm queue o = some (nm', queue', new)) :
    ∀ j ∈ new, j.isWork = true := by
  intro j hj
  cases job with
  | examine task =>
    cases h
    obtain ⟨owner, ⟨-, rfl⟩ | ⟨-, rfl⟩⟩ := mem_examineTask hj
    · rfl
    · rfl
  | check task owner =>
    cases h
    rw [mem_checkTask hj]
    rfl
  | choose task owner =>
    cases h
    obtain ⟨i, -, rfl⟩ := mem_chooseTarget hj
    rfl
  | sync task owner target =>
    cases h
    rcases mem_syncTask hj with rfl | rfl
    · rfl
    · rfl
  | conclude task target =>
    cases h
    cases hj
  | failure task attempted =>
    simp only [Job.run, Option.some.injEq, Prod.mk.injEq] at h
    obtain ⟨-, -, rfl⟩ := h
    rw [List.mem_ite_nil_right, List.mem_singleton] at hj
    rw [hj.2]
    rfl
  | tryAssign name =>
    cases h
    obtain ⟨task, -, rfl⟩ := List.mem_map.1 hj
    rfl
  | schedule task ofUpdate =>
    simp only [Job.run] at h
    split at h
    · cases h
      cases hj
    · cases h
      rw [List.mem_ite_nil_right, List.mem_singleton] at hj
      rw [hj.2]
      rfl
  | _ => cases hwork

/-! ## The worker alone -/

namespace Replication

/-- The worker goes on, section by section, with the outcomes `o`; where it waits nothing happens. -/
def work (s : Replication) (o : Nat → Outcome) : Nat → Replication
  | 0 => s
  | n + 1 => ((work s o n).step (.run 0 (o n))).getD (work s o n)

/-- There is no task, and the worker waits for one. -/
def Idle (s : Replication) : Prop := s.queue = [] ∧ s.threads = [[.next]]

/-- The next section is `handle_replication_failure` of an assignment: its sync has failed. -/
def FailsAssign (s : Replication) : Prop := ∃ job jobs, s.threads[0]? = some (job :: jobs) ∧ job.FailsAssign

/-- The worker is the only thread. -/
def Working (s : Replication) : Prop := ∃ jobs, s.threads = [jobs ++ [.next]] ∧ ∀ job ∈ jobs, job.isWork = true

def weight (s : Replication) : Nat := queueWeight s.queue + jobsWeight s.jobs

/-- A section of the worker: it waits, or takes a task, or does a job of its round. -/
theorem Working.step {s : Replication} (h : s.Working) (o : Outcome) :
    (s.Idle ∧ s.step (.run 0 o) = none) ∨
      ∃ t, s.step (.run 0 o) = some t ∧ t.Working ∧ ¬ s.Idle ∧ (¬ s.FailsAssign → t.weight < s.weight) := by
  obtain ⟨nm, queue, threads, updates⟩ := s
  obtain ⟨jobs, rfl, hjobs⟩ := h
  cases jobs with
  | nil =>
    cases queue with
    | nil => exact .inl ⟨⟨rfl, rfl⟩, rfl⟩
    | cons task queue =>
      refine .inr ⟨_, rfl, ⟨[.examine task], rfl, ?_⟩, ?_, ?_⟩
      · intro job hjob
        rw [List.mem_singleton.1 hjob]
        rfl
      · rintro ⟨hqueue, -⟩
        cases hqueue
      · intro _
        simp only [weight, queueWeight, jobsWeight, Replication.jobs, ReplicationTask.weight, Job.weight,
          List.map_cons, List.sum_cons, List.nil_append, List.cons_append, List.set_cons_zero, List.flatten_singleton,
          List.map_nil, List.sum_nil]
        split <;> omega
  | cons job jobs =>
    obtain ⟨hjob, hrest⟩ := List.forall_mem_cons.1 hjobs
    obtain ⟨⟨nm', queue', new⟩, hrun⟩ := Job.run_isSome nm queue o hjob
    have hstep : Replication.step ⟨nm, queue, [job :: jobs ++ [.next]], updates⟩ (.run 0 o) =
        some ⟨nm', queue', [new ++ (jobs ++ [.next])], updates⟩ := by
      simp only [Replication.step, List.cons_append, List.getElem?_cons_zero, hrun]
      rfl
    refine .inr ⟨_, hstep, ⟨new ++ jobs, by rw [List.append_assoc], ?_⟩, ?_, ?_⟩
    · intro j hj
      rcases List.mem_append.1 hj with hj | hj
      · exact Job.run_isWork hjob hrun j hj
      · exact hrest j hj
    · rintro ⟨-, hthreads⟩
      obtain ⟨rfl, -⟩ := List.cons.inj (List.cons.inj hthreads).1
      cases hjob
    · intro hfails
      have hlt := Job.run_weight hjob (fun hj => hfails ⟨job, _, rfl, hj⟩) hrun
      simp only [weight, Replication.jobs, jobsWeight, List.flatten_singleton, List.map_append, List.map_cons,
        List.sum_append, List.sum_cons, List.cons_append] at hlt ⊢
      omega

theorem not_failsAssign_of_idle {s : Replication} (h : s.Idle) : ¬ s.FailsAssign := by
  rintro ⟨job, jobs, hthread, hjob⟩
  rw [h.2, List.getElem?_cons_zero] at hthread
  cases hthread
  exact hjob

theorem working_work {s : Replication} (h : s.Working) (o : Nat → Outcome) (n : Nat) : (s.work o n).Working := by
  induction n with
  | zero => exact h
  | succ n ih =>
    rcases ih.step (o n) with ⟨-, hstep⟩ | ⟨t, hstep, ht, -, -⟩
    · rw [work, hstep]
      exact ih
    · rw [work, hstep]
      exact ht

/-- **The loop comes to rest** on an empty queue, from any tables and queue, exactly when only finitely many
assignments fail. -/
theorem emptied_iff (nm : NmState) (queue : List ReplicationTask) (o : Nat → Outcome) :
    (∃ n, (work ⟨nm, queue, [[.next]], []⟩ o n).Idle) ↔
      ∃ N, ∀ n, N ≤ n → ¬ (work ⟨nm, queue, [[.next]], []⟩ o n).FailsAssign := by
  have hworking (n : Nat) : (work ⟨nm, queue, [[.next]], []⟩ o n).Working :=
    working_work ⟨[], rfl, by simp⟩ o n
  refine stops_iff weight ?_ ?_
  · intro n hidle
    refine ⟨?_, not_failsAssign_of_idle hidle⟩
    rcases (hworking n).step (o n) with ⟨-, hstep⟩ | ⟨t, -, -, hbusy, -⟩
    · rw [work, hstep]
      exact hidle
    · exact absurd hidle hbusy
  · intro n hbusy hfails
    rcases (hworking n).step (o n) with ⟨hidle, -⟩ | ⟨t, hstep, -, -, hlt⟩
    · exact absurd hidle hbusy
    · rw [work, hstep]
      exact hlt hfails

/-! ## An assignment that fails again and again -/

/-- The states of a round with one task, to assign the backup `i`, whose sync fails. -/
def failingRound (nm : NmState) (task : ReplicationTask) (owner : Text) (i : Nat) : List Replication :=
  [⟨nm, [task], [[.next]], []⟩, ⟨nm, [], [[.examine task, .next]], []⟩, ⟨nm, [], [[.choose task owner, .next]], []⟩,
    ⟨nm, [], [[.sync task owner i, .next]], []⟩, ⟨nm, [], [[.failure task i, .next]], []⟩,
    ⟨nm, [], [[.tryAssign task.file, .next]], []⟩, ⟨nm, [], [[.schedule task false, .next]], []⟩]

/-- Each of them is followed by one of them. -/
theorem failingRound_step {nm : NmState} {task : ReplicationTask} {file : FileEntry} {i : Nat} {o : Outcome}
    (hfind : nmFindFile nm task.file = some file) (htask : tryAssignBackup nm task.file = some task)
    (hcandidate : backupCandidate nm task.primaryIndex = some i) (hreply : o.reply ≠ .ok) (hpushed : o.pushed = true)
    {s : Replication} (hs : s ∈ failingRound nm task file.owner i) :
    ∃ t ∈ failingRound nm task file.owner i, s.step (.run 0 o) = some t := by
  obtain ⟨hname, hprimary, h0, hassign⟩ :
      task.file ≠ [] ∧ task.primaryIndex = file.ssIndex ∧ 0 ≤ task.primaryIndex ∧ task.assignMode = true := by
    have h := htask
    unfold tryAssignBackup at h
    split_ifs at h with hname
    rw [hfind, Option.bind_some] at h
    split_ifs at h with hplaced
    have hprimary := congrArg ReplicationTask.primaryIndex (Option.some.inj h)
    refine ⟨hname, hprimary.symm, ?_, tryAssignBackup_assigns htask⟩
    rw [← hprimary]
    exact Int.not_lt.1 fun hlt => hplaced (.inr hlt)
  simp only [failingRound, List.mem_cons, List.not_mem_nil, or_false] at hs
  rcases hs with rfl | rfl | rfl | rfl | rfl | rfl | rfl
  · refine ⟨_, List.mem_cons_of_mem _ List.mem_cons_self, rfl⟩
  · have hexamine : examineTask nm task = [.choose task file.owner] := by
      rw [examineTask, hfind]
      dsimp only
      rw [if_neg (by omega), if_pos hassign]
    refine ⟨⟨nm, [], [[.choose task file.owner, .next]], []⟩, by simp [failingRound], ?_⟩
    simp [step, Job.run, hexamine]
  · have hchoose : chooseTarget nm task file.owner = [.sync task file.owner i] := by
      rw [chooseTarget, hcandidate]
    refine ⟨⟨nm, [], [[.sync task file.owner i, .next]], []⟩, by simp [failingRound], ?_⟩
    simp [step, Job.run, hchoose]
  · have hsync : syncTask nm task i o.reply = [.failure task i] := if_neg fun h => hreply h.2
    refine ⟨⟨nm, [], [[.failure task i, .next]], []⟩, by simp [failingRound], ?_⟩
    simp [step, Job.run, hsync]
  · have hfailure : handleReplicationFailure nm task i = (nm, true) := if_pos hassign
    refine ⟨⟨nm, [], [[.tryAssign task.file, .next]], []⟩, by simp [failingRound], ?_⟩
    simp [step, Job.run, hfailure]
  · refine ⟨⟨nm, [], [[.schedule task false, .next]], []⟩, by simp [failingRound], ?_⟩
    simp [step, Job.run, htask]
  · have hschedule : scheduleReplication [] task o.pushed = some [task] := by
      rw [scheduleReplication, if_neg, hpushed]
      · rfl
      · rw [hassign]
        simp [hname, h0]
    refine ⟨⟨nm, [task], [[.next]], []⟩, by simp [failingRound], ?_⟩
    simp [step, Job.run, hschedule]

theorem not_idle_of_failingRound {nm : NmState} {task : ReplicationTask} {owner : Text} {i : Nat} {s : Replication}
    (h : s ∈ failingRound nm task owner i) : ¬ s.Idle := by
  rintro ⟨hqueue, hthreads⟩
  simp only [failingRound, List.mem_cons, List.not_mem_nil, or_false] at h
  rcases h with rfl | rfl | rfl | rfl | rfl | rfl | rfl
  · cases hqueue
  all_goals cases hthreads

/-- While a file has no backup, another server is available and every sync is refused, the task comes back. -/
theorem never_idle {nm : NmState} {task : ReplicationTask} {file : FileEntry} {i : Nat} {o : Outcome}
    (hfind : nmFindFile nm task.file = some file) (htask : tryAssignBackup nm task.file = some task)
    (hcandidate : backupCandidate nm task.primaryIndex = some i) (hreply : o.reply ≠ .ok) (hpushed : o.pushed = true)
    (n : Nat) : ¬ (work ⟨nm, [task], [[.next]], []⟩ (fun _ => o) n).Idle := by
  have hround : work ⟨nm, [task], [[.next]], []⟩ (fun _ => o) n ∈ failingRound nm task file.owner i := by
    induction n with
    | zero => exact List.mem_cons_self
    | succ n ih =>
      obtain ⟨t, ht, hstep⟩ := failingRound_step hfind htask hcandidate hreply hpushed ih
      rw [work, hstep]
      exact ht
  exact not_idle_of_failingRound hround

/-- A file is made while there is one server, and another server registers: a backup is to be assigned. -/
def lateBackup (file : FileName) : List Event :=
  [.register (registration (Text.lit "ss1")) 4, .create alice (printMessage [(Text.lit "file", .string file.text)]),
    .run 2 allOk, .run 2 allOk, .run 2 allOk, .run 2 allOk, .register (registration (Text.lit "ss2")) 5, .run 3 allOk,
    .run 3 allOk, .run 3 allOk]

/-- Both servers are available and the second one refuses every sync: the queue is never empty for long. -/
theorem refused_for_ever : ∃ tr s o, system.Run tr s ∧ (∀ n, (o n).reply = .refused) ∧
    ∀ n, ¬ (work ⟨s.nm, s.queue, [[.next]], []⟩ o n).Idle := by
  have hexec : (System.exec step [] initial (lateBackup ⟨Text.lit "notes", by decide, by decide⟩)).map (fun r =>
      decide (r.2.queue = [newTask (Text.lit "notes") (Text.lit "alice") 0 (-1) true]) &&
        (nmFindFile r.2.nm (Text.lit "notes")).isSome &&
        decide (tryAssignBackup r.2.nm (Text.lit "notes") =
          some (newTask (Text.lit "notes") (Text.lit "alice") 0 (-1) true)) &&
        decide (backupCandidate r.2.nm 0 = some 1)) = some true := by decide +kernel
  obtain ⟨⟨tr, s⟩, hexec, hcheck⟩ := Option.map_eq_some_iff.1 hexec
  simp only [Bool.and_eq_true, decide_eq_true_eq] at hcheck
  obtain ⟨⟨⟨hqueue, hfind⟩, htask⟩, hcandidate⟩ := hcheck
  obtain ⟨file, hfind⟩ := Option.isSome_iff_exists.1 hfind
  refine ⟨tr, s, fun _ => ⟨.refused, true, allOk.now⟩, System.Run.exec (.start rfl) hexec, fun _ => rfl, ?_⟩
  intro n
  rw [hqueue]
  exact never_idle hfind htask hcandidate Reply.noConfusion rfl n

end Replication

end CoWrite.Nm
