import CoWrite.Cluster.Effects

/-!
# Backups that lag behind

An update of a file makes the name manager queue a sync when it tells another time of the last change than the one
that is recorded. The time is in seconds, so a change in the second that is recorded is told and not synced.

* `Mirroring`: the servers and the name manager with its threads, the updates on the way, and the text that the sync
  under way has fetched. No server is lost, and no sync fails.
* `Inv`: the backup of a file, or the server that the sync under way is for, has the text of the primary, is about to
  store it, or a sync is due. `Inv.mirrored`: so the texts are the same when nothing is on the way.
* `Inv.serve`, `Inv.change`, `Inv.carryOut`: what a server does keeps it.
-/

namespace CoWrite.Cluster

open CoWrite.Lib
open CoWrite.Nm
open CoWrite.Ss (Server Env Op Placed Replaces dataPath)
open Reporting (OnTime FitsInt isPrimary_of_mem isSome_of_isPrimary)

/-- Every server of the table is available. -/
def allUp (nm : NmState) : Bool := (List.range nm.servers.length).all fun (i : Nat) => nm.available i

/-- The events of the name manager that place files or handle updates. -/
def takesPart : Replication.Event → Bool
  | .register .. | .create .. | .deliver _ => true
  | _ => false

/-- What is left of a round of the worker. -/
def isRound : Job → Bool
  | .examine _ | .check .. | .choose .. | .sync .. | .conclude .. => true
  | _ => false

/-- No other file of the server has its text where the operation writes. -/
def LeavesOthers (dir : Text) (srv : Server) (op : Op) : Prop :=
  ∀ file ∈ srv.state.files, file.name ≠ op.file.text → dataPath dir file.name ∉ op.paths dir

structure Mirroring extends Holding where
  /-- What the backup has fetched of the file that it syncs. -/
  fetched : Option Text

namespace Mirroring

inductive Event where
  | manager (e : Replication.Event)
  /-- The first job of a thread; `op` is what the server that it asks carries out. -/
  | run (t : Nat) (o : Nm.Outcome) (op : Option Op)
  /-- The backup reads the text on the primary. -/
  | fetch
  /-- A commit, an undo, a revert or a checkpoint, with its update. -/
  | change (k : Nat) (op : Op)

/-- No sync fails: the backup stores what it has fetched, and every task finds room in the queue. -/
def goesWell (s : Mirroring) (job : Job) (o : Nm.Outcome) (op : Option Op) : Bool :=
  o.pushed &&
    match job, op with
    | .sync task _ target, some (.sync _ _ _ content) =>
      canReplicate s.manager.nm task.primaryIndex target && o.reply == .ok && s.fetched == some content
    | .sync .., _ => false
    | _, _ => true

/-- Where the operation takes place. -/
def permits (s : Mirroring) (k : Nat) : Op → Bool
  | .commit _ file _ _ | .undo _ file _ => isPrimary s.manager.nm k file.text
  | .revert _ file _ _ | .checkpoint _ file _ => (nmFindFile s.manager.nm file.text).isSome
  | _ => false

/-- The text of the file, as the server reads it. -/
def readText (srv : Server) (name : Text) : Option Text := (srv.state.entry name).bind fun view => srv.fs view.dataPath

/-- The operation on the server. -/
def serve (s : Mirroring) (k : Nat) (srv : Server) : Mirroring := { s with servers := Function.update s.servers k srv }

/-- The updates are sent. -/
def send (s : Mirroring) (frames : List Text) : Mirroring :=
  { s with manager := { s.manager with updates := s.manager.updates ++ frames } }

def step (s : Mirroring) : Event → Option Mirroring
  | .manager e =>
    if takesPart e then
      ((s.toHolding.step (.manager e)).filter fun h => allUp h.manager.nm).map fun h => { s with toHolding := h }
    else none
  | .run t o op =>
    (s.firstJob t).bind fun job =>
      if s.goesWell job o op then
        ((s.toHolding.step (.run t o op)).filter fun h => allUp h.manager.nm).map fun h =>
          { toHolding := h, fetched := if t = 0 then none else s.fetched }
      else none
  | .fetch =>
    match s.firstJob 0 with
    | some (.sync task _ _) =>
      if s.fetched.isNone then
        (readText (s.servers task.primaryIndex.toNat) task.file).map fun text => { s with fetched := some text }
      else none
    | _ => none
  | .change k op =>
    if s.permits k op then
      some ((s.send (Ss.CountEvent.notices op.file (s.servers k) (.op op))).serve k (op.run (s.servers k)))
    else none

/-- The name manager starts; the servers may have files. -/
structure Started (dirs : Nat → Text) (s : Mirroring) : Prop where
  manager : s.manager = .initial
  placed : ∀ k, Placed (dirs k) (s.servers k).state
  sized : ∀ k name view, (s.servers k).state.entry name = some view → Sized view
  fetched : s.fetched = none

def system (dirs : Nat → Text) : System Mirroring Event := .ofStep (Started dirs) step

/-! ## What is kept -/

/-- The text of the file on the server. -/
def stored (dirs : Nat → Text) (s : Mirroring) (k : Nat) (name : Text) : Option Text :=
  (s.servers k).fs (dataPath (dirs k) name)

/-- The job comes to a sync of the file that has not fetched its text. -/
def leads (s : Mirroring) (name : Text) : Job → Prop
  | .schedule task _ | .examine task | .check task _ | .choose task _ => task.file = name
  | .sync task _ _ => task.file = name ∧ s.fetched = none
  | _ => False

/-- A sync of the file is to come: an update is on the way with another time than the one recorded, or a task is
queued or begun. -/
def Due (s : Mirroring) (file : FileEntry) : Prop :=
  (∃ frame ∈ s.manager.updates, ∃ u ∈ readFileUpdate frame, u.file = file.name ∧ u.stamp file ≠ file.modified) ∨
    (∃ task ∈ s.manager.queue, task.file = file.name) ∨ ∃ job ∈ s.manager.jobs, s.leads file.name job

/-- The server that the sync under way has brought the file to, or brings it to. -/
def target (s : Mirroring) (name : Text) : Option Int :=
  match s.firstJob 0 with
  | some (.sync task _ target) => if task.file = name ∧ s.fetched ≠ none then some target else none
  | some (.conclude task target) => if task.file = name then some target else none
  | _ => none

/-- The server is to have the text of the file. -/
def Watched (s : Mirroring) (file : FileEntry) (c : Int) : Prop :=
  (c = file.backupIndex ∧ 0 ≤ c) ∨ s.target file.name = some c

/-- What the server has of the file when the sync under way is over. -/
def coming (dirs : Nat → Text) (s : Mirroring) (name : Text) (c : Int) : Option Text :=
  match s.firstJob 0, s.fetched with
  | some (.sync task _ _), some text => if task.file = name then some text else s.stored dirs c.toNat name
  | _, _ => s.stored dirs c.toNat name

def Same (dirs : Nat → Text) (s : Mirroring) (file : FileEntry) (c : Int) : Prop :=
  s.coming dirs file.name c = s.stored dirs file.ssIndex.toNat file.name

/-- The name manager comes to know of the change: a sync of the file is due anyway, or the text stays as it was, or it
is stamped with another time than the one recorded. -/
def Tells (dirs : Nat → Text) (s : Mirroring) (k : Nat) (op : Op) (file : FileEntry) : Prop :=
  s.Due file ∨ (op.run (s.servers k)).fs (dataPath (dirs k) op.file.text) = s.stored dirs k op.file.text ∨
    (FitsInt (dirs k) (op.run (s.servers k)) op.file ∧
      ∃ now ∈ stampedAt op, toInt32 now ≠ 0 ∧ toInt32 now ≠ file.modified)

/-- A change of a file that has a backup, or that a sync under way has fetched, is told. No file has the name of the
temporary of another one. -/
def Stamped (dirs : Nat → Text) (s : Mirroring) : Event → Prop
  | .run t _ op => ∀ job ∈ s.firstJob t, ∀ k ∈ commandTarget s.manager.nm job, ∀ c ∈ op,
      OnTime c ∧ LeavesOthers (dirs k) (s.servers k) c
  | .change k op => OnTime op ∧ LeavesOthers (dirs k) (s.servers k) op ∧
      ∀ file ∈ nmFindFile s.manager.nm op.file.text, (0 ≤ file.backupIndex ∨ s.target file.name ≠ none) →
        s.Tells dirs k op file
  | .manager _ | .fetch => True

/-- The server that is assigned as a backup when all are available. -/
def candidate (primary : Int) : Int := if primary = 0 then 1 else 0

/-- The task is about the servers of the file. -/
def TaskFits (nm : NmState) (task : ReplicationTask) : Prop :=
  ∃ file ∈ nm.files, file.name = task.file ∧ file.ssIndex = task.primaryIndex ∧
    (task.assignMode = false → task.backupIndex = file.backupIndex ∧ 0 ≤ task.backupIndex) ∧
    (task.assignMode = true → file.backupIndex = -1 ∨ file.backupIndex = candidate task.primaryIndex)

/-- The server has the file, and it is empty, unless the file has been entered. -/
def Made (dirs : Nat → Text) (s : Mirroring) (name : Text) (k : Nat) : Prop :=
  nmFindFile s.manager.nm name = none → HasFile (s.servers k) name ∧ s.stored dirs k name = some []

/-- The server that a task is for. -/
def TargetFits (task : ReplicationTask) (target : Int) : Prop :=
  0 ≤ target ∧ if task.assignMode then target = candidate task.primaryIndex else target = task.backupIndex

def JobFits (dirs : Nat → Text) (s : Mirroring) : Job → Prop
  | .schedule task _ | .examine task => TaskFits s.manager.nm task
  | .check task _ => TaskFits s.manager.nm task ∧ task.assignMode = false
  | .choose task _ => TaskFits s.manager.nm task ∧ task.assignMode = true
  | .sync task _ target => TaskFits s.manager.nm task ∧ TargetFits task target
  | .conclude task target =>
    TaskFits s.manager.nm task ∧ TargetFits task target ∧ HasFile (s.servers target.toNat) task.file
  | .createBackup _ file primary _ _ => s.Made dirs file.text primary
  | .createEnd _ file primary backup => s.Made dirs file.text primary ∧ ∀ i ∈ backup, s.Made dirs file.text i
  | .failure .. | .deletePrimary .. => False
  | .next | .tryAssign _ | .scan _ | .createPrimary .. => True

/-- The first thread is the worker, and the others have no job of it. -/
structure WorkerAlone (threads : List (List Job)) : Prop where
  worker : threads[0]? = some [.next] ∨ ∃ job, isRound job = true ∧ threads[0]? = some [job, .next]
  others : ∀ t, t ≠ 0 → ∀ thread ∈ threads[t]?, ∀ job ∈ thread, isRound job = false ∧ job ≠ .next

theorem WorkerAlone.length_pos {threads : List (List Job)} (h : WorkerAlone threads) : 0 < threads.length := by
  rcases h.worker with hthread | ⟨job, -, hthread⟩
  · exact (List.getElem?_eq_some_iff.1 hthread).1
  · exact (List.getElem?_eq_some_iff.1 hthread).1

structure Inv (dirs : Nat → Text) (s : Mirroring) : Prop where
  manager : s.manager.Inv
  placed : ∀ k, Placed (dirs k) (s.servers k).state
  sized : ∀ k name view, (s.servers k).state.entry name = some view → Sized view
  up : allUp s.manager.nm = true
  alone : WorkerAlone s.manager.threads
  syncing : s.fetched ≠ none → ∃ task owner target, s.firstJob 0 = some (.sync task owner target)
  tasks : ∀ task ∈ s.manager.queue, TaskFits s.manager.nm task
  jobs : ∀ job ∈ s.manager.jobs, s.JobFits dirs job
  holders : ∀ file ∈ s.manager.nm.files, ∀ i ∈ entryServers file, 0 ≤ i → HasFile (s.servers i.toNat) file.name
  mirrors : ∀ file ∈ s.manager.nm.files, ∀ c, s.Watched file c → s.Due file ∨ s.Same dirs file c

def isWaiting : Option Job → Bool
  | some .next => true
  | _ => false

def isScheduling : Job → Bool
  | .schedule .. => true
  | _ => false

/-- Nothing is on the way: no update is sent or being handled, no task is queued, and the worker waits. -/
def Quiet (s : Mirroring) : Prop :=
  s.manager.updates = [] ∧ s.manager.queue = [] ∧ isWaiting (s.firstJob 0) = true ∧
    ∀ job ∈ s.manager.jobs, isScheduling job = false

/-- The backup has the text of the primary. -/
def Mirrored (dirs : Nat → Text) (s : Mirroring) : Prop :=
  s.Quiet → ∀ file ∈ s.manager.nm.files, 0 ≤ file.backupIndex →
    s.stored dirs file.backupIndex.toNat file.name = s.stored dirs file.ssIndex.toNat file.name

section Quiet

variable {dirs : Nat → Text} {s : Mirroring} (h : Inv dirs s)

include h

omit h in
theorem firstJob_of_isWaiting (hwaiting : isWaiting (s.firstJob 0) = true) : s.firstJob 0 = some .next := by
  unfold isWaiting at hwaiting
  split at hwaiting
  · next heq => exact heq
  · cases hwaiting

/-- The worker is at a part of a round wherever there is one. -/
theorem Inv.firstJob_of_round {job : Job} (hjob : job ∈ s.manager.jobs) (hround : isRound job = true) :
    s.firstJob 0 = some job := by
  obtain ⟨thread, hthread, hmem⟩ := List.mem_flatten.1 hjob
  obtain ⟨t, ht⟩ := List.getElem?_of_mem hthread
  have ht0 : t = 0 := by
    by_contra ht0
    have hother := (h.alone.others t ht0 thread ht job hmem).1
    rw [hround] at hother
    cases hother
  subst ht0
  unfold Holding.firstJob
  rcases h.alone.worker with hidle | ⟨first, -, hfirst⟩
  · rw [ht] at hidle
    cases hidle
    cases List.mem_singleton.1 hmem
    cases hround
  · rw [ht] at hfirst
    cases hfirst
    rcases List.mem_cons.1 hmem with rfl | hnext
    · rw [ht]
      rfl
    · cases List.mem_singleton.1 hnext
      cases hround

theorem Inv.not_due (hquiet : s.Quiet) (file : FileEntry) : ¬ s.Due file := by
  obtain ⟨hupdates, hqueue, hwaiting, hschedule⟩ := hquiet
  have hnext := firstJob_of_isWaiting hwaiting
  rintro (⟨frame, hframe, -⟩ | ⟨task, htask, -⟩ | ⟨job, hjob, hleads⟩)
  · rw [hupdates] at hframe
    cases hframe
  · rw [hqueue] at htask
    cases htask
  · cases job with
    | schedule task ofUpdate => cases hschedule _ hjob
    | examine | check | choose | sync =>
      have hround := h.firstJob_of_round hjob rfl
      rw [hnext] at hround
      cases hround
    | _ => exact hleads

theorem Inv.mirrored : s.Mirrored dirs := by
  intro hquiet file hfile hbackup
  rcases h.mirrors file hfile file.backupIndex (.inl ⟨rfl, hbackup⟩) with hdue | hsame
  · exact absurd hdue (h.not_due hquiet file)
  · unfold Same coming at hsame
    rw [firstJob_of_isWaiting hquiet.2.2.1] at hsame
    exact hsame

end Quiet

/-! ## Steps of a server -/

/-- What a step on a file does to the server `k`. -/
structure Serves (dirs : Nat → Text) (s : Mirroring) (k : Nat) (f : FileName) (srv : Server) : Prop where
  placed : Placed (dirs k) srv.state
  entries : ∀ n, n ≠ f.text → srv.state.entry n = (s.servers k).state.entry n
  texts : ∀ n, n ≠ f.text → HasFile (s.servers k) n →
    srv.fs (dataPath (dirs k) n) = (s.servers k).fs (dataPath (dirs k) n)
  sized : ∀ view, srv.state.entry f.text = some view → Sized view
  kept : HasFile (s.servers k) f.text → HasFile srv f.text
  same : (HasFile (s.servers k) f.text → srv.fs (dataPath (dirs k) f.text) = s.stored dirs k f.text) ∨
    (nmFindFile s.manager.nm f.text).isSome = true ∧ ∀ file ∈ s.manager.nm.files, file.name = f.text →
      ∀ c, s.Watched file c → s.Due file ∨ (s.serve k srv).Same dirs file c

section Steps

variable {dirs : Nat → Text} {s : Mirroring} (h : Inv dirs s)

include h

/-- A server that is to have the text has the file, or stores what was fetched. -/
theorem Inv.hasFile_of_watched {file : FileEntry} (hfile : file ∈ s.manager.nm.files) {c : Int}
    (hw : s.Watched file c) :
    (∃ task owner target text, s.firstJob 0 = some (.sync task owner target) ∧ task.file = file.name ∧
      s.fetched = some text) ∨ HasFile (s.servers c.toNat) file.name := by
  rcases hw with ⟨rfl, hbackup⟩ | htarget
  · exact .inr (h.holders file hfile _ (List.mem_cons_of_mem _ (List.mem_singleton_self _)) hbackup)
  · unfold target at htarget
    split at htarget
    · next task owner target hjob =>
      obtain ⟨⟨hname, hfetched⟩, -⟩ := Option.ite_none_right_eq_some.1 htarget
      obtain ⟨text, htext⟩ := Option.ne_none_iff_exists'.1 hfetched
      exact .inl ⟨task, owner, target, text, hjob, hname, htext⟩
    · next task target hjob =>
      obtain ⟨hname, heq⟩ := Option.ite_none_right_eq_some.1 htarget
      cases heq
      obtain ⟨thread, ht, hhead⟩ := Option.bind_eq_some_iff.1 hjob
      have hmem : Job.conclude task c ∈ s.manager.jobs :=
        List.mem_flatten.2 ⟨thread, List.mem_of_getElem? ht, List.mem_of_mem_head? hhead⟩
      obtain ⟨-, -, hhas⟩ := h.jobs _ hmem
      rw [hname] at hhas
      exact .inr hhas
    · cases htarget

omit h in
theorem coming_of_fetched (dirs : Nat → Text) {task : ReplicationTask} {owner : Text} {target c : Int}
    {text name : Text} (hjob : s.firstJob 0 = some (.sync task owner target)) (hname : task.file = name)
    (hfetched : s.fetched = some text) : s.coming dirs name c = some text := by
  simp only [coming, hjob, hfetched, hname, if_true]

omit h in
theorem hasFile_serve {k : Nat} {f : FileName} {srv : Server} (hs : Serves dirs s k f srv) {j : Nat} {name : Text}
    (hhas : HasFile (s.servers j) name) : HasFile ((s.serve k srv).servers j) name := by
  by_cases hj : j = k
  · subst hj
    rw [show (s.serve j srv).servers j = srv from Function.update_self ..]
    by_cases hname : name = f.text
    · subst hname
      exact hs.kept hhas
    · unfold HasFile
      rw [hs.entries name hname]
      exact hhas
  · rwa [show (s.serve k srv).servers j = s.servers j from Function.update_of_ne hj ..]

omit h in
/-- The texts of the files that a server has are as they were, but for the one that is changed. -/
theorem stored_serve {k : Nat} {f : FileName} {srv : Server} (hs : Serves dirs s k f srv) {j : Nat} {name : Text}
    (hhas : HasFile (s.servers j) name)
    (hsame : name = f.text → HasFile (s.servers k) f.text →
      srv.fs (dataPath (dirs k) f.text) = s.stored dirs k f.text) :
    (s.serve k srv).stored dirs j name = s.stored dirs j name := by
  unfold stored
  by_cases hj : j = k
  · subst hj
    rw [show (s.serve j srv).servers j = srv from Function.update_self ..]
    by_cases hname : name = f.text
    · subst hname
      exact hsame rfl hhas
    · exact hs.texts name hname hhas
  · rw [show (s.serve k srv).servers j = s.servers j from Function.update_of_ne hj ..]

theorem Inv.serve {k : Nat} {f : FileName} {srv : Server} (hs : Serves dirs s k f srv) : Inv dirs (s.serve k srv) := by
  refine ⟨h.manager, ?_, ?_, h.up, h.alone, h.syncing, h.tasks, ?_, ?_, ?_⟩
  · intro j
    by_cases hj : j = k
    · subst hj
      rw [show (s.serve j srv).servers j = srv from Function.update_self ..]
      exact hs.placed
    · rw [show (s.serve k srv).servers j = s.servers j from Function.update_of_ne hj ..]
      exact h.placed j
  · intro j name view hview
    by_cases hj : j = k
    · subst hj
      rw [show (s.serve j srv).servers j = srv from Function.update_self ..] at hview
      by_cases hname : name = f.text
      · subst hname
        exact hs.sized view hview
      · rw [hs.entries name hname] at hview
        exact h.sized j name view hview
    · rw [show (s.serve k srv).servers j = s.servers j from Function.update_of_ne hj ..] at hview
      exact h.sized j name view hview
  · -- what a CREATE has made is not in the table, and no operation on it changes its text
    have hmade {name : Text} {j : Nat} (hmade : s.Made dirs name j) : (s.serve k srv).Made dirs name j := by
      intro hnone
      obtain ⟨hhas, hempty⟩ := hmade hnone
      refine ⟨hasFile_serve hs hhas, (stored_serve hs hhas ?_).trans hempty⟩
      rintro rfl hfile
      rcases hs.same with hsame | ⟨hsome, -⟩
      · exact hsame hfile
      · have hnone : nmFindFile s.manager.nm f.text = none := hnone
        rw [hnone] at hsome
        cases hsome
    intro job hjob
    have hfits := h.jobs job hjob
    cases job with
    | conclude task target => exact ⟨hfits.1, hfits.2.1, hasFile_serve hs hfits.2.2⟩
    | createBackup user file primary count i => exact hmade hfits
    | createEnd user file primary backup => exact ⟨hmade hfits.1, fun i hi => hmade (hfits.2 i hi)⟩
    | _ => exact hfits
  · intro file hfile i hi h0
    exact hasFile_serve hs (h.holders file hfile i hi h0)
  · intro file hfile c hw
    have hw : s.Watched file c := hw
    -- the same texts, or the case that is given
    have hkeep (hsame : file.name = f.text → HasFile (s.servers k) f.text →
        srv.fs (dataPath (dirs k) f.text) = s.stored dirs k f.text) :
        s.Due file ∨ (s.serve k srv).Same dirs file c := by
      rcases h.mirrors file hfile c hw with hdue | heq
      · exact .inl hdue
      · right
        have hprimary := h.holders file hfile _ List.mem_cons_self (h.manager.placed file hfile).1
        unfold Same at heq ⊢
        rw [stored_serve hs hprimary hsame, ← heq]
        rcases h.hasFile_of_watched hfile hw with ⟨task, owner, target, text, hjob, hname, hfetched⟩ | hhas
        · rw [coming_of_fetched dirs hjob hname hfetched]
          exact coming_of_fetched (s := s.serve k srv) dirs hjob hname hfetched
        · have hstored := stored_serve hs hhas hsame
          unfold coming
          rw [show (s.serve k srv).firstJob 0 = s.firstJob 0 from rfl,
            show (s.serve k srv).fetched = s.fetched from rfl, hstored]
    by_cases hname : file.name = f.text
    · rcases hs.same with hsame | ⟨-, hgiven⟩
      · exact hkeep fun _ => hsame
      · exact hgiven file hfile hname c hw
    · exact hkeep fun heq => absurd heq hname

/-- More updates on the way. -/
theorem Inv.send (frames : List Text) : Inv dirs (s.send frames) := by
  refine ⟨⟨h.manager.tables, h.manager.placed, h.manager.jobs⟩, h.placed, h.sized, h.up, h.alone, h.syncing, h.tasks,
    h.jobs, h.holders, ?_⟩
  intro file hfile c hw
  rcases h.mirrors file hfile c hw with (⟨frame, hframe, hread⟩ | hsync) | hsame
  · exact .inl (.inl ⟨frame, List.mem_append_left _ hframe, hread⟩)
  · exact .inl (.inr hsync)
  · exact .inr hsame

theorem Inv.primary_hasFile {k : Nat} {name : Text} (hprimary : isPrimary s.manager.nm k name = true) :
    HasFile (s.servers k) name := by
  obtain ⟨file, hfind⟩ := Option.isSome_iff_exists.1 (isSome_of_isPrimary hprimary)
  have hmem := List.mem_of_find?_eq_some hfind
  have hname : file.name = name := by simpa using List.find?_some hfind
  subst hname
  have hk := (isPrimary_of_mem h.manager.stored hmem).1 hprimary
  have hhas := h.holders file hmem _ List.mem_cons_self (h.manager.placed file hmem).1
  rwa [hk, Int.toNat_natCast] at hhas

/-- The operation changes its file only. -/
theorem Inv.serves {k : Nat} {op : Op} (hleaves : LeavesOthers (dirs k) (s.servers k) op)
    (hsized : ∀ view, (op.run (s.servers k)).state.entry op.file.text = some view → Sized view)
    (hkept : HasFile (s.servers k) op.file.text → HasFile (op.run (s.servers k)) op.file.text)
    (hsame : (HasFile (s.servers k) op.file.text →
        (op.run (s.servers k)).fs (dataPath (dirs k) op.file.text) = s.stored dirs k op.file.text) ∨
      (nmFindFile s.manager.nm op.file.text).isSome = true ∧ ∀ file ∈ s.manager.nm.files, file.name = op.file.text →
        ∀ c, s.Watched file c → s.Due file ∨ (s.serve k (op.run (s.servers k))).Same dirs file c) :
    Serves dirs s k op.file (op.run (s.servers k)) where
  placed := (op.changes (h.placed k)).placed
  entries := (op.changes (h.placed k)).entries
  texts n hn hhas := by
    obtain ⟨view, hview⟩ := Option.isSome_iff_exists.1 hhas
    have hname := Ss.SsState.entry_name (h.placed k).sorted hview
    subst hname
    exact (op.changes (h.placed k)).writes _ (hleaves view (List.mem_of_find?_eq_some hview) hn)
  sized := hsized
  kept := hkept
  same := hsame

theorem Inv.change {k : Nat} {op : Op} (hpermits : s.permits k op = true) (htime : OnTime op)
    (hleaves : LeavesOthers (dirs k) (s.servers k) op)
    (htells : ∀ file ∈ nmFindFile s.manager.nm op.file.text,
      (0 ≤ file.backupIndex ∨ s.target file.name ≠ none) → s.Tells dirs k op file) :
    Inv dirs ((s.send (Ss.CountEvent.notices op.file (s.servers k) (.op op))).serve k (op.run (s.servers k))) := by
  have hcommit : ∀ env file user session, op = .commit env file user session → HasFile (s.servers k) file.text := by
    rintro env file user session rfl
    exact h.primary_hasFile hpermits
  have hreplaces {now : Int} (hnow : stampedAt op = some now) := replaces_of_stampedAt (h.placed k) hnow hcommit
  have hclock {now : Int} (hnow : stampedAt op = some now) : IsTime now := by
    cases op with
    | commit | undo | revert =>
      cases hnow
      exact htime
    | _ => cases hnow
  -- a checkpoint leaves the entries alone
  have hstate (hnone : stampedAt op = none) : (op.run (s.servers k)).state = (s.servers k).state := by
    cases op with
    | checkpoint env file tag =>
      show (Ss.ssCreateCheckpoint env (s.servers k) file.text tag.text).1.state = _
      unfold Ss.ssCreateCheckpoint
      repeat' split
      all_goals rfl
    | commit | undo | revert => cases hnone
    | _ => cases hpermits
  have hknown : (nmFindFile s.manager.nm op.file.text).isSome = true := by
    cases op with
    | commit | undo => exact isSome_of_isPrimary hpermits
    | revert | checkpoint => exact hpermits
    | _ => cases hpermits
  have hsent := h.send (Ss.CountEvent.notices op.file (s.servers k) (.op op))
  apply hsent.serve
  apply hsent.serves hleaves
  · intro view hview
    cases hnow : stampedAt op with
    | none =>
      have hview : (op.run (s.servers k)).state.entry op.file.text = some view := hview
      rw [hstate hnow] at hview
      exact h.sized k _ view hview
    | some now =>
      obtain ⟨user, hr⟩ := hreplaces hnow
      exact sized_of_replaces (hclock hnow) hr (h.sized k op.file.text) view hview
  · intro hhas
    have hhas : HasFile (s.servers k) op.file.text := hhas
    show HasFile (op.run (s.servers k)) op.file.text
    unfold HasFile at hhas ⊢
    cases hnow : stampedAt op with
    | none => rwa [hstate hnow]
    | some now =>
      obtain ⟨user, hr⟩ := hreplaces hnow
      cases hr with
      | nothing entry data silent => rwa [entry]
      | text text file view before restamped entry data told =>
        rw [entry]
        rfl
  · by_cases hdata : (op.run (s.servers k)).fs (dataPath (dirs k) op.file.text) = s.stored dirs k op.file.text
    · exact .inl fun _ => hdata
    · refine .inr ⟨hknown, ?_⟩
      intro file hfile hname c hw
      have hfind := nmFindFile_of_mem h.manager.stored hfile
      rw [hname] at hfind
      have hwatched : 0 ≤ file.backupIndex ∨ s.target file.name ≠ none := by
        rcases hw with ⟨rfl, hc0⟩ | htarget
        · exact .inl hc0
        · refine .inr fun hnone => ?_
          cases hnone.symm.trans htarget
      left
      rcases htells file hfind hwatched with (⟨frame, hframe, hread⟩ | hsync) | heq | ⟨hfits, now, hnow, hzero, hne⟩
      · exact .inl ⟨frame, List.mem_append_left _ hframe, hread⟩
      · exact .inr hsync
      · exact absurd heq hdata
      · -- the update tells another time than the one recorded
        obtain ⟨user, hr⟩ := hreplaces hnow
        cases hr with
        | nothing entry data silent => exact absurd data hdata
        | text text old view before restamped entry data told =>
          have hsized := sized_of_restamped (hclock hnow) (h.sized k _ old before) restamped
          have hlength := hfits text data
          have hcount : Countable view := by
            constructor
            · rw [restamped.words]
              exact Nat.lt_of_le_of_lt (Ss.countWords_le text) hlength
            · rw [restamped.chars]
              exact hlength
          rw [notify_of_sized hsized hcount] at told
          refine .inl ⟨updateMessage view, ?_, _, readFileUpdate_updateMessage hsized hcount, ?_, ?_⟩
          · refine List.mem_append_right _ ?_
            rw [told]
            exact List.mem_singleton_self _
          · rw [hname]
            exact restamped.name.trans (Ss.SsState.entry_name (h.placed k).sorted before)
          · unfold FileUpdate.stamp
            rw [restamped.modified, if_pos hzero]
            exact hne

/-- The worker has the job if the job is a part of a round. -/
theorem Inv.thread_of_round {t : Nat} {job : Job} (hjob : s.firstJob t = some job) (hround : isRound job = true) :
    t = 0 := by
  by_contra ht
  obtain ⟨thread, hthread, hhead⟩ := Option.bind_eq_some_iff.1 hjob
  have hother := (h.alone.others t ht thread hthread job (List.mem_of_mem_head? hhead)).1
  rw [hround] at hother
  cases hother

omit h in
theorem mem_jobs_of_firstJob {t : Nat} {job : Job} (hjob : s.firstJob t = some job) : job ∈ s.manager.jobs := by
  obtain ⟨thread, hthread, hhead⟩ := Option.bind_eq_some_iff.1 hjob
  exact List.mem_flatten.2 ⟨thread, List.mem_of_getElem? hthread, List.mem_of_mem_head? hhead⟩

omit h in
/-- The text that the command of the job leaves. -/
def textOf (s : Mirroring) : Job → Option Text
  | .sync .. => s.fetched
  | _ => some []

theorem Inv.create {k : Nat} {f : FileName} {owner : Text} {o : Ss.AddOutcome} (ho : IsTime o.now)
    (hleaves : LeavesOthers (dirs k) (s.servers k) (.create f owner o)) :
    Inv dirs (s.serve k ((Op.create f owner o).run (s.servers k))) := by
  apply h.serve
  apply h.serves hleaves
  · intro view hview
    have hentry := (Ss.ssStateAdd_state (h.placed k).sorted (s.servers k).fs f.short owner o).2 f.text
    replace hview :
        (Ss.ssStateAdd (s.servers k).state (s.servers k).fs f.text owner o).2.1.entry f.text = some view := hview
    rw [hentry] at hview
    split at hview
    · cases hview
      exact sized_newFile _ f owner ho
    · exact h.sized k f.text view hview
  · intro hhas
    rw [create_of_hasFile (f := f) (h.placed k) hhas]
    exact hhas
  · left
    intro hhas
    rw [create_of_hasFile (f := f) (h.placed k) hhas]
    rfl

theorem Inv.sync {t : Nat} {task : ReplicationTask} {owner : Text} {target : Int}
    (hjob : s.firstJob t = some (.sync task owner target))
    (hcan : canReplicate s.manager.nm task.primaryIndex target = true)
    {env : Env} {f : FileName} (hf : f.text = task.file) {content : Text} (hfetched : s.fetched = some content)
    (hnow : IsTime env.add.now)
    (hleaves : LeavesOthers (dirs target.toNat) (s.servers target.toNat) (.sync env f owner content)) :
    Inv dirs (s.serve target.toNat ((Op.sync env f owner content).run (s.servers target.toNat))) := by
  have hworker := h.thread_of_round hjob rfl
  subst hworker
  obtain ⟨⟨entry, hentry, hname, hprimary, -, -⟩, htarget⟩ := h.jobs _ (mem_jobs_of_firstJob hjob)
  have hne : entry.ssIndex.toNat ≠ target.toNat := by
    have h0 := (h.manager.placed entry hentry).1
    have ht := htarget.1
    unfold canReplicate at hcan
    simp only [Bool.and_eq_true, Bool.not_eq_true', Bool.or_eq_false_iff, decide_eq_false_iff_not,
      beq_eq_false_iff_ne] at hcan
    omega
  apply h.serve
  apply h.serves hleaves
  · intro view hview
    obtain ⟨old, hold, hnew⟩ := Ss.entry_syncFile (h.placed target.toNat) env owner content hview
    have hsized : Sized old := by
      rcases hold with hold | rfl
      · exact h.sized _ _ old hold
      · exact sized_newFile _ f owner hnow
    rcases hnew with rfl | rfl
    · exact hsized
    · exact ⟨hsized.name, hsized.owner, hsized.lastAccessUser, hsized.modified, hsized.lastAccess⟩
  · exact (syncFile_spec (h.placed target.toNat) env owner content).1
  · refine .inr ⟨?_, ?_⟩
    · have hfind := nmFindFile_of_mem h.manager.stored hentry
      rw [hname, ← hf] at hfind
      exact Option.isSome_iff_exists.2 ⟨entry, hfind⟩
    · intro file hfile hsame c hw
      have hsame : file.name = f.text := hsame
      -- the server is not the primary, and what it stores was to come
      obtain rfl : file = entry :=
        List.inj_on_of_nodup_map h.manager.stored.names hfile hentry (hsame.trans (hf.trans hname.symm))
      rcases h.mirrors file hfile c hw with hdue | heq
      · exact .inl hdue
      · right
        have hcoming := coming_of_fetched (s := s) (c := c) dirs hjob hname.symm hfetched
        unfold Same at heq ⊢
        rw [hcoming] at heq
        have hafter := coming_of_fetched (s := s.serve target.toNat ((Op.sync env f owner content).run
          (s.servers target.toNat))) (c := c) dirs hjob hname.symm hfetched
        rw [hafter, heq]
        unfold stored Mirroring.serve
        dsimp only
        rw [Function.update_of_ne hne]

/-- The command of a job: what is kept, and what a server that answers has stored. -/
theorem Inv.carryOut {t : Nat} {job : Job} {o : Nm.Outcome} {op : Option Op} (hjob : s.firstJob t = some job)
    (hwell : s.goesWell job o op = true) (hanswers : s.answers job o.reply op = true)
    (hstamped : ∀ k ∈ commandTarget s.manager.nm job, ∀ c ∈ op, OnTime c ∧ LeavesOthers (dirs k) (s.servers k) c) :
    Inv dirs { s with servers := s.toHolding.carryOut (commandTarget s.manager.nm job) op } ∧
      ∀ k ∈ commandTarget s.manager.nm job, o.reply = .ok → ∀ name ∈ jobFile job,
        HasFile (s.toHolding.carryOut (commandTarget s.manager.nm job) op k) name ∧
          (s.toHolding.carryOut (commandTarget s.manager.nm job) op k).fs (dataPath (dirs k) name) = s.textOf job := by
  have hfits := h.jobs job (mem_jobs_of_firstJob hjob)
  unfold Holding.answers at hanswers
  cases op with
  | none =>
    have hsame : s.toHolding.carryOut (commandTarget s.manager.nm job) none = s.servers := by
      unfold Holding.carryOut
      split
      · next heq => cases heq
      · rfl
    rw [hsame]
    refine ⟨h, ?_⟩
    intro k hk hok
    rw [Option.mem_def.1 hk, hok] at hanswers
    cases hanswers
  | some c =>
    cases htarget : commandTarget s.manager.nm job with
    | none =>
      rw [htarget] at hanswers
      cases hanswers
    | some k =>
      obtain ⟨htime, hleaves⟩ := hstamped k htarget c rfl
      rw [htarget] at hanswers
      obtain ⟨hcommand, hreply⟩ := Bool.and_eq_true_iff.1 hanswers
      have hfile := jobFile_of_isCommand hcommand
      have hrun : s.toHolding.carryOut (some k) (some c) k = c.run (s.servers k) := Function.update_self ..
      have hok (hok : o.reply = .ok) : succeeds (s.servers k) c = true := by
        rw [hok] at hreply
        exact hreply
      -- from what the operation does to the server
      suffices hop : Inv dirs (s.serve k (c.run (s.servers k))) ∧ (succeeds (s.servers k) c = true →
          HasFile (c.run (s.servers k)) c.file.text ∧
            (c.run (s.servers k)).fs (dataPath (dirs k) c.file.text) = s.textOf job) by
        refine ⟨hop.1, ?_⟩
        intro k' hk hreply name hname
        cases hk
        obtain rfl : c.file.text = name := Option.some.inj (hfile.symm.trans hname)
        rw [hrun]
        exact hop.2 (hok hreply)
      cases job with
      | createPrimary user file primary =>
        cases c with
        | create f owner o' => exact ⟨h.create htime hleaves, create_of_succeeds (h.placed k)⟩
        | _ => cases hcommand
      | createBackup user file primary count i =>
        cases c with
        | create f owner o' => exact ⟨h.create htime hleaves, create_of_succeeds (h.placed k)⟩
        | _ => cases hcommand
      | sync task owner target =>
        cases c with
        | sync env f owner' content =>
          simp only [goesWell, Bool.and_eq_true, beq_iff_eq] at hwell
          obtain ⟨-, ⟨hcan, -⟩, hfetched⟩ := hwell
          simp only [commandTarget, hcan, if_true, Option.some.injEq] at htarget
          subst htarget
          simp only [isCommand, Bool.and_eq_true, beq_iff_eq] at hcommand
          obtain ⟨hf, rfl⟩ := hcommand
          refine ⟨h.sync hjob hcan hf hfetched htime hleaves, fun hsucceeds => ?_⟩
          have hspec := (syncFile_spec (f := f) (h.placed target.toNat) env owner' content).2 (beq_iff_eq.1 hsucceeds)
          exact ⟨hspec.1, hspec.2.trans hfetched.symm⟩
        | _ => cases hcommand
      | deletePrimary name server => exact hfits.elim
      | _ => cases htarget

end Steps

end Mirroring

end CoWrite.Cluster
