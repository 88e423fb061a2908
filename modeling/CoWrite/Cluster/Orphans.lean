import CoWrite.Nm.Replication
import CoWrite.Ss.Copy

/-!
# Copies that are left behind

Which servers have a file, beside the servers that the name manager knows of. DELETE goes to the primary and the
backup of the file. A server that has the file and is neither keeps it, and refuses the next CREATE that picks it.

* `Holding`: the name manager with its threads, the storage servers, and the DELETEs whose command to the backup is
  next.
* `removed_everywhere_of_run`: when nothing is left to do for a file that is not in the table, no server has it, in
  every run in which no step leaves a copy behind.
-/

namespace CoWrite.Cluster

open CoWrite.Lib
open CoWrite.Nm
open CoWrite.Ss (Server Env Op AddOutcome Placed ssStateAdd ssStateRemove)

/-! ## Commands -/

/-- The server has the file. -/
def HasFile (srv : Server) (name : Text) : Prop := (srv.state.entry name).isSome = true

instance (srv : Server) (name : Text) : Decidable (HasFile srv name) :=
  inferInstanceAs (Decidable ((srv.state.entry name).isSome = true))

/-- The server answers `OK` to the command. -/
def succeeds (srv : Server) : Op → Bool
  | .create file owner o => (ssStateAdd srv.state srv.fs file.text owner o).1
  | .delete file => (ssStateRemove srv.state srv.fs file.text).isSome
  | .sync env file owner content => (Ss.syncFile env srv file.text owner content).2 == Ss.sendOk (Ss.opField "SYNC")
  | _ => false

/-- The server that the job sends a command to. -/
def commandTarget (nm : NmState) : Job → Option Nat
  | .createPrimary _ _ primary => some primary
  | .createBackup _ _ primary count i => if i < count ∧ i ≠ primary ∧ nm.available i = true then some i else none
  | .sync task _ target => if canReplicate nm task.primaryIndex target then some target.toNat else none
  | .deletePrimary _ server => some server.toNat
  | _ => none

/-- The operation is the one that the job asks for. -/
def isCommand : Job → Op → Bool
  | .createPrimary user file _, .create f owner _ => f.text == file.text && owner == user.text
  | .createBackup user file _ _ _, .create f owner _ => f.text == file.text && owner == user.text
  | .sync task owner _, .sync _ f o _ => f.text == task.file && o == owner
  | .deletePrimary name _, .delete f => f.text == name
  | _, _ => false

/-- The file that the job is about. -/
def jobFile : Job → Option Text
  | .next | .scan _ => none
  | .examine task | .check task _ | .choose task _ | .sync task _ _ | .conclude task _ | .failure task _
  | .schedule task _ => some task.file
  | .tryAssign name | .deletePrimary name _ => some name
  | .createPrimary _ file _ | .createBackup _ file _ _ _ | .createEnd _ file _ _ => some file.text

/-- The job has had the server make the file and is to enter it. -/
def hasMade : Job → Text → Nat → Prop
  | .createBackup _ file primary _ _, name, k => file.text = name ∧ k = primary
  | .createEnd _ file primary backup, name, k => file.text = name ∧ (k = primary ∨ backup = some k)
  | .conclude task target, name, k => task.file = name ∧ target = (k : Int)
  | _, _, _ => False

/-- The servers of an entry. -/
def entryServers (file : FileEntry) : List Int := [file.ssIndex, file.backupIndex]

/-- The name manager, the storage servers, and the DELETEs whose command to the backup is next. -/
structure Holding where
  manager : Replication
  servers : Nat → Server
  deletes : List (Text × Nat)

namespace Holding

inductive Event where
  /-- A thread starts, or what else the name manager does but for the jobs. -/
  | manager (e : Replication.Event)
  /-- The first job of a thread; `op` is what the server that it asks carries out, if it is reached. -/
  | run (t : Nat) (o : Outcome) (op : Option Op)
  /-- The command to the backup. -/
  | deleteBackup (i : Nat) (op : Option Op)

/-- The reply is the one of the server; when it is not reached, or the reply is lost, there is none. -/
def answers (s : Holding) (job : Job) (reply : Reply) (op : Option Op) : Bool :=
  match commandTarget s.manager.nm job, op with
  | some k, some op => isCommand job op &&
      (match reply with
      | .unreachable => true
      | .refused => !succeeds (s.servers k) op
      | .ok => succeeds (s.servers k) op)
  | some _, none => reply == .unreachable
  | none, none => true
  | none, some _ => false

/-- The server carries the operation out. -/
def carryOut (s : Holding) (k : Option Nat) (op : Option Op) : Nat → Server :=
  match k, op with
  | some k, some op => Function.update s.servers k (op.run (s.servers k))
  | _, _ => s.servers

/-- The backup that `handle_client_delete` reads when the primary has answered. -/
def backupToDelete (s : Holding) (job : Job) (reply : Reply) : List (Text × Nat) :=
  match job with
  | .deletePrimary name _ =>
    if reply = .ok then
      match nmFindFile s.manager.nm name with
      | some file => if file.backupIndex ≥ 0 then [(name, file.backupIndex.toNat)] else []
      | none => []
    else []
  | _ => []

def firstJob (s : Holding) (t : Nat) : Option Job := (s.manager.threads[t]?).bind List.head?

def step (s : Holding) : Event → Option Holding
  | .manager e =>
    match e with
    | .run .. => none
    | e => (s.manager.step e).map fun manager => { s with manager := manager }
  | .run t o op =>
    (s.firstJob t).bind fun job =>
      if s.answers job o.reply op then
        (s.manager.step (.run t o)).map fun manager =>
          { manager := manager
            servers := s.carryOut (commandTarget s.manager.nm job) op
            deletes := s.deletes ++ s.backupToDelete job o.reply }
      else none
  | .deleteBackup i op =>
    (s.deletes[i]?).bind fun (name, k) =>
      if op.all (isCommand (.deletePrimary name k)) then
        some { s with servers := s.carryOut (some k) op, deletes := s.deletes.eraseIdx i }
      else none

/-- The name manager starts, and no server has a file. -/
structure Started (dirs : Nat → Text) (s : Holding) : Prop where
  manager : s.manager = .initial
  placed : ∀ k, Placed (dirs k) (s.servers k).state
  files : ∀ k name, (s.servers k).state.entry name = none
  deletes : s.deletes = []

def system (dirs : Nat → Text) : System Holding Event := .ofStep (Started dirs) step

/-- The server is known to have the file: by its entry, by a job that had it made, or by a DELETE. -/
def Known (s : Holding) (name : Text) (k : Nat) : Prop :=
  (∃ file ∈ s.manager.nm.files, file.name = name ∧ (k : Int) ∈ entryServers file) ∨
    (∃ job ∈ s.manager.jobs, hasMade job name k) ∨ (name, k) ∈ s.deletes

/-- Tables in which every server that has a file it is in the entry of still is. -/
def LeavesNone (s : Holding) (nm : NmState) : Prop :=
  ∀ file ∈ s.manager.nm.files, ∀ i ∈ entryServers file, 0 ≤ i → HasFile (s.servers i.toNat) file.name →
    ∃ file' ∈ nm.files, file'.name = file.name ∧ i ∈ entryServers file'

/-- A command that makes the file on its server is answered. -/
def IsAnswered (s : Holding) (job : Job) (reply : Reply) (op : Option Op) : Prop :=
  ∀ k ∈ commandTarget s.manager.nm job, ∀ c : Op, c ∈ op → HasFile (c.run (s.servers k)) c.file.text →
    HasFile (s.servers k) c.file.text ∨ reply = .ok

/-- What the job had made is entered. -/
def IsEntered (s : Holding) : Job → Prop
  | .createEnd _ file _ _ =>
      findFileIndex s.manager.nm file.text = none ∧ s.manager.nm.files.length < NM_MAX_FILES
  | .conclude task target => HasFile (s.servers target.toNat) task.file →
      ∃ file ∈ nmFindFile s.manager.nm task.file, target = file.backupIndex ∨
        (task.assignMode = true ∧ file.ssIndex = task.primaryIndex)
  | _ => True

/-- The job takes no server that has a file out of its entry. A removal is for the servers of the entry: the one that
answered, and the backup that is asked next. -/
def KeepsHolders (s : Holding) (o : Outcome) : Job → Prop
  | .deletePrimary name server => o.reply = .ok → ∀ file ∈ nmFindFile s.manager.nm name,
      file.ssIndex ≠ server → ¬ HasFile (s.servers file.ssIndex.toNat) name
  | job => ∀ r ∈ job.run s.manager.nm s.manager.queue o, s.LeavesNone r.1

/-- No copy is left behind: no server that has a file is taken out of its entry, every command that makes a file on
its server is answered, what was made is entered, and a DELETE reaches the servers of the entry that have the file. -/
def Tidy (s : Holding) : Event → Prop
  | .manager e => ∀ manager ∈ s.manager.step e, s.LeavesNone manager.nm
  | .run t o op => ∀ job ∈ s.firstJob t, s.IsAnswered job o.reply op ∧ s.IsEntered job ∧ s.KeepsHolders o job
  | .deleteBackup i op => ∀ d ∈ s.deletes[i]?, HasFile (s.servers d.2) d.1 → op.isSome = true

end Holding

/-! ## What a command does to its server -/

section Server

variable {dir : Text} {srv : Server} (h : Placed dir srv.state)

include h

theorem hasFile_run_of_ne (op : Op) {name : Text} (hne : name ≠ op.file.text) :
    HasFile (op.run srv) name ↔ HasFile srv name := by
  unfold HasFile
  rw [(op.changes h).entries name hne]

theorem not_hasFile_delete (file : FileName) : ¬ HasFile ((Op.delete file).run srv) file.text := by
  have hremove := Ss.ssStateRemove_state h.sorted srv.fs file.text
  unfold HasFile
  simp only [Op.run]
  split
  · next hnone =>
    rw [hnone] at hremove
    rw [hremove]
    exact Bool.false_ne_true
  · next state fs hsome =>
    rw [hsome] at hremove
    rw [show ({ srv with state := state, fs := fs } : Server).state = state from rfl, hremove.2, if_pos rfl]
    exact Bool.false_ne_true

end Server

theorem jobFile_of_isCommand {job : Job} {op : Op} (h : isCommand job op = true) : jobFile job = some op.file.text := by
  unfold isCommand at h
  split at h
  · rw [Bool.and_eq_true, beq_iff_eq] at h
    exact congrArg some h.1.symm
  · rw [Bool.and_eq_true, beq_iff_eq] at h
    exact congrArg some h.1.symm
  · rw [Bool.and_eq_true, beq_iff_eq] at h
    exact congrArg some h.1.symm
  · exact congrArg some (beq_iff_eq.1 h).symm
  · cases h

/-! ## What a job hands on -/

section Job

variable {nm nm' : NmState} {queue queue' : List ReplicationTask} {o : Outcome} {job : Job} {new : List Job}

/-- A job whose command is answered with `OK` leaves one that is to enter what was made. -/
theorem exists_hasMade (hrun : job.run nm queue o = some (nm', queue', new)) {k : Nat}
    (htarget : commandTarget nm job = some k) (hok : o.reply = .ok) {name : Text} (hfile : jobFile job = some name)
    (hdelete : ∀ n server, job ≠ .deletePrimary n server) : ∃ j ∈ new, hasMade j name k := by
  cases job with
  | createPrimary user file primary =>
    simp only [Job.run, hok] at hrun
    cases hrun
    cases htarget
    exact ⟨_, List.mem_singleton_self _, Option.some.inj hfile, rfl⟩
  | createBackup user file primary count i =>
    obtain ⟨⟨hlt, hne, havailable⟩, htarget⟩ := Option.ite_none_right_eq_some.1 htarget
    cases htarget
    cases hrun
    refine ⟨.createEnd user file primary (some k), ?_, Option.some.inj hfile, .inr rfl⟩
    rw [placeBackup, if_neg (Nat.not_le.2 hlt), if_neg]
    · exact List.mem_singleton_self _
    · rw [havailable, hok]
      simp [hne]
  | sync task owner target =>
    obtain ⟨hcan, htarget⟩ := Option.ite_none_right_eq_some.1 htarget
    cases htarget
    cases hrun
    refine ⟨.conclude task target, ?_, Option.some.inj hfile, ?_⟩
    · rw [syncTask, if_pos ⟨hcan, hok⟩]
      exact List.mem_singleton_self _
    · unfold canReplicate at hcan
      simp only [Bool.and_eq_true, Bool.not_eq_true', Bool.or_eq_false_iff, decide_eq_false_iff_not] at hcan
      omega
  | deletePrimary n server => exact absurd rfl (hdelete n server)
  | _ => cases htarget

/-- What was made is entered, or handed on. -/
theorem hasMade_kept {s : Holding} (hrun : job.run s.manager.nm queue o = some (nm', queue', new)) {name : Text} {k : Nat}
    (hmade : hasMade job name k) (hentered : s.IsEntered job) (hhas : HasFile (s.servers k) name) :
    (∃ file ∈ nm'.files, file.name = name ∧ (k : Int) ∈ entryServers file) ∨ ∃ j ∈ new, hasMade j name k := by
  cases job with
  | createBackup user file primary count i =>
    obtain ⟨rfl, rfl⟩ := hmade
    cases hrun
    refine .inr ?_
    unfold placeBackup
    split_ifs
    · exact ⟨_, List.mem_singleton_self _, rfl, .inl rfl⟩
    · exact ⟨_, List.mem_singleton_self _, rfl, rfl⟩
    · exact ⟨_, List.mem_singleton_self _, rfl, .inl rfl⟩
  | createEnd user file primary backup =>
    obtain ⟨rfl, hk⟩ := hmade
    cases hrun
    refine .inl ?_
    rcases createEnd_cases s.manager.nm user.short file.short primary (optIndex backup) o.now.val with
      ⟨_, _, herror⟩ | ⟨-, -, hfiles⟩
    · -- the table took the entry
      obtain ⟨hnone, hroom⟩ := hentered
      unfold createEnd nmAddFile at herror
      rw [if_neg (Nat.not_le.2 hroom), hnone, if_neg (by simp)] at herror
      cases herror
    · refine ⟨newFileEntry file.text user.text primary (optIndex backup) o.now.val, ?_,
        Text.copyTo_eq_self file.short, ?_⟩
      · rw [hfiles]
        exact List.mem_append_right _ (List.mem_singleton_self _)
      · rcases hk with rfl | rfl
        · exact List.mem_cons_self
        · exact List.mem_cons_of_mem _ (List.mem_singleton_self _)
  | conclude task target =>
    obtain ⟨rfl, rfl⟩ := hmade
    cases hrun
    refine .inl ?_
    change HasFile (s.servers (k : Int).toNat) task.file → _ at hentered
    rw [Int.toNat_natCast] at hentered
    obtain ⟨file, hfind, hplace⟩ := hentered hhas
    obtain ⟨hname, -⟩ := exists_modifyFile hfind id
    split
    · have hmem := List.mem_of_find?_eq_some (nmFindFile_modifyFile hfind
        (f := fun file => if file.ssIndex = task.primaryIndex then { file with backupIndex := (k : Int) } else file)
        (by split <;> rfl))
      refine ⟨_, hmem, by split <;> exact hname, ?_⟩
      split
      · exact List.mem_cons_of_mem _ (List.mem_singleton_self _)
      · next hprimary =>
        rcases hplace with hbackup | ⟨-, hsame⟩
        · rw [hbackup]
          exact List.mem_cons_of_mem _ (List.mem_singleton_self _)
        · exact absurd hsame hprimary
    · next hassign =>
      rcases hplace with hbackup | ⟨htrue, -⟩
      · refine ⟨file, List.mem_of_find?_eq_some hfind, hname, ?_⟩
        rw [hbackup]
        exact List.mem_cons_of_mem _ (List.mem_singleton_self _)
      · exact absurd htrue hassign
  | _ => exact hmade.elim

end Job

namespace Holding

variable {dirs : Nat → Text} {s t : Holding}

structure Inv (dirs : Nat → Text) (s : Holding) : Prop where
  manager : s.manager.Inv
  placed : ∀ k, Placed (dirs k) (s.servers k).state
  known : ∀ k name, HasFile (s.servers k) name → s.Known name k

/-- A server has what it had, or what an operation left it. -/
theorem hasFile_carryOut {target : Option Nat} {op : Option Op} {k : Nat} {name : Text}
    (hhas : HasFile (s.carryOut target op k) name) :
    (HasFile (s.servers k) name ∧ ¬ (target = some k ∧ op.isSome = true)) ∨
      ∃ c, op = some c ∧ target = some k ∧ HasFile (c.run (s.servers k)) name := by
  unfold carryOut at hhas
  split at hhas
  · next k' c =>
    by_cases hk : k = k'
    · subst hk
      rw [Function.update_self] at hhas
      exact .inr ⟨c, rfl, rfl, hhas⟩
    · rw [Function.update_of_ne hk] at hhas
      exact .inl ⟨hhas, fun h => hk (Option.some.inj h.1).symm⟩
  · next hnone =>
    refine .inl ⟨hhas, ?_⟩
    rintro ⟨rfl, hop⟩
    obtain ⟨c, rfl⟩ := Option.isSome_iff_exists.1 hop
    exact hnone k c rfl rfl

theorem placed_carryOut (h : ∀ k, Placed (dirs k) (s.servers k).state) (target : Option Nat) (op : Option Op) (k : Nat) :
    Placed (dirs k) (s.carryOut target op k).state := by
  unfold carryOut
  split
  · next k' c =>
    by_cases hk : k = k'
    · subst hk
      rw [Function.update_self]
      exact (c.changes (h k)).placed
    · rw [Function.update_of_ne hk]
      exact h k
  · exact h k

theorem placed_step (h : ∀ k, Placed (dirs k) (s.servers k).state) {e : Event} (hs : step s e = some t) (k : Nat) :
    Placed (dirs k) (t.servers k).state := by
  cases e with
  | manager e =>
    simp only [step] at hs
    split at hs
    · cases hs
    · obtain ⟨m, -, rfl⟩ := Option.map_eq_some_iff.1 hs
      exact h k
  | run u o op =>
    obtain ⟨job, -, hs⟩ := Option.bind_eq_some_iff.1 hs
    obtain ⟨-, hs⟩ := Option.ite_none_right_eq_some.1 hs
    obtain ⟨m, -, rfl⟩ := Option.map_eq_some_iff.1 hs
    exact placed_carryOut h _ _ k
  | deleteBackup i op =>
    obtain ⟨d, -, hs⟩ := Option.bind_eq_some_iff.1 hs
    obtain ⟨-, hs⟩ := Option.ite_none_right_eq_some.1 hs
    cases hs
    exact placed_carryOut h _ _ k

/-- The jobs of before are there, but for the one that ran. -/
theorem mem_jobs_after {m : Replication} {t : Nat} {job : Job} {rest : List Job} (new : List Job)
    (ht : m.threads[t]? = some (job :: rest)) {j : Job} (h : j ∈ m.jobs) :
    j = job ∨ j ∈ (m.threads.set t (new ++ rest)).flatten := by
  obtain ⟨thread, hthread, hj⟩ := List.mem_flatten.1 h
  obtain ⟨i, hi⟩ := List.getElem?_of_mem hthread
  by_cases hti : t = i
  · subst hti
    rw [ht] at hi
    cases hi
    rcases List.mem_cons.1 hj with rfl | hrest
    · exact .inl rfl
    · refine .inr (List.mem_flatten.2 ⟨new ++ rest, ?_, List.mem_append_right _ hrest⟩)
      exact List.mem_set (List.getElem?_eq_some_iff.1 ht).1 _
  · refine .inr (List.mem_flatten.2 ⟨thread, ?_, hj⟩)
    rw [← List.getElem?_set_ne hti (a := new ++ rest)] at hi
    exact List.mem_of_getElem? hi

theorem mem_jobs_new {m : Replication} {t : Nat} {job : Job} {rest new : List Job}
    (ht : m.threads[t]? = some (job :: rest)) {j : Job} (h : j ∈ new) :
    j ∈ (m.threads.set t (new ++ rest)).flatten :=
  List.mem_flatten.2 ⟨new ++ rest, List.mem_set (List.getElem?_eq_some_iff.1 ht).1 _, List.mem_append_left _ h⟩

/-- The other steps leave the jobs where they are. -/
theorem jobs_grow {m m' : Replication} {e : Replication.Event} (hs : m.step e = some m')
    (hrun : ∀ t o, e ≠ .run t o) {j : Job} (h : j ∈ m.jobs) : j ∈ m'.jobs := by
  have hspawn (nm : NmState) (jobs : List Job) (u : Replication) (hu : u.threads = m.threads) :
      j ∈ (u.spawn nm jobs).jobs := by
    unfold Replication.spawn Replication.jobs
    rw [hu, List.flatten_append]
    exact List.mem_append_left _ h
  cases e with
  | create user json =>
    simp only [Replication.step] at hs
    split at hs
    · obtain ⟨file, -, rfl⟩ := Option.map_eq_some_iff.1 hs
      exact hspawn _ _ m rfl
    · cases hs
      exact h
  | delete user json =>
    simp only [Replication.step] at hs
    split at hs
    · cases hs
      exact hspawn _ _ m rfl
    · cases hs
      exact h
  | register json fd =>
    simp only [Replication.step] at hs
    split at hs
    · cases hs
      exact hspawn _ _ m rfl
    · cases hs
      exact h
  | disconnect server =>
    cases hs
    exact hspawn _ _ m rfl
  | send json =>
    cases hs
    exact h
  | deliver i =>
    obtain ⟨json, -, hs⟩ := Option.bind_eq_some_iff.1 hs
    cases hs
    exact hspawn _ _ _ rfl
  | other e =>
    obtain ⟨-, hs⟩ := Option.ite_none_right_eq_some.1 hs
    obtain ⟨nm, -, rfl⟩ := Option.map_eq_some_iff.1 hs
    exact h
  | run t o => exact absurd rfl (hrun t o)

theorem mem_eraseIdx_of_ne {α : Type} {l : List α} {i : Nat} {a x : α} (hi : l[i]? = some a) (hx : x ∈ l) (hne : x ≠ a) :
    x ∈ l.eraseIdx i := by
  obtain ⟨j, hj⟩ := List.getElem?_of_mem hx
  refine List.mem_eraseIdx_iff_getElem?.2 ⟨j, ?_, hj⟩
  rintro rfl
  exact hne (Option.some.inj (hj.symm.trans hi))

namespace Inv

variable (h : Inv dirs s)

include h

omit h in
/-- An entry of tables that leave none. -/
theorem known_entry {nm : NmState} (hG : s.LeavesNone nm) {name : Text} {k : Nat} (hhas : HasFile (s.servers k) name)
    {file : FileEntry} (hfile : file ∈ s.manager.nm.files) (hname : file.name = name) (hk : (k : Int) ∈ entryServers file) :
    ∃ file ∈ nm.files, file.name = name ∧ (k : Int) ∈ entryServers file := by
  subst hname
  obtain ⟨file', hfile', hname', hk'⟩ := hG file hfile k hk (Int.natCast_nonneg k) (by rwa [Int.toNat_natCast])
  exact ⟨file', hfile', hname', hk'⟩

/-- Other entries than the one that is removed. -/
theorem mem_deleteEnd {file : FileEntry} (hfile : file ∈ s.manager.nm.files) {name : Text} (hne : file.name ≠ name) :
    file ∈ (deleteEnd s.manager.nm name).2.files := by
  unfold deleteEnd nmRemoveFile
  cases hidx : findFileIndex s.manager.nm name with
  | none => exact hfile
  | some i =>
    have hstored := h.manager.stored
    have hfind := find?_swapRemove hstored.names hidx file.name
    rw [if_neg (by simpa using hne)] at hfind
    have hbefore := nmFindFile_of_mem hstored hfile
    unfold nmFindFile at hbefore
    rw [hbefore] at hfind
    exact List.mem_of_find?_eq_some hfind

/-- A DELETE that the primary has carried out: what else has the file is asked next. -/
theorem known_removed {name : Text} {server : Int} (hG : ∀ file ∈ nmFindFile s.manager.nm name,
      file.ssIndex ≠ server → ¬ HasFile (s.servers file.ssIndex.toNat) name) {k : Nat} (hk : server.toNat ≠ k)
    (hhas : HasFile (s.servers k) name) {file : FileEntry} (hfile : file ∈ s.manager.nm.files) (hname : file.name = name)
    (hplace : (k : Int) ∈ entryServers file) : (name, k) ∈ s.backupToDelete (.deletePrimary name server) .ok := by
  have hfind : nmFindFile s.manager.nm name = some file := by
    rw [← hname]
    exact nmFindFile_of_mem h.manager.stored hfile
  rw [entryServers, List.mem_cons, List.mem_singleton] at hplace
  rcases hplace with hprimary | hbackup
  · exfalso
    by_cases hsame : file.ssIndex = server
    · omega
    · refine hG file hfind hsame ?_
      rwa [← hprimary, Int.toNat_natCast]
  · unfold backupToDelete
    simp only [hfind, ← hbackup]
    rw [if_pos trivial, if_pos (Int.natCast_nonneg k), Int.toNat_natCast]
    exact List.mem_singleton_self _

section Run

variable {u : Nat} {o : Outcome} {op : Option Op} {job : Job} {rest new : List Job}
  (ht : s.manager.threads[u]? = some (job :: rest)) {nm : NmState} {queue : List ReplicationTask}
  (hrun : job.run s.manager.nm s.manager.queue o = some (nm, queue, new))

include ht hrun

/-- What a server has had before a job is known behind it. -/
theorem known_kept (hentered : s.IsEntered job) (hleaves : s.KeepsHolders o job) {name : Text} {k : Nat}
    (hold : HasFile (s.servers k) name) (hother : ∀ server, job = .deletePrimary name server → o.reply = .ok →
      commandTarget s.manager.nm job ≠ some k) :
    Holding.Known ⟨{ s.manager with nm := nm, queue := queue, threads := s.manager.threads.set u (new ++ rest) },
      s.carryOut (commandTarget s.manager.nm job) op, s.deletes ++ s.backupToDelete job o.reply⟩ name k := by
  rcases h.known k name hold with ⟨file, hfile, hname, hk⟩ | ⟨j, hj, hmade⟩ | hdelete
  · cases job with
    | deletePrimary n server =>
      by_cases hok : o.reply = .ok
      · simp only [Job.run, hok] at hrun
        cases hrun
        by_cases hn : name = n
        · subst hn
          have hk' : server.toNat ≠ k := fun heq => hother server rfl hok (congrArg some heq)
          refine .inr (.inr (List.mem_append_right _ ?_))
          rw [hok]
          exact h.known_removed (hleaves hok) hk' hold hfile hname hk
        · exact .inl ⟨file, h.mem_deleteEnd hfile (by rwa [hname]), hname, hk⟩
      · have hfiles : nm.files = s.manager.nm.files := by
          simp only [Job.run] at hrun
          split at hrun
          · cases hrun
            exact nmMarkServerDown_files _ _
          · cases hrun
            rfl
          · next hreply => exact absurd hreply hok
        refine .inl ⟨file, ?_, hname, hk⟩
        rw [hfiles]
        exact hfile
    | _ => exact .inl (known_entry (hleaves (nm, queue, new) hrun) hold hfile hname hk)
  · rcases mem_jobs_after new ht hj with rfl | hrest
    · rcases hasMade_kept hrun hmade hentered hold with hentry | ⟨j', hj', hmade'⟩
      · exact .inl hentry
      · exact .inr (.inl ⟨j', mem_jobs_new ht hj', hmade'⟩)
    · exact .inr (.inl ⟨j, hrest, hmade⟩)
  · exact .inr (.inr (List.mem_append_left _ hdelete))

/-- What a server has when the job has run. -/
theorem known_run (hanswers : s.answers job o.reply op = true) (hanswered : s.IsAnswered job o.reply op)
    (hentered : s.IsEntered job) (hleaves : s.KeepsHolders o job) {name : Text} {k : Nat}
    (hhas : HasFile (s.carryOut (commandTarget s.manager.nm job) op k) name) :
    Holding.Known ⟨{ s.manager with nm := nm, queue := queue, threads := s.manager.threads.set u (new ++ rest) },
      s.carryOut (commandTarget s.manager.nm job) op, s.deletes ++ s.backupToDelete job o.reply⟩ name k := by
  rcases hasFile_carryOut hhas with ⟨hold, hnot⟩ | ⟨c, rfl, htarget, hafter⟩
  · refine h.known_kept ht hrun hentered hleaves hold ?_
    intro server _ hok htarget
    apply hnot
    refine ⟨htarget, ?_⟩
    cases op with
    | some c => rfl
    | none =>
      unfold answers at hanswers
      rw [htarget, hok] at hanswers
      cases hanswers
  have hcommand : isCommand job c = true := by
    unfold answers at hanswers
    rw [htarget] at hanswers
    exact (Bool.and_eq_true_iff.1 hanswers).1
  have hfile := jobFile_of_isCommand hcommand
  by_cases hsame : name = c.file.text
  · subst hsame
    by_cases hdelete : ∀ n server, job ≠ .deletePrimary n server
    · rcases hanswered k htarget c rfl hafter with hold | hok
      · exact h.known_kept ht hrun hentered hleaves hold fun server heq => absurd heq (hdelete _ server)
      · obtain ⟨j, hj, hmade⟩ := exists_hasMade hrun htarget hok hfile hdelete
        exact .inr (.inl ⟨j, mem_jobs_new ht hj, hmade⟩)
    · -- what a DELETE has carried out is gone
      simp only [not_forall, not_not] at hdelete
      obtain ⟨n, server, rfl⟩ := hdelete
      cases c with
      | delete file => exact absurd hafter (not_hasFile_delete (h.placed k) file)
      | _ => cases hcommand
  · refine h.known_kept ht hrun hentered hleaves ((hasFile_run_of_ne (h.placed k) c hsame).1 hafter) ?_
    rintro server rfl
    exact absurd (Option.some.inj hfile) hsame

end Run

/-- What a server has when the command to the backup was sent. -/
theorem known_deleteBackup {i : Nat} {op : Option Op} {name : Text} {k : Nat} (hd : s.deletes[i]? = some (name, k))
    (hop : op.all (isCommand (.deletePrimary name k)) = true) (hreached : HasFile (s.servers k) name → op.isSome = true)
    {name' : Text} {k' : Nat} (hhas : HasFile (s.carryOut (some k) op k') name') :
    Holding.Known { s with servers := s.carryOut (some k) op, deletes := s.deletes.eraseIdx i } name' k' := by
  have hkeep (hold : HasFile (s.servers k') name') (hne : (name', k') ≠ (name, k)) :
      Holding.Known { s with servers := s.carryOut (some k) op, deletes := s.deletes.eraseIdx i } name' k' := by
    rcases h.known k' name' hold with hentry | hmade | hdelete
    · exact .inl hentry
    · exact .inr (.inl hmade)
    · exact .inr (.inr (mem_eraseIdx_of_ne hd hdelete hne))
  rcases hasFile_carryOut hhas with ⟨hold, hnot⟩ | ⟨c, rfl, htarget, hafter⟩
  · refine hkeep hold ?_
    rintro heq
    cases heq
    exact hnot ⟨rfl, hreached hold⟩
  · obtain rfl := Option.some.inj htarget
    have hname : name = c.file.text := Option.some.inj (jobFile_of_isCommand hop)
    by_cases hsame : name' = c.file.text
    · exfalso
      cases c with
      | delete file =>
        rw [hsame] at hafter
        exact not_hasFile_delete (h.placed k) file hafter
      | _ => cases hop
    · refine hkeep ((hasFile_run_of_ne (h.placed k) c hsame).1 hafter) ?_
      intro heq
      cases heq
      exact hsame hname

theorem step {e : Event} (hG : s.Tidy e) (hs : step s e = some t) : Inv dirs t := by
  have hplaced := placed_step h.placed hs
  cases e with
  | manager e =>
    simp only [Holding.step] at hs
    split at hs
    · cases hs
    · next hrun =>
      obtain ⟨m, hm, rfl⟩ := Option.map_eq_some_iff.1 hs
      refine ⟨h.manager.step hm, hplaced, ?_⟩
      intro k name hhas
      rcases h.known k name hhas with ⟨file, hfile, hname, hk⟩ | ⟨j, hj, hmade⟩ | hdelete
      · exact .inl (known_entry (hG m hm) hhas hfile hname hk)
      · exact .inr (.inl ⟨j, jobs_grow hm hrun hj, hmade⟩)
      · exact .inr (.inr hdelete)
  | run u o op =>
    obtain ⟨job, hjob, hs⟩ := Option.bind_eq_some_iff.1 hs
    obtain ⟨hanswers, hs⟩ := Option.ite_none_right_eq_some.1 hs
    obtain ⟨m, hm, rfl⟩ := Option.map_eq_some_iff.1 hs
    obtain ⟨hanswered, hentered, hleaves⟩ := hG job hjob
    refine ⟨h.manager.step hm, hplaced, ?_⟩
    -- the thread and what its job comes to
    obtain ⟨thread, ht, hhead⟩ := Option.bind_eq_some_iff.1 hjob
    obtain ⟨rest, rfl⟩ : ∃ rest, thread = job :: rest := by
      cases thread with
      | nil => cases hhead
      | cons j rest =>
        cases hhead
        exact ⟨rest, rfl⟩
    simp only [Replication.step, ht] at hm
    obtain ⟨⟨nm, queue, new⟩, hrun, rfl⟩ := Option.map_eq_some_iff.1 hm
    intro k name hhas
    exact h.known_run ht hrun hanswers hanswered hentered hleaves hhas
  | deleteBackup i op =>
    obtain ⟨⟨name, k⟩, hd, hs⟩ := Option.bind_eq_some_iff.1 hs
    obtain ⟨hop, hs⟩ := Option.ite_none_right_eq_some.1 hs
    cases hs
    refine ⟨h.manager, hplaced, ?_⟩
    intro k' name' hhas
    exact h.known_deleteBackup hd hop (hG (name, k) hd) hhas

end Inv

theorem inv_of_started (h : Started dirs s) : Inv dirs s where
  manager := by
    rw [h.manager]
    exact Replication.inv_initial
  placed := h.placed
  known k name hhas := by
    unfold HasFile at hhas
    rw [h.files] at hhas
    cases hhas

theorem servers_placed {tr : List (Holding × Event)} (h : (system dirs).Run tr s) (k : Nat) :
    Placed (dirs k) (s.servers k).state :=
  System.Run.invariant (S := system dirs) (G := fun _ _ => True) (I := fun s => ∀ k, Placed (dirs k) (s.servers k).state)
    (fun _ h => h.placed) (fun _ _ _ h _ hs => placed_step h hs) h (fun _ _ => trivial) k

/-- The queue has drained, and nobody is at work on the file. -/
def Drained (s : Holding) (name : Text) : Prop :=
  s.manager.queue = [] ∧ (∀ job ∈ s.manager.jobs, jobFile job ≠ some name) ∧ ∀ d ∈ s.deletes, d.1 ≠ name

/-- What is removed and drained is on no server, and a server that can store it takes it again. -/
def Gone (s : Holding) : Prop :=
  ∀ file : FileName, nmFindFile s.manager.nm file.text = none → s.Drained file.text → ∀ k,
    ¬ HasFile (s.servers k) file.text ∧ ∀ owner now, succeeds (s.servers k) (.create file owner ⟨now, true, true, true⟩) = true

theorem jobFile_of_hasMade {job : Job} {name : Text} {k : Nat} (h : hasMade job name k) : jobFile job = some name := by
  cases job with
  | createBackup user file primary count i => exact congrArg some h.1
  | createEnd user file primary backup => exact congrArg some h.1
  | conclude task target => exact congrArg some h.1
  | _ => exact h.elim

/-- A server takes a file that it can store if and only if it does not have it. -/
theorem succeeds_create_iff {dir : Text} {srv : Server} (h : Placed dir srv.state) (file : FileName) (owner : Text)
    (now : Int) : succeeds srv (.create file owner ⟨now, true, true, true⟩) = true ↔ ¬ HasFile srv file.text := by
  have hfind := Ss.ssStateFind_eq h.sorted file.text
  unfold succeeds HasFile ssStateAdd
  dsimp only
  split
  · next hsome =>
    rw [hsome] at hfind
    rw [← hfind]
    simp
  · next hnone =>
    rw [hnone] at hfind
    rw [← hfind]
    simp

theorem Inv.gone (h : Inv dirs s) : s.Gone := by
  intro file hremoved hdrained k
  obtain ⟨-, hjobs, hdeletes⟩ := hdrained
  have hnone : ¬ HasFile (s.servers k) file.text := by
    intro hhas
    rcases h.known k file.text hhas with ⟨entry, hentry, hname, -⟩ | ⟨job, hjob, hmade⟩ | hdelete
    · have hnone := List.find?_eq_none.1 hremoved entry hentry
      exact hnone (by simpa using hname)
    · exact hjobs job hjob (jobFile_of_hasMade hmade)
    · exact hdeletes _ hdelete rfl
  exact ⟨hnone, fun owner now => (succeeds_create_iff (h.placed k) file owner now).2 hnone⟩

/-- **A file that was removed is on no server**, in every state of every run in which no copy is left behind. -/
theorem removed_everywhere_of_run {tr : List (Holding × Event)} (h : (system dirs).Run tr s)
    (hG : System.Meets Tidy tr) : System.Throughout Gone tr s := by
  have hI := h.invariant_all (I := Inv dirs) (fun _ => inv_of_started) (fun _ _ _ hI hG hs => hI.step hG hs) hG
  exact ⟨hI.1.gone, fun p hp => (hI.2 p hp).gone⟩

/-! ## Two runs -/

instance (s : Holding) (nm : NmState) : Decidable (s.LeavesNone nm) :=
  inferInstanceAs (Decidable (∀ file ∈ s.manager.nm.files, ∀ i ∈ entryServers file, _ → _ → _))

instance (s : Holding) (job : Job) (reply : Reply) (op : Option Op) : Decidable (s.IsAnswered job reply op) :=
  inferInstanceAs (Decidable (∀ k ∈ commandTarget s.manager.nm job, ∀ c : Op, c ∈ op → _ → _))

instance (s : Holding) : (job : Job) → Decidable (s.IsEntered job)
  | .createEnd _ file _ _ => inferInstanceAs (Decidable (findFileIndex s.manager.nm file.text = none ∧ _))
  | .conclude task target => inferInstanceAs (Decidable (HasFile (s.servers target.toNat) task.file →
      ∃ file ∈ nmFindFile s.manager.nm task.file, target = file.backupIndex ∨
        (task.assignMode = true ∧ file.ssIndex = task.primaryIndex)))
  | .next | .examine .. | .check .. | .choose .. | .sync .. | .failure .. | .tryAssign .. | .schedule .. | .scan ..
  | .createPrimary .. | .createBackup .. | .deletePrimary .. => isTrue trivial

instance (s : Holding) (o : Outcome) : (job : Job) → Decidable (s.KeepsHolders o job)
  | .deletePrimary name server => inferInstanceAs (Decidable (o.reply = .ok →
      ∀ file ∈ nmFindFile s.manager.nm name, file.ssIndex ≠ server → ¬ HasFile (s.servers file.ssIndex.toNat) name))
  | .next => inferInstanceAs (Decidable (∀ r ∈ Job.next.run s.manager.nm s.manager.queue o, s.LeavesNone r.1))
  | .examine .. | .check .. | .choose .. | .sync .. | .failure .. | .tryAssign .. | .schedule .. | .scan ..
  | .createPrimary .. | .createBackup .. | .createEnd .. | .conclude .. =>
      inferInstanceAs (Decidable (∀ r ∈ Job.run s.manager.nm s.manager.queue o _, s.LeavesNone r.1))

instance (s : Holding) : (e : Event) → Decidable (s.Tidy e)
  | .manager e => inferInstanceAs (Decidable (∀ manager ∈ s.manager.step e, s.LeavesNone manager.nm))
  | .run t o op => inferInstanceAs (Decidable (∀ job ∈ s.firstJob t, s.IsAnswered job o.reply op ∧ s.IsEntered job ∧
      s.KeepsHolders o job))
  | .deleteBackup i op => inferInstanceAs (Decidable (∀ d ∈ s.deletes[i]?, HasFile (s.servers d.2) d.1 → op.isSome = true))

/-- The name manager and servers without files. -/
def empty : Holding where
  manager := .initial
  servers _ := ⟨Ss.ssStateInit (Text.lit "/s"), fun _ => none, []⟩
  deletes := []

theorem started_empty : Started (fun _ => Text.lit "/s") empty where
  manager := rfl
  placed _ := Placed.init _
  files _ _ := rfl
  deletes := rfl

theorem drained_of_idle {s : Holding} {name : Text} (hqueue : s.manager.queue = [])
    (hjobs : ∀ job ∈ s.manager.jobs, (jobFile job).isNone = true) (hdeletes : s.deletes = []) : s.Drained name := by
  refine ⟨hqueue, ?_, ?_⟩
  · intro job hjob heq
    have hnone := hjobs job hjob
    rw [heq] at hnone
    cases hnone
  · rw [hdeletes]
    intro d hd
    cases hd

def fileMessage (file : FileName) : Text := printMessage [(Text.lit "file", .string file.text)]

/-- Two servers register, and Alice makes a file on both. -/
def madeOnBoth (file : FileName) : List Event :=
  let create : Op := .create file alice.text ⟨0, true, true, true⟩
  [.manager (.register (Replication.registration (Text.lit "ss1")) 4),
    .manager (.register (Replication.registration (Text.lit "ss2")) 5), .manager (.create alice (fileMessage file)),
    .run 3 Replication.allOk (some create), .run 3 Replication.allOk none, .run 3 Replication.allOk (some create),
    .run 3 Replication.allOk none]

/-- Alice removes the file, and both servers are asked. -/
theorem gone_from_both : ∃ tr s, (system fun _ => Text.lit "/s").Run tr s ∧ s.manager.nm.files = [] ∧
    ¬ HasFile (s.servers 0) (Text.lit "f") ∧ ¬ HasFile (s.servers 1) (Text.lit "f") := by
  let f : FileName := ⟨Text.lit "f", by decide, by decide⟩
  let events := madeOnBoth f ++ [.manager (.delete alice (fileMessage f)), .run 4 Replication.allOk (some (.delete f)),
    .deleteBackup 0 (some (.delete f))]
  have hexec : ((System.exec step [] empty events).any fun r =>
      decide (∀ p ∈ r.1, Tidy p.1 p.2) && decide (r.2.manager.nm.files = []) && r.2.manager.queue.isEmpty &&
        (r.2.manager.jobs.all fun job => (jobFile job).isNone) && r.2.deletes.isEmpty) = true := by decide +kernel
  obtain ⟨⟨tr, s⟩, hexec, hcheck⟩ := (Option.any_eq_true _ _).1 hexec
  simp only [Bool.and_eq_true, decide_eq_true_eq, List.all_eq_true, List.isEmpty_iff] at hcheck
  obtain ⟨⟨⟨⟨hG, hfiles⟩, hqueue⟩, hjobs⟩, hdeletes⟩ := hcheck
  have hrun : (system fun _ => Text.lit "/s").Run tr s := System.Run.exec (.start started_empty) hexec
  have hremoved : nmFindFile s.manager.nm f.text = none := by
    unfold nmFindFile
    rw [hfiles]
    rfl
  have hdrained : s.Drained f.text := drained_of_idle hqueue hjobs hdeletes
  have hgone := (removed_everywhere_of_run hrun hG).1 f hremoved hdrained
  exact ⟨tr, s, hrun, hfiles, (hgone 0).1, (hgone 1).1⟩

/-- The primary leaves and the backup takes over; the file is removed there. The first server comes back with the
file, which is in no table, and refuses it to everybody. -/
theorem orphan_refuses_create : ∃ (file : FileName) (tr : List (Holding × Event)) (s : Holding),
    (system fun _ => Text.lit "/s").Run tr s ∧ (∃ p ∈ tr, (nmFindFile p.1.manager.nm file.text).isSome = true) ∧
    nmFindFile s.manager.nm file.text = none ∧ s.Drained file.text ∧ s.manager.nm.available 0 = true ∧
    HasFile (s.servers 0) file.text ∧
    ∀ owner now, succeeds (s.servers 0) (.create file owner ⟨now, true, true, true⟩) = false := by
  let f : FileName := ⟨Text.lit "f", by decide, by decide⟩
  let events := madeOnBoth f ++ [.manager (.disconnect 0), .manager (.delete alice (fileMessage f)),
    .run 5 Replication.allOk (some (.delete f)), .manager (.register (Replication.registration (Text.lit "ss1")) 6),
    .run 6 Replication.allOk none]
  have hexec : ((System.exec step [] empty events).any fun r =>
      r.2.manager.nm.available 0 && decide (r.2.manager.nm.files = []) && r.2.manager.queue.isEmpty &&
        (r.2.manager.jobs.all fun job => (jobFile job).isNone) && r.2.deletes.isEmpty &&
          decide (HasFile (r.2.servers 0) f.text) &&
            decide (∃ p ∈ r.1, (nmFindFile p.1.manager.nm f.text).isSome = true)) = true := by decide +kernel
  obtain ⟨⟨tr, s⟩, hexec, hcheck⟩ := (Option.any_eq_true _ _).1 hexec
  simp only [Bool.and_eq_true, decide_eq_true_eq, List.all_eq_true, List.isEmpty_iff] at hcheck
  obtain ⟨⟨⟨⟨⟨⟨havailable, hfiles⟩, hqueue⟩, hjobs⟩, hdeletes⟩, hhas⟩, hlisted⟩ := hcheck
  have hrun : (system fun _ => Text.lit "/s").Run tr s := System.Run.exec (.start started_empty) hexec
  have hremoved : nmFindFile s.manager.nm f.text = none := by
    unfold nmFindFile
    rw [hfiles]
    rfl
  refine ⟨f, tr, s, hrun, hlisted, hremoved, drained_of_idle hqueue hjobs hdeletes, havailable, hhas, ?_⟩
  intro owner now
  have hplaced := servers_placed hrun 0
  cases hsucceeds : succeeds (s.servers 0) (.create f owner ⟨now, true, true, true⟩) with
  | false => rfl
  | true => exact absurd hhas ((succeeds_create_iff hplaced f owner now).1 hsucceeds)

end Holding

end CoWrite.Cluster
