import CoWrite.Cluster.Checkpoints
import CoWrite.Ss.Counts

/-!
# Checkpoints of servers that take over

A checkpoint is stored on the servers that are the primary and the backup of its file when it is made. A backup that
is assigned later is sent the text of the file alone, and when it takes over, the tags that are listed stay listed.

* `ssReadCheckpoint_of_hasTag`: a server that has the tag can be asked for it.
* `checkpoints_kept_of_run`: the primary of a file has every tag that is listed, in every run in which a backup that
  takes over has them.
-/

namespace CoWrite.Cluster

open CoWrite.Lib
open CoWrite.Nm
open CoWrite.Ss (Server Env DataEnv Op Placed Changes Writes checkpointPath tmpPath metaPath ssStateInit)

/-- The server has a checkpoint of the file under the tag. -/
def HasTag (dir : Text) (srv : Server) (name tag : Text) : Prop := (srv.fs (checkpointPath dir name tag)).isSome = true

instance (dir : Text) (srv : Server) (name tag : Text) : Decidable (HasTag dir srv name tag) :=
  inferInstanceAs (Decidable ((srv.fs (checkpointPath dir name tag)).isSome = true))

/-- A CHECKPOINT has been asked for, is stored on the primary, is listed, or is at its end. -/
inductive CheckpointStage where
  | asked
  | stored
  | listed
  | ended
deriving DecidableEq, Repr

/-- A CHECKPOINT with the servers it read. -/
structure PlacedCheckpoint where
  user : Client
  file : FileName
  tag : FileName
  primary : Nat
  backup : Int
  stage : CheckpointStage

/-- The name manager, the storage servers, and the CHECKPOINTs under way. -/
structure Promoting where
  nm : NmState
  servers : Nat → Server
  requests : List PlacedCheckpoint

namespace Promoting

inductive Event where
  | request (user : Client) (json : Text)
  /-- The command at the primary: without `env` the server is not reached; `arrives` is whether the reply does. -/
  | rpc (i : Nat) (env : Option Env) (arrives : Bool)
  | register (i : Nat) (now : Time)
  /-- The command at the backup. -/
  | rpcBackup (i : Nat) (env : Option Env)
  /-- A server creates, writes, undoes, reverts, syncs or deletes a file. -/
  | op (k : Nat) (op : Op)
  /-- A READ or a STREAM that comes to `touchFile`. -/
  | touch (k : Nat) (env : DataEnv) (file : FileName) (user : Text)
  /-- What else the name manager does: requests, registrations, disconnects, rounds of the replication worker. -/
  | tables (e : Nm.Event)

def setStage (s : Promoting) (i : Nat) (r : PlacedCheckpoint) (stage : CheckpointStage) : Promoting :=
  { s with requests := s.requests.set i { r with stage := stage } }

def serve (s : Promoting) (k : Nat) (srv : Server) : Promoting :=
  { s with servers := Function.update s.servers k srv }

def step (s : Promoting) : Event → Option Promoting
  | .request user json =>
    match checkpointBegin s.nm user.text json with
    | .error _ => some s
    | .ok (name, tag) =>
      (nmFindFile s.nm name).bind fun entry =>
        -- the primary is offline
        if entry.ssIndex < 0 then some s
        else
          (FileName.ofText name).bind fun file =>
            (FileName.ofText tag).map fun tag =>
              { s with requests := s.requests ++ [⟨user, file, tag, entry.ssIndex.toNat, entry.backupIndex, .asked⟩] }
  | .rpc i env arrives =>
    (s.requests[i]?).bind fun r =>
      if r.stage = .asked then
        match env with
        | none => some (s.setStage i r .ended)
        | some env =>
          let result := Ss.ssCreateCheckpoint env (s.servers r.primary) r.file.text r.tag.text
          some ((s.serve r.primary result.1).setStage i r (if result.2.toBool && arrives then .stored else .ended))
      else none
  | .register i now =>
    (s.requests[i]?).bind fun r =>
      if r.stage = .stored then
        match checkpointEnd s.nm r.user.text r.file.text r.tag.text now.val with
        | (.ok _, nm) => some ({ s with nm := nm }.setStage i r .listed)
        | (.error _ _, nm) => some ({ s with nm := nm }.setStage i r .ended)
      else none
  | .rpcBackup i env =>
    (s.requests[i]?).bind fun r =>
      if r.stage = .listed ∧ r.backup ≥ 0 ∧ r.backup ≠ r.primary then
        match env with
        | none => some (s.setStage i r .ended)
        | some env =>
          let k := r.backup.toNat
          some ((s.serve k (Ss.ssCreateCheckpoint env (s.servers k) r.file.text r.tag.text).1).setStage i r .ended)
      else none
  | .op k op =>
    match op with
    | .checkpoint .. => none
    | op => some (s.serve k (op.run (s.servers k)))
  | .touch k env file user => some (s.serve k (Ss.touchFile env (s.servers k) file.text user).1)
  | .tables e =>
    match e with
    | .checkpointEnd .. => none
    | e => (tablesStep s.nm e).map fun nm => { s with nm := nm }

/-- No file is known to the name manager; the servers may have some. -/
structure Started (dirs : Nat → Text) (s : Promoting) : Prop where
  stored : s.nm.Stored
  files : s.nm.files = []
  placed : ∀ k, Placed (dirs k) (s.servers k).state
  requests : s.requests = []

def system (dirs : Nat → Text) : System Promoting Event := .ofStep (Started dirs) step

/-- The checkpoints that the server is to have: the listed ones of the files it is the primary of, and those that
are about to be listed. -/
def needs (s : Promoting) (k : Nat) : List (Text × Text) :=
  (s.nm.files.filter fun file => file.ssIndex == (k : Int)).flatMap
      (fun file => file.checkpoints.map fun c => (file.name, c.tag)) ++
    (s.requests.filter fun r => decide (r.stage = .stored) && r.primary == k).map fun r => (r.file.text, r.tag.text)

/-- The temporary of the checkpoint is none of the checkpoints that the server is to have. -/
def Spares (dirs : Nat → Text) (s : Promoting) (k : Nat) (r : PlacedCheckpoint) : Prop :=
  ∀ p ∈ s.needs k, checkpointPath (dirs k) p.1 p.2 ≠ tmpPath (checkpointPath (dirs k) r.file.text r.tag.text)

/-- A backup that takes over has every checkpoint that is listed. The primary at the end of a CHECKPOINT is the server
that stored it, or has one of the tag. No checkpoint is stored over another one by way of its temporary. -/
def Covered (dirs : Nat → Text) (s : Promoting) : Event → Prop
  | .tables e => ∀ file ∈ s.nm.files, promotes s.nm e file = true → ∀ c ∈ file.checkpoints,
      HasTag (dirs file.backupIndex.toNat) (s.servers file.backupIndex.toNat) file.name c.tag
  | .register i _ => ∀ r ∈ s.requests[i]?, ∀ file ∈ nmFindFile s.nm r.file.text, file.ssIndex ≠ r.primary →
      HasTag (dirs file.ssIndex.toNat) (s.servers file.ssIndex.toNat) r.file.text r.tag.text
  | .rpc i _ _ => ∀ r ∈ s.requests[i]?, s.Spares dirs r.primary r
  | .rpcBackup i _ => ∀ r ∈ s.requests[i]?, s.Spares dirs r.backup.toNat r
  | .request .. | .op .. | .touch .. => True

structure Inv (dirs : Nat → Text) (s : Promoting) : Prop where
  stored : s.nm.Stored
  placed : ∀ k, Placed (dirs k) (s.servers k).state
  primaries : ∀ file ∈ s.nm.files, 0 ≤ file.ssIndex
  kept : ∀ k, ∀ p ∈ s.needs k, HasTag (dirs k) (s.servers k) p.1 p.2

end Promoting

/-- Only a backup that is there takes over. -/
theorem available_of_promotes {nm : NmState} {e : Nm.Event} {file : FileEntry} (h : promotes nm e file = true) :
    nm.available file.backupIndex = true := by
  have hselects {user json : Text} {perm : BitVec 32} (h : selectsBackup nm user json perm file = true) :
      nm.available file.backupIndex = true := (Bool.and_eq_true_iff.1 h).2
  unfold promotes at h
  split at h
  · rw [Bool.and_eq_true, Bool.and_eq_true] at h
    exact h.1.2
  · exact hselects h
  · exact hselects h
  · exact hselects h
  · cases h

/-! ## Checkpoints on a server -/

section Server

variable {dir : Text} {srv : Server} (h : Placed dir srv.state)

theorem HasTag.writes {srv' : Server} {name tag : Text} (hhas : HasTag dir srv name tag) {ws : List Text}
    (hfs : Writes ws srv.fs srv'.fs) (hpath : checkpointPath dir name tag ∉ ws) : HasTag dir srv' name tag := by
  unfold HasTag at hhas ⊢
  rw [hfs _ hpath]
  exact hhas

include h

/-- A command that succeeds stores the checkpoint. None that was stored is lost, but the one at the temporary. -/
theorem hasTag_ssCreateCheckpoint (env : Env) (file tag : FileName) :
    ((Ss.ssCreateCheckpoint env srv file.text tag.text).2 = .ok () →
      HasTag dir (Ss.ssCreateCheckpoint env srv file.text tag.text).1 file.text tag.text) ∧
    ∀ name t, HasTag dir srv name t → checkpointPath dir name t ≠ tmpPath (checkpointPath dir file.text tag.text) →
      HasTag dir (Ss.ssCreateCheckpoint env srv file.text tag.text).1 name t := by
  rcases ssCreateCheckpoint_cases h env file tag with ⟨hsrv, hfail⟩ | ⟨content, -, hsrv, hok⟩
  · rw [hsrv]
    exact ⟨fun hok => absurd hok hfail, fun _ _ hhas _ => hhas⟩
  · obtain ⟨fs, hfs, hstored, hother⟩ := Ss.storeTextAtomic_done srv.fs (checkpointPath dir file.text tag.text) content
    rw [hsrv, hok]
    constructor
    · intro hdone
      unfold HasTag
      dsimp only
      rw [hdone, hfs]
      exact Option.isSome_iff_exists.2 ⟨content, hstored⟩
    · intro name t hhas htmp
      unfold HasTag at hhas ⊢
      dsimp only
      cases hstore : env.checkpointStore with
      | done =>
        rw [hfs]
        dsimp only
        by_cases hpath : checkpointPath dir name t = checkpointPath dir file.text tag.text
        · rw [hpath]
          exact Option.isSome_iff_exists.2 ⟨content, hstored⟩
        · rw [hother _ hpath htmp]
          exact hhas
      | openFailed => exact hhas
      | failed left =>
        rw [show (Ss.storeTextAtomic srv.fs (checkpointPath dir file.text tag.text) content (.failed left)).2
          (checkpointPath dir name t) = srv.fs (checkpointPath dir name t) from Function.update_of_ne htmp ..]
        exact hhas

/-- **A checkpoint that is stored is found**, by VIEWCHECKPOINT as by REVERT. -/
theorem ssReadCheckpoint_of_hasTag {name tag : Text} (hname : IsName name) (htag : IsName tag)
    (hhas : HasTag dir srv name tag) {env : Env} (hdir : env.checkpointDir = true) (hload : env.undoLoad = true) :
    ∃ content, Ss.ssReadCheckpoint env srv name tag = .ok content := by
  have hdirs : srv.state.checkpointsDir = (ssStateInit dir).checkpointsDir := by rw [← h.dirs]
  have hlen : (ssStateInit dir).checkpointsDir.length < 256 := Text.length_copyTo_lt _ (by decide)
  have hnameLen : name.length < 128 := hname.2
  have htagLen : tag.length < 128 := htag.2
  have hpath : Ss.buildCheckpointPath env srv.state name tag = .ok (checkpointPath dir name tag) := by
    unfold Ss.buildCheckpointPath
    dsimp only
    rw [hdirs, if_neg, hdir, Bool.not_true, if_neg Bool.false_ne_true, if_neg]
    · rfl
    · simp only [List.length_append, List.length_cons]
      omega
    · simp only [List.length_append, List.length_cons]
      omega
  obtain ⟨content, hcontent⟩ := Option.isSome_iff_exists.1 hhas
  have hvalid : Ss.validFilename tag = true := htag.1
  refine ⟨content, ?_⟩
  unfold Ss.ssReadCheckpoint
  rw [hvalid, Bool.not_true, if_neg Bool.false_ne_true, hpath]
  dsimp only
  rw [Ss.loadText, hload, if_pos rfl, hcontent]

end Server

namespace Promoting

variable {dirs : Nat → Text} {s t : Promoting}

@[simp] theorem servers_serve_self (s : Promoting) (k : Nat) (srv : Server) : (s.serve k srv).servers k = srv :=
  Function.update_self ..

theorem servers_serve_of_ne (s : Promoting) {j k : Nat} (h : j ≠ k) (srv : Server) :
    (s.serve k srv).servers j = s.servers j := Function.update_of_ne h ..

/-! ## What the servers are to have -/

theorem mem_needs {k : Nat} {p : Text × Text} : p ∈ s.needs k ↔
    (∃ file ∈ s.nm.files, file.ssIndex = k ∧ ∃ c ∈ file.checkpoints, p = (file.name, c.tag)) ∨
      ∃ r ∈ s.requests, r.stage = .stored ∧ r.primary = k ∧ p = (r.file.text, r.tag.text) := by
  unfold needs
  rw [List.mem_append]
  apply or_congr
  · simp only [List.mem_flatMap, List.mem_filter, beq_iff_eq, List.mem_map, and_assoc]
    exact ⟨fun ⟨file, hf, hk, c, hc, hp⟩ => ⟨file, hf, hk, c, hc, hp.symm⟩,
      fun ⟨file, hf, hk, c, hc, hp⟩ => ⟨file, hf, hk, c, hc, hp.symm⟩⟩
  · simp only [List.mem_map, List.mem_filter, Bool.and_eq_true, decide_eq_true_eq, beq_iff_eq, and_assoc]
    exact ⟨fun ⟨r, hr, hs, hk, hp⟩ => ⟨r, hr, hs, hk, hp.symm⟩, fun ⟨r, hr, hs, hk, hp⟩ => ⟨r, hr, hs, hk, hp.symm⟩⟩

/-- A stage that begins no more than it has stored needs nothing else. -/
theorem needs_setStage {i k : Nat} {r : PlacedCheckpoint} {stage : CheckpointStage} {p : Text × Text}
    (hp : p ∈ (s.setStage i r stage).needs k) :
    p ∈ s.needs k ∨ (stage = .stored ∧ r.primary = k ∧ p = (r.file.text, r.tag.text)) := by
  rcases mem_needs.1 hp with hfile | ⟨r', hr', hstage, hk, hp⟩
  · exact .inl (mem_needs.2 (.inl hfile))
  · rcases List.mem_or_eq_of_mem_set hr' with hold | rfl
    · exact .inl (mem_needs.2 (.inr ⟨r', hold, hstage, hk, hp⟩))
    · exact .inr ⟨hstage, hk, hp⟩

namespace Inv

variable (h : Inv dirs s)

include h

/-- What is needed is named. -/
theorem exists_names {k : Nat} {p : Text × Text} (hp : p ∈ s.needs k) :
    ∃ file tag : FileName, p = (file.text, tag.text) := by
  rcases mem_needs.1 hp with ⟨file, hfile, -, c, hc, rfl⟩ | ⟨r, -, -, -, rfl⟩
  · have hname := (h.stored.files file hfile).name
    have htag := ((h.stored.files file hfile).checkpoints c hc).tag
    exact ⟨⟨file.name, hname.1, hname.2⟩, ⟨c.tag, htag.1, htag.2⟩, rfl⟩
  · exact ⟨r.file, r.tag, rfl⟩

/-- A server that loses nothing it is to have. -/
theorem serve {k : Nat} {srv : Server} (hplaced : Placed (dirs k) srv.state)
    (hkept : ∀ p ∈ s.needs k, HasTag (dirs k) (s.servers k) p.1 p.2 → HasTag (dirs k) srv p.1 p.2) :
    Inv dirs (s.serve k srv) where
  stored := h.stored
  placed j := by
    by_cases hj : j = k
    · subst hj
      rw [servers_serve_self]
      exact hplaced
    · rw [servers_serve_of_ne s hj]
      exact h.placed j
  primaries := h.primaries
  kept j p hp := by
    have hp : p ∈ s.needs j := hp
    by_cases hj : j = k
    · subst hj
      rw [servers_serve_self]
      exact hkept p hp (h.kept j p hp)
    · rw [servers_serve_of_ne s hj]
      exact h.kept j p hp

/-- An operation that writes none of the checkpoints. -/
theorem changes {k : Nat} {name : Text} {ws : List Text} {srv : Server}
    (hchanges : Changes (dirs k) name ws (s.servers k) srv)
    (hws : ∀ file tag : FileName, checkpointPath (dirs k) file.text tag.text ∉ ws) : Inv dirs (s.serve k srv) := by
  refine h.serve hchanges.placed ?_
  intro p hp hhas
  obtain ⟨file, tag, rfl⟩ := h.exists_names hp
  exact hhas.writes hchanges.writes (hws file tag)

/-- A command stores its checkpoint beside the ones that are needed. -/
theorem checkpoint {k : Nat} (env : Env) (file tag : FileName) (hspares : ∀ p ∈ s.needs k,
      checkpointPath (dirs k) p.1 p.2 ≠ tmpPath (checkpointPath (dirs k) file.text tag.text)) :
    Inv dirs (s.serve k (Ss.ssCreateCheckpoint env (s.servers k) file.text tag.text).1) := by
  refine h.serve (Op.changes (h.placed k) (.checkpoint env file tag)).placed ?_
  intro p hp hhas
  exact (hasTag_ssCreateCheckpoint (h.placed k) env file tag).2 p.1 p.2 hhas (hspares p hp)

theorem setStage {i : Nat} {r : PlacedCheckpoint} {stage : CheckpointStage}
    (hstored : stage = .stored → HasTag (dirs r.primary) (s.servers r.primary) r.file.text r.tag.text) :
    Inv dirs (s.setStage i r stage) where
  stored := h.stored
  placed := h.placed
  primaries := h.primaries
  kept k p hp := by
    rcases needs_setStage hp with hold | ⟨hstage, rfl, rfl⟩
    · exact h.kept k p hold
    · exact hstored hstage

/-- A section that lists nothing. -/
theorem tables {e : Nm.Event} {nm : NmState} (hs : tablesStep s.nm e = some nm)
    (hlist : ∀ user name tag now, e ≠ .checkpointEnd user name tag now) (hG : s.Covered dirs (.tables e)) :
    Inv dirs { s with nm := nm } where
  stored := tablesStep_stored h.stored hs
  placed := h.placed
  primaries file' hmem := by
    rcases primary_step h.stored hs hmem with ⟨file, hfile, -, hsame | ⟨hpromotes, hbackup⟩⟩ | ⟨-, primary, hnew⟩
    · rw [hsame]
      exact h.primaries file hfile
    · rw [hbackup]
      exact index_nonneg_of_available (available_of_promotes hpromotes)
    · rw [hnew]
      exact Int.natCast_nonneg primary
  kept k p hp := by
    rcases mem_needs.1 hp with ⟨file', hmem, hk, c, hc, rfl⟩ | hrequest
    · rcases checkpoints_step hs hlist hmem with hnone | ⟨file, hfile, hname, hcheckpoints⟩
      · rw [hnone] at hc
        cases hc
      · rw [hcheckpoints] at hc
        rcases primary_step h.stored hs hmem with ⟨file₀, hfile₀, hname₀, hprimary⟩ | ⟨hnew, -⟩
        · obtain rfl := List.inj_on_of_nodup_map h.stored.names hfile₀ hfile (hname₀.symm.trans hname)
          rw [hname]
          rcases hprimary with hsame | ⟨hpromotes, hbackup⟩
          · rw [hsame] at hk
            exact h.kept k _ (mem_needs.2 (.inl ⟨file₀, hfile, hk, c, hc, rfl⟩))
          · have hhas := hG file₀ hfile hpromotes c hc
            rw [← hbackup, hk, Int.toNat_natCast] at hhas
            exact hhas
        · exact absurd hname.symm (hnew file hfile)
    · exact h.kept k p (mem_needs.2 (.inr hrequest))

/-- The last section of a CHECKPOINT lists a tag that the primary has. -/
theorem register {r : PlacedCheckpoint} {now : Time} {nm : NmState} {text : Text}
    (hend : checkpointEnd s.nm r.user.text r.file.text r.tag.text now.val = (.ok text, nm))
    (hhas : ∀ file ∈ nmFindFile s.nm r.file.text,
      HasTag (dirs file.ssIndex.toNat) (s.servers file.ssIndex.toNat) r.file.text r.tag.text) :
    Inv dirs { s with nm := nm } := by
  have hstored := checkpointEnd_stored h.stored r.file.text ⟨r.user.named, r.user.short⟩
    ⟨r.tag.valid, r.tag.short⟩ ⟨now.lower, now.upper⟩
  rw [hend] at hstored
  unfold checkpointEnd at hend
  split at hend
  · cases hend
  · next file hfind =>
    split at hend
    · cases hend
    · split at hend
      · cases hend
      · next nm' hadd =>
        cases hend
        rw [nmFileAddCheckpoint, hfind, Option.bind_some, Option.ite_none_left_eq_some,
          Option.ite_none_left_eq_some] at hadd
        obtain ⟨-, -, hadd⟩ := hadd
        cases hadd
        obtain ⟨hname, -⟩ := exists_modifyFile hfind id
        have hfile := List.mem_of_find?_eq_some hfind
        refine ⟨hstored, h.placed, ?_, ?_⟩
        · intro file' hmem
          rcases mem_modifyFile h.stored hfind hmem with rfl | ⟨hold, -⟩
          · exact h.primaries file hfile
          · exact h.primaries file' hold
        · intro k p hp
          rcases mem_needs.1 hp with ⟨file', hmem, hk, c, hc, rfl⟩ | hrequest
          · rcases mem_modifyFile h.stored hfind hmem with rfl | ⟨hold, -⟩
            · have hk : file.ssIndex = k := hk
              rcases List.mem_append.1 hc with hc | hc
              · exact h.kept k _ (mem_needs.2 (.inl ⟨file, hfile, hk, c, hc, rfl⟩))
              · have hnew := hhas file hfind
                rw [hk, Int.toNat_natCast] at hnew
                rw [List.mem_singleton.1 hc, Text.copyTo_eq_self r.tag.short, hname]
                exact hnew
            · exact h.kept k _ (mem_needs.2 (.inl ⟨file', hold, hk, c, hc, rfl⟩))
          · exact h.kept k p (mem_needs.2 (.inr hrequest))

theorem step {e : Event} (hG : s.Covered dirs e) (hs : step s e = some t) : Inv dirs t := by
  cases e with
  | request user json =>
    simp only [Promoting.step] at hs
    split at hs
    · cases hs
      exact h
    · obtain ⟨entry, -, hs⟩ := Option.bind_eq_some_iff.1 hs
      split at hs
      · cases hs
        exact h
      · obtain ⟨file, -, hs⟩ := Option.bind_eq_some_iff.1 hs
        obtain ⟨tag, -, rfl⟩ := Option.map_eq_some_iff.1 hs
        refine ⟨h.stored, h.placed, h.primaries, ?_⟩
        intro k p hp
        rcases mem_needs.1 hp with hfile | ⟨r, hr, hstage, hk, rfl⟩
        · exact h.kept k p (mem_needs.2 (.inl hfile))
        · rcases List.mem_append.1 hr with hold | hnew
          · exact h.kept k _ (mem_needs.2 (.inr ⟨r, hold, hstage, hk, rfl⟩))
          · rw [List.mem_singleton.1 hnew] at hstage
            cases hstage
  | rpc i env arrives =>
    obtain ⟨r, hr, hs⟩ := Option.bind_eq_some_iff.1 hs
    obtain ⟨-, hs⟩ := Option.ite_none_right_eq_some.1 hs
    cases env with
    | none =>
      cases hs
      exact h.setStage nofun
    | some env =>
      cases hs
      refine (h.checkpoint env r.file r.tag (hG r hr)).setStage ?_
      intro hstored
      split at hstored
      · next hok =>
        rw [Bool.and_eq_true] at hok
        rw [servers_serve_self]
        apply (hasTag_ssCreateCheckpoint (h.placed r.primary) env r.file r.tag).1
        cases hresult : (Ss.ssCreateCheckpoint env (s.servers r.primary) r.file.text r.tag.text).2 with
        | ok _ => rfl
        | error _ =>
          rw [hresult] at hok
          cases hok.1
      · cases hstored
  | register i now =>
    obtain ⟨r, hr, hs⟩ := Option.bind_eq_some_iff.1 hs
    obtain ⟨hstage, hs⟩ := Option.ite_none_right_eq_some.1 hs
    split at hs
    · next nm hend =>
      cases hs
      refine (h.register hend ?_).setStage nofun
      intro file hfile
      by_cases hsame : file.ssIndex = r.primary
      · rw [hsame, Int.toNat_natCast]
        exact h.kept _ _ (mem_needs.2 (.inr ⟨r, List.mem_of_getElem? hr, hstage, rfl, rfl⟩))
      · exact hG r hr file hfile hsame
    · next nm hend =>
      cases hs
      rw [Checkpointing.checkpointEnd_error hend]
      exact h.setStage nofun
  | rpcBackup i env =>
    obtain ⟨r, hr, hs⟩ := Option.bind_eq_some_iff.1 hs
    obtain ⟨-, hs⟩ := Option.ite_none_right_eq_some.1 hs
    cases env with
    | none =>
      cases hs
      exact h.setStage nofun
    | some env =>
      cases hs
      exact (h.checkpoint env r.file r.tag (hG r hr)).setStage nofun
  | op k op =>
    simp only [Promoting.step] at hs
    split at hs
    · cases hs
    · next hop =>
      obtain rfl := Option.some.inj hs
      exact h.changes (op.changes (h.placed k)) fun file tag => checkpointPath_not_mem_op hop (dirs k) file tag
  | touch k env file user =>
    obtain rfl := Option.some.inj hs
    -- a removal writes the meta file, too
    have hdelete (f tag : FileName) : checkpointPath (dirs k) f.text tag.text ∉ (Op.delete file).paths (dirs k) :=
      checkpointPath_not_mem_op (fun _ _ _ heq => by cases heq) (dirs k) f tag
    refine h.changes (Ss.changes_touchFile (h.placed k) file.text env user) ?_
    intro f tag hmem
    rw [List.mem_singleton] at hmem
    apply hdelete f tag
    rw [hmem]
    exact List.mem_cons_of_mem _ List.mem_cons_self
  | tables e =>
    simp only [Promoting.step] at hs
    split at hs
    · cases hs
    · next hlist =>
      obtain ⟨nm, hnm, rfl⟩ := Option.map_eq_some_iff.1 hs
      exact h.tables hnm hlist hG

end Inv

theorem inv_of_started (h : Started dirs s) : Inv dirs s where
  stored := h.stored
  placed := h.placed
  primaries file hfile := by
    rw [h.files] at hfile
    cases hfile
  kept k p hp := by
    rcases mem_needs.1 hp with ⟨file, hfile, -⟩ | ⟨r, hr, -⟩
    · rw [h.files] at hfile
      cases hfile
    · rw [h.requests] at hr
      cases hr

/-- The primary of each file has the checkpoint of every tag in its list, and finds it when it is asked for it. -/
def Kept (dirs : Nat → Text) (s : Promoting) : Prop :=
  ∀ file ∈ s.nm.files, ∀ c ∈ file.checkpoints, ∃ k : Nat, file.ssIndex = (k : Int) ∧
    HasTag (dirs k) (s.servers k) file.name c.tag ∧ ∀ env : Env, env.checkpointDir = true → env.undoLoad = true →
      ∃ content, Ss.ssReadCheckpoint env (s.servers k) file.name c.tag = .ok content

theorem Inv.primaries_keep (h : Inv dirs s) : Kept dirs s := by
  intro file hfile c hc
  obtain ⟨k, hk⟩ := Int.eq_ofNat_of_zero_le (h.primaries file hfile)
  have hhas : HasTag (dirs k) (s.servers k) file.name c.tag :=
    h.kept k _ (mem_needs.2 (.inl ⟨file, hfile, hk, c, hc, rfl⟩))
  have hstored := h.stored.files file hfile
  refine ⟨k, hk, hhas, fun env hdir hload => ?_⟩
  exact ssReadCheckpoint_of_hasTag (h.placed k) hstored.name (hstored.checkpoints c hc).tag hhas hdir hload

/-- **The primary has what is listed**, in every state of every run in which a backup that takes over has it. -/
theorem checkpoints_kept_of_run {tr : List (Promoting × Event)} (h : (system dirs).Run tr s)
    (hG : System.Meets (Covered dirs) tr) : System.Throughout (Kept dirs) tr s := by
  have hI := h.invariant_all (I := Inv dirs) (fun _ => inv_of_started) (fun _ _ _ hI hG hs => hI.step hG hs) hG
  exact ⟨hI.1.primaries_keep, fun p hp => (hI.2 p hp).primaries_keep⟩

instance (s : Promoting) (k : Nat) (r : PlacedCheckpoint) : Decidable (s.Spares dirs k r) :=
  inferInstanceAs (Decidable (∀ p ∈ s.needs k, _))

instance (s : Promoting) : (e : Event) → Decidable (s.Covered dirs e)
  | .tables e => inferInstanceAs (Decidable (∀ file ∈ s.nm.files, promotes s.nm e file = true → ∀ c ∈ file.checkpoints,
      HasTag (dirs file.backupIndex.toNat) (s.servers file.backupIndex.toNat) file.name c.tag))
  | .register i _ => inferInstanceAs (Decidable (∀ r ∈ s.requests[i]?, ∀ file ∈ nmFindFile s.nm r.file.text,
      file.ssIndex ≠ r.primary →
        HasTag (dirs file.ssIndex.toNat) (s.servers file.ssIndex.toNat) r.file.text r.tag.text))
  | .rpc i _ _ => inferInstanceAs (Decidable (∀ r ∈ s.requests[i]?, s.Spares dirs r.primary r))
  | .rpcBackup i _ => inferInstanceAs (Decidable (∀ r ∈ s.requests[i]?, s.Spares dirs r.backup.toNat r))
  | .request .. | .op .. | .touch .. => isTrue trivial

/-! ## Two runs -/

/-- Servers without files. -/
def empty : Promoting where
  nm := .clear
  servers _ := ⟨Ss.ssStateInit (Text.lit "/s"), fun _ => none, []⟩
  requests := []

theorem started_empty : Started (fun _ => Text.lit "/s") empty where
  stored := stored_clear
  files := rfl
  placed _ := Placed.init _
  requests := rfl

/-- Alice makes a file on two servers and a checkpoint of it on both. -/
def checkpointed (file : FileName) (now : Time) : List Event :=
  [.tables (registerEvent (Text.lit "ss1") 4), .tables (registerEvent (Text.lit "ss2") 5),
    .op 0 (.create file alice.text ⟨now.val, true, true, true⟩), .op 1 (.create file alice.text ⟨now.val, true, true, true⟩),
    .tables (.createEnd alice file 0 (some 1) now),
    .request alice (printMessage [(Text.lit "file", .string file.text), (Text.lit "tag", .string (Text.lit "v1"))]),
    .rpc 0 (some (.allOk now.val)) true, .register 0 now, .rpcBackup 0 (some (.allOk now.val))]

/-- The primary leaves, and the backup that takes over has the checkpoint. -/
theorem checkpoints_kept_by_backup : ∃ tr s file c, (system fun _ => Text.lit "/s").Run tr s ∧ file ∈ s.nm.files ∧
    file.ssIndex = 1 ∧ c ∈ file.checkpoints ∧ HasTag (Text.lit "/s") (s.servers 1) file.name c.tag := by
  let dirs (_ : Nat) : Text := Text.lit "/s"
  let events := checkpointed ⟨Text.lit "f", by decide, by decide⟩ ⟨1700000000, by decide, by decide⟩ ++
    [.tables (.disconnect 0)]
  have hexec : ((System.exec step [] empty events).any fun r =>
      decide (∀ p ∈ r.1, Covered dirs p.1 p.2) && r.2.nm.files.any fun file =>
        decide (file.ssIndex = 1) && !file.checkpoints.isEmpty) = true := by decide +kernel
  obtain ⟨⟨tr, s⟩, hexec, hcheck⟩ := (Option.any_eq_true _ _).1 hexec
  obtain ⟨hG, hfile⟩ := Bool.and_eq_true_iff.1 hcheck
  obtain ⟨file, hfile, hcheck⟩ := List.any_eq_true.1 hfile
  obtain ⟨hprimary, hlisted⟩ := Bool.and_eq_true_iff.1 hcheck
  have hprimary : file.ssIndex = 1 := of_decide_eq_true hprimary
  obtain ⟨c, hc⟩ := List.exists_mem_of_ne_nil file.checkpoints (by simpa using hlisted)
  replace hG : ∀ p ∈ tr, Covered dirs p.1 p.2 := of_decide_eq_true hG
  have hrun : (system dirs).Run tr s := System.Run.exec (.start started_empty) hexec
  obtain ⟨k, hk, hhas, -⟩ := (checkpoints_kept_of_run hrun hG).1 file hfile c hc
  obtain rfl : k = 1 := by omega
  exact ⟨tr, s, file, c, hrun, hfile, hprimary, hc, hhas⟩

/-- The backup leaves, a third server is sent the text and becomes the backup, and the primary leaves: the third
server takes over and cannot be asked for the checkpoint that is listed. -/
theorem listed_checkpoint_missing : ∃ tr s file c, (system fun _ => Text.lit "/s").Run tr s ∧ file ∈ s.nm.files ∧
    c ∈ file.checkpoints ∧ file.ssIndex = 2 ∧ s.nm.available 2 = true ∧
      Ss.ssReadCheckpoint (.allOk 1700000000) (s.servers 2) file.name c.tag = .error .ENOENT := by
  let f : FileName := ⟨Text.lit "f", by decide, by decide⟩
  let events := checkpointed f ⟨1700000000, by decide, by decide⟩ ++
    [.tables (.disconnect 1), .tables (registerEvent (Text.lit "ss3") 6),
      .op 2 (.sync (.allOk 1700000000) f alice.text []), .tables (.assignBackup f.text 0 2), .tables (.disconnect 0)]
  have hexec : ((System.exec step [] empty events).any fun r =>
      r.2.nm.available 2 && r.2.nm.files.any fun file => decide (file.ssIndex = 2) && file.checkpoints.any fun c =>
        decide (Ss.ssReadCheckpoint (.allOk 1700000000) (r.2.servers 2) file.name c.tag = .error .ENOENT)) = true := by
    decide +kernel
  obtain ⟨⟨tr, s⟩, hexec, hcheck⟩ := (Option.any_eq_true _ _).1 hexec
  obtain ⟨havailable, hfile⟩ := Bool.and_eq_true_iff.1 hcheck
  obtain ⟨file, hfile, hcheck⟩ := List.any_eq_true.1 hfile
  obtain ⟨hprimary, hc⟩ := Bool.and_eq_true_iff.1 hcheck
  obtain ⟨c, hc, hmissing⟩ := List.any_eq_true.1 hc
  exact ⟨tr, s, file, c, System.Run.exec (.start started_empty) hexec, hfile, hc, of_decide_eq_true hprimary,
    havailable, of_decide_eq_true hmissing⟩

end Promoting

end CoWrite.Cluster
