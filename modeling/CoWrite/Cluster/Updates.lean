import CoWrite.Cluster.Notices
import CoWrite.Lib.Channels
import CoWrite.Nm.Replication

/-!
# Counts at the name manager

A server that changes the entry of a file tells the name manager, which enters what it is told, whoever told it. So
the counts at the name manager are those of the last notice it handled: of the primary, if nobody else reports the
file after it. A sync reports nothing; REVERT has both servers report.

* `Reporting`: the tables, the servers and their notices on the way, for runs without failover.
* `counts_of_run`: when nothing is on the way, the counts of every file are those of its copy on the primary, in every
  run in which each notice of another server that is handled carries the counts of the tables or is followed by a
  notice of the primary.
-/

namespace CoWrite.Cluster

open CoWrite.Lib
open CoWrite.Nm
open CoWrite.Ss (Server Env DataEnv Op AddOutcome SsFile Placed Changes Replaces Touches dataPath)

/-- `handle_client_revert` up to its commands: the file, the tag, and the servers it read. -/
def revertBegin (state : NmState) (user json : Text) : Except Response (Text × Text × Nat × Int) :=
  match jsonFile json, jsonGetString json (Text.lit "tag") NM_MAX_NAME with
  | some name, some tag =>
    if !validCheckpointTag tag then .error (.error .BADREQ (Text.lit "invalid tag"))
    else
      match nmFindFile state name with
      | none => .error (.error .NOTFOUND (Text.lit "file not found"))
      | some file =>
        if !fileHasAccess file user NM_PERM_WRITE then .error (.error .NOAUTH (Text.lit "no write access"))
        else if (nmFileFindCheckpoint file tag).isNone then
          .error (.error .NOTFOUND (Text.lit "checkpoint not found"))
        else if file.ssIndex < 0 then .error (.error .UNAVAILABLE (Text.lit "primary offline"))
        else .ok (name, tag, file.ssIndex.toNat, file.backupIndex)
  | _, _ => .error (.error .BADREQ (Text.lit "missing fields"))

/-- A REVERT whose command to the primary is next, or the one to the backup. -/
structure RevertRequest where
  user : Client
  file : FileName
  tag : FileName
  primary : Nat
  backup : Int
  onBackup : Bool

/-- The server keeps the file. -/
def isPrimary (nm : NmState) (k : Nat) (name : Text) : Bool := (nmFindFile nm name).any fun file => file.ssIndex == (k : Int)

/-- The frame is an update of the file. -/
def isAbout (name frame : Text) : Bool := (readFileUpdate frame).any fun u => u.file == name

/-- The name manager and the storage servers, with the notices on the way, the files made for a CREATE that has not
ended, and the REVERTs under way. -/
structure Reporting where
  nm : NmState
  servers : Nat → Server
  channels : Nat → Channel Text
  creates : List (FileName × Nat)
  reverts : List RevertRequest

namespace Reporting

inductive Event where
  /-- The command of a CREATE at the server picked for the file. -/
  | create (k : Nat) (file : FileName) (owner : Text) (o : AddOutcome)
  | createEnd (i : Nat) (user : Client) (backup : Option Nat) (now : Time)
  /-- A commit or an undo at the primary, a checkpoint anywhere, a sync at another server, with the text it fetched, or
  the command of a CREATE at its backup. -/
  | op (k : Nat) (op : Op)
  /-- A READ or a STREAM that comes to `touchFile`. -/
  | touch (k : Nat) (env : DataEnv) (file : FileName) (user : Text)
  | revert (user : Client) (json : Text)
  /-- The commands of a REVERT: without `env` the server is not reached; `arrives` is whether the reply does. -/
  | revertPrimary (i : Nat) (env : Option Env) (arrives : Bool)
  | revertBackup (i : Nat) (env : Option Env)
  /-- A thread of the server sends its notice. -/
  | send (k i : Nat)
  /-- The next notice of the server is handled. -/
  | deliver (k : Nat)
  /-- What else the name manager does, as long as the files keep their primaries. -/
  | tables (e : Nm.Event)

/-- Where the operation takes place. -/
def permits (s : Reporting) (k : Nat) : Op → Bool
  | .commit _ file _ _ | .undo _ file _ => isPrimary s.nm k file.text
  | .sync _ file _ _ => (nmFindFile s.nm file.text).isSome && !isPrimary s.nm k file.text
  | .create .. | .checkpoint .. => true
  | .delete _ | .revert .. => false

/-- A server after a step, with the notices it has to send. -/
def serve (s : Reporting) (k : Nat) (srv : Server) (frames : List Text) : Reporting :=
  { s with
    servers := Function.update s.servers k srv
    channels := Function.update s.channels k ((s.channels k).post frames) }

/-- `ss_revert_checkpoint` at a server. -/
def revertAt (s : Reporting) (k : Nat) (r : RevertRequest) (env : Env) : Reporting :=
  let result := Ss.ssRevertCheckpoint env (s.servers k) r.file.text r.tag.text r.user.text
  s.serve k result.1 result.2.1

/-- The primary has reverted the file, and there is a backup to tell. -/
def goesOn (s : Reporting) (r : RevertRequest) (env : Env) (arrives : Bool) : Bool :=
  (Ss.ssRevertCheckpoint env (s.servers r.primary) r.file.text r.tag.text r.user.text).2.2.toBool && arrives &&
    decide (r.backup ≥ 0) && r.backup != (r.primary : Int)

def step (s : Reporting) : Event → Option Reporting
  | .create k file owner o =>
    let srv := s.servers k
    some { s.serve k ((Op.create file owner o).run srv) [] with
      creates := if (Ss.ssStateAdd srv.state srv.fs file.text owner o).1 then s.creates ++ [(file, k)] else s.creates }
  | .createEnd i user backup now =>
    (s.creates[i]?).bind fun p =>
      (tablesStep s.nm (.createEnd user p.1 p.2 backup now)).map fun nm =>
        { s with nm := nm, creates := s.creates.eraseIdx i }
  | .op k op =>
    if s.permits k op then
      some (s.serve k (op.run (s.servers k)) (Ss.CountEvent.notices op.file (s.servers k) (.op op)))
    else none
  | .touch k env file user =>
    if isPrimary s.nm k file.text then
      let result := Ss.touchFile env (s.servers k) file.text user
      some (s.serve k result.1 result.2.1)
    else none
  | .revert user json =>
    match revertBegin s.nm user.text json with
    | .error _ => some s
    | .ok (name, tag, primary, backup) =>
      (FileName.ofText name).bind fun file =>
        (FileName.ofText tag).map fun tag => { s with reverts := s.reverts ++ [⟨user, file, tag, primary, backup, false⟩] }
  | .revertPrimary i env arrives =>
    (s.reverts[i]?).bind fun r =>
      if r.onBackup then none
      else
        match env with
        | none => some { s with reverts := s.reverts.eraseIdx i }
        | some env =>
          some { s.revertAt r.primary r env with
            reverts := if s.goesOn r env arrives then s.reverts.set i { r with onBackup := true } else s.reverts.eraseIdx i }
  | .revertBackup i env =>
    (s.reverts[i]?).bind fun r =>
      if r.onBackup then
        match env with
        | none => some { s with reverts := s.reverts.eraseIdx i }
        | some env => some { s.revertAt r.backup.toNat r env with reverts := s.reverts.eraseIdx i }
      else none
  | .send k i => ((s.channels k).send i).map fun c => { s with channels := Function.update s.channels k c }
  | .deliver k =>
    match (s.channels k).sent with
    | [] => none
    | frame :: rest =>
      some { s with
        nm := (handleSsFileUpdate s.nm frame).1
        channels := Function.update s.channels k { s.channels k with sent := rest } }
  | .tables e =>
    if e.isEntry then none
    else
      (tablesStep s.nm e).bind fun nm =>
        if nm.files.map FileEntry.ssIndex = s.nm.files.map FileEntry.ssIndex then some { s with nm := nm } else none

/-- No file is known to the name manager; the servers may have some. -/
structure Started (dirs : Nat → Text) (s : Reporting) : Prop where
  stored : s.nm.Stored
  files : s.nm.files = []
  placed : ∀ k, Placed (dirs k) (s.servers k).state
  sized : ∀ k name view, (s.servers k).state.entry name = some view → Sized view
  channels : ∀ k, s.channels k = .empty
  creates : s.creates = []
  reverts : s.reverts = []

def system (dirs : Nat → Text) : System Reporting Event := .ofStep (Started dirs) step

/-- No notice of a server that the name manager knows is on the way. -/
def Quiet (s : Reporting) : Prop := ∀ k < s.nm.servers.length, (s.channels k).onWay = []

instance (s : Reporting) : Decidable s.Quiet :=
  inferInstanceAs (Decidable (∀ k < s.nm.servers.length, (s.channels k).onWay = []))

/-- The counts of the entry are those of the copy on the primary. -/
def Agrees (s : Reporting) (file : FileEntry) : Prop :=
  ∃ (k : Nat) (view : SsFile), file.ssIndex = k ∧ (s.servers k).state.entry file.name = some view ∧
    file.wordCount = view.wordCount ∧ file.charCount = view.charCount

/-- The clock of an operation shows a `time_t`. -/
def OnTime : Op → Prop
  | .create _ _ o => IsTime o.now
  | .delete _ => True
  | .commit env _ _ _ => IsTime env.now
  | .undo env _ _ | .revert env _ _ _ | .checkpoint env _ _ => IsTime env.now
  | .sync env _ _ _ => IsTime env.add.now

/-- The server has a text of at most `INT_MAX` characters for the file. -/
def FitsInt (dir : Text) (srv : Server) (file : FileName) : Prop :=
  ∀ text ∈ srv.fs (dataPath dir file.text), text.length < 2 ^ 31

/-- A notice of another server than the primary, when it is handled, is followed by one of the primary or carries the
counts that the tables have. Notices about one file are sent in the order of the changes. Stored texts have lengths
that an `int` holds. -/
def InOrder (dirs : Nat → Text) (s : Reporting) : Event → Prop
  | .create _ _ _ o => IsTime o.now
  | .op k op => OnTime op ∧ (isPrimary s.nm k op.file.text = true → FitsInt (dirs k) (op.run (s.servers k)) op.file)
  | .touch _ env _ _ => IsTime env.now
  | .revertPrimary i env _ => ∀ r ∈ s.reverts[i]?, ∀ e ∈ env, IsTime e.now ∧
      FitsInt (dirs r.primary) ((s.revertAt r.primary r e).servers r.primary) r.file
  | .revertBackup _ env => ∀ e ∈ env, IsTime e.now
  | .send k i => ∀ file ∈ s.nm.files, file.ssIndex = k → (s.channels k).InTurn (isAbout file.name) i
  | .deliver k => ∀ frame ∈ (s.channels k).sent.head?, ∀ u ∈ readFileUpdate frame, ∀ file ∈ s.nm.files,
      file.name = u.file → file.ssIndex ≠ k → (s.channels file.ssIndex.toNat).last (isAbout file.name) ≠ none ∨
        (u.words = file.wordCount ∧ u.chars = file.charCount)
  | .createEnd .. | .revert .. | .tables _ => True

instance (op : Op) : Decidable (OnTime op) :=
  match op with
  | .create _ _ o => inferInstanceAs (Decidable (IsTime o.now))
  | .delete _ => inferInstanceAs (Decidable True)
  | .commit env _ _ _ => inferInstanceAs (Decidable (IsTime env.now))
  | .undo env _ _ | .revert env _ _ _ | .checkpoint env _ _ => inferInstanceAs (Decidable (IsTime env.now))
  | .sync env _ _ _ => inferInstanceAs (Decidable (IsTime env.add.now))

instance (dir : Text) (srv : Server) (file : FileName) : Decidable (FitsInt dir srv file) :=
  inferInstanceAs (Decidable (∀ text ∈ srv.fs (dataPath dir file.text), text.length < 2 ^ 31))

instance (dirs : Nat → Text) (s : Reporting) (e : Event) : Decidable (InOrder dirs s e) :=
  match e with
  | .create _ _ _ o => inferInstanceAs (Decidable (IsTime o.now))
  | .op k op => inferInstanceAs (Decidable (OnTime op ∧
      (isPrimary s.nm k op.file.text = true → FitsInt (dirs k) (op.run (s.servers k)) op.file)))
  | .touch _ env _ _ => inferInstanceAs (Decidable (IsTime env.now))
  | .revertPrimary i env _ => inferInstanceAs (Decidable (∀ r ∈ s.reverts[i]?, ∀ e ∈ env, IsTime e.now ∧
      FitsInt (dirs r.primary) ((s.revertAt r.primary r e).servers r.primary) r.file))
  | .revertBackup _ env => inferInstanceAs (Decidable (∀ e ∈ env, IsTime e.now))
  | .send k i => inferInstanceAs (Decidable (∀ file ∈ s.nm.files, file.ssIndex = k →
      (s.channels k).InTurn (isAbout file.name) i))
  | .deliver k => inferInstanceAs (Decidable (∀ frame ∈ (s.channels k).sent.head?, ∀ u ∈ readFileUpdate frame,
      ∀ file ∈ s.nm.files, file.name = u.file → file.ssIndex ≠ k →
        (s.channels file.ssIndex.toNat).last (isAbout file.name) ≠ none ∨
          (u.words = file.wordCount ∧ u.chars = file.charCount)))
  | .createEnd .. | .revert .. | .tables _ => inferInstanceAs (Decidable True)

/-! ## What is kept -/

/-- The counts of the copy: those of the last notice on the way, or of the tables. -/
def Told (last : Option Text) (file : FileEntry) (view : SsFile) : Prop :=
  match last with
  | none => file.wordCount = view.wordCount ∧ file.charCount = view.charCount
  | some frame => ∃ u, readFileUpdate frame = some u ∧ u.words = view.wordCount ∧ u.chars = view.charCount

/-- The primary has the file, with counts that the name manager has or will be told. -/
def Kept (s : Reporting) (file : FileEntry) : Prop :=
  ∃ (k : Nat) (view : SsFile), file.ssIndex = k ∧ (s.servers k).state.entry file.name = some view ∧ Countable view ∧
    Told ((s.channels k).last (isAbout file.name)) file view

/-- What a REVERT knows of the file. -/
structure RevertValid (nm : NmState) (r : RevertRequest) : Prop where
  primary : isPrimary nm r.primary r.file.text = true
  backup : r.onBackup = true → 0 ≤ r.backup ∧ r.backup ≠ r.primary

structure Inv (dirs : Nat → Text) (s : Reporting) : Prop where
  stored : s.nm.Stored
  placed : ∀ k, Placed (dirs k) (s.servers k).state
  sized : ∀ k name view, (s.servers k).state.entry name = some view → Sized view
  known : ∀ k, ∀ frame ∈ (s.channels k).onWay, ∀ u, readFileUpdate frame = some u → (nmFindFile s.nm u.file).isSome = true
  kept : ∀ file ∈ s.nm.files, s.Kept file
  made : ∀ p ∈ s.creates, nmFindFile s.nm p.1.text = none → ∃ view, (s.servers p.2).state.entry p.1.text = some view ∧
    view.wordCount = 0 ∧ view.charCount = 0
  reverts : ∀ r ∈ s.reverts, RevertValid s.nm r

theorem Inv.agrees {dirs : Nat → Text} {s : Reporting} (h : Inv dirs s) (hquiet : s.Quiet) {file : FileEntry}
    (hfile : file ∈ s.nm.files) : s.Agrees file := by
  obtain ⟨k, view, hk, hview, -, htold⟩ := h.kept file hfile
  have hserver : k < s.nm.servers.length := by
    have := (h.stored.files file hfile).ssIndex.2
    omega
  have hlast : (s.channels k).last (isAbout file.name) = none := by
    rw [Channel.last_eq_none_iff, hquiet k hserver]
    simp
  rw [hlast] at htold
  exact ⟨k, view, hk, hview, htold.1, htold.2⟩

theorem inv_started {dirs : Nat → Text} {s : Reporting} (h : Started dirs s) : Inv dirs s where
  stored := h.stored
  placed := h.placed
  sized := h.sized
  known := by
    intro k frame hframe
    rw [h.channels k] at hframe
    cases hframe
  kept := by
    intro file hfile
    rw [h.files] at hfile
    cases hfile
  made := by
    intro p hp
    rw [h.creates] at hp
    cases hp
  reverts := by
    intro r hr
    rw [h.reverts] at hr
    cases hr

/-! ## Steps of a server -/

theorem isPrimary_of_mem {nm : NmState} (h : nm.Stored) {file : FileEntry} (hfile : file ∈ nm.files) {k : Nat} :
    isPrimary nm k file.name = true ↔ file.ssIndex = k := by
  rw [isPrimary, nmFindFile_of_mem h hfile, Option.any_some, beq_iff_eq]

theorem isSome_of_isPrimary {nm : NmState} {k : Nat} {name : Text} (h : isPrimary nm k name = true) :
    (nmFindFile nm name).isSome = true := by
  unfold isPrimary at h
  cases hfind : nmFindFile nm name with
  | none =>
    rw [hfind] at h
    cases h
  | some file => rfl

/-- What a step on a file does to the server `k`, and what it has to tell. -/
structure Served (dirs : Nat → Text) (s : Reporting) (k : Nat) (f : FileName) (srv : Server) (frames : List Text) : Prop where
  changes : ∃ ws, Changes (dirs k) f.text ws (s.servers k) srv
  sized : ∀ view, srv.state.entry f.text = some view → Sized view
  about : ∀ frame ∈ frames, ∀ u, readFileUpdate frame = some u → u.file = f.text
  known : frames = [] ∨ (nmFindFile s.nm f.text).isSome = true
  kept : isPrimary s.nm k f.text = true → ∀ file view, (s.servers k).state.entry f.text = some view → Countable view →
    Told ((s.channels k).last (isAbout f.text)) file view → ∃ view', srv.state.entry f.text = some view' ∧
      Countable view' ∧ Told (((s.channels k).post frames).last (isAbout f.text)) file view'
  made : nmFindFile s.nm f.text = none → ∀ view, (s.servers k).state.entry f.text = some view →
    srv.state.entry f.text = some view

section Steps

variable {dirs : Nat → Text} {s : Reporting} (h : Inv dirs s)

include h

theorem Inv.serve {k : Nat} {f : FileName} {srv : Server} {frames : List Text} (hs : Served dirs s k f srv frames) :
    Inv dirs (s.serve k srv frames) := by
  obtain ⟨ws, hchanges⟩ := hs.changes
  have hsrv : (s.serve k srv frames).servers k = srv := Function.update_self ..
  have hchannel : (s.serve k srv frames).channels k = (s.channels k).post frames := Function.update_self ..
  have hsrvs {j : Nat} (hj : j ≠ k) : (s.serve k srv frames).servers j = s.servers j := Function.update_of_ne hj ..
  have hchannels {j : Nat} (hj : j ≠ k) : (s.serve k srv frames).channels j = s.channels j := Function.update_of_ne hj ..
  refine ⟨h.stored, ?_, ?_, ?_, ?_, ?_, h.reverts⟩
  · intro j
    by_cases hj : j = k
    · rw [hj, hsrv]
      exact hchanges.placed
    · rw [hsrvs hj]
      exact h.placed j
  · intro j name view hview
    by_cases hj : j = k
    · rw [hj, hsrv] at hview
      by_cases hname : name = f.text
      · rw [hname] at hview
        exact hs.sized view hview
      · rw [hchanges.entries name hname] at hview
        exact h.sized k name view hview
    · rw [hsrvs hj] at hview
      exact h.sized j name view hview
  · intro j frame hframe u hread
    by_cases hj : j = k
    · rw [hj, hchannel, Channel.onWay_post, List.mem_append] at hframe
      rcases hframe with hframe | hframe
      · exact h.known k frame hframe u hread
      · rcases hs.known with hnone | hknown
        · rw [hnone] at hframe
          cases hframe
        · rw [hs.about frame hframe u hread]
          exact hknown
    · rw [hchannels hj] at hframe
      exact h.known j frame hframe u hread
  · intro file hfile
    obtain ⟨j, view, hprimary, hview, hcount, htold⟩ := h.kept file hfile
    by_cases hj : j = k
    · subst hj
      by_cases hname : file.name = f.text
      · -- the file itself, on its primary
        rw [hname] at hview htold
        have hp : isPrimary s.nm j f.text = true := by
          rw [← hname]
          exact (isPrimary_of_mem h.stored hfile).2 hprimary
        obtain ⟨view', hview', hcount', htold'⟩ := hs.kept hp file view hview hcount htold
        refine ⟨j, view', hprimary, ?_, hcount', ?_⟩
        · rw [hsrv, hname]
          exact hview'
        · rw [hchannel, hname]
          exact htold'
      · refine ⟨j, view, hprimary, ?_, hcount, ?_⟩
        · rw [hsrv, hchanges.entries _ hname]
          exact hview
        · rw [hchannel, Channel.last_post_of_none]
          · exact htold
          · -- the notices are of another file
            intro frame hframe
            unfold isAbout
            cases hread : readFileUpdate frame with
            | none => rfl
            | some u =>
              rw [Option.any_some, hs.about frame hframe u hread, beq_eq_false_iff_ne]
              exact Ne.symm hname
    · refine ⟨j, view, hprimary, ?_, hcount, ?_⟩
      · rw [hsrvs hj]
        exact hview
      · rw [hchannels hj]
        exact htold
  · intro p hp hnone
    obtain ⟨view, hview, hzero⟩ := h.made p hp hnone
    refine ⟨view, ?_, hzero⟩
    by_cases hj : p.2 = k
    · rw [hj] at hview ⊢
      rw [hsrv]
      by_cases hname : p.1.text = f.text
      · rw [hname] at hview hnone ⊢
        exact hs.made hnone view hview
      · rw [hchanges.entries _ hname]
        exact hview
    · rw [hsrvs hj]
      exact hview

/-- A file that a server has under a name has that name. -/
theorem Inv.entry_name {k : Nat} {name : Text} {view : SsFile} (hview : (s.servers k).state.entry name = some view) :
    view.name = name := Ss.SsState.entry_name (h.placed k).sorted hview

/-- A text that is replaced. -/
theorem Inv.replaced {k : Nat} {f : FileName} {user : Text} {now : Int} {srv : Server} {frames : List Text}
    (hchanges : ∃ ws, Changes (dirs k) f.text ws (s.servers k) srv) (hnow : IsTime now)
    (hr : Replaces (dirs k) f.text user now (s.servers k) srv frames) (hknown : (nmFindFile s.nm f.text).isSome = true)
    (hfits : isPrimary s.nm k f.text = true → FitsInt (dirs k) srv f) : Served dirs s k f srv frames := by
  have hmade : nmFindFile s.nm f.text = none → ∀ view, (s.servers k).state.entry f.text = some view →
      srv.state.entry f.text = some view := by
    intro hnone
    rw [hnone] at hknown
    cases hknown
  cases hr with
  | nothing entry data silent =>
    subst silent
    refine ⟨hchanges, ?_, by simp, .inl rfl, ?_, hmade⟩
    · intro view hview
      rw [entry] at hview
      exact h.sized k f.text view hview
    · intro _ file view hview hcount htold
      refine ⟨view, entry.trans hview, hcount, ?_⟩
      rw [Channel.last_post_of_none (by simp)]
      exact htold
  | text text file view before restamped entry data told =>
    subst told
    have hsized := h.sized k f.text file before
    have hname : view.name = f.text := restamped.name.trans (h.entry_name before)
    have hview : Sized view := sized_of_restamped hnow hsized restamped
    refine ⟨hchanges, ?_, ?_, .inr hknown, ?_, hmade⟩
    · intro view' hview'
      rw [entry] at hview'
      cases hview'
      exact hview
    · intro frame hframe u hread
      rw [file_of_notice hview.name hframe hread, hname]
    · intro hprimary old _ _ _ _
      have hlength := hfits hprimary text data
      have hcount : Countable view := by
        constructor
        · rw [restamped.words]
          exact Nat.lt_of_le_of_lt (Ss.countWords_le text) hlength
        · rw [restamped.chars]
          exact hlength
      refine ⟨view, entry, hcount, ?_⟩
      rw [notify_of_sized hview hcount, Channel.last_post]
      · exact ⟨_, readFileUpdate_updateMessage hview hcount, rfl, rfl⟩
      · rw [isAbout, readFileUpdate_updateMessage hview hcount, Option.any_some, hname, beq_self_eq_true]

omit h in
/-- A step that tells nothing and leaves the entry on its primary. -/
theorem served_silent {k : Nat} {f : FileName} {srv : Server} (hchanges : ∃ ws, Changes (dirs k) f.text ws (s.servers k) srv)
    (hsized : ∀ view, srv.state.entry f.text = some view → Sized view)
    (hsame : isPrimary s.nm k f.text = true ∨ nmFindFile s.nm f.text = none → ∀ view,
      (s.servers k).state.entry f.text = some view → srv.state.entry f.text = some view) : Served dirs s k f srv [] := by
  refine ⟨hchanges, hsized, by simp, .inl rfl, ?_, fun hnone => hsame (.inr hnone)⟩
  intro hprimary file view hview hcount htold
  refine ⟨view, hsame (.inl hprimary) view hview, hcount, ?_⟩
  rw [Channel.last_post_of_none (by simp)]
  exact htold

/-- The entry of a file that is made. -/
theorem Inv.create {k : Nat} (f : FileName) (owner : Text) {o : AddOutcome} (ho : IsTime o.now) :
    Served dirs s k f ((Op.create f owner o).run (s.servers k)) [] ∧
      ((Ss.ssStateAdd (s.servers k).state (s.servers k).fs f.text owner o).1 = true → ∃ view,
        ((Op.create f owner o).run (s.servers k)).state.entry f.text = some view ∧
          view.wordCount = 0 ∧ view.charCount = 0) := by
  have hentry := (Ss.ssStateAdd_state (h.placed k).sorted (s.servers k).fs f.short owner o).2 f.text
  have hrun : ((Op.create f owner o).run (s.servers k)).state.entry f.text =
      (Ss.ssStateAdd (s.servers k).state (s.servers k).fs f.text owner o).2.1.entry f.text := rfl
  constructor
  · apply served_silent (f := f) ⟨_, Op.changes (h.placed k) (.create f owner o)⟩
    · intro view hview
      rw [hrun, hentry] at hview
      split at hview
      · cases hview
        exact sized_newFile _ f owner ho
      · exact h.sized k f.text view hview
    · intro _ view hview
      rw [hrun, hentry, if_neg]
      · exact hview
      · rintro ⟨hadd, -⟩
        rw [Ss.entry_of_ssStateAdd (h.placed k).sorted hadd] at hview
        cases hview
  · intro hadd
    refine ⟨Ss.newFile (s.servers k).state f.text owner o.now, ?_, rfl, rfl⟩
    rw [hrun, hentry, if_pos ⟨hadd, rfl⟩]

/-- An operation that is not a REVERT. -/
theorem Inv.op {k : Nat} {op : Op} (hpermits : s.permits k op = true) (htime : OnTime op)
    (hfits : isPrimary s.nm k op.file.text = true → FitsInt (dirs k) (op.run (s.servers k)) op.file) :
    Served dirs s k op.file (op.run (s.servers k)) (Ss.CountEvent.notices op.file (s.servers k) (.op op)) := by
  have hchanges := Op.changes (h.placed k) op
  cases op with
  | create file owner o => exact (h.create file owner htime).1
  | delete file => cases hpermits
  | commit env file user session =>
    obtain ⟨old, hold, hname⟩ : ∃ old, nmFindFile s.nm file.text = some old ∧ old.name = file.text := by
      obtain ⟨old, hold⟩ := Option.isSome_iff_exists.1 (isSome_of_isPrimary hpermits)
      exact ⟨old, hold, by simpa using List.find?_some hold⟩
    have hmem := List.mem_of_find?_eq_some hold
    obtain ⟨j, view, hj, hview, -⟩ := h.kept old hmem
    have hk : old.ssIndex = k := (isPrimary_of_mem h.stored hmem).1 (by rw [hname]; exact hpermits)
    obtain rfl : j = k := by omega
    rw [hname] at hview
    have hcommit (write : Ss.OpenWrite) (hfile : write.file = file.text) (hpaths : Ss.HasPaths (dirs j) file.text write.view) :
        Replaces (dirs j) file.text write.user env.now (s.servers j) (Ss.commitWrite env (s.servers j) write).1
          (Ss.commitWrite env (s.servers j) write).2.nm :=
      Ss.replaces_commitWrite (h.placed j) hview env hfile hpaths
    have hreplaces := hcommit ⟨file.text, user, session.sentenceIndex, Ss.writeView (s.servers j).state file, session⟩ rfl
      ((h.placed j).fillPaths _)
    exact h.replaced ⟨_, hchanges⟩ htime hreplaces (isSome_of_isPrimary hpermits) hfits
  | undo env file user =>
    have hreplaces := Ss.replaces_performUndo (f := file) (h.placed k) env user
    exact h.replaced ⟨_, hchanges⟩ htime hreplaces (isSome_of_isPrimary hpermits) hfits
  | revert env file tag user => cases hpermits
  | sync env file owner content =>
    simp only [permits, Bool.and_eq_true, Bool.not_eq_true'] at hpermits
    apply served_silent ⟨_, hchanges⟩
    · intro view hview
      obtain ⟨old, hold, hnew⟩ := Ss.entry_syncFile (h.placed k) env owner content hview
      have hsized : Sized old := by
        rcases hold with hold | rfl
        · exact h.sized k _ old hold
        · exact sized_newFile _ file owner htime
      rcases hnew with rfl | rfl
      · exact hsized
      · exact ⟨hsized.name, hsized.owner, hsized.lastAccessUser, hsized.modified, hsized.lastAccess⟩
    · rintro (hprimary | hnone)
      · have hprimary : isPrimary s.nm k file.text = true := hprimary
        rw [hpermits.2] at hprimary
        cases hprimary
      · have hnone : nmFindFile s.nm file.text = none := hnone
        rw [hnone] at hpermits
        cases hpermits.1
  | checkpoint env file tag =>
    have hstate : ((Op.checkpoint env file tag).run (s.servers k)).state = (s.servers k).state := by
      show (Ss.ssCreateCheckpoint env (s.servers k) file.text tag.text).1.state = _
      unfold Ss.ssCreateCheckpoint
      repeat' split
      all_goals rfl
    apply served_silent ⟨_, hchanges⟩
    · intro view hview
      rw [hstate] at hview
      exact h.sized k _ view hview
    · intro _ view hview
      rw [hstate]
      exact hview

theorem Inv.touch {k : Nat} {f : FileName} (hprimary : isPrimary s.nm k f.text = true) {env : DataEnv}
    (hnow : IsTime env.now) (user : Text) :
    Served dirs s k f (Ss.touchFile env (s.servers k) f.text user).1 (Ss.touchFile env (s.servers k) f.text user).2.1 := by
  have hchanges := Ss.changes_touchFile (h.placed k) f.text env user
  have hknown := isSome_of_isPrimary hprimary
  cases Ss.touches_touchFile (f := f) (h.placed k) env user with
  | nothing same silent =>
    rw [silent, same]
    apply served_silent ⟨[], .refl (h.placed k)⟩
    · exact h.sized k f.text
    · intro _ view hview
      exact hview
  | touched file view before touch entry told =>
    have hsized := h.sized k f.text file before
    have hview : Sized view := by
      rw [touch]
      exact ⟨hsized.name, hsized.owner, Text.length_copyTo_lt _ (by decide), hsized.modified, hnow⟩
    have hname : view.name = f.text := by
      have hold := h.entry_name before
      rw [touch]
      exact hold
    rw [told]
    refine ⟨⟨_, hchanges⟩, ?_, ?_, .inr hknown, ?_, ?_⟩
    · intro view' hview'
      rw [entry] at hview'
      cases hview'
      exact hview
    · intro frame hframe u hread
      rw [file_of_notice hview.name hframe hread, hname]
    · intro _ old view' hview' hcount' _
      rw [before] at hview'
      cases hview'
      have hcount : Countable view := by
        rw [touch]
        exact ⟨hcount'.words, hcount'.chars⟩
      refine ⟨view, entry, hcount, ?_⟩
      rw [notify_of_sized hview hcount, Channel.last_post]
      · exact ⟨_, readFileUpdate_updateMessage hview hcount, rfl, rfl⟩
      · rw [isAbout, readFileUpdate_updateMessage hview hcount, Option.any_some, hname, beq_self_eq_true]
    · intro hnone
      rw [hnone] at hknown
      cases hknown

theorem Inv.revertAt {k : Nat} {r : RevertRequest} (hr : RevertValid s.nm r) {env : Env} (hnow : IsTime env.now)
    (hfits : isPrimary s.nm k r.file.text = true → FitsInt (dirs k) ((s.revertAt k r env).servers k) r.file) :
    Inv dirs (s.revertAt k r env) := by
  have hsrv : (s.revertAt k r env).servers k =
      (Ss.ssRevertCheckpoint env (s.servers k) r.file.text r.tag.text r.user.text).1 := Function.update_self ..
  rw [hsrv] at hfits
  have hreplaces := Ss.replaces_ssRevertCheckpoint (f := r.file) (h.placed k) env r.tag.text r.user.text
  have hchanges : Changes (dirs k) r.file.text _ (s.servers k)
      (Ss.ssRevertCheckpoint env (s.servers k) r.file.text r.tag.text r.user.text).1 :=
    Changes.ssRevertCheckpoint (h.placed k) env r.tag.text r.user.text
  exact h.serve (h.replaced ⟨_, hchanges⟩ hnow hreplaces (isSome_of_isPrimary hr.primary) hfits)

/-! ## Steps of the name manager -/

/-- The requests under way are some of before, or new ones that are valid. -/
theorem Inv.setReverts {reverts : List RevertRequest} (hr : ∀ r ∈ reverts, r ∈ s.reverts ∨ RevertValid s.nm r) :
    Inv dirs { s with reverts := reverts } := by
  refine ⟨h.stored, h.placed, h.sized, h.known, h.kept, h.made, ?_⟩
  intro r hmem
  rcases hr r hmem with hold | hnew
  · exact h.reverts r hold
  · exact hnew

/-- The files stay with their primaries. -/
theorem Inv.tables {nm : NmState} (hstored : nm.Stored)
    (hprimary : SameEntries (fun file => (file.name, file.ssIndex)) s.nm nm)
    (hkept : ∀ file ∈ nm.files, Kept { s with nm := nm } file) : Inv dirs { s with nm := nm } := by
  have hfind (name : Text) := find_of_sameEntries (fun _ => rfl) hprimary name
  have hsome (name : Text) : (nmFindFile nm name).isSome = (nmFindFile s.nm name).isSome := by
    have := congrArg Option.isSome (hfind name)
    rwa [Option.isSome_map, Option.isSome_map] at this
  have hkeeps (k : Nat) (name : Text) : isPrimary nm k name = isPrimary s.nm k name := by
    have := congrArg (Option.any fun x : Text × Int => x.2 == (k : Int)) (hfind name)
    rwa [Option.any_map, Option.any_map] at this
  refine ⟨hstored, h.placed, h.sized, ?_, hkept, ?_, ?_⟩
  · intro k frame hframe u hread
    rw [hsome]
    exact h.known k frame hframe u hread
  · intro p hp hnone
    apply h.made p hp
    rw [← Option.not_isSome_iff_eq_none, ← hsome, Option.not_isSome_iff_eq_none]
    exact hnone
  · intro r hr
    obtain ⟨hprimary, hbackup⟩ := h.reverts r hr
    refine ⟨?_, hbackup⟩
    rw [hkeeps]
    exact hprimary

/-- Another state of one channel: nothing new is on the way, and the last notice tells the same. -/
theorem Inv.setChannel {k : Nat} {c : Channel Text} (hway : ∀ m ∈ c.onWay, m ∈ (s.channels k).onWay)
    (htold : ∀ file ∈ s.nm.files, file.ssIndex = k → ∀ view, Told ((s.channels k).last (isAbout file.name)) file view →
      Told (c.last (isAbout file.name)) file view) :
    Inv dirs { s with channels := Function.update s.channels k c } := by
  refine ⟨h.stored, h.placed, h.sized, ?_, ?_, h.made, h.reverts⟩
  · intro j m hm u hread
    refine h.known j m ?_ u hread
    by_cases hj : j = k
    · subst hj
      simp only [Function.update_self] at hm
      exact hway m hm
    · simp only [Function.update_of_ne hj] at hm
      exact hm
  · intro file hfile
    obtain ⟨j, view, hj, hview, hcount, hlast⟩ := h.kept file hfile
    refine ⟨j, view, hj, hview, hcount, ?_⟩
    by_cases hjk : j = k
    · subst hjk
      simp only [Function.update_self]
      exact htold file hfile hj view hlast
    · simp only [Function.update_of_ne hjk]
      exact hlast

/-- A notice is taken off the way when the tables have its counts. -/
theorem Inv.arrived {k : Nat} {frame : Text} {rest : List Text} (hsent : (s.channels k).sent = frame :: rest)
    (hhandled : ∀ file ∈ s.nm.files, ∀ u, readFileUpdate frame = some u → u.file = file.name →
      file.wordCount = u.words ∧ file.charCount = u.chars) :
    Inv dirs { s with channels := Function.update s.channels k { s.channels k with sent := rest } } := by
  apply h.setChannel
  · intro m hm
    rw [Channel.onWay, hsent]
    exact List.mem_cons_of_mem _ hm
  · intro file hfile _ view htold
    rw [Channel.last_arrived hsent] at htold
    cases hlast : (⟨rest, (s.channels k).pending⟩ : Channel Text).last (isAbout file.name) with
    | some m =>
      rw [hlast] at htold
      exact htold
    | none =>
      rw [hlast, Option.none_or] at htold
      split at htold
      · -- it was the last one
        next habout =>
        obtain ⟨u, hread, hwords, hchars⟩ := htold
        have hfileEq : u.file = file.name := by
          rw [isAbout, hread, Option.any_some, beq_iff_eq] at habout
          exact habout
        obtain ⟨hw, hc⟩ := hhandled file hfile u hread hfileEq
        exact ⟨hw.trans hwords, hc.trans hchars⟩
      · exact htold

theorem Inv.deliver {k : Nat} {frame : Text} {rest : List Text} (hsent : (s.channels k).sent = frame :: rest)
    (hG : InOrder dirs s (.deliver k)) :
    Inv dirs { s with
      nm := (handleSsFileUpdate s.nm frame).1
      channels := Function.update s.channels k { s.channels k with sent := rest } } := by
  have hhead : frame ∈ (s.channels k).sent.head? := by
    rw [hsent]
    rfl
  cases hread : readFileUpdate frame with
  | none =>
    have hsame : (handleSsFileUpdate s.nm frame).1 = s.nm := by
      rw [handleSsFileUpdate, hread]
    rw [hsame]
    apply h.arrived hsent
    intro file _ u hu
    rw [hread] at hu
    cases hu
  | some u =>
    obtain ⟨old, hfind⟩ := Option.isSome_iff_exists.1
      (h.known k frame (by rw [Channel.onWay, hsent]; exact List.mem_cons_self) u hread)
    have hupdate : (handleSsFileUpdate s.nm frame).1 = fileUpdate s.nm u := by
      rw [handleSsFileUpdate, hread]
      dsimp only
      rw [hfind]
    have hstored : (fileUpdate s.nm u).Stored := fileUpdate_stored h.stored hread
    have hfiles {file : FileEntry} (hfile : file ∈ (fileUpdate s.nm u).files) :
        (file.name = u.file ∧ file.wordCount = u.words ∧ file.charCount = u.chars ∧ file.ssIndex = old.ssIndex) ∨
          (file ∈ s.nm.files ∧ file.name ≠ u.file) := by
      have holdName : old.name = u.file := by simpa using List.find?_some hfind
      rcases mem_modifyFile h.stored hfind hfile with rfl | ⟨hmem, hne⟩
      · exact .inl ⟨holdName, rfl, rfl, rfl⟩
      · exact .inr ⟨hmem, hne⟩
    rw [hupdate]
    -- first the tables, then the channel
    have htables : Inv dirs { s with nm := fileUpdate s.nm u } := by
      apply h.tables hstored
      · exact sameEntries_modifyFile s.nm u.file fun _ => rfl
      · intro file hfile
        rcases hfiles hfile with ⟨hname, hwords, hchars, hprimary⟩ | ⟨hmem, -⟩
        · have hold := List.mem_of_find?_eq_some hfind
          have holdName : old.name = u.file := by simpa using List.find?_some hfind
          obtain ⟨p, view, hp, hview, hcount, htold⟩ := h.kept old hold
          rw [holdName] at hview htold
          refine ⟨p, view, hprimary.trans hp, ?_, hcount, ?_⟩
          · rw [hname]
            exact hview
          · rw [hname]
            cases hlast : (s.channels p).last (isAbout u.file) with
            | some m =>
              rw [hlast] at htold
              exact htold
            | none =>
              rw [hlast] at htold
              show file.wordCount = view.wordCount ∧ file.charCount = view.charCount
              rw [hwords, hchars]
              -- nothing of the primary is on the way, so the notice is of another server
              have hpk : p ≠ k := by
                rintro rfl
                have hnone := Channel.last_eq_none_iff.1 hlast frame
                  (by rw [Channel.onWay, hsent]; exact List.mem_cons_self)
                rw [isAbout, hread, Option.any_some, beq_self_eq_true] at hnone
                cases hnone
              rcases hG frame hhead u hread old hold holdName (by omega) with hsome | ⟨hw, hc⟩
              · rw [hp, Int.toNat_natCast, holdName] at hsome
                exact absurd hlast hsome
              · exact ⟨hw.trans htold.1, hc.trans htold.2⟩
        · exact h.kept file hmem
    refine htables.arrived hsent ?_
    intro file hfile u' hu' hname
    rw [hread] at hu'
    cases hu'
    rcases hfiles hfile with ⟨-, hwords, hchars, -⟩ | ⟨-, hne⟩
    · exact ⟨hwords, hchars⟩
    · exact absurd hname.symm hne

/-- A file that is made comes with the counts of an empty one. -/
theorem Inv.createEnd {i : Nat} {p : FileName × Nat} (hp : s.creates[i]? = some p) (user : Client) (backup : Option Nat)
    (now : Time) {nm : NmState} (hnm : tablesStep s.nm (.createEnd user p.1 p.2 backup now) = some nm) :
    Inv dirs { s with nm := nm, creates := s.creates.eraseIdx i } := by
  have hstored := tablesStep_stored h.stored hnm
  obtain ⟨-, hnm⟩ := Option.ite_none_right_eq_some.1 hnm
  cases hnm
  have hpmem := List.mem_of_getElem? hp
  have hcreates {q : FileName × Nat} (hq : q ∈ s.creates.eraseIdx i) : q ∈ s.creates := List.mem_of_mem_eraseIdx hq
  rcases createEnd_cases s.nm user.short p.1.short p.2 (optIndex backup) now.val with
    ⟨_, _, heq⟩ | ⟨-, hnew, hfiles⟩
  · rw [heq] at hstored ⊢
    exact ⟨hstored, h.placed, h.sized, h.known, h.kept, fun q hq => h.made q (hcreates hq), h.reverts⟩
  · generalize (Nm.createEnd s.nm user.text p.1.text p.2 (optIndex backup) now.val).2 = nm at hstored hfiles
    have hnone : nmFindFile s.nm p.1.text = none := by
      rw [nmFindFile, List.find?_eq_none]
      simpa using hnew
    have hfind {name : Text} {file : FileEntry} (hold : nmFindFile s.nm name = some file) :
        nmFindFile nm name = some file := by
      unfold nmFindFile at hold ⊢
      rw [hfiles, List.find?_append, hold, Option.some_or]
    refine ⟨hstored, h.placed, h.sized, ?_, ?_, ?_, ?_⟩
    · intro k frame hframe u hread
      obtain ⟨file, hold⟩ := Option.isSome_iff_exists.1 (h.known k frame hframe u hread)
      rw [hfind hold]
      rfl
    · intro file hfile
      have hfile : file ∈ nm.files := hfile
      rw [hfiles, List.mem_append, List.mem_singleton] at hfile
      rcases hfile with hold | rfl
      · exact h.kept file hold
      · obtain ⟨view, hview, hwords, hchars⟩ := h.made p hpmem hnone
        have hname : (newFileEntry p.1.text user.text p.2 (optIndex backup) now.val).name = p.1.text :=
          Text.copyTo_eq_self p.1.short
        refine ⟨p.2, view, rfl, ?_, ?_, ?_⟩
        · rw [hname]
          exact hview
        · constructor <;> omega
        · rw [hname]
          have hlast : (s.channels p.2).last (isAbout p.1.text) = none := by
            rw [Channel.last_eq_none_iff]
            intro m hm
            unfold isAbout
            cases hread : readFileUpdate m with
            | none => rfl
            | some u =>
              rw [Option.any_some, beq_eq_false_iff_ne]
              intro heq
              have hsome := h.known p.2 m hm u hread
              rw [heq, hnone] at hsome
              cases hsome
          rw [hlast]
          exact ⟨hwords.symm, hchars.symm⟩
    · intro q hq hq'
      apply h.made q (hcreates hq)
      cases hold : nmFindFile s.nm q.1.text with
      | none => rfl
      | some file =>
        have hq' : nmFindFile nm q.1.text = none := hq'
        rw [hfind hold] at hq'
        cases hq'
    · intro r hr
      obtain ⟨hprimary, hbackup⟩ := h.reverts r hr
      refine ⟨?_, hbackup⟩
      unfold isPrimary at hprimary ⊢
      cases hold : nmFindFile s.nm r.file.text with
      | none =>
        rw [hold] at hprimary
        cases hprimary
      | some file =>
        rw [hold] at hprimary
        rw [hfind hold]
        exact hprimary

omit h in
/-- REVERT goes to the primary of the file. -/
theorem isPrimary_of_revertBegin {nm : NmState} {user json name tag : Text} {primary : Nat} {backup : Int}
    (hbegin : revertBegin nm user json = .ok (name, tag, primary, backup)) : isPrimary nm primary name = true := by
  revert hbegin
  fun_cases revertBegin nm user json
  case case6 hfind _ _ hneg =>
    intro hbegin
    cases hbegin
    rw [isPrimary, hfind, Option.any_some, beq_iff_eq]
    omega
  all_goals
    intro hbegin
    cases hbegin

/-- A new file at a server. -/
theorem Inv.created {k : Nat} (file : FileName) (owner : Text) {o : AddOutcome} (hnow : IsTime o.now) : Inv dirs
    { s.serve k ((Op.create file owner o).run (s.servers k)) [] with
      creates := if (Ss.ssStateAdd (s.servers k).state (s.servers k).fs file.text owner o).1 then
        s.creates ++ [(file, k)] else s.creates } := by
  obtain ⟨hserved, hmade⟩ := h.create (k := k) file owner hnow
  have hI := h.serve hserved
  refine ⟨hI.stored, hI.placed, hI.sized, hI.known, hI.kept, ?_, hI.reverts⟩
  intro p hp hnone
  dsimp only at hp
  split at hp
  · next hadd =>
    rcases List.mem_append.1 hp with hold | hnew
    · exact hI.made p hold hnone
    · obtain rfl := List.mem_singleton.1 hnew
      obtain ⟨view, hview, hzero⟩ := hmade hadd
      refine ⟨view, ?_, hzero⟩
      show ((s.serve k _ []).servers k).state.entry file.text = some view
      simp only [Reporting.serve, Function.update_self]
      exact hview
  · exact hI.made p hp hnone

/-- A REVERT that comes no further. -/
theorem Inv.dropRevert (i : Nat) : Inv dirs { s with reverts := s.reverts.eraseIdx i } := by
  apply h.setReverts
  intro r hr
  exact .inl (List.mem_of_mem_eraseIdx hr)

/-- The backup of a REVERT is another server than the primary. -/
theorem Inv.not_primary_of_onBackup {r : RevertRequest} (hmem : r ∈ s.reverts) (hon : r.onBackup = true) :
    ¬ isPrimary s.nm r.backup.toNat r.file.text = true := by
  intro hprimary
  obtain ⟨h0, hne⟩ := (h.reverts r hmem).backup hon
  have hold := (h.reverts r hmem).primary
  unfold isPrimary at hprimary hold
  cases hfind : nmFindFile s.nm r.file.text with
  | none =>
    rw [hfind] at hold
    cases hold
  | some file =>
    rw [hfind, Option.any_some, beq_iff_eq] at hprimary hold
    omega

/-- A section of the tables that leaves the entries and their primaries. -/
theorem Inv.changeTables {e : Nm.Event} {nm : NmState} (hnm : tablesStep s.nm e = some nm) (hentry : e.isEntry = false)
    (hprimaries : SameEntries FileEntry.ssIndex s.nm nm) : Inv dirs { s with nm := nm } := by
  have hreport : SameEntries FileEntry.report s.nm nm := report_frame hnm hentry
  have hboth := hreport.prod hprimaries
  apply h.tables (tablesStep_stored h.stored hnm)
  · have := congrArg (List.map fun x : (Text × Nat × Nat × Int) × Int => (x.1.1, x.2)) hboth
    rwa [List.map_map, List.map_map] at this
  · intro file hfile
    obtain ⟨old, hold, heq⟩ := List.mem_map.1 (hboth ▸ List.mem_map_of_mem hfile)
    obtain ⟨k, view, hk, hview, hcount, htold⟩ := h.kept old hold
    simp only [FileEntry.report, Prod.mk.injEq] at heq
    obtain ⟨⟨hname, hwords, hchars, -⟩, hprimary⟩ := heq
    refine ⟨k, view, hprimary.symm.trans hk, ?_, hcount, ?_⟩
    · rw [← hname]
      exact hview
    · unfold Told at htold ⊢
      rw [← hname, ← hwords, ← hchars]
      exact htold

theorem Inv.step {t : Reporting} {e : Event} (hG : InOrder dirs s e) (hs : s.step e = some t) : Inv dirs t := by
  cases e with
  | create k file owner o =>
    cases hs
    exact h.created file owner hG
  | createEnd i user backup now =>
    obtain ⟨p, hp, hs⟩ := Option.bind_eq_some_iff.1 hs
    obtain ⟨nm, hnm, rfl⟩ := Option.map_eq_some_iff.1 hs
    exact h.createEnd hp user backup now hnm
  | op k op =>
    obtain ⟨hpermits, hs⟩ := Option.ite_none_right_eq_some.1 hs
    cases hs
    exact h.serve (h.op hpermits hG.1 hG.2)
  | touch k env file user =>
    obtain ⟨hprimary, hs⟩ := Option.ite_none_right_eq_some.1 hs
    cases hs
    exact h.serve (h.touch hprimary hG user)
  | revert user json =>
    simp only [Reporting.step] at hs
    split at hs
    · cases hs
      exact h
    · next name tag primary backup hbegin =>
      obtain ⟨file, hfile, hs⟩ := Option.bind_eq_some_iff.1 hs
      obtain ⟨tag, -, rfl⟩ := Option.map_eq_some_iff.1 hs
      apply h.setReverts
      intro r hr
      rcases List.mem_append.1 hr with hold | hnew
      · exact .inl hold
      · rw [List.mem_singleton.1 hnew]
        refine .inr ⟨?_, fun hbackup => by cases hbackup⟩
        show isPrimary s.nm primary file.text = true
        rw [FileName.text_of_ofText hfile]
        exact isPrimary_of_revertBegin hbegin
  | revertPrimary i env arrives =>
    obtain ⟨r, hr, hs⟩ := Option.bind_eq_some_iff.1 hs
    have hmem := List.mem_of_getElem? hr
    split at hs
    · cases hs
    cases env with
    | none =>
      cases hs
      exact h.dropRevert i
    | some env =>
      cases hs
      obtain ⟨hnow, hfits⟩ := hG r hr env rfl
      have hI := h.revertAt (h.reverts r hmem) hnow fun _ => hfits
      apply hI.setReverts
      intro r' hr'
      split at hr'
      · next hgoes =>
        rcases List.mem_or_eq_of_mem_set hr' with hold | rfl
        · exact .inl hold
        · refine .inr ⟨(h.reverts r hmem).primary, ?_⟩
          intro _
          simp only [goesOn, Bool.and_eq_true, decide_eq_true_eq, bne_iff_ne] at hgoes
          exact ⟨hgoes.1.2, hgoes.2⟩
      · exact .inl (List.mem_of_mem_eraseIdx hr')
  | revertBackup i env =>
    obtain ⟨r, hr, hs⟩ := Option.bind_eq_some_iff.1 hs
    have hmem := List.mem_of_getElem? hr
    split at hs
    · next hon =>
      cases env with
      | none =>
        cases hs
        exact h.dropRevert i
      | some env =>
        cases hs
        have hbackup := h.not_primary_of_onBackup hmem hon
        have hI := h.revertAt (h.reverts r hmem) (hG env rfl) fun hprimary => absurd hprimary hbackup
        exact hI.dropRevert i
    · cases hs
  | send k i =>
    obtain ⟨c, hc, rfl⟩ := Option.map_eq_some_iff.1 hs
    apply h.setChannel
    · intro m hm
      exact Channel.mem_onWay_send hc hm
    · intro file hfile hk view htold
      rw [Channel.last_send hc (hG file hfile hk)]
      exact htold
  | deliver k =>
    simp only [Reporting.step] at hs
    split at hs
    · cases hs
    · next frame rest hsent =>
      cases hs
      exact h.deliver hsent hG
  | tables e =>
    simp only [Reporting.step] at hs
    split at hs
    · cases hs
    · next hentry =>
      obtain ⟨nm, hnm, hs⟩ := Option.bind_eq_some_iff.1 hs
      obtain ⟨hprimaries, hs⟩ := Option.ite_none_right_eq_some.1 hs
      cases hs
      exact h.changeTables hnm (Bool.eq_false_of_not_eq_true hentry) hprimaries

end Steps

/-! ## The result -/

/-- **The name manager has the counts of the primary** whenever nothing is on the way, in every run in which notices of
other servers do not have the last word. -/
theorem counts_agree_of_run {dirs : Nat → Text} {tr : List (Reporting × Event)} {s : Reporting}
    (h : (system dirs).Run tr s) (hG : System.Meets (InOrder dirs) tr) :
    System.Throughout (fun s => s.Quiet → ∀ file ∈ s.nm.files, s.Agrees file) tr s := by
  have hI := h.invariant_all (I := Inv dirs) (fun _ => inv_started) (fun _ _ _ hI hG hs => hI.step hG hs) hG
  refine ⟨?_, ?_⟩
  · intro hquiet file hfile
    exact hI.1.agrees hquiet hfile
  · intro p hp hquiet file hfile
    exact (hI.2 p hp).agrees hquiet hfile

theorem isTime_now : LONG_MIN ≤ 1700000000 ∧ 1700000000 ≤ LONG_MAX := by decide

/-- Two servers without files. -/
def twoServers : Reporting where
  nm := .clear
  servers k := ⟨Ss.ssStateInit (if k = 0 then Text.lit "/p" else Text.lit "/b"), fun _ => none, []⟩
  channels _ := .empty
  creates := []
  reverts := []

theorem started_twoServers : Started (fun k => if k = 0 then Text.lit "/p" else Text.lit "/b") twoServers where
  stored := stored_clear
  files := rfl
  placed _ := Placed.init _
  sized k name view hview := by cases hview
  channels _ := rfl
  creates := rfl
  reverts := rfl

/-- Alice makes a file, with the second server as its backup, and writes it. -/
def writtenFile (file : FileName) (now : Time) : List Event :=
  [.tables (registerEvent (Text.lit "ss1") 4), .tables (registerEvent (Text.lit "ss2") 5),
    .create 0 file alice.text ⟨now.val, true, true, true⟩, .op 1 (.create file alice.text ⟨now.val, true, true, true⟩),
    .createEnd 0 alice (some 1) now, .op 0 (.commit (.allOk now.val) file alice.text (Ss.writeOf (Text.lit "Hi there."))),
    .send 0 0, .deliver 0]

/-- The counts of the file that was written are at the name manager. -/
theorem counts_agree_written : ∃ tr s file, (system fun k => if k = 0 then Text.lit "/p" else Text.lit "/b").Run tr s ∧
    s.Quiet ∧ file ∈ s.nm.files ∧ file.wordCount = 2 ∧ s.Agrees file := by
  let dirs (k : Nat) : Text := if k = 0 then Text.lit "/p" else Text.lit "/b"
  let events := writtenFile ⟨Text.lit "notes", by decide, by decide⟩ ⟨1700000000, isTime_now.1, isTime_now.2⟩
  have hexec : ((System.exec step [] twoServers events).any fun r =>
      decide (∀ p ∈ r.1, InOrder dirs p.1 p.2) && decide r.2.Quiet &&
        r.2.nm.files.any fun file => file.wordCount == 2) = true := by decide +kernel
  obtain ⟨⟨tr, s⟩, hexec, hcheck⟩ := (Option.any_eq_true _ _).1 hexec
  rw [Bool.and_eq_true, Bool.and_eq_true] at hcheck
  obtain ⟨⟨hG, hquiet⟩, hfile⟩ := hcheck
  replace hG : ∀ p ∈ tr, InOrder dirs p.1 p.2 := of_decide_eq_true hG
  obtain ⟨file, hfile, hwords⟩ := List.any_eq_true.1 hfile
  have hrun : (system dirs).Run tr s := System.Run.exec (.start started_twoServers) hexec
  have hagrees := (counts_agree_of_run hrun hG).1 (of_decide_eq_true hquiet) file hfile
  exact ⟨tr, s, file, hrun, of_decide_eq_true hquiet, hfile, by simpa using hwords, hagrees⟩

/-- A checkpoint is made before the backup has the text, and REVERT has the backup report its empty text after the
primary. -/
theorem backup_reports_last : ∃ tr s file, (system fun k => if k = 0 then Text.lit "/p" else Text.lit "/b").Run tr s ∧
    s.Quiet ∧ file ∈ s.nm.files ∧ ¬ s.Agrees file := by
  let dirs (k : Nat) : Text := if k = 0 then Text.lit "/p" else Text.lit "/b"
  let f : FileName := ⟨Text.lit "notes", by decide, by decide⟩
  let tag : FileName := ⟨Text.lit "v1", by decide, by decide⟩
  let env := Env.allOk 1700000000
  let events := writtenFile f ⟨1700000000, isTime_now.1, isTime_now.2⟩ ++
    [.op 0 (.checkpoint env f tag), .op 1 (.checkpoint env f tag),
      .tables (.checkpointEnd alice f.text tag ⟨1700000000, isTime_now.1, isTime_now.2⟩),
      .op 1 (.sync env f alice.text (Text.lit "Hi there.")),
      .revert alice (printMessage [(Text.lit "file", .string f.text), (Text.lit "tag", .string tag.text)]),
      .revertPrimary 0 (some env) true, .revertBackup 0 (some env), .send 0 0, .send 1 0, .deliver 0, .deliver 1,
      .op 1 (.sync env f alice.text (Text.lit "Hi there."))]
  have hexec : ((System.exec step [] twoServers events).any fun r =>
      decide r.2.Quiet && r.2.nm.files.any fun file =>
        decide (file.ssIndex = 0) && ((r.2.servers 0).state.entry file.name).any fun view =>
          decide (file.wordCount ≠ view.wordCount)) = true := by decide +kernel
  obtain ⟨⟨tr, s⟩, hexec, hcheck⟩ := (Option.any_eq_true _ _).1 hexec
  obtain ⟨hquiet, hfile⟩ := Bool.and_eq_true_iff.1 hcheck
  obtain ⟨file, hfile, hcheck⟩ := List.any_eq_true.1 hfile
  obtain ⟨hprimary, hview⟩ := Bool.and_eq_true_iff.1 hcheck
  obtain ⟨view, hview, hne⟩ := (Option.any_eq_true _ _).1 hview
  refine ⟨tr, s, file, System.Run.exec (.start started_twoServers) hexec, of_decide_eq_true hquiet, hfile, ?_⟩
  rintro ⟨k, view', hk, hview', hwords, -⟩
  obtain rfl : k = 0 := by
    have := of_decide_eq_true hprimary
    omega
  rw [hview] at hview'
  cases hview'
  exact of_decide_eq_true hne hwords

end Reporting

end CoWrite.Cluster
