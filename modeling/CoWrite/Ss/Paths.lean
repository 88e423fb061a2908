import CoWrite.Lib.Runs
import CoWrite.Ss.Client

/-!
# Where the storage server writes

Every operation on a file writes the data file, the undo copy and the meta file of its own name, and
`store_text_atomic` writes a temporary beside each path it replaces; a checkpoint is written with its
temporary. Names may end in `.tmp`, and then the temporary of one file is the data file of another.

* `Op.writes`: an operation changes no path but those of `Op.paths`.
* `apart_iff`: these meet no other file and no other checkpoint, unless a name ends in `.tmp`.
* `run_framed`: operations whose paths are apart leave the other files and checkpoints alone.
-/

namespace CoWrite.Ss

open CoWrite.Lib

/-! ## Writes -/

/-- The contents differ at the paths `ws` at most. -/
def Writes (ws : List Text) (fs fs' : Fs) : Prop := ∀ p, p ∉ ws → fs' p = fs p

section Writes

variable {ws ws' : List Text} {fs fs' fs'' : Fs}

theorem Writes.refl : Writes ws fs fs := fun _ _ => rfl

theorem Writes.trans (h : Writes ws fs fs') (h' : Writes ws fs' fs'') : Writes ws fs fs'' :=
  fun p hp => (h' p hp).trans (h p hp)

theorem Writes.mono (h : Writes ws fs fs') (hsub : ws ⊆ ws') : Writes ws' fs fs' :=
  fun p hp => h p fun hm => hp (hsub hm)

theorem writes_update (path : Text) (content : Option Text) (h : path ∈ ws) :
    Writes ws fs (Function.update fs path content) := by
  intro p hp
  have hne : p ≠ path := by
    rintro rfl
    exact hp h
  exact Function.update_of_ne hne _ _

theorem writes_write (path content : Text) (h : path ∈ ws) : Writes ws fs (fs.write path content) :=
  writes_update path _ h

theorem writes_unlink (path : Text) (h : path ∈ ws) : Writes ws fs (fs.unlink path) :=
  writes_update path _ h

/-- Storing a text touches its path and the temporary. -/
theorem writes_storeTextAtomic (path content : Text) (o : StoreOutcome) (h : path ∈ ws)
    (htmp : tmpPath path ∈ ws) : Writes ws fs (storeTextAtomic fs path content o).2 := by
  cases o with
  | done =>
    refine (writes_write _ content htmp).trans ?_
    simp only [storeTextAtomic, Fs.rename]
    split
    · exact .refl
    · exact (writes_update path _ h).trans (writes_update _ _ htmp)
  | openFailed => exact .refl
  | failed left => exact writes_update _ left htmp

theorem writes_of_store {path content : Text} {o : StoreOutcome} {ok : Bool}
    (hstore : storeTextAtomic fs path content o = (ok, fs')) (h : path ∈ ws)
    (htmp : tmpPath path ∈ ws) : Writes ws fs fs' := by
  have hwrites : Writes ws fs (storeTextAtomic fs path content o).2 :=
    writes_storeTextAtomic path content o h htmp
  rwa [hstore] at hwrites

theorem writes_saveMeta (file : SsFile) (ok : Bool) (h : file.metaPath ∈ ws) :
    Writes ws fs (ssStateSaveMeta fs file ok) := by
  unfold ssStateSaveMeta
  split
  · exact writes_write _ _ h
  · exact .refl

end Writes

/-! ## Paths -/

/-- The paths of `fill_paths` and of `build_checkpoint_path` for a storage directory. -/
def dataPath (dir name : Text) : Text :=
  Text.copyTo 512 ((ssStateInit dir).filesDir ++ '/' :: name)

def metaPath (dir name : Text) : Text :=
  Text.copyTo 512 ((ssStateInit dir).metaDir ++ '/' :: name ++ Text.lit ".meta")

def undoPath (dir name : Text) : Text :=
  Text.copyTo 512 ((ssStateInit dir).undoDir ++ '/' :: name ++ Text.lit ".undo")

def checkpointPath (dir name tag : Text) : Text :=
  (ssStateInit dir).checkpointsDir ++ '/' :: name ++ '/' :: tag

/-- The entry has the paths of its name. -/
structure HasPaths (dir name : Text) (file : SsFile) : Prop where
  dataEq : file.dataPath = dataPath dir name
  metaEq : file.metaPath = metaPath dir name
  undoEq : file.undoPath = undoPath dir name

/-- The table of a server on the directory: sorted, with valid names and the paths of these. -/
structure Placed (dir : Text) (state : SsState) : Prop where
  dirs : { state with files := [] } = ssStateInit dir
  sorted : state.Sorted
  hasPaths : ∀ name file, state.entry name = some file → HasPaths dir name file
  named : ∀ name, (state.entry name).isSome → validName name = true ∧ name.length < SS_NAME_MAX

theorem Placed.init (dir : Text) : Placed dir (ssStateInit dir) where
  dirs := rfl
  sorted := sorted_ssStateInit dir
  hasPaths _ _ h := by simp [SsState.entry, ssStateInit, SortedList.lookup] at h
  named _ h := by simp [SsState.entry, ssStateInit, SortedList.lookup] at h

/-! ## Operations -/

/-- The operations on a file, with what their calls answer. A commit comes from a write that began at
any time; of its copy of the entry only the paths matter. -/
inductive Op where
  | create (file : FileName) (owner : Text) (o : AddOutcome)
  | delete (file : FileName)
  | commit (env : DataEnv) (file : FileName) (user : Text) (session : WriteSession)
  | undo (env : Env) (file : FileName) (user : Text)
  | revert (env : Env) (file tag : FileName) (user : Text)
  | sync (env : Env) (file : FileName) (owner content : Text)
  | checkpoint (env : Env) (file tag : FileName)

/-- The copy of the entry that a write on the file works with. -/
def writeView (state : SsState) (file : FileName) : SsFile :=
  fillPaths state file.text (newFile state file.text [] 0)

def Op.run (srv : Server) : Op → Server
  | .create file owner o =>
    let added := ssStateAdd srv.state srv.fs file.text owner o
    { srv with state := added.2.1, fs := added.2.2 }
  | .delete file =>
    match ssStateRemove srv.state srv.fs file.text with
    | none => srv
    | some (state, fs) => { srv with state := state, fs := fs }
  | .commit env file user session =>
    (commitWrite env srv ⟨file.text, user, session.sentenceIndex, writeView srv.state file,
      session⟩).1
  | .undo env file user => (performUndo env srv file.text user).1
  | .revert env file tag user => (ssRevertCheckpoint env srv file.text tag.text user).1
  | .sync env file owner content => (syncFile env srv file.text owner content).1
  | .checkpoint env file tag => (ssCreateCheckpoint env srv file.text tag.text).1

def Op.file : Op → FileName
  | .create file _ _ | .delete file | .commit _ file _ _ | .undo _ file _ | .revert _ file _ _
  | .sync _ file _ _ | .checkpoint _ file _ => file

/-- The paths of an operation that replaces the text and keeps the old one. -/
def replacedPaths (dir name : Text) : List Text :=
  [dataPath dir name, tmpPath (dataPath dir name), undoPath dir name,
    tmpPath (undoPath dir name), metaPath dir name]

theorem mem_replacedPaths (dir name : Text) :
    dataPath dir name ∈ replacedPaths dir name ∧ tmpPath (dataPath dir name) ∈ replacedPaths dir name ∧
      undoPath dir name ∈ replacedPaths dir name ∧
      tmpPath (undoPath dir name) ∈ replacedPaths dir name ∧
      metaPath dir name ∈ replacedPaths dir name := by
  simp [replacedPaths]

/-- The paths that an operation changes, temporaries included. -/
def Op.paths (dir : Text) : Op → List Text
  | .create file _ _ => [dataPath dir file.text, metaPath dir file.text]
  | .delete file => [dataPath dir file.text, metaPath dir file.text, undoPath dir file.text]
  | .undo _ file _ =>
    [dataPath dir file.text, tmpPath (dataPath dir file.text), undoPath dir file.text,
      metaPath dir file.text]
  | .commit _ file _ _ | .revert _ file _ _ | .sync _ file _ _ => replacedPaths dir file.text
  | .checkpoint _ file tag =>
    [checkpointPath dir file.text tag.text, tmpPath (checkpointPath dir file.text tag.text)]

/-! ## What an operation changes -/

/-- The operation on the name changes the paths `ws` and the entry of the name at most. -/
structure Changes (dir name : Text) (ws : List Text) (srv srv' : Server) : Prop where
  placed : Placed dir srv'.state
  entries : ∀ n, n ≠ name → srv'.state.entry n = srv.state.entry n
  writes : Writes ws srv.fs srv'.fs

section Changes

variable {dir name : Text} {ws : List Text} {srv srv' srv'' : Server}

theorem Changes.refl (h : Placed dir srv.state) : Changes dir name ws srv srv :=
  ⟨h, fun _ _ => rfl, .refl⟩

theorem Changes.trans (h : Changes dir name ws srv srv') (h' : Changes dir name ws srv' srv'') :
    Changes dir name ws srv srv'' :=
  ⟨h'.placed, fun n hn => (h'.entries n hn).trans (h.entries n hn), h.writes.trans h'.writes⟩

/-- Files were written, the table is as it was. -/
theorem Changes.of_writes (h : Placed dir srv.state) {fs : Fs} (hfs : Writes ws srv.fs fs) :
    Changes dir name ws srv { srv with fs := fs } :=
  ⟨h, fun _ _ => rfl, hfs⟩

/-- A change of an entry that leaves its name and its paths alone. -/
def KeepsPaths (f : SsFile → SsFile) : Prop :=
  ∀ file, (f file).name = file.name ∧ (f file).dataPath = file.dataPath ∧
    (f file).metaPath = file.metaPath ∧ (f file).undoPath = file.undoPath

theorem Placed.update {state state' : SsState} (h : Placed dir state) {f : SsFile → SsFile}
    (hf : KeepsPaths f) {file' : SsFile}
    (hup : updateFile state name f = some (file', state')) :
    Placed dir state' ∧ HasPaths dir name file' ∧
      ∀ n, n ≠ name → state'.entry n = state.entry n := by
  obtain ⟨file, hfile, rfl, hs', hentry⟩ := updateFile_some h.sorted (fun file => (hf file).1) hup
  have hdirs : { state' with files := [] } = { state with files := [] } := by
    unfold updateFile at hup
    split at hup
    · simp only [Option.some.injEq, Prod.mk.injEq] at hup
      rw [← hup.2]
      rfl
    · cases hup
  have hfile' : HasPaths dir name (f file) := by
    obtain ⟨-, hd, hm, hu⟩ := hf file
    have := h.hasPaths name file hfile
    exact ⟨hd.trans this.dataEq, hm.trans this.metaEq, hu.trans this.undoEq⟩
  refine ⟨⟨hdirs.trans h.dirs, hs', fun n file'' hn => ?_, fun n hn => ?_⟩, hfile',
    fun n hn => by rw [hentry, if_neg hn]⟩
  · rw [hentry] at hn
    split at hn
    · next heq =>
      cases hn
      exact heq ▸ hfile'
    · exact h.hasPaths n file'' hn
  · rw [hentry] at hn
    split at hn
    · next heq => exact heq ▸ h.named name (by simp [hfile])
    · exact h.named n hn

variable (h : Placed dir srv.state)

include h

/-- A table that only differs in its entries derives the same paths. -/
theorem Placed.fillPaths (file : SsFile) : HasPaths dir name (fillPaths srv.state name file) := by
  have hdirs := h.dirs
  have hfiles : srv.state.filesDir = (ssStateInit dir).filesDir := by rw [← hdirs]
  have hmeta : srv.state.metaDir = (ssStateInit dir).metaDir := by rw [← hdirs]
  have hundo : srv.state.undoDir = (ssStateInit dir).undoDir := by rw [← hdirs]
  simp only [Ss.fillPaths]
  exact ⟨by rw [hfiles]; rfl, by rw [hmeta]; rfl, by rw [hundo]; rfl⟩

theorem Changes.add (file : FileName) (owner : Text) (o : AddOutcome)
    (hdata : dataPath dir file.text ∈ ws) (hmeta : metaPath dir file.text ∈ ws) :
    let added := ssStateAdd srv.state srv.fs file.text owner o
    Changes dir file.text ws srv { srv with state := added.2.1, fs := added.2.2 } := by
  intro added
  have hnew : HasPaths dir file.text (newFile srv.state file.text owner o.now) := h.fillPaths _
  obtain ⟨hs', hentry⟩ := ssStateAdd_state h.sorted srv.fs file.short owner o
  have hstate : { added.2.1 with files := [] } = ssStateInit dir ∧ Writes ws srv.fs added.2.2 := by
    have hd : (newFile srv.state file.text owner o.now).dataPath ∈ ws := hnew.dataEq ▸ hdata
    have hm : (newFile srv.state file.text owner o.now).metaPath ∈ ws := hnew.metaEq ▸ hmeta
    unfold added ssStateAdd
    split
    · exact ⟨h.dirs, .refl⟩
    · split
      · exact ⟨h.dirs, .refl⟩
      dsimp only
      split
      · exact ⟨h.dirs, .refl⟩
      split
      · exact ⟨h.dirs, (writes_write _ _ hd).trans (writes_unlink _ hd)⟩
      · exact ⟨h.dirs, (writes_write _ [] hd).trans (writes_saveMeta _ true hm)⟩
  refine ⟨⟨hstate.1, hs', fun n file' hn => ?_, fun n hn => ?_⟩, fun n hn => ?_, hstate.2⟩
  · rw [hentry] at hn
    split at hn
    · next hadd =>
      cases hn
      exact hadd.2 ▸ hnew
    · exact h.hasPaths n file' hn
  · rw [hentry] at hn
    split at hn
    · next hadd => exact hadd.2 ▸ ⟨file.valid, file.short⟩
    · exact h.named n hn
  · rw [hentry, if_neg fun hadd => hn hadd.2]

theorem Changes.remove {state : SsState} {fs : Fs}
    (hremove : ssStateRemove srv.state srv.fs name = some (state, fs))
    (hws : [dataPath dir name, metaPath dir name, undoPath dir name] ⊆ ws) :
    Changes dir name ws srv { srv with state := state, fs := fs } := by
  have hspec := ssStateRemove_state h.sorted srv.fs name
  rw [hremove] at hspec
  obtain ⟨hs', hentry⟩ := hspec
  simp only [List.cons_subset] at hws
  have hstate : { state with files := [] } = ssStateInit dir ∧ Writes ws srv.fs fs := by
    unfold ssStateRemove at hremove
    split at hremove
    · cases hremove
    · next file idx hfind =>
      cases hremove
      have hp : HasPaths dir name file :=
        h.hasPaths name file (by rw [← ssStateFind_eq h.sorted, hfind])
      rw [← hp.dataEq, ← hp.metaEq, ← hp.undoEq] at hws
      exact ⟨h.dirs, ((writes_unlink _ hws.1).trans (writes_unlink _ hws.2.1)).trans
        (writes_unlink _ hws.2.2.1)⟩
  refine ⟨⟨hstate.1, hs', fun n file hn => ?_, fun n hn => ?_⟩, fun n hn => ?_, hstate.2⟩
  · rw [hentry] at hn
    split at hn
    · cases hn
    · exact h.hasPaths n file hn
  · rw [hentry] at hn
    split at hn
    · cases hn
    · exact h.named n hn
  · rw [hentry, if_neg hn]

/-- An entry changed and saved. -/
theorem Changes.update {f : SsFile → SsFile} (hf : KeepsPaths f) {file : SsFile} {state : SsState}
    (hup : updateFile srv.state name f = some (file, state)) (ok : Bool)
    (hmeta : metaPath dir name ∈ ws) :
    Changes dir name ws srv { srv with state := state, fs := ssStateSaveMeta srv.fs file ok } := by
  obtain ⟨hplaced, hpaths, hentries⟩ := h.update hf hup
  exact ⟨hplaced, hentries, writes_saveMeta _ _ (hpaths.metaEq ▸ hmeta)⟩

theorem Changes.restampFile (env : Env) (user text : Text) (hmeta : metaPath dir name ∈ ws) :
    Changes dir name ws srv (restampFile env srv name user text).1 := by
  unfold Ss.restampFile
  split
  · exact .refl h
  · next file state hup =>
    refine .update h ?_ hup env.metaOpened hmeta
    exact fun _ => ⟨rfl, rfl, rfl, rfl⟩

theorem Changes.performUndo (env : Env) (user : Text)
    (hws : [dataPath dir name, tmpPath (dataPath dir name), undoPath dir name,
      metaPath dir name] ⊆ ws) :
    Changes dir name ws srv (performUndo env srv name user).1 := by
  simp only [List.cons_subset] at hws
  obtain ⟨hdata, htmp, hundo, hmeta, -⟩ := hws
  unfold Ss.performUndo
  split
  · exact .refl h
  · next view hfind =>
    rw [ssStateFind_eq h.sorted] at hfind
    have hp := h.hasPaths name view hfind
    rw [hp.dataEq, hp.undoEq]
    split
    · exact .refl h
    split
    · exact .refl h
    split
    · exact .refl h
    split
    · next hstore => exact .of_writes h (writes_of_store hstore hdata htmp)
    · next hstore =>
      dsimp only
      refine (Changes.of_writes h ((writes_of_store hstore hdata htmp).trans ?_)).trans
        (.restampFile ?_ env user _ hmeta)
      · split
        · exact writes_unlink _ hundo
        · exact .refl
      · exact h

theorem Changes.ssRevertCheckpoint (env : Env) (tag user : Text) :
    Changes dir name (replacedPaths dir name) srv (ssRevertCheckpoint env srv name tag user).1 := by
  obtain ⟨hd, hdt, hu, hut, hm⟩ := mem_replacedPaths dir name
  unfold Ss.ssRevertCheckpoint
  split
  · exact .refl h
  split
  · exact .refl h
  · next view hfind =>
    rw [ssStateFind_eq h.sorted] at hfind
    have hp := h.hasPaths name view hfind
    rw [hp.dataEq, hp.undoEq]
    split
    · exact .refl h
    split
    · exact .refl h
    split
    · next hundo => exact .of_writes h (writes_of_store hundo hu hut)
    · next hundo =>
      have hundo := writes_of_store hundo hu hut
      split
      · next hdata => exact .of_writes h (hundo.trans (writes_of_store hdata hd hdt))
      · next hdata =>
        refine (Changes.of_writes h (hundo.trans (writes_of_store hdata hd hdt))).trans
          (.restampFile ?_ env user _ hm)
        exact h

theorem Changes.syncTarget (env : Env) (file : FileName) (owner : Text) :
    Changes dir file.text (replacedPaths dir file.text) srv (syncTarget env srv file.text owner).1 ∧
      ∀ view, (Ss.syncTarget env srv file.text owner).2 = some view →
        HasPaths dir file.text view := by
  obtain ⟨hd, -, -, -, hm⟩ := mem_replacedPaths dir file.text
  have hadd := Changes.add h file owner env.add hd hm
  unfold Ss.syncTarget
  split
  · next view hfind =>
    rw [ssStateFind_eq h.sorted] at hfind
    exact ⟨.refl h, fun view' hv => by cases hv; exact h.hasPaths _ _ hfind⟩
  split
  · next hs => rw [hs] at hadd; exact ⟨hadd, nofun⟩
  · next hs =>
    rw [hs] at hadd
    refine ⟨hadd, fun view hv => hadd.placed.hasPaths _ _ ?_⟩
    rw [← ssStateFind_eq hadd.placed.sorted]
    exact hv

theorem Changes.syncFile (env : Env) (file : FileName) (owner content : Text) :
    Changes dir file.text (replacedPaths dir file.text) srv
      (syncFile env srv file.text owner content).1 := by
  obtain ⟨hd, hdt, hu, hut, hm⟩ := mem_replacedPaths dir file.text
  have htarget := Changes.syncTarget h env file owner
  unfold Ss.syncFile
  dsimp only
  split
  · next hs => rw [hs] at htarget; exact htarget.1
  · next srv' view hs =>
    rw [hs] at htarget
    obtain ⟨htarget, hview⟩ := htarget
    have hp := hview view rfl
    have h' := htarget.placed
    refine htarget.trans ?_
    dsimp only at h' ⊢
    rw [hp.dataEq, hp.undoEq]
    split
    · exact .refl h'
    split
    · next hundo => exact .of_writes h' (writes_of_store hundo hu hut)
    · next hundo =>
      have hundo := writes_of_store hundo hu hut
      split
      · next hdata => exact .of_writes h' (hundo.trans (writes_of_store hdata hd hdt))
      · next hdata =>
        have hstored : Changes dir file.text _ srv' _ :=
          .of_writes h' (hundo.trans (writes_of_store hdata hd hdt))
        split
        · exact hstored
        · next hup =>
          refine hstored.trans (.update hstored.placed ?_ hup env.metaOpened hm)
          exact fun _ => ⟨rfl, rfl, rfl, rfl⟩

omit h in
theorem writes_writeSessionCommit (env : DataEnv) (fs : Fs) (session : WriteSession) {view : SsFile}
    (hp : HasPaths dir name view) :
    Writes (replacedPaths dir name) fs (writeSessionCommit env fs session view).1 := by
  obtain ⟨hd, hdt, hu, hut, -⟩ := mem_replacedPaths dir name
  unfold writeSessionCommit
  rw [hp.dataEq, hp.undoEq]
  split
  · exact .refl
  split
  · exact .refl
  split
  · exact .refl
  split
  · next hundo => exact writes_of_store hundo hu hut
  · next hundo =>
    split
    · next hdata =>
      exact (writes_of_store hundo hu hut).trans (writes_of_store hdata hd hdt)
    · next hdata =>
      exact (writes_of_store hundo hu hut).trans (writes_of_store hdata hd hdt)

theorem Changes.commitWrite (env : DataEnv) (write : OpenWrite)
    (hp : HasPaths dir write.file write.view) :
    Changes dir write.file (replacedPaths dir write.file) srv (commitWrite env srv write).1 := by
  obtain ⟨-, -, -, -, hm⟩ := mem_replacedPaths dir write.file
  have hcommit := writes_writeSessionCommit env srv.fs write.session hp
  unfold Ss.commitWrite
  split
  · next hs =>
    rw [hs] at hcommit
    split <;> exact .of_writes h hcommit
  · next hs =>
    rw [hs] at hcommit
    have hstored : Changes dir write.file _ srv _ := .of_writes h hcommit
    split
    · exact hstored
    · next hup =>
      refine hstored.trans (.update hstored.placed ?_ hup env.metaOpened hm)
      exact fun _ => ⟨rfl, rfl, rfl, rfl⟩

theorem Changes.ssCreateCheckpoint (env : Env) (tag : Text) :
    Changes dir name [checkpointPath dir name tag, tmpPath (checkpointPath dir name tag)] srv
      (ssCreateCheckpoint env srv name tag).1 := by
  have hdirs : srv.state.checkpointsDir = (ssStateInit dir).checkpointsDir := by rw [← h.dirs]
  unfold Ss.ssCreateCheckpoint
  split
  · exact .refl h
  split
  · exact .refl h
  split
  · exact .refl h
  split
  · exact .refl h
  · next path hpath =>
    have hpath : path = checkpointPath dir name tag := by
      unfold buildCheckpointPath at hpath
      dsimp only at hpath
      split_ifs at hpath
      cases hpath
      rw [hdirs]
      rfl
    subst hpath
    split <;> next hs => exact .of_writes h (writes_of_store hs (by simp) (by simp))

/-- **An operation changes its own file's entry and the paths it names**, nothing else. -/
theorem Op.changes (op : Op) : Changes dir op.file.text (op.paths dir) srv (op.run srv) := by
  cases op with
  | create file owner o =>
    exact .add h _ owner o (by simp [Op.paths, Op.file]) (by simp [Op.paths, Op.file])
  | delete file =>
    unfold Op.run
    dsimp only
    split
    · exact .refl h
    · next hs => exact .remove h hs (by simp [Op.paths, Op.file])
  | commit env file user session =>
    exact .commitWrite h env ⟨file.text, user, _, writeView srv.state file, session⟩ (h.fillPaths _)
  | undo env file user => exact .performUndo h env user (by simp [Op.paths, Op.file])
  | revert env file tag user => exact .ssRevertCheckpoint h env _ user
  | sync env file owner content => exact .syncFile h env file owner content
  | checkpoint env file tag => exact .ssCreateCheckpoint h env _

end Changes

/-! ## Which paths can meet -/

/-- None of the operation's paths is the data file or the undo copy of another file in the table, nor,
where it creates a checkpoint, another checkpoint that is stored. -/
structure Apart (dir : Text) (srv : Server) (op : Op) : Prop where
  files : ∀ g, g ≠ op.file.text → (srv.state.entry g).isSome →
    dataPath dir g ∉ op.paths dir ∧ undoPath dir g ∉ op.paths dir
  checkpoints : ∀ env file tag, op = .checkpoint env file tag → ∀ g u : FileName,
    (g.text, u.text) ≠ (file.text, tag.text) →
    (srv.fs (checkpointPath dir g.text u.text)).isSome →
    checkpointPath dir g.text u.text ∉ op.paths dir

/-- No other file, or checkpoint of the file, has the name of the temporary. -/
def NoTemporary (dir : Text) (srv : Server) : Op → Prop
  | .create _ _ _ | .delete _ => True
  | .commit _ file _ _ | .undo _ file _ | .revert _ file _ _ | .sync _ file _ _ =>
    srv.state.entry (file.text ++ Text.lit ".tmp") = none
  | .checkpoint _ file tag => ∀ u : FileName, u.text = tag.text ++ Text.lit ".tmp" →
    srv.fs (checkpointPath dir file.text u.text) = none

section Short

variable {dir : Text} (hdir : dir.length ≤ 239) {name : Text} (hname : name.length < SS_NAME_MAX)

include hdir hname

/-- No path is cut off where the storage directory leaves room for it. -/
theorem dataPath_eq : dataPath dir name = dir ++ (Text.lit "/files/" ++ name) ∧
    tmpPath (dataPath dir name) = dir ++ (Text.lit "/files/" ++ (name ++ Text.lit ".tmp")) := by
  have hd : (ssStateInit dir).filesDir = dir ++ Text.lit "/files" :=
    Text.copyTo_eq_self (by simp [Text.lit]; omega)
  have heq : dataPath dir name = dir ++ (Text.lit "/files/" ++ name) := by
    rw [dataPath, hd, Text.copyTo_eq_self]
    · simp [Text.lit]
    · simp [Text.lit, SS_NAME_MAX] at hname ⊢
      omega
  refine ⟨heq, ?_⟩
  rw [tmpPath, heq, Text.copyTo_eq_self]
  · simp
  · simp [Text.lit, SS_NAME_MAX] at hname ⊢
    omega

theorem undoPath_eq : undoPath dir name = dir ++ (Text.lit "/undo/" ++ (name ++ Text.lit ".undo")) ∧
    tmpPath (undoPath dir name) =
      dir ++ (Text.lit "/undo/" ++ (name ++ Text.lit ".undo.tmp")) := by
  have hd : (ssStateInit dir).undoDir = dir ++ Text.lit "/undo" :=
    Text.copyTo_eq_self (by simp [Text.lit]; omega)
  have heq : undoPath dir name = dir ++ (Text.lit "/undo/" ++ (name ++ Text.lit ".undo")) := by
    rw [undoPath, hd, Text.copyTo_eq_self]
    · simp [Text.lit]
    · simp [Text.lit, SS_NAME_MAX] at hname ⊢
      omega
  refine ⟨heq, ?_⟩
  rw [tmpPath, heq, Text.copyTo_eq_self]
  · simp [Text.lit]
  · simp [Text.lit, SS_NAME_MAX] at hname ⊢
    omega

theorem metaPath_eq : metaPath dir name = dir ++ (Text.lit "/meta/" ++ (name ++ Text.lit ".meta")) := by
  have hd : (ssStateInit dir).metaDir = dir ++ Text.lit "/meta" :=
    Text.copyTo_eq_self (by simp [Text.lit]; omega)
  rw [metaPath, hd, Text.copyTo_eq_self]
  · simp [Text.lit]
  · simp [Text.lit, SS_NAME_MAX] at hname ⊢
    omega

theorem checkpointPath_eq {tag : Text} (htag : tag.length < SS_NAME_MAX) :
    checkpointPath dir name tag = dir ++ (Text.lit "/checkpoints/" ++ (name ++ '/' :: tag)) ∧
      tmpPath (checkpointPath dir name tag) =
        dir ++ (Text.lit "/checkpoints/" ++ (name ++ '/' :: (tag ++ Text.lit ".tmp"))) := by
  have hd : (ssStateInit dir).checkpointsDir = dir ++ Text.lit "/checkpoints" :=
    Text.copyTo_eq_self (by simp [Text.lit]; omega)
  have heq : checkpointPath dir name tag =
      dir ++ (Text.lit "/checkpoints/" ++ (name ++ '/' :: tag)) := by
    rw [checkpointPath, hd]
    simp [Text.lit]
  refine ⟨heq, ?_⟩
  rw [tmpPath, heq, Text.copyTo_eq_self]
  · simp
  · simp [Text.lit, SS_NAME_MAX] at hname htag ⊢
    omega

end Short

/-- A name ends at the first slash. -/
theorem append_slash_inj {g f u t : Text} (hg : '/' ∉ g) (hf : '/' ∉ f) :
    g ++ '/' :: u = f ++ '/' :: t ↔ g = f ∧ u = t := by
  induction g generalizing f with
  | nil =>
    cases f with
    | nil => simp
    | cons c f => simp_all
  | cons c g ih =>
    cases f with
    | nil => simp_all [eq_comm]
    | cons d f =>
      simp only [List.mem_cons, not_or] at hg hf
      simp [ih hg.2 hf.2, and_assoc]

section Meet

variable {dir : Text} (hdir : dir.length ≤ 239) {f g : Text} (hf : f.length < SS_NAME_MAX)
  (hg : g.length < SS_NAME_MAX)

include hdir hf hg

/-- The data file of another name is met by the temporary only. -/
theorem dataPath_mem : dataPath dir g ∈ replacedPaths dir f ↔ g = f ∨ g = f ++ Text.lit ".tmp" := by
  simp only [replacedPaths, List.mem_cons, List.not_mem_nil, or_false, (dataPath_eq hdir hf).2,
    (undoPath_eq hdir hf).2]
  simp only [(dataPath_eq hdir hg).1, (dataPath_eq hdir hf).1, (undoPath_eq hdir hf).1,
    metaPath_eq hdir hf, List.append_cancel_left_eq]
  simp [Text.lit]

/-- The undo copy of another name is met by nothing: the names of the temporaries end differently. -/
theorem undoPath_mem : undoPath dir g ∈ replacedPaths dir f ↔ g = f := by
  have htmp : g ++ Text.lit ".undo" ≠ f ++ Text.lit ".undo.tmp" := by
    intro h
    have := congrArg List.getLast? h
    simp [Text.lit] at this
  simp only [replacedPaths, List.mem_cons, List.not_mem_nil, or_false, (dataPath_eq hdir hf).2,
    (undoPath_eq hdir hf).2]
  simp only [(undoPath_eq hdir hg).1, (dataPath_eq hdir hf).1, (undoPath_eq hdir hf).1,
    metaPath_eq hdir hf, List.append_cancel_left_eq, htmp]
  simp [Text.lit]

/-- Without the temporaries no other name is met. -/
theorem filePath_mem : (dataPath dir g ∈ [dataPath dir f, metaPath dir f, undoPath dir f] ↔ g = f) ∧
    (undoPath dir g ∈ [dataPath dir f, metaPath dir f, undoPath dir f] ↔ g = f) := by
  simp only [List.mem_cons, List.not_mem_nil, or_false, (undoPath_eq hdir hg).1,
    (dataPath_eq hdir hg).1, (dataPath_eq hdir hf).1, (undoPath_eq hdir hf).1, metaPath_eq hdir hf,
    List.append_cancel_left_eq]
  simp [Text.lit]

/-- A checkpoint meets another one of the same file only, in the temporary. -/
theorem checkpointPath_mem {t u : Text} (ht : t.length < SS_NAME_MAX) (hu : u.length < SS_NAME_MAX)
    (hfs : '/' ∉ f) (hgs : '/' ∉ g) :
    checkpointPath dir g u ∈ [checkpointPath dir f t, tmpPath (checkpointPath dir f t)] ↔
      g = f ∧ (u = t ∨ u = t ++ Text.lit ".tmp") := by
  simp only [List.mem_cons, List.not_mem_nil, or_false, (checkpointPath_eq hdir hf ht).2]
  simp only [(checkpointPath_eq hdir hg hu).1, (checkpointPath_eq hdir hf ht).1,
    List.append_cancel_left_eq, append_slash_inj hgs hfs]
  simp [and_or_left]

theorem filePath_not_mem_checkpoint {t : Text} (ht : t.length < SS_NAME_MAX) :
    dataPath dir g ∉ [checkpointPath dir f t, tmpPath (checkpointPath dir f t)] ∧
      undoPath dir g ∉ [checkpointPath dir f t, tmpPath (checkpointPath dir f t)] := by
  simp only [List.mem_cons, List.not_mem_nil, or_false, (checkpointPath_eq hdir hf ht).2]
  simp only [(undoPath_eq hdir hg).1, (dataPath_eq hdir hg).1, (checkpointPath_eq hdir hf ht).1,
    List.append_cancel_left_eq]
  simp [Text.lit]

end Meet

/-- **The paths of an operation are apart from the others unless a name ends in `.tmp`.** -/
theorem apart_iff {dir : Text} (hdir : dir.length ≤ 239) {srv : Server}
    (h : Placed dir srv.state) (op : Op) : Apart dir srv op ↔ NoTemporary dir srv op := by
  have hreplaced (f : FileName) {ws : List Text} (hsub : ws ⊆ replacedPaths dir f.text)
      (htmp : tmpPath (dataPath dir f.text) ∈ ws) :
      (∀ g, g ≠ f.text → (srv.state.entry g).isSome →
        dataPath dir g ∉ ws ∧ undoPath dir g ∉ ws) ↔
      srv.state.entry (f.text ++ Text.lit ".tmp") = none := by
    constructor
    · intro hall
      by_contra hsome
      have hsome := Option.isSome_iff_ne_none.2 hsome
      have hne : f.text ++ Text.lit ".tmp" ≠ f.text := by simp [Text.lit]
      refine (hall _ hne hsome).1 ?_
      rwa [(dataPath_eq hdir (h.named _ hsome).2).1, ← (dataPath_eq hdir f.short).2]
    · intro hnone g hg hsome
      have hlen := (h.named g hsome).2
      refine ⟨fun hm => ?_, fun hm => hg ((undoPath_mem hdir f.short hlen).1 (hsub hm))⟩
      rcases (dataPath_mem hdir f.short hlen).1 (hsub hm) with hgf | rfl
      · exact hg hgf
      · simp [hnone] at hsome
  have hfiles {op : Op} (hop : ∀ env file tag, op ≠ .checkpoint env file tag) :
      Apart dir srv op ↔ ∀ g, g ≠ op.file.text → (srv.state.entry g).isSome →
        dataPath dir g ∉ op.paths dir ∧ undoPath dir g ∉ op.paths dir :=
    ⟨fun h => h.files, fun h => ⟨h, fun env file tag heq => absurd heq (hop env file tag)⟩⟩
  cases op with
  | create file owner o =>
    refine iff_of_true ((hfiles (by simp)).2 fun g hg hsome => ?_) trivial
    have := filePath_mem hdir file.short (h.named g hsome).2
    have hsub : (Op.create file owner o).paths dir ⊆
        [dataPath dir file.text, metaPath dir file.text, undoPath dir file.text] := by
      simp [Op.paths]
    exact ⟨fun hm => hg (this.1.1 (hsub hm)), fun hm => hg (this.2.1 (hsub hm))⟩
  | delete file =>
    refine iff_of_true ((hfiles (by simp)).2 fun g hg hsome => ?_) trivial
    have := filePath_mem hdir file.short (h.named g hsome).2
    exact ⟨fun hm => hg (this.1.1 hm), fun hm => hg (this.2.1 hm)⟩
  | commit env file user session => exact (hfiles (by simp)).trans (hreplaced file (fun _ => id) (mem_replacedPaths _ _).2.1)
  | undo env file user =>
    exact (hfiles (by simp)).trans (hreplaced file (by simp [Op.paths, replacedPaths])
      (by simp [Op.paths]))
  | revert env file tag user => exact (hfiles (by simp)).trans (hreplaced file (fun _ => id) (mem_replacedPaths _ _).2.1)
  | sync env file owner content => exact (hfiles (by simp)).trans (hreplaced file (fun _ => id) (mem_replacedPaths _ _).2.1)
  | checkpoint env file tag =>
    have hslash (f : FileName) : '/' ∉ f.text := fun hm => (validName.chars f.valid _ hm).1 rfl
    have hmem (g u : FileName) := checkpointPath_mem hdir file.short g.short tag.short u.short
      (hslash file) (hslash g)
    constructor
    · intro hapart u hu
      by_contra hsome
      have hne : (file.text, u.text) ≠ (file.text, tag.text) := by simp [hu, Text.lit]
      refine hapart.checkpoints env file tag rfl file u hne (Option.isSome_iff_ne_none.2 hsome) ?_
      exact (hmem file u).2 ⟨rfl, .inr hu⟩
    · refine fun hnone => ⟨fun g _ hsome => ?_, ?_⟩
      · exact filePath_not_mem_checkpoint hdir file.short (h.named g hsome).2 tag.short
      · rintro env' file' tag' heq g u hne hsome hm
        cases heq
        obtain ⟨hg, hu⟩ := (hmem g u).1 hm
        rcases hu with hu | hu
        · exact hne (by rw [hg, hu])
        · rw [hg, hnone u hu] at hsome
          cases hsome

/-! ## The result -/

/-- Servers on the directory, with any files stored, and their operations in any order. -/
def placedSystem (dir : Text) : System Server Op where
  init srv := Placed dir srv.state
  step srv op srv' := srv' = op.run srv

/-- The operation leaves the data, the undo copy and the entry of every other file as they are and,
where it creates a checkpoint, every other stored checkpoint. -/
structure Framed (dir : Text) (srv : Server) (op : Op) : Prop where
  files : ∀ g, g ≠ op.file.text → (srv.state.entry g).isSome →
    (op.run srv).fs (dataPath dir g) = srv.fs (dataPath dir g) ∧
    (op.run srv).fs (undoPath dir g) = srv.fs (undoPath dir g) ∧
    (op.run srv).state.entry g = srv.state.entry g
  checkpoints : ∀ env file tag, op = .checkpoint env file tag → ∀ g u : FileName,
    (g.text, u.text) ≠ (file.text, tag.text) →
    (srv.fs (checkpointPath dir g.text u.text)).isSome →
    (op.run srv).fs (checkpointPath dir g.text u.text) = srv.fs (checkpointPath dir g.text u.text)

theorem Apart.framed {dir : Text} {srv : Server} (h : Placed dir srv.state) {op : Op}
    (hapart : Apart dir srv op) : Framed dir srv op := by
  obtain ⟨-, hentries, hwrites⟩ := Op.changes h op
  refine ⟨fun g hg hsome => ?_, fun env file tag hop g u hne hsome => ?_⟩
  · obtain ⟨hdata, hundo⟩ := hapart.files g hg hsome
    exact ⟨hwrites _ hdata, hwrites _ hundo, hentries g hg⟩
  · exact hwrites _ (hapart.checkpoints env file tag hop g u hne hsome)

/-- **In a run of operations whose paths are apart, each leaves the other files and checkpoints
alone.** Where no path is cut off, being apart is a matter of names. -/
theorem run_framed {dir : Text} {tr : List (Server × Op)} {srv : Server}
    (h : (placedSystem dir).Run tr srv) :
    (System.Meets (Apart dir) tr → System.Meets (Framed dir) tr) ∧
      (dir.length ≤ 239 → (System.Meets (Apart dir) tr ↔ System.Meets (NoTemporary dir) tr)) := by
  have hinit : ∀ srv, (placedSystem dir).init srv → Placed dir srv.state := fun _ h => h
  have hstep : ∀ srv op srv', Placed dir srv.state → (placedSystem dir).step srv op srv' → Placed dir srv'.state :=
    fun srv op _ h hs => hs ▸ (Op.changes h op).placed
  refine ⟨?_, ?_⟩
  · intro hG p hp
    exact (hG p hp).framed ((h.throughout hinit hstep).2 p hp)
  · intro hdir
    exact h.meets_iff hinit hstep fun _ op hplaced => apart_iff hdir hplaced op

/-- Two files and a text for the second: the first keeps its own. -/
theorem run_framed_two : ∃ tr srv, (placedSystem (Text.lit "/s")).Run tr srv ∧
    tr.length = 3 ∧ System.Meets (Framed (Text.lit "/s")) tr := by
  let f : FileName := ⟨Text.lit "f", by decide, by decide⟩
  let g : FileName := ⟨Text.lit "g.tmp", by decide, by decide⟩
  have hstart : (placedSystem (Text.lit "/s")).Run []
      ⟨ssStateInit (Text.lit "/s"), fun _ => none, []⟩ := .start (Placed.init _)
  have hrun := ((hstart.step (e := .create f ['u'] ⟨0, true, true, true⟩) rfl).step
    (e := .create g ['u'] ⟨0, true, true, true⟩) rfl).step (e := .sync (.allOk 0) g ['u'] ['x']) rfl
  refine ⟨_, _, hrun, rfl, (run_framed hrun).1 (((run_framed hrun).2 (by decide)).2 ?_)⟩
  simp only [System.meets_cons]
  refine ⟨?_, trivial, trivial, by simp [System.Meets]⟩
  unfold NoTemporary
  decide +kernel

/-- A text for `f` destroys the document `f.tmp`, and the checkpoint `t` of `f` the checkpoint
`t.tmp`. -/
theorem temporary_destroys :
    let f : FileName := ⟨Text.lit "f", by decide, by decide⟩
    let g : FileName := ⟨Text.lit "f.tmp", by decide, by decide⟩
    let start : Server := ⟨ssStateInit (Text.lit "/s"), fun _ => none, []⟩
    let create (f : FileName) : Op := .create f ['u'] ⟨0, true, true, true⟩
    (∃ tr srv, (placedSystem (Text.lit "/s")).Run tr srv ∧
      srv = [create f, create g, .sync (.allOk 0) g ['u'] ['d'],
        .sync (.allOk 0) f ['u'] ['x']].foldl Op.run start ∧
      srv.fs (dataPath (Text.lit "/s") g.text) = none ∧
      ¬ System.Meets (Framed (Text.lit "/s")) tr) ∧
    ∃ tr srv, (placedSystem (Text.lit "/s")).Run tr srv ∧
      srv = [create f, .checkpoint (.allOk 0) f g, .checkpoint (.allOk 0) f f].foldl Op.run start ∧
      srv.fs (checkpointPath (Text.lit "/s") f.text g.text) = none ∧
      ¬ System.Meets (Framed (Text.lit "/s")) tr := by
  intro f g start create
  have hstart : (placedSystem (Text.lit "/s")).Run [] start := .start (Placed.init _)
  constructor
  · have hrun := (((hstart.step (e := create f) rfl).step (e := create g) rfl).step
      (e := .sync (.allOk 0) g ['u'] ['d']) rfl).step (e := .sync (.allOk 0) f ['u'] ['x']) rfl
    refine ⟨_, _, hrun, rfl, by decide +kernel, fun h => ?_⟩
    have hfile := ((h _ List.mem_cons_self).files g.text (by decide) (by decide +kernel)).1
    revert hfile
    decide +kernel
  · have hrun := ((hstart.step (e := create f) rfl).step (e := .checkpoint (.allOk 0) f g) rfl).step
      (e := .checkpoint (.allOk 0) f f) rfl
    refine ⟨_, _, hrun, rfl, by decide +kernel, fun h => ?_⟩
    have hcheckpoint := (h _ List.mem_cons_self).checkpoints _ _ _ rfl f g (by decide)
      (by decide +kernel)
    revert hcheckpoint
    decide +kernel

end CoWrite.Ss
