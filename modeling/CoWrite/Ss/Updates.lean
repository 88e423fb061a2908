import CoWrite.Ss.Shift

/-!
# What the name manager is told

A commit, an undo and a revert replace the text of a file or fail, and a reader leaves its access time. Whenever
the entry changes, a notice of it goes to the name manager: `replaces_commitWrite`, `replaces_performUndo`,
`replaces_ssRevertCheckpoint` and `touches_touchFile` say what the entry, the text and the notice are, whatever the
calls on the way answer. A sync reports nothing (`entry_syncFile`).
-/

namespace CoWrite.Ss

open CoWrite.Lib

/-- The entry that a new text leaves: its counts, its time and its user, and the name and the owner of before. -/
structure Restamped (text user : Text) (now : Int) (file view : SsFile) : Prop where
  name : view.name = file.name
  owner : view.owner = file.owner
  words : view.wordCount = countWords text
  chars : view.charCount = text.length
  modified : view.modified = now
  lastAccess : view.lastAccess = now
  lastAccessUser : view.lastAccessUser = Text.copyTo SS_USER_MAX user

theorem restamped_restamp (text user : Text) (now : Int) (file : SsFile) :
    Restamped text user now file (restamp text user now file) := by
  constructor <;> rfl

theorem restamped_commitFields (text user : Text) (now : Int) (file : SsFile) :
    Restamped text user now file (commitFields text user now file) := by
  constructor <;> rfl

/-- What an operation that replaces the text of a file comes to: nothing, or another text with its entry, of which
the name manager is told. -/
inductive Replaces (dir name user : Text) (now : Int) (srv srv' : Server) (frames : List Text) : Prop where
  | nothing (entry : srv'.state.entry name = srv.state.entry name)
      (data : srv'.fs (dataPath dir name) = srv.fs (dataPath dir name)) (silent : frames = [])
  | text (text : Text) (file view : SsFile) (before : srv.state.entry name = some file)
      (restamped : Restamped text user now file view) (entry : srv'.state.entry name = some view)
      (data : srv'.fs (dataPath dir name) = some text) (told : frames = notifyNmFileUpdate view)

/-- What a reader leaves: its access time in the entry. -/
inductive Touches (name user : Text) (now : Int) (srv srv' : Server) (frames : List Text) : Prop where
  | nothing (same : srv' = srv) (silent : frames = [])
  | touched (file view : SsFile) (before : srv.state.entry name = some file)
      (touch : view = { file with lastAccess := now, lastAccessUser := Text.copyTo SS_USER_MAX user })
      (entry : srv'.state.entry name = some view) (told : frames = notifyNmFileUpdate view)

section Operations

variable {dir : Text} {f : FileName} {srv : Server} (h : Placed dir srv.state)

include h

/-- The meta file is not where the text is. -/
theorem data_updateFile {g : SsFile → SsFile} (hg : KeepsPaths g) {file : SsFile} {state : SsState}
    (hup : updateFile srv.state f.text g = some (file, state)) (fs : Fs) (ok : Bool) :
    ssStateSaveMeta fs file ok (dataPath dir f.text) = fs (dataPath dir f.text) := by
  have hmeta := (h.update hg hup).2.1.metaEq
  have hwrites : Writes [file.metaPath] fs (ssStateSaveMeta fs file ok) := writes_saveMeta file ok List.mem_cons_self
  refine hwrites _ ?_
  rw [hmeta, List.mem_singleton]
  exact (fivePaths dir f).meta_data.symm

/-- The entry that was changed. -/
theorem entry_updateFile {g : SsFile → SsFile} (hg : KeepsPaths g) {file : SsFile} {state : SsState}
    (hup : updateFile srv.state f.text g = some (file, state)) :
    ∃ old, srv.state.entry f.text = some old ∧ file = g old ∧ state.entry f.text = some file := by
  obtain ⟨old, hold, rfl, -, hentries⟩ := updateFile_some h.sorted (fun file => (hg file).1) hup
  exact ⟨old, hold, rfl, (hentries f.text).trans (if_pos rfl)⟩

/-- A text that was stored gets its entry. -/
theorem replaces_restampFile {file : SsFile} (hentry : srv.state.entry f.text = some file) {fs : Fs} {text : Text}
    (hdata : fs (dataPath dir f.text) = some text) (env : Env) (user : Text) :
    Replaces dir f.text user env.now srv (restampFile env { srv with fs := fs } f.text user text).1
      (restampFile env { srv with fs := fs } f.text user text).2.1 := by
  have hkeep : KeepsPaths (restamp text user env.now) := fun _ => ⟨rfl, rfl, rfl, rfl⟩
  unfold restampFile
  dsimp only
  obtain ⟨state, hup, hsome⟩ := updateFile_of_entry h.sorted (fun file => (hkeep file).1) hentry
  have hmeta := data_updateFile h hkeep hup fs env.metaOpened
  rw [hup]
  exact .text text file _ hentry (restamped_restamp text user env.now file) hsome (hmeta.trans hdata) rfl

theorem replaces_performUndo (env : Env) (user : Text) :
    Replaces dir f.text user env.now srv (performUndo env srv f.text user).1 (performUndo env srv f.text user).2.1 := by
  have hapart := fivePaths dir f
  unfold performUndo
  split
  · exact .nothing rfl rfl rfl
  · next view hview =>
    rw [ssStateFind_eq h.sorted] at hview
    have hpaths := h.hasPaths f.text view hview
    rw [hpaths.dataEq, hpaths.undoEq]
    split
    · exact .nothing rfl rfl rfl
    split
    · exact .nothing rfl rfl rfl
    · next text _ =>
      split
      · exact .nothing rfl rfl rfl
      split
      · next hstore => exact .nothing rfl (storeTextAtomic_failed hstore hapart.data_tmp) rfl
      · next fs hstore =>
        dsimp only
        refine replaces_restampFile h hview ?_ env user
        have hstored : fs (dataPath dir f.text) = some text := stored_of_store hstore
        split
        · exact (Function.update_of_ne hapart.undo_data.symm _ _).trans hstored
        · exact hstored

theorem replaces_ssRevertCheckpoint (env : Env) (tag user : Text) :
    Replaces dir f.text user env.now srv (ssRevertCheckpoint env srv f.text tag user).1
      (ssRevertCheckpoint env srv f.text tag user).2.1 := by
  have hapart := fivePaths dir f
  unfold ssRevertCheckpoint
  split
  · exact .nothing rfl rfl rfl
  split
  · exact .nothing rfl rfl rfl
  · next view hview =>
    rw [ssStateFind_eq h.sorted] at hview
    have hpaths := h.hasPaths f.text view hview
    rw [hpaths.dataEq, hpaths.undoEq]
    split
    · exact .nothing rfl rfl rfl
    split
    · exact .nothing rfl rfl rfl
    split
    · next hundo => exact .nothing rfl (data_storeUndo hundo) rfl
    · next hundo =>
      split
      · next hstore =>
        refine .nothing rfl ?_ rfl
        exact (storeTextAtomic_failed hstore hapart.data_tmp).trans (data_storeUndo hundo)
      · next hstore => exact replaces_restampFile h hview (stored_of_store hstore) env user

/-- A commit on a file that has an entry. -/
theorem replaces_commitWrite {file : SsFile} (hentry : srv.state.entry f.text = some file) (env : DataEnv)
    {write : OpenWrite} (hfile : write.file = f.text) (hview : HasPaths dir f.text write.view) :
    Replaces dir f.text write.user env.now srv (commitWrite env srv write).1 (commitWrite env srv write).2.nm := by
  unfold commitWrite
  rcases writeSessionCommit_cases hview env srv.fs write.session with
    ⟨fs, e, hresult, hdata⟩ | ⟨fs, current, merged, -, -, hresult, hdata⟩
  · rw [hresult]
    dsimp only
    split
    · exact .nothing rfl hdata rfl
    · exact .nothing rfl hdata rfl
  · have hkeep : KeepsPaths (commitFields (joinSentences merged) write.user env.now) := fun _ => ⟨rfl, rfl, rfl, rfl⟩
    rw [hresult]
    dsimp only
    rw [hfile]
    obtain ⟨state, hup, hsome⟩ := updateFile_of_entry h.sorted (fun file => (hkeep file).1) hentry
    have hmeta := data_updateFile h hkeep hup fs env.metaOpened
    rw [hup]
    exact .text _ file _ hentry (restamped_commitFields _ write.user env.now file) hsome (hmeta.trans hdata) rfl

theorem touches_touchFile (env : DataEnv) (user : Text) :
    Touches f.text user env.now srv (touchFile env srv f.text user).1 (touchFile env srv f.text user).2.1 := by
  have hkeep : KeepsPaths fun file : SsFile =>
      { file with lastAccess := env.now, lastAccessUser := Text.copyTo SS_USER_MAX user } := fun _ => ⟨rfl, rfl, rfl, rfl⟩
  unfold touchFile
  dsimp only
  split
  · exact .nothing rfl rfl
  · next hup =>
    obtain ⟨old, hold, rfl, hsome⟩ := entry_updateFile h hkeep hup
    exact .touched old _ hold rfl hsome rfl

/-- The entry after a sync is the one of before, or a new one, or one of these with the counts of the text. -/
theorem entry_syncFile (env : Env) (owner content : Text) {view : SsFile}
    (hview : (syncFile env srv f.text owner content).1.state.entry f.text = some view) :
    ∃ file, (srv.state.entry f.text = some file ∨ file = newFile srv.state f.text owner env.add.now) ∧
      (view = file ∨ view = recount content file) := by
  have hadd := (ssStateAdd_state h.sorted srv.fs f.short owner env.add).2
  -- the entry that the sync finds or makes
  have htarget {view : SsFile} (hview : (syncTarget env srv f.text owner).1.state.entry f.text = some view) :
      srv.state.entry f.text = some view ∨ view = newFile srv.state f.text owner env.add.now := by
    have hnew : (ssStateAdd srv.state srv.fs f.text owner env.add).2.1.entry f.text = some view →
        srv.state.entry f.text = some view ∨ view = newFile srv.state f.text owner env.add.now := by
      intro hsome
      rw [hadd] at hsome
      split at hsome
      · exact .inr (Option.some.inj hsome).symm
      · exact .inl hsome
    unfold syncTarget at hview
    split at hview
    · exact .inl hview
    split at hview
    · next heq =>
      rw [heq] at hnew
      exact hnew hview
    · next heq =>
      rw [heq] at hnew
      exact hnew hview
  have hplaced := (Changes.syncTarget h env f owner).1.placed
  have hsame {view : SsFile} (hview : (syncTarget env srv f.text owner).1.state.entry f.text = some view) :
      ∃ file, (srv.state.entry f.text = some file ∨ file = newFile srv.state f.text owner env.add.now) ∧
        (view = file ∨ view = recount content file) := ⟨view, htarget hview, .inl rfl⟩
  unfold syncFile at hview
  dsimp only at hview
  generalize syncTarget env srv f.text owner = result at hview htarget hplaced hsame
  obtain ⟨srv', target⟩ := result
  dsimp only at htarget hplaced hsame
  split at hview
  · next heq =>
    cases heq
    exact hsame hview
  · next heq =>
    cases heq
    split at hview
    · exact hsame hview
    split at hview
    · exact hsame hview
    split at hview
    · exact hsame hview
    split at hview
    · exact hsame hview
    · next hup =>
      have hkeep : KeepsPaths (recount content) := fun _ => ⟨rfl, rfl, rfl, rfl⟩
      obtain ⟨old, hold, rfl, hsome⟩ := @entry_updateFile _ _ srv' hplaced _ hkeep _ _ hup
      exact ⟨old, htarget hold, .inr (Option.some.inj (hview.symm.trans hsome))⟩

end Operations

end CoWrite.Ss
