import CoWrite.Ss.Paths

/-!
# The copy of a file on a server

What the operations do to the files and the entry of one name, when every call they make succeeds. A `Copy`
is these four things; each operation is a function on it, and the lemmas of this file say that the code
computes that function: `copy_performUndo`, `copy_ssRevertCheckpoint`, `copy_syncFile`, `copy_commitWrite`,
`copy_create`, `copy_delete`, `copy_touchFile`.
-/

namespace CoWrite.Ss

open CoWrite.Lib

/-- Every call of an operation succeeds. -/
structure Env.Smooth (env : Env) : Prop where
  inserted : env.add.inserted = true
  dataOpened : env.add.dataOpened = true
  metaAdded : env.add.metaOpened = true
  undoLoad : env.undoLoad = true
  dataLoad : env.dataLoad = true
  dup : env.dup = true
  undoStore : env.undoStore = .done
  dataStore : env.dataStore = .done
  undoUnlinked : env.undoUnlinked = true
  metaOpened : env.metaOpened = true
  checkpointDir : env.checkpointDir = true
  checkpointStore : env.checkpointStore = .done

theorem Env.smooth_allOk (now : Int) : (Env.allOk now).Smooth := by
  constructor <;> rfl

/-! ## The paths of one name -/

theorem slash_not_mem (f : FileName) : '/' ∉ f.text := fun hm => (validName.chars f.valid _ hm).1 rfl

/-- A path ends with what stands behind its last slash. -/
theorem append_slash_right_inj {D D' a b : Text} (ha : '/' ∉ a) (hb : '/' ∉ b)
    (h : D ++ '/' :: a = D' ++ '/' :: b) : a = b := by
  have hrev : a.reverse ++ '/' :: D.reverse = b.reverse ++ '/' :: D'.reverse := by
    simpa using congrArg List.reverse h
  have hab := ((append_slash_inj (by simpa using ha) (by simpa using hb)).1 hrev).1
  exact List.reverse_injective hab

theorem length_dirs (dir : Text) : (ssStateInit dir).filesDir.length ≤ 255 ∧ (ssStateInit dir).metaDir.length ≤ 255 ∧
    (ssStateInit dir).undoDir.length ≤ 255 :=
  ⟨List.length_take_le _ _, List.length_take_le _ _, List.length_take_le _ _⟩

section Names

variable (dir : Text) (f : FileName)

/-- Where the files of the name are, and the temporaries; no path is cut off. -/
theorem paths_eq :
    dataPath dir f.text = (ssStateInit dir).filesDir ++ '/' :: f.text ∧
    metaPath dir f.text = (ssStateInit dir).metaDir ++ '/' :: (f.text ++ Text.lit ".meta") ∧
    undoPath dir f.text = (ssStateInit dir).undoDir ++ '/' :: (f.text ++ Text.lit ".undo") ∧
    tmpPath (dataPath dir f.text) = (ssStateInit dir).filesDir ++ '/' :: (f.text ++ Text.lit ".tmp") ∧
    tmpPath (undoPath dir f.text) = (ssStateInit dir).undoDir ++ '/' :: (f.text ++ Text.lit ".undo.tmp") := by
  obtain ⟨hfiles, hmeta, hundo⟩ := length_dirs dir
  have hf := f.short
  have hdata : dataPath dir f.text = (ssStateInit dir).filesDir ++ '/' :: f.text := by
    apply Text.copyTo_eq_self
    simp only [List.length_append, List.length_cons]
    omega
  have hundoEq : undoPath dir f.text = (ssStateInit dir).undoDir ++ '/' :: (f.text ++ Text.lit ".undo") := by
    rw [undoPath, Text.copyTo_eq_self]
    · simp
    · simp [Text.lit]
      omega
  refine ⟨hdata, ?_, hundoEq, ?_, ?_⟩
  · rw [metaPath, Text.copyTo_eq_self]
    · simp
    · simp [Text.lit]
      omega
  · rw [tmpPath, hdata, Text.copyTo_eq_self]
    · simp
    · simp [Text.lit]
      omega
  · rw [tmpPath, hundoEq, Text.copyTo_eq_self]
    · simp [Text.lit]
    · simp [Text.lit]
      omega

/-- The three files of a name and the temporaries are five files. -/
structure FivePaths : Prop where
  undo_data : undoPath dir f.text ≠ dataPath dir f.text
  meta_data : metaPath dir f.text ≠ dataPath dir f.text
  undo_meta : undoPath dir f.text ≠ metaPath dir f.text
  data_tmp : dataPath dir f.text ≠ tmpPath (dataPath dir f.text)
  undo_tmpData : undoPath dir f.text ≠ tmpPath (dataPath dir f.text)
  meta_tmpData : metaPath dir f.text ≠ tmpPath (dataPath dir f.text)
  undo_tmp : undoPath dir f.text ≠ tmpPath (undoPath dir f.text)
  data_tmpUndo : dataPath dir f.text ≠ tmpPath (undoPath dir f.text)
  meta_tmpUndo : metaPath dir f.text ≠ tmpPath (undoPath dir f.text)

theorem fivePaths : FivePaths dir f := by
  obtain ⟨hd, hm, hu, hdt, hut⟩ := paths_eq dir f
  -- the paths differ behind the last slash, whatever the directories are
  have hne {D D' e e' : Text} (he : '/' ∉ e) (he' : '/' ∉ e') (h : e ≠ e') :
      D ++ '/' :: (f.text ++ e) ≠ D' ++ '/' :: (f.text ++ e') := by
    intro heq
    have hslash {e : Text} (he : '/' ∉ e) : '/' ∉ f.text ++ e := by simp [slash_not_mem f, he]
    exact h (List.append_cancel_left (append_slash_right_inj (hslash he) (hslash he') heq))
  replace hd : dataPath dir f.text = (ssStateInit dir).filesDir ++ '/' :: (f.text ++ []) := by
    rw [List.append_nil]
    exact hd
  constructor
  · rw [hu, hd]
    exact hne (by decide) (by decide) (by decide)
  · rw [hm, hd]
    exact hne (by decide) (by decide) (by decide)
  · rw [hu, hm]
    exact hne (by decide) (by decide) (by decide)
  · rw [hdt, hd]
    exact hne (by decide) (by decide) (by decide)
  · rw [hu, hdt]
    exact hne (by decide) (by decide) (by decide)
  · rw [hm, hdt]
    exact hne (by decide) (by decide) (by decide)
  · rw [hut, hu]
    exact hne (by decide) (by decide) (by decide)
  · rw [hut, hd]
    exact hne (by decide) (by decide) (by decide)
  · rw [hut, hm]
    exact hne (by decide) (by decide) (by decide)

end Names

/-- The paths of the checkpoints are in a directory of their own, and so are the temporaries. -/
theorem checkpointPaths_eq (dir : Text) (f tag : FileName) : ∀ p ∈ [checkpointPath dir f.text tag.text,
    tmpPath (checkpointPath dir f.text tag.text)], ∃ x, '/' ∉ x ∧
      p = ((ssStateInit dir).checkpointsDir ++ '/' :: f.text) ++ '/' :: x := by
  have hdir : (ssStateInit dir).checkpointsDir.length ≤ 255 := List.length_take_le _ _
  have hf := f.short
  have hpath : checkpointPath dir f.text tag.text =
      ((ssStateInit dir).checkpointsDir ++ '/' :: f.text) ++ '/' :: tag.text := rfl
  intro p hp
  simp only [List.mem_cons, List.not_mem_nil, or_false] at hp
  rcases hp with rfl | rfl
  · exact ⟨tag.text, slash_not_mem tag, hpath⟩
  · -- what is cut off belongs to the name of the temporary
    refine ⟨(tag.text ++ Text.lit ".tmp").take (510 - ((ssStateInit dir).checkpointsDir ++ '/' :: f.text).length), ?_, ?_⟩
    · intro hslash
      have := List.mem_of_mem_take hslash
      rw [List.mem_append] at this
      rcases this with hmem | hmem
      · exact slash_not_mem tag hmem
      · exact absurd hmem (by decide)
    · rw [tmpPath, hpath, Text.copyTo, List.append_assoc, List.take_append, List.cons_append]
      have hlen : ((ssStateInit dir).checkpointsDir ++ '/' :: f.text).length ≤ 383 := by
        simp only [List.length_append, List.length_cons]
        omega
      rw [List.take_of_length_le (by omega)]
      obtain ⟨k, hk⟩ := Nat.exists_eq_add_of_le (show ((ssStateInit dir).checkpointsDir ++ '/' :: f.text).length + 1 ≤ 511 by omega)
      have h1 : 512 - 1 - ((ssStateInit dir).checkpointsDir ++ '/' :: f.text).length = k + 1 := by omega
      have h2 : 510 - ((ssStateInit dir).checkpointsDir ++ '/' :: f.text).length = k := by omega
      rw [h1, h2, List.take_succ_cons]

/-- No checkpoint is where files, undo copies or meta files are. -/
theorem checkpointPaths_ne {dir : Text} {f tag : FileName} {p : Text}
    (hp : p ∈ [checkpointPath dir f.text tag.text, tmpPath (checkpointPath dir f.text tag.text)]) {x : Text}
    (hx : '/' ∉ x) : p ≠ (ssStateInit dir).filesDir ++ '/' :: x ∧ p ≠ (ssStateInit dir).metaDir ++ '/' :: x ∧
      p ≠ (ssStateInit dir).undoDir ++ '/' :: x := by
  obtain ⟨y, hy, rfl⟩ := checkpointPaths_eq dir f tag p hp
  -- the directory of the checkpoints of a file is longer than the other directories
  have hne {D : Text} (hD : D.length ≤ (ssStateInit dir).checkpointsDir.length) :
      ((ssStateInit dir).checkpointsDir ++ '/' :: f.text) ++ '/' :: y ≠ D ++ '/' :: x := by
    intro heq
    obtain rfl := append_slash_right_inj hy hx heq
    have hlen := congrArg List.length (List.append_cancel_right heq)
    simp only [List.length_append, List.length_cons] at hlen
    omega
  have hlength (e : Text) : (Text.copyTo 256 (dir ++ e)).length = min 255 (dir.length + e.length) := by
    rw [Text.copyTo, List.length_take, List.length_append]
  refine ⟨hne ?_, hne ?_, hne ?_⟩
  all_goals
    simp only [ssStateInit, hlength]
    simp [Text.lit]

/-- A text that is stored stands at its path, and every path but that and the temporary is as it was. -/
theorem storeTextAtomic_done (fs : Fs) (path content : Text) :
    ∃ fs', storeTextAtomic fs path content .done = (true, fs') ∧ fs' path = some content ∧
      ∀ p, p ≠ path → p ≠ tmpPath path → fs' p = fs p := by
  refine ⟨_, rfl, ?_, ?_⟩
  · unfold Fs.rename Fs.write
    by_cases h : tmpPath path = path
    · rw [if_pos h, h, Function.update_self]
    · rw [if_neg h, Function.update_of_ne (Ne.symm h), Function.update_self, Function.update_self]
  · intro p hp htmp
    unfold Fs.rename Fs.write
    split
    · exact Function.update_of_ne htmp _ _
    · rw [Function.update_of_ne htmp, Function.update_of_ne hp, Function.update_of_ne htmp]

/-! ## Copies -/

/-- The files of a name, without the temporaries, and its entry. -/
structure Copy where
  data : Option Text
  undo : Option Text
  saved : Option Text
  entry : Option SsFile

def Server.copy (srv : Server) (dir name : Text) : Copy where
  data := srv.fs (dataPath dir name)
  undo := srv.fs (undoPath dir name)
  saved := srv.fs (metaPath dir name)
  entry := srv.state.entry name

namespace Copy

/-- A file that is not there is read as an empty text. -/
def text (c : Copy) : Text := c.data.getD []

/-- An assignment to the entry, and its meta file. -/
def update (c : Copy) (f : SsFile → SsFile) : Copy :=
  match c.entry with
  | none => c
  | some file => { c with entry := some (f file), saved := some (metaText (f file)) }

/-- Another text, and another undo copy. -/
def store (c : Copy) (text : Text) (undo : Option Text) : Copy := { c with data := some text, undo := undo }

/-- The text is replaced, and what was there is kept. -/
def replace (c : Copy) (text : Text) : Copy := c.store text (some c.text)

/-- What `ss_state_add` leaves under a new name. -/
def create (dir : Text) (c : Copy) (name owner : Text) (now : Int) : Copy :=
  let file := newFile (ssStateInit dir) name owner now
  { c with data := some [], saved := some (metaText file), entry := some file }

end Copy

/-- What `handle_nm_sync` assigns to the entry. -/
def recount (content : Text) (file : SsFile) : SsFile :=
  { file with charCount := content.length, wordCount := countWords content }

/-- The directories of the server, and the entry of the name with the paths of it. -/
structure Seated (dir name : Text) (state : SsState) : Prop where
  dirs : { state with files := [] } = ssStateInit dir
  sorted : state.Sorted
  hasPaths : ∀ file, state.entry name = some file → HasPaths dir name file

theorem Placed.seated {dir : Text} {state : SsState} (h : Placed dir state) (name : Text) : Seated dir name state :=
  ⟨h.dirs, h.sorted, h.hasPaths name⟩

/-- The name has this copy now. -/
structure Holds (dir name : Text) (srv : Server) (c : Copy) : Prop where
  seated : Seated dir name srv.state
  copy : srv.copy dir name = c

section Holds

variable {dir : Text} {f : FileName} {srv : Server} (h : Seated dir f.text srv.state)

include h

theorem Seated.holds : Holds dir f.text srv (srv.copy dir f.text) := ⟨h, rfl⟩

theorem Seated.find : (ssStateFind srv.state f.text).1 = (srv.copy dir f.text).entry := ssStateFind_eq h.sorted _

theorem Seated.newFile (owner : Text) (now : Int) :
    Ss.newFile srv.state f.text owner now = Ss.newFile (ssStateInit dir) f.text owner now := by
  rw [← h.dirs]
  rfl

theorem Seated.hasPaths_newFile (owner : Text) (now : Int) :
    HasPaths dir f.text (Ss.newFile srv.state f.text owner now) := by
  rw [h.newFile]
  exact ⟨rfl, rfl, rfl⟩

omit h in
/-- The text at hand when an operation reads it. -/
theorem HasPaths.currentText {env : Env} (henv : env.Smooth) {view : SsFile} (hview : HasPaths dir f.text view)
    (srv : Server) :
    Ss.currentText env srv.fs view.dataPath = some (srv.copy dir f.text).text := by
  rw [Ss.currentText, loadText, henv.dataLoad, if_pos rfl, hview.dataEq, henv.dup, if_pos rfl, Copy.text,
    Server.copy]
  cases srv.fs (dataPath dir f.text) <;> rfl

/-- An update of the entry in the table. -/
theorem Seated.update {g : SsFile → SsFile} (hg : KeepsPaths g) {file : SsFile} {state : SsState}
    (hup : updateFile srv.state f.text g = some (file, state)) :
    Seated dir f.text state ∧ ∃ old, srv.state.entry f.text = some old ∧ file = g old ∧
      state.entry f.text = some (g old) ∧ HasPaths dir f.text old := by
  obtain ⟨old, hold, rfl, hsorted, hentry⟩ := updateFile_some h.sorted (fun file => (hg file).1) hup
  have hpaths := h.hasPaths old hold
  have hdirs : { state with files := [] } = { srv.state with files := [] } := by
    unfold updateFile at hup
    split at hup
    · simp only [Option.some.injEq, Prod.mk.injEq] at hup
      rw [← hup.2]
      rfl
    · cases hup
  refine ⟨⟨hdirs.trans h.dirs, hsorted, ?_⟩, old, hold, rfl, by rw [hentry, if_pos rfl], hpaths⟩
  intro file hfile
  rw [hentry, if_pos rfl] at hfile
  cases hfile
  obtain ⟨-, hd, hm, hu⟩ := hg old
  exact ⟨hd.trans hpaths.dataEq, hm.trans hpaths.metaEq, hu.trans hpaths.undoEq⟩

/-- The entry changed and saved, or no entry. -/
theorem holds_update {g : SsFile → SsFile} (hg : KeepsPaths g) (tickets : List AuthTicket) :
    Holds dir f.text
      (match updateFile srv.state f.text g with
      | none => { srv with tickets := tickets }
      | some (file, state) =>
        { srv with state := state, fs := ssStateSaveMeta srv.fs file true, tickets := tickets })
      ((srv.copy dir f.text).update g) := by
  have hapart := fivePaths dir f
  cases hup : updateFile srv.state f.text g with
  | none =>
    rw [updateFile_eq_none h.sorted] at hup
    refine ⟨h, ?_⟩
    show srv.copy dir f.text = _
    simp only [Copy.update, Server.copy, hup]
  | some p =>
    obtain ⟨file, state⟩ := p
    obtain ⟨hseated, old, hold, rfl, hentry, hpaths⟩ := h.update hg hup
    refine ⟨hseated, ?_⟩
    have hmeta : (g old).metaPath = metaPath dir f.text := (hg old).2.2.1.trans hpaths.metaEq
    simp only [Server.copy, Copy.update, hold, hentry, ssStateSaveMeta, if_true, Fs.write, hmeta,
      Function.update_of_ne hapart.meta_data.symm, Function.update_of_ne hapart.undo_meta, Function.update_self]

/-- The text is stored; the undo copy is left alone. -/
theorem holds_storeData (content : Text) : ∃ fs, storeTextAtomic srv.fs (dataPath dir f.text) content .done = (true, fs) ∧
    Holds dir f.text { srv with fs := fs } ((srv.copy dir f.text).store content (srv.copy dir f.text).undo) := by
  have hapart := fivePaths dir f
  obtain ⟨fs, hfs, hdata, hother⟩ := storeTextAtomic_done srv.fs (dataPath dir f.text) content
  refine ⟨fs, hfs, h, ?_⟩
  simp only [Server.copy, Copy.store, hdata, hother _ hapart.undo_data hapart.undo_tmpData,
    hother _ hapart.meta_data hapart.meta_tmpData]

/-- The undo copy is stored and then the text. -/
theorem holds_storeBoth (content undo : Text) : ∃ fs fs',
    storeTextAtomic srv.fs (undoPath dir f.text) undo .done = (true, fs) ∧
    storeTextAtomic fs (dataPath dir f.text) content .done = (true, fs') ∧
    Holds dir f.text { srv with fs := fs' } ((srv.copy dir f.text).store content (some undo)) := by
  have hapart := fivePaths dir f
  obtain ⟨fs, hfs, hundo, hother⟩ := storeTextAtomic_done srv.fs (undoPath dir f.text) undo
  obtain ⟨fs', hfs', hdata, hother'⟩ := storeTextAtomic_done fs (dataPath dir f.text) content
  refine ⟨fs, fs', hfs, hfs', h, ?_⟩
  simp only [Server.copy, Copy.store, hdata, hother' _ hapart.undo_data hapart.undo_tmpData, hundo,
    hother' _ hapart.meta_data hapart.meta_tmpData, hother _ hapart.undo_meta.symm hapart.meta_tmpUndo]

end Holds

/-! ## The operations -/

section Operations

variable {dir : Text} {f : FileName} {srv : Server} (h : Seated dir f.text srv.state)

include h

/-- The entry of a restored text. -/
theorem copy_restampFile {env : Env} (henv : env.Smooth) {view : SsFile}
    (hentry : (srv.copy dir f.text).entry = some view) (user text : Text) :
    Holds dir f.text (restampFile env srv f.text user text).1
        ((srv.copy dir f.text).update (restamp text user env.now)) ∧
      (restampFile env srv f.text user text).2 = (notifyNmFileUpdate (restamp text user env.now view), .ok ()) := by
  have hkeep : KeepsPaths (restamp text user env.now) := fun _ => ⟨rfl, rfl, rfl, rfl⟩
  have hholds := holds_update h hkeep srv.tickets
  unfold restampFile
  rw [henv.metaOpened]
  obtain ⟨state, hup, -⟩ := updateFile_of_entry h.sorted (fun file => (hkeep file).1) hentry
  rw [hup] at hholds ⊢
  exact ⟨hholds, rfl⟩

section Undo

variable {env : Env} (henv : env.Smooth) {view : SsFile} (hentry : (srv.copy dir f.text).entry = some view)
  (user : Text)

include hentry

theorem performUndo_busy (hlock : view.lockActive = true) :
    performUndo env srv f.text user = (srv, [], .error .EBUSY) := by
  simp [performUndo, h.find.trans hentry, hlock]

include henv

theorem performUndo_none (hlock : view.lockActive = false) (hundo : (srv.copy dir f.text).undo = none) :
    performUndo env srv f.text user = (srv, [], .error .ENOENT) := by
  have hpaths := h.hasPaths view hentry
  have hload : loadText srv.fs view.undoPath env.undoLoad = none := by
    rw [loadText, henv.undoLoad, if_pos rfl, hpaths.undoEq]
    exact hundo
  simp only [performUndo, h.find.trans hentry, hlock, Bool.false_eq_true, if_false, hload]

/-- **`perform_undo` restores the undo copy and uses it up.** -/
theorem copy_performUndo (hlock : view.lockActive = false) {text : Text}
    (hundo : (srv.copy dir f.text).undo = some text) :
    Holds dir f.text (performUndo env srv f.text user).1
        (((srv.copy dir f.text).store text none).update (restamp text user env.now)) ∧
      (performUndo env srv f.text user).2 = (notifyNmFileUpdate (restamp text user env.now view), .ok text) := by
  have hpaths := h.hasPaths view hentry
  have hapart := fivePaths dir f
  have hload : loadText srv.fs (undoPath dir f.text) env.undoLoad = some text := by
    rw [loadText, henv.undoLoad, if_pos rfl]
    exact hundo
  have hcurrent := hpaths.currentText henv srv
  rw [hpaths.dataEq] at hcurrent
  obtain ⟨fs, hfs, hstored⟩ := holds_storeData h text
  have hseated : Seated dir f.text ({ srv with fs := fs.unlink (undoPath dir f.text) } : Server).state := h
  -- the copy before the entry is restamped
  have hcopy : ({ srv with fs := fs.unlink (undoPath dir f.text) } : Server).copy dir f.text =
      (srv.copy dir f.text).store text none := by
    have hdata := congrArg Copy.data hstored.copy
    have hsaved := congrArg Copy.saved hstored.copy
    simp only [Server.copy, Copy.store] at hdata hsaved ⊢
    simp only [Fs.unlink, Function.update_of_ne hapart.undo_data.symm, hdata, Function.update_self,
      Function.update_of_ne hapart.undo_meta.symm, hsaved]
  have hfound : (({ srv with fs := fs.unlink (undoPath dir f.text) } : Server).copy dir f.text).entry = some view := by
    rw [hcopy]
    exact hentry
  have hrestamp := copy_restampFile hseated henv hfound user text
  rw [hcopy] at hrestamp
  obtain ⟨hholds, hresult⟩ := hrestamp
  have heq : performUndo env srv f.text user =
      let r := restampFile env { srv with fs := fs.unlink (undoPath dir f.text) } f.text user text
      (r.1, r.2.1, r.2.2.map fun () => text) := by
    simp only [performUndo, h.find.trans hentry, hlock, Bool.false_eq_true, if_false, hpaths.dataEq, hpaths.undoEq,
      hload, hcurrent, henv.dataStore, hfs, henv.undoUnlinked, if_true]
  rw [heq]
  refine ⟨hholds, ?_⟩
  simp only [hresult, Except.map]

end Undo

section Revert

variable {env : Env} (henv : env.Smooth) {view : SsFile} (hentry : (srv.copy dir f.text).entry = some view)
  {tag checkpoint : Text} (hread : ssReadCheckpoint env srv f.text tag = .ok checkpoint) (user : Text)

include hentry hread

theorem ssRevertCheckpoint_busy (hlock : view.lockActive = true) :
    ssRevertCheckpoint env srv f.text tag user = (srv, [], .error .EBUSY) := by
  simp only [ssRevertCheckpoint, hread, h.find.trans hentry, hlock, if_true]

include henv

/-- **`ss_revert_checkpoint` replaces the text by the checkpoint.** -/
theorem copy_ssRevertCheckpoint (hlock : view.lockActive = false) :
    Holds dir f.text (ssRevertCheckpoint env srv f.text tag user).1
        (((srv.copy dir f.text).replace checkpoint).update (restamp checkpoint user env.now)) ∧
      (ssRevertCheckpoint env srv f.text tag user).2 =
        (notifyNmFileUpdate (restamp checkpoint user env.now view), .ok ()) := by
  have hpaths := h.hasPaths view hentry
  have hcurrent := hpaths.currentText henv srv
  rw [hpaths.dataEq] at hcurrent
  obtain ⟨fs, fs', hfs, hfs', hstored⟩ := holds_storeBoth h checkpoint (srv.copy dir f.text).text
  have hfound : (({ srv with fs := fs' } : Server).copy dir f.text).entry = some view := by
    rw [hstored.copy]
    exact hentry
  have hrestamp := copy_restampFile hstored.seated henv hfound user checkpoint
  rw [hstored.copy] at hrestamp
  have heq : ssRevertCheckpoint env srv f.text tag user =
      restampFile env { srv with fs := fs' } f.text user checkpoint := by
    simp only [ssRevertCheckpoint, hread, h.find.trans hentry, hlock, Bool.false_eq_true, if_false, hpaths.dataEq,
      hpaths.undoEq, hcurrent, henv.undoStore, henv.dataStore, hfs, hfs']
  rw [heq]
  exact hrestamp

end Revert

/-- **`ss_state_add` makes an empty file** where the name has no entry. -/
theorem copy_create {o : AddOutcome} (ho : o.inserted = true ∧ o.dataOpened = true ∧ o.metaOpened = true)
    (hentry : (srv.copy dir f.text).entry = none) (owner : Text) :
    (ssStateAdd srv.state srv.fs f.text owner o).1 = true ∧
    Holds dir f.text
      { srv with
        state := (ssStateAdd srv.state srv.fs f.text owner o).2.1
        fs := (ssStateAdd srv.state srv.fs f.text owner o).2.2 }
      ((srv.copy dir f.text).create dir f.text owner o.now) := by
  have hapart := fivePaths dir f
  have hspec := ssStateAdd_state h.sorted srv.fs f.short owner o
  have hnew := h.hasPaths_newFile owner o.now
  have hfind := h.find.trans hentry
  have heq : ssStateAdd srv.state srv.fs f.text owner o =
      (true, insertSorted srv.state (newFile srv.state f.text owner o.now),
        ssStateSaveMeta (srv.fs.write (dataPath dir f.text) []) (newFile srv.state f.text owner o.now) true) := by
    unfold ssStateAdd
    split
    · next hsome =>
      rw [hsome] at hfind
      cases hfind
    · simp only [ho.1, ho.2.1, ho.2.2, Bool.not_true, Bool.false_eq_true, if_false, hnew.dataEq]
  rw [heq] at hspec ⊢
  obtain ⟨hsorted, hentries⟩ := hspec
  simp only [true_and] at hentries
  have hentry' := hentries f.text
  rw [if_pos rfl] at hentry'
  refine ⟨rfl, ⟨h.dirs, hsorted, ?_⟩, ?_⟩
  · intro file hfile
    rw [hentry'] at hfile
    cases hfile
    exact hnew
  · rw [h.newFile] at hentry' hnew
    simp only [Server.copy, Copy.create, h.newFile, hentry', ssStateSaveMeta, if_true, Fs.write, hnew.metaEq,
      Function.update_of_ne hapart.meta_data.symm, Function.update_of_ne hapart.undo_meta,
      Function.update_of_ne hapart.undo_data, Function.update_self]

theorem ssStateAdd_exists {view : SsFile} (hentry : (srv.copy dir f.text).entry = some view) (owner : Text)
    (o : AddOutcome) : ssStateAdd srv.state srv.fs f.text owner o = (false, srv.state, srv.fs) := by
  have hfind := h.find.trans hentry
  unfold ssStateAdd
  split
  · rfl
  · next hnone =>
    rw [hnone] at hfind
    cases hfind

/-- **`ss_state_remove` removes the entry and the three files.** -/
theorem copy_delete {view : SsFile} (hentry : (srv.copy dir f.text).entry = some view) :
    ∃ state fs, ssStateRemove srv.state srv.fs f.text = some (state, fs) ∧
      Holds dir f.text { srv with state := state, fs := fs } ⟨none, none, none, none⟩ := by
  have hapart := fivePaths dir f
  have hspec := ssStateRemove_state h.sorted srv.fs f.text
  have hpaths := h.hasPaths view hentry
  have hfind := h.find.trans hentry
  cases hremove : ssStateRemove srv.state srv.fs f.text with
  | none =>
    rw [hremove] at hspec
    exact absurd (hspec.symm.trans hentry) (by simp)
  | some p =>
    obtain ⟨state, fs⟩ := p
    rw [hremove] at hspec
    obtain ⟨hsorted, hentries⟩ := hspec
    have hentry' := hentries f.text
    rw [if_pos rfl] at hentry'
    unfold ssStateRemove at hremove
    split at hremove
    · cases hremove
    · next file idx hfile =>
      cases hremove
      obtain rfl : file = view := by
        rw [hfile] at hfind
        exact Option.some.inj hfind
      refine ⟨_, _, rfl, ⟨h.dirs, hsorted, ?_⟩, ?_⟩
      · intro file hfile
        rw [hentry'] at hfile
        cases hfile
      · simp only [Server.copy, hentry', Fs.unlink, hpaths.dataEq, hpaths.metaEq, hpaths.undoEq,
          Function.update_of_ne hapart.undo_data.symm, Function.update_of_ne hapart.meta_data.symm,
          Function.update_of_ne hapart.undo_meta.symm, Function.update_self]

theorem ssStateRemove_missing (hentry : (srv.copy dir f.text).entry = none) :
    ssStateRemove srv.state srv.fs f.text = none := by
  have hfind := h.find.trans hentry
  unfold ssStateRemove
  split
  · rfl
  · next hsome =>
    rw [hsome] at hfind
    cases hfind

/-- **`handle_nm_sync` replaces the text**; a file that is not there is made first. -/
theorem copy_syncFile {env : Env} (henv : env.Smooth) (owner content : Text) :
    Holds dir f.text (syncFile env srv f.text owner content).1
        (((if (srv.copy dir f.text).entry.isSome then srv.copy dir f.text
          else (srv.copy dir f.text).create dir f.text owner env.add.now).replace content).update (recount content)) ∧
      (syncFile env srv f.text owner content).2 = sendOk (opField "SYNC") := by
  have hkeep : KeepsPaths (recount content) := fun _ => ⟨rfl, rfl, rfl, rfl⟩
  -- from the entry on
  have hfile {srv : Server} (h : Seated dir f.text srv.state) {view : SsFile}
      (hentry : (srv.copy dir f.text).entry = some view) {srv₀ : Server}
      (htarget : syncTarget env srv₀ f.text owner = (srv, some view)) :
      Holds dir f.text (syncFile env srv₀ f.text owner content).1
          (((srv.copy dir f.text).replace content).update (recount content)) ∧
        (syncFile env srv₀ f.text owner content).2 = sendOk (opField "SYNC") := by
    have hpaths := h.hasPaths view hentry
    have hcurrent := hpaths.currentText henv srv
    rw [hpaths.dataEq] at hcurrent
    obtain ⟨fs, fs', hfs, hfs', hstored⟩ := holds_storeBoth h content (srv.copy dir f.text).text
    have hupdate := holds_update hstored.seated hkeep srv.tickets
    rw [hstored.copy] at hupdate
    obtain ⟨state, hup, -⟩ := updateFile_of_entry h.sorted (fun file => (hkeep file).1) hentry
    rw [hup] at hupdate
    have hup' : updateFile srv.state f.text (fun file =>
        { file with charCount := content.length, wordCount := countWords content }) =
          some (recount content view, state) := hup
    have heq : syncFile env srv₀ f.text owner content =
        ({ srv with state := state, fs := ssStateSaveMeta fs' (recount content view) true }, sendOk (opField "SYNC")) := by
      simp only [syncFile, htarget, hpaths.dataEq, hpaths.undoEq, hcurrent, henv.undoStore, henv.dataStore, hfs,
        hfs', hup', henv.metaOpened]
    rw [heq]
    exact ⟨hupdate, rfl⟩
  have hfind := h.find
  cases hentry : (srv.copy dir f.text).entry with
  | some view =>
    rw [Option.isSome_some, if_pos rfl]
    apply hfile h hentry
    rw [hentry] at hfind
    unfold syncTarget
    rw [hfind]
  | none =>
    rw [Option.isSome_none, if_neg (by simp)]
    obtain ⟨hadded, hholds⟩ := copy_create h (o := env.add) ⟨henv.inserted, henv.dataOpened, henv.metaAdded⟩ hentry owner
    have hcopy := hholds.copy
    rw [← hcopy]
    apply hfile hholds.seated
    · rw [hcopy]
      rfl
    · rw [hentry] at hfind
      have hfind' := hholds.seated.find
      rw [hcopy] at hfind'
      unfold syncTarget
      rw [hfind]
      cases hadd : ssStateAdd srv.state srv.fs f.text owner env.add with
      | mk ok p =>
        rw [hadd] at hadded hfind'
        obtain rfl : ok = true := hadded
        exact congrArg (Prod.mk _) hfind'

section Commit

variable {env : DataEnv} (henv : env.Smooth) (hallocated : env.allocated = true) {write : OpenWrite}
  (hfile : write.file = f.text) (hview : HasPaths dir f.text write.view)

include henv hallocated hfile hview

omit h hfile in
/-- A commit that finds its sentence gone stores nothing. -/
theorem commitWrite_conflict {e : Errno}
    (hmerge : writeSessionMerge write.session (srv.copy dir f.text).text = .error e) :
    (commitWrite env srv write).1 = srv ∧
      (writeSessionCommit env srv.fs write.session write.view).2 = .error e := by
  have hcommit : writeSessionCommit env srv.fs write.session write.view = (srv.fs, .error e) := by
    simp only [writeSessionCommit, hview.currentText henv srv, hallocated, Bool.not_true, Bool.false_eq_true,
      if_false, hmerge]
  unfold commitWrite
  rw [hcommit]
  refine ⟨?_, rfl⟩
  dsimp only
  split <;> rfl

/-- **`write_session_commit` replaces the text by the merged sentences.** -/
theorem copy_commitWrite {merged : List Text}
    (hmerge : writeSessionMerge write.session (srv.copy dir f.text).text = .ok merged) :
    Holds dir f.text (commitWrite env srv write).1
        (((srv.copy dir f.text).replace (joinSentences merged)).update
          (commitFields (joinSentences merged) write.user env.now)) ∧
      (writeSessionCommit env srv.fs write.session write.view).2 = .ok (joinSentences merged) ∧
      (commitWrite env srv write).2 = ⟨commitReply env (joinSentences merged),
        ((srv.copy dir f.text).entry.map fun file =>
          notifyNmFileUpdate (commitFields (joinSentences merged) write.user env.now file)).getD []⟩ := by
  have hkeep : KeepsPaths (commitFields (joinSentences merged) write.user env.now) := fun _ => ⟨rfl, rfl, rfl, rfl⟩
  have hcurrent := hview.currentText henv srv
  rw [hview.dataEq] at hcurrent
  obtain ⟨fs, fs', hfs, hfs', hstored⟩ := holds_storeBoth h (joinSentences merged) (srv.copy dir f.text).text
  have hcommit : writeSessionCommit env srv.fs write.session write.view = (fs', .ok (joinSentences merged)) := by
    simp only [writeSessionCommit, hview.dataEq, hview.undoEq, hcurrent, hallocated, Bool.not_true,
      Bool.false_eq_true, if_false, hmerge, henv.undoStore, henv.dataStore, hfs, hfs']
  have hupdate := holds_update hstored.seated hkeep srv.tickets
  rw [hstored.copy] at hupdate
  cases hup : updateFile srv.state f.text (commitFields (joinSentences merged) write.user env.now) with
  | none =>
    have heq : commitWrite env srv write = ({ srv with fs := fs' }, ⟨commitReply env (joinSentences merged), []⟩) := by
      simp only [commitWrite, hcommit, hfile, hup]
    rw [hup] at hupdate
    rw [updateFile_eq_none h.sorted] at hup
    refine ⟨heq ▸ hupdate, by rw [hcommit], ?_⟩
    simp only [heq, Server.copy, hup, Option.map_none, Option.getD_none]
  | some p =>
    obtain ⟨file, state⟩ := p
    have heq : commitWrite env srv write =
        ({ srv with state := state, fs := ssStateSaveMeta fs' file true },
          ⟨commitReply env (joinSentences merged), notifyNmFileUpdate file⟩) := by
      simp only [commitWrite, hcommit, hfile, hup, henv.metaOpened]
    obtain ⟨-, old, hold, rfl, -⟩ := h.update hkeep hup
    rw [hup] at hupdate
    refine ⟨heq ▸ hupdate, by rw [hcommit], ?_⟩
    simp only [heq, Server.copy, hold, Option.map_some, Option.getD_some]

end Commit

/-- A reader leaves its access time. -/
theorem copy_touchFile {env : DataEnv} (henv : env.Smooth) (user : Text) :
    Holds dir f.text (touchFile env srv f.text user).1 ((srv.copy dir f.text).update fun file =>
      { file with lastAccess := env.now, lastAccessUser := Text.copyTo SS_USER_MAX user }) := by
  have hkeep : KeepsPaths fun file =>
      { file with lastAccess := env.now, lastAccessUser := Text.copyTo SS_USER_MAX user } := fun _ => ⟨rfl, rfl, rfl, rfl⟩
  have hupdate := holds_update h hkeep srv.tickets
  unfold touchFile
  rw [henv.metaOpened]
  dsimp only
  generalize (fun file : SsFile =>
    { file with lastAccess := env.now, lastAccessUser := Text.copyTo SS_USER_MAX user }) = touched at hupdate ⊢
  cases hup : updateFile srv.state f.text touched with
  | none =>
    rw [hup] at hupdate
    exact hupdate
  | some p =>
    rw [hup] at hupdate
    exact hupdate

/-- The lock flag is set in the table only. -/
theorem holds_setFileLockState (active : Bool) (sentence : Int) (user : Option Text) :
    Holds dir f.text (setFileLockState srv f.text active sentence user)
      { srv.copy dir f.text with
        entry := (srv.copy dir f.text).entry.map (lockFields active sentence user) } := by
  have hkeep : KeepsPaths (lockFields active sentence user) := fun _ => ⟨rfl, rfl, rfl, rfl⟩
  unfold setFileLockState
  cases hup : updateFile srv.state f.text (lockFields active sentence user) with
  | none =>
    rw [updateFile_eq_none h.sorted] at hup
    refine ⟨h, ?_⟩
    simp only [Server.copy, hup]
    rfl
  | some p =>
    obtain ⟨file, state⟩ := p
    obtain ⟨hseated, old, hold, -, hentry, -⟩ := h.update hkeep hup
    refine ⟨hseated, ?_⟩
    simp only [Server.copy, hentry, hold]
    rfl

end Operations

/-- A checkpoint is stored beside the copy. -/
theorem copy_checkpoint {dir : Text} {f : FileName} {srv : Server} (h : Placed dir srv.state) (env : Env) (tag : FileName) :
    (ssCreateCheckpoint env srv f.text tag.text).1.copy dir f.text = srv.copy dir f.text ∧
      (ssCreateCheckpoint env srv f.text tag.text).1.state = srv.state := by
  have hchanges : Changes dir f.text _ srv _ := Changes.ssCreateCheckpoint h env tag.text
  have hwrites := hchanges.writes
  obtain ⟨hd, hm, hu, -⟩ := paths_eq dir f
  have hslash {e : Text} (he : '/' ∉ e) : '/' ∉ f.text ++ e := by simp [slash_not_mem f, he]
  have hdata : dataPath dir f.text ∉ [checkpointPath dir f.text tag.text, tmpPath (checkpointPath dir f.text tag.text)] :=
    fun hp => (checkpointPaths_ne hp (slash_not_mem f)).1 hd
  have hmeta : metaPath dir f.text ∉ [checkpointPath dir f.text tag.text, tmpPath (checkpointPath dir f.text tag.text)] :=
    fun hp => (checkpointPaths_ne hp (hslash (by decide))).2.1 hm
  have hundo : undoPath dir f.text ∉ [checkpointPath dir f.text tag.text, tmpPath (checkpointPath dir f.text tag.text)] :=
    fun hp => (checkpointPaths_ne hp (hslash (by decide))).2.2 hu
  have hstate : (ssCreateCheckpoint env srv f.text tag.text).1.state = srv.state := by
    unfold ssCreateCheckpoint
    (repeat' split) <;> rfl
  refine ⟨?_, hstate⟩
  simp only [Server.copy, hwrites _ hdata, hwrites _ hundo, hwrites _ hmeta, hstate]

end CoWrite.Ss
