import CoWrite.Lib.Disk
import CoWrite.Ss.Atomic

/-!
# Crashes of the storage server

The steps on the file system of a commit, a revert, an undo and a sync, in the order of the source.
`store_text_atomic` syncs what it writes; the empty data file and the meta files are written without a sync. The files
are read as they are: a read that fails is no crash.

* `now_commitSteps`, `now_revertSteps`, `now_undoSteps`, `now_syncSteps`: all of the steps leave the files of the
  operation.
* `crash_keeps_text`: whenever the server crashes on the way, the data file is whole, and after a commit, a revert and
  a sync the old text is there or in the undo copy.
-/

namespace CoWrite.Ss

open CoWrite.Lib

abbrev FileStep := DiskStep Text Char

/-- The text of a file that is there, or the empty text. -/
def textAt (fs : Fs) (path : Text) : Text := (fs path).getD []

/-! ## The steps -/

/-- `store_text_atomic`. -/
def storeSteps (path content : Text) : StoreOutcome → List FileStep
  | .done => Disk.replaceFile (tmpPath path) path content
  | .openFailed => []
  | .failed none => [.write (tmpPath path) content, .unlink (tmpPath path)]
  | .failed (some left) => [.write (tmpPath path) left]

/-- The entry is changed and saved. -/
def entrySteps (env : Env) (state : SsState) (fileName : Text) (g : SsFile → SsFile) : List FileStep :=
  match updateFile state fileName g with
  | none => []
  | some (file, _) => if env.metaOpened then [.write file.metaPath (metaText file)] else []

/-- The old text becomes the undo copy, the new one is stored, and the entry is saved. -/
def replaceSteps (env : Env) (srv : Server) (fileName : Text) (view : SsFile) (text : Text) (g : SsFile → SsFile) :
    List FileStep :=
  storeSteps view.undoPath (textAt srv.fs view.dataPath) env.undoStore ++
    if env.undoStore = .done then
      storeSteps view.dataPath text env.dataStore ++
        if env.dataStore = .done then entrySteps env srv.state fileName g else []
    else []

/-- `write_session_commit`, and what `handle_write` saves behind it. -/
def commitSteps (env : DataEnv) (srv : Server) (write : OpenWrite) : List FileStep :=
  if !env.allocated then []
  else
    match writeSessionMerge write.session (textAt srv.fs write.view.dataPath) with
    | .error _ => []
    | .ok merged =>
      replaceSteps env.toEnv srv write.file write.view (joinSentences merged)
        (commitFields (joinSentences merged) write.user env.now)

/-- `ss_revert_checkpoint`. -/
def revertSteps (env : Env) (srv : Server) (fileName tag user : Text) : List FileStep :=
  match ssReadCheckpoint env srv fileName tag with
  | .error _ => []
  | .ok checkpoint =>
    match (ssStateFind srv.state fileName).1 with
    | none => []
    | some view =>
      if view.lockActive then []
      else replaceSteps env srv fileName view checkpoint (restamp checkpoint user env.now)

/-- `perform_undo`. -/
def undoSteps (env : Env) (srv : Server) (fileName user : Text) : List FileStep :=
  match (ssStateFind srv.state fileName).1 with
  | none => []
  | some view =>
    if view.lockActive then []
    else
      match loadText srv.fs view.undoPath env.undoLoad with
      | none => []
      | some undoText =>
        storeSteps view.dataPath undoText env.dataStore ++
          if env.dataStore = .done then
            (if env.undoUnlinked then [.unlink view.undoPath] else []) ++
              entrySteps env srv.state fileName (restamp undoText user env.now)
          else []

/-- `ss_state_add` of a name that is not in the table. -/
def addSteps (state : SsState) (name owner : Text) (o : AddOutcome) : List FileStep :=
  let file := newFile state name owner o.now
  if !o.inserted then []
  else if !o.dataOpened then []
  else if !o.metaOpened then [.write file.dataPath [], .unlink file.dataPath]
  else [.write file.dataPath [], .write file.metaPath (metaText file)]

/-- `handle_nm_sync`. -/
def syncSteps (env : Env) (srv : Server) (fileName owner content : Text) : List FileStep :=
  (match (ssStateFind srv.state fileName).1 with
    | some _ => []
    | none => addSteps srv.state fileName owner env.add) ++
  match syncTarget env srv fileName owner with
  | (_, none) => []
  | (srv, some view) => replaceSteps env srv fileName view content (recount content)

/-! ## What the steps leave -/

/-- Reads of files that are there succeed. -/
structure Env.Reads (env : Env) : Prop where
  dataLoad : env.dataLoad = true
  dup : env.dup = true

theorem Env.Reads.currentText {env : Env} (h : env.Reads) (fs : Fs) (path : Text) :
    currentText env fs path = some (textAt fs path) := by
  unfold Ss.currentText loadText textAt
  rw [h.dataLoad, h.dup]
  cases fs path <;> rfl

section Now

variable (d : Disk Text Char)

theorem now_storeSteps (path content : Text) (o : StoreOutcome) :
    (d.run (storeSteps path content o)).now = (storeTextAtomic d.now path content o).2 := by
  cases o with
  | done =>
    simp only [storeSteps, Disk.replaceFile, Disk.run_cons, Disk.run_nil, Disk.step, storeTextAtomic, Fs.rename, Fs.write]
    by_cases hsame : tmpPath path = path
    · rw [if_pos hsame, if_pos hsame]
    · rw [if_neg hsame, if_neg hsame]
  | openFailed => rfl
  | failed left =>
    cases left with
    | none => exact Function.update_idem ..
    | some left => rfl

theorem now_replaceSteps {env : Env} {srv : Server} (fileName : Text) (view : SsFile) (text : Text)
    (g : SsFile → SsFile) (hnow : d.now = srv.fs) :
    (d.run (replaceSteps env srv fileName view text g)).now =
      match storeBoth env srv.fs view (textAt srv.fs view.dataPath) text with
      | (false, fs) => fs
      | (true, fs) =>
        match updateFile srv.state fileName g with
        | none => fs
        | some (file, _) => ssStateSaveMeta fs file env.metaOpened := by
  have hfst := storeTextAtomic_fst srv.fs view.undoPath (textAt srv.fs view.dataPath) env.undoStore
  have hundo := now_storeSteps d view.undoPath (textAt srv.fs view.dataPath) env.undoStore
  rw [hnow] at hundo
  unfold replaceSteps storeBoth
  rw [Disk.run_append]
  generalize d.run (storeSteps view.undoPath (textAt srv.fs view.dataPath) env.undoStore) = d₁ at hundo ⊢
  cases hstore : storeTextAtomic srv.fs view.undoPath (textAt srv.fs view.dataPath) env.undoStore with
  | mk done fs₁ =>
    rw [hstore] at hfst hundo
    cases done with
    | false =>
      rw [if_neg (fun hdone => Bool.false_ne_true (hfst.2 hdone))]
      exact hundo
    | true =>
      have hfst' := storeTextAtomic_fst fs₁ view.dataPath text env.dataStore
      have hdata := now_storeSteps d₁ view.dataPath text env.dataStore
      rw [hundo] at hdata
      rw [if_pos (hfst.1 rfl), Disk.run_append]
      generalize d₁.run (storeSteps view.dataPath text env.dataStore) = d₂ at hdata ⊢
      dsimp only at hdata ⊢
      cases hstore' : storeTextAtomic fs₁ view.dataPath text env.dataStore with
      | mk done fs₂ =>
        rw [hstore'] at hfst' hdata
        cases done with
        | false =>
          rw [if_neg (fun hdone => Bool.false_ne_true (hfst'.2 hdone))]
          exact hdata
        | true =>
          rw [if_pos (hfst'.1 rfl)]
          unfold entrySteps ssStateSaveMeta
          dsimp only at hdata ⊢
          cases updateFile srv.state fileName g with
          | none => exact hdata
          | some p =>
            obtain ⟨file, state⟩ := p
            dsimp only
            cases env.metaOpened with
            | false => exact hdata
            | true =>
              rw [if_pos rfl, if_pos rfl, ← hdata]
              rfl

end Now

section Operations

variable {env : DataEnv} (hreads : Env.Reads env.toEnv) (srv : Server)

include hreads

theorem now_commitSteps (write : OpenWrite) :
    ((Disk.settled srv.fs).run (commitSteps env srv write)).now = (commitWrite env srv write).1.fs := by
  unfold commitWrite commitSteps
  rw [writeSessionCommit_eq, hreads.currentText]
  dsimp only
  cases env.allocated with
  | false =>
    rw [Bool.not_false, if_pos rfl, if_pos rfl]
    dsimp only
    split <;> rfl
  | true =>
    rw [Bool.not_true, if_neg Bool.false_ne_true, if_neg Bool.false_ne_true]
    cases writeSessionMerge write.session (textAt srv.fs write.view.dataPath) with
    | error e =>
      dsimp only
      split <;> rfl
    | ok merged =>
      dsimp only
      rw [now_replaceSteps _ _ _ _ _ rfl]
      cases storeBoth env.toEnv srv.fs write.view (textAt srv.fs write.view.dataPath) (joinSentences merged) with
      | mk done fs =>
        cases done with
        | false =>
          dsimp only
          split <;> rfl
        | true =>
          dsimp only
          cases updateFile srv.state write.file (commitFields (joinSentences merged) write.user env.now) <;> rfl

theorem now_revertSteps (fileName tag user : Text) :
    ((Disk.settled srv.fs).run (revertSteps env.toEnv srv fileName tag user)).now =
      (ssRevertCheckpoint env.toEnv srv fileName tag user).1.fs := by
  rw [ssRevertCheckpoint_eq]
  unfold revertSteps restampFile
  cases ssReadCheckpoint env.toEnv srv fileName tag with
  | error e => rfl
  | ok checkpoint =>
    dsimp only
    cases (ssStateFind srv.state fileName).1 with
    | none => rfl
    | some view =>
      dsimp only
      cases view.lockActive with
      | true => rfl
      | false =>
        rw [hreads.currentText, if_neg Bool.false_ne_true, if_neg Bool.false_ne_true, now_replaceSteps _ _ _ _ _ rfl]
        dsimp only
        cases storeBoth env.toEnv srv.fs view (textAt srv.fs view.dataPath) checkpoint with
        | mk done fs =>
          cases done with
          | false => rfl
          | true =>
            dsimp only
            cases updateFile srv.state fileName (restamp checkpoint user env.now) <;> rfl

theorem now_undoSteps (fileName user : Text) :
    ((Disk.settled srv.fs).run (undoSteps env.toEnv srv fileName user)).now =
      (performUndo env.toEnv srv fileName user).1.fs := by
  unfold undoSteps performUndo restampFile
  cases (ssStateFind srv.state fileName).1 with
  | none => rfl
  | some view =>
    dsimp only
    cases view.lockActive with
    | true => rfl
    | false =>
      rw [if_neg Bool.false_ne_true, if_neg Bool.false_ne_true]
      cases loadText srv.fs view.undoPath env.undoLoad with
      | none => rfl
      | some undoText =>
        have hfst := storeTextAtomic_fst srv.fs view.dataPath undoText env.dataStore
        have hdata := now_storeSteps (Disk.settled srv.fs) view.dataPath undoText env.dataStore
        dsimp only
        rw [hreads.currentText, Disk.run_append]
        generalize (Disk.settled srv.fs).run (storeSteps view.dataPath undoText env.dataStore) = d at hdata ⊢
        dsimp only [Disk.settled] at hdata ⊢
        cases hstore : storeTextAtomic srv.fs view.dataPath undoText env.dataStore with
        | mk done fs =>
          rw [hstore] at hfst hdata
          cases done with
          | false =>
            rw [if_neg (fun hdone => Bool.false_ne_true (hfst.2 hdone))]
            exact hdata
          | true =>
            rw [if_pos (hfst.1 rfl), Disk.run_append]
            dsimp only at hdata ⊢
            -- the undo copy goes, and then the entry is saved
            have hunlink : (d.run (if env.undoUnlinked then [.unlink view.undoPath] else [])).now =
                if env.undoUnlinked then fs.unlink view.undoPath else fs := by
              rw [← hdata]
              cases env.undoUnlinked <;> rfl
            generalize d.run (if env.undoUnlinked then [.unlink view.undoPath] else []) = d' at hunlink ⊢
            unfold entrySteps ssStateSaveMeta
            cases updateFile srv.state fileName (restamp undoText user env.now) with
            | none => exact hunlink
            | some p =>
              obtain ⟨file, state⟩ := p
              dsimp only
              cases env.metaOpened with
              | false => exact hunlink
              | true =>
                rw [if_pos rfl, if_pos rfl, ← hunlink]
                rfl

omit hreads in
theorem now_addSteps {d : Disk Text Char} (hnow : d.now = srv.fs) {name : Text}
    (hnone : (ssStateFind srv.state name).1 = none) (owner : Text) (o : AddOutcome) :
    (d.run (addSteps srv.state name owner o)).now = (ssStateAdd srv.state srv.fs name owner o).2.2 := by
  unfold addSteps ssStateAdd
  rw [← hnow]
  cases hfind : ssStateFind srv.state name with
  | mk found idx =>
    rw [hfind] at hnone
    obtain rfl : found = none := hnone
    dsimp only
    cases o.inserted with
    | false => rfl
    | true =>
      cases o.dataOpened with
      | false => rfl
      | true => cases o.metaOpened <;> rfl

theorem now_syncSteps (fileName owner content : Text) :
    ((Disk.settled srv.fs).run (syncSteps env.toEnv srv fileName owner content)).now =
      (syncFile env.toEnv srv fileName owner content).1.fs := by
  have htarget : ((Disk.settled srv.fs).run (match (ssStateFind srv.state fileName).1 with
      | some _ => []
      | none => addSteps srv.state fileName owner env.add)).now = (syncTarget env.toEnv srv fileName owner).1.fs := by
    unfold syncTarget
    cases hfind : (ssStateFind srv.state fileName).1 with
    | some view => rfl
    | none =>
      dsimp only
      rw [now_addSteps srv rfl hfind]
      rcases ssStateAdd srv.state srv.fs fileName owner env.add with ⟨_ | _, state, fs⟩ <;> rfl
  unfold syncSteps syncFile
  rw [Disk.run_append]
  generalize (Disk.settled srv.fs).run (match (ssStateFind srv.state fileName).1 with
      | some _ => []
      | none => addSteps srv.state fileName owner env.add) = d at htarget ⊢
  cases hsync : syncTarget env.toEnv srv fileName owner with
  | mk srv' target =>
    rw [hsync] at htarget
    cases target with
    | none => exact htarget
    | some view =>
      dsimp only at htarget ⊢
      rw [now_replaceSteps _ _ _ _ _ htarget, hreads.currentText]
      unfold storeBoth
      dsimp only
      rcases storeTextAtomic srv'.fs view.undoPath (textAt srv'.fs view.dataPath) env.undoStore with ⟨_ | _, fs₁⟩
      · rfl
      · dsimp only
        rcases storeTextAtomic fs₁ view.dataPath content env.dataStore with ⟨_ | _, fs₂⟩
        · rfl
        · have hrecount : (fun file : SsFile => { file with charCount := content.length, wordCount := countWords content }) =
              recount content := rfl
          rw [hrecount]
          dsimp only
          cases updateFile srv'.state fileName (recount content) <;> rfl

end Operations

/-! ## What a crash leaves -/

section Crash

variable {d : Disk Text Char} {fs' : Fs}

theorem paths_storeSteps {path content p : Text} {o : StoreOutcome} (hpath : p ≠ path) (htmp : p ≠ tmpPath path) :
    ∀ s ∈ storeSteps path content o, p ∉ s.paths := by
  cases o with
  | done => exact Disk.paths_replaceFile htmp hpath
  | openFailed => simp [storeSteps]
  | failed left => cases left <;> simp [storeSteps, DiskStep.paths, htmp]

theorem crashes_storeSteps {path content : Text} {o : StoreOutcome} (htmp : path ≠ tmpPath path)
    (h : d.Crashes (storeSteps path content o) fs') : fs' path ∈ d.kept path ∨ fs' path = some content := by
  cases o with
  | done => exact Disk.crashes_replaceFile htmp.symm content h
  | openFailed => exact .inl (h path)
  | failed left =>
    left
    apply Disk.crashes_untouched _ h
    cases left <;> simp [storeSteps, DiskStep.paths, htmp]

/-- A store, and behind it steps on other files. -/
theorem crashes_storeThen {path content : Text} {o : StoreOutcome} (htmp : path ≠ tmpPath path) {rest : List FileStep}
    (hrest : ∀ s ∈ rest, path ∉ s.paths) (h : d.Crashes (storeSteps path content o ++ if o = .done then rest else []) fs') :
    fs' path ∈ d.kept path ∨ fs' path = some content := by
  by_cases hdone : o = .done
  · subst hdone
    rw [if_pos rfl, Disk.crashes_append] at h
    rcases h with h | h
    · exact crashes_storeSteps htmp h
    · have hlast := Disk.crashes_untouched hrest h
      rw [storeSteps, (Disk.run_replaceFile htmp.symm content).2, Set.mem_singleton_iff] at hlast
      exact .inr hlast
  · rw [if_neg hdone, List.append_nil] at h
    exact crashes_storeSteps htmp h

/-- The entry is saved to another file. -/
theorem paths_entrySteps {dir : Text} {f : FileName} {state : SsState} (h : Placed dir state) {g : SsFile → SsFile}
    (hg : KeepsPaths g) (env : Env) {p : Text} (hp : p ≠ metaPath dir f.text) :
    ∀ s ∈ entrySteps env state f.text g, p ∉ s.paths := by
  unfold entrySteps
  cases hup : updateFile state f.text g with
  | none => simp
  | some r =>
    obtain ⟨file, state'⟩ := r
    have hmeta := (h.update hg hup).2.1.metaEq
    dsimp only
    split
    · simp [DiskStep.paths, hmeta, hp]
    · simp

variable {dir : Text} {f : FileName} {srv : Server} (h : Placed dir srv.state)

include h

/-- The new text is there only if the old one is in the undo copy. -/
theorem crashes_replaceSteps {view : SsFile} (hview : HasPaths dir f.text view) {g : SsFile → SsFile} (hg : KeepsPaths g)
    {env : Env} {text : Text} (hcrash : d.Crashes (replaceSteps env srv f.text view text g) fs') :
    fs' (dataPath dir f.text) ∈ d.kept (dataPath dir f.text) ∨
      (fs' (dataPath dir f.text) = some text ∧
        fs' (undoPath dir f.text) = some (textAt srv.fs (dataPath dir f.text))) := by
  have hapart := fivePaths dir f
  unfold replaceSteps at hcrash
  rw [hview.dataEq, hview.undoEq, Disk.crashes_append] at hcrash
  -- the first store is elsewhere
  have helsewhere : ∀ s ∈ storeSteps (undoPath dir f.text) (textAt srv.fs (dataPath dir f.text)) env.undoStore,
      dataPath dir f.text ∉ s.paths := paths_storeSteps hapart.undo_data.symm hapart.data_tmpUndo
  rcases hcrash with hcrash | hcrash
  · exact .inl (Disk.crashes_untouched helsewhere hcrash)
  · rw [← (Disk.run_untouched helsewhere).2]
    by_cases hundo : env.undoStore = .done
    · rw [if_pos hundo, hundo] at hcrash
      rw [hundo]
      have hstored := (Disk.run_replaceFile (d := d) hapart.undo_tmp.symm (textAt srv.fs (dataPath dir f.text))).2
      rw [show Disk.replaceFile (tmpPath (undoPath dir f.text)) _ _ =
        storeSteps (undoPath dir f.text) (textAt srv.fs (dataPath dir f.text)) .done from rfl] at hstored
      generalize d.run (storeSteps (undoPath dir f.text) (textAt srv.fs (dataPath dir f.text)) .done) = d₁ at hcrash hstored ⊢
      -- from here on the undo copy is what it is
      have hkept : ∀ s ∈ storeSteps (dataPath dir f.text) text env.dataStore ++
          (if env.dataStore = .done then entrySteps env srv.state f.text g else []), undoPath dir f.text ∉ s.paths := by
        intro s hs
        rw [List.mem_append] at hs
        rcases hs with hs | hs
        · exact paths_storeSteps hapart.undo_data hapart.undo_tmpData s hs
        · split at hs
          · exact paths_entrySteps h hg env hapart.undo_meta s hs
          · cases hs
      have hundo' : fs' (undoPath dir f.text) = some (textAt srv.fs (dataPath dir f.text)) := by
        have hmem := Disk.crashes_untouched hkept hcrash
        rwa [hstored, Set.mem_singleton_iff] at hmem
      rcases crashes_storeThen hapart.data_tmp (paths_entrySteps h hg env hapart.meta_data.symm) hcrash with hold | hnew
      · exact .inl hold
      · exact .inr ⟨hnew, hundo'⟩
    · rw [if_neg hundo] at hcrash
      exact .inl (hcrash _)

theorem crashes_commitSteps {write : OpenWrite} (hfile : write.file = f.text) (hview : HasPaths dir f.text write.view)
    {env : DataEnv} (hcrash : (Disk.settled srv.fs).Crashes (commitSteps env srv write) fs') :
    fs' (dataPath dir f.text) = srv.fs (dataPath dir f.text) ∨
      ∃ merged, writeSessionMerge write.session (textAt srv.fs (dataPath dir f.text)) = .ok merged ∧
        fs' (dataPath dir f.text) = some (joinSentences merged) ∧
        fs' (undoPath dir f.text) = some (textAt srv.fs (dataPath dir f.text)) := by
  unfold commitSteps at hcrash
  split at hcrash
  · exact .inl (hcrash _)
  split at hcrash
  · exact .inl (hcrash _)
  · next merged hmerge =>
    have hkeep : KeepsPaths (commitFields (joinSentences merged) write.user env.now) := fun _ => ⟨rfl, rfl, rfl, rfl⟩
    rw [hview.dataEq] at hmerge
    rw [hfile] at hcrash
    rcases crashes_replaceSteps h hview hkeep hcrash with hold | ⟨hnew, hundo⟩
    · exact .inl hold
    · exact .inr ⟨merged, hmerge, hnew, hundo⟩

theorem crashes_revertSteps {env : Env} {tag user : Text}
    (hcrash : (Disk.settled srv.fs).Crashes (revertSteps env srv f.text tag user) fs') :
    fs' (dataPath dir f.text) = srv.fs (dataPath dir f.text) ∨
      ∃ checkpoint, ssReadCheckpoint env srv f.text tag = .ok checkpoint ∧
        fs' (dataPath dir f.text) = some checkpoint ∧
        fs' (undoPath dir f.text) = some (textAt srv.fs (dataPath dir f.text)) := by
  unfold revertSteps at hcrash
  split at hcrash
  · exact .inl (hcrash _)
  next checkpoint hread =>
  split at hcrash
  · exact .inl (hcrash _)
  next view hview =>
  split at hcrash
  · exact .inl (hcrash _)
  · have hkeep : KeepsPaths (restamp checkpoint user env.now) := fun _ => ⟨rfl, rfl, rfl, rfl⟩
    rw [ssStateFind_eq h.sorted] at hview
    rcases crashes_replaceSteps h (h.hasPaths _ _ hview) hkeep hcrash with hold | ⟨hnew, hundo⟩
    · exact .inl hold
    · exact .inr ⟨checkpoint, hread, hnew, hundo⟩

theorem crashes_undoSteps {env : Env} {user : Text}
    (hcrash : (Disk.settled srv.fs).Crashes (undoSteps env srv f.text user) fs') :
    fs' (dataPath dir f.text) = srv.fs (dataPath dir f.text) ∨
      ∃ text, srv.fs (undoPath dir f.text) = some text ∧ fs' (dataPath dir f.text) = some text := by
  have hapart := fivePaths dir f
  unfold undoSteps at hcrash
  split at hcrash
  · exact .inl (hcrash _)
  next view hview =>
  rw [ssStateFind_eq h.sorted] at hview
  have hpaths := h.hasPaths _ _ hview
  rw [hpaths.dataEq, hpaths.undoEq] at hcrash
  split at hcrash
  · exact .inl (hcrash _)
  split at hcrash
  · exact .inl (hcrash _)
  · next undoText hundo =>
    have hkeep : KeepsPaths (restamp undoText user env.now) := fun _ => ⟨rfl, rfl, rfl, rfl⟩
    have hrest : ∀ s ∈ (if env.undoUnlinked then [.unlink (undoPath dir f.text)] else []) ++
        entrySteps env srv.state f.text (restamp undoText user env.now), dataPath dir f.text ∉ s.paths := by
      intro s hs
      rw [List.mem_append] at hs
      rcases hs with hs | hs
      · split at hs
        · rw [List.mem_singleton.1 hs, DiskStep.paths, List.mem_singleton]
          exact hapart.undo_data.symm
        · cases hs
      · exact paths_entrySteps h hkeep env hapart.meta_data.symm s hs
    rcases crashes_storeThen hapart.data_tmp hrest hcrash with hold | hnew
    · exact .inl hold
    · refine .inr ⟨undoText, ?_, hnew⟩
      unfold loadText at hundo
      split at hundo
      · exact hundo
      · cases hundo

/-- A file that is added is empty, also when its data file is there already. -/
theorem kept_addSteps (owner : Text) (o : AddOutcome) :
    (∀ content ∈ (d.run (addSteps srv.state f.text owner o)).kept (dataPath dir f.text),
        content ∈ d.kept (dataPath dir f.text) ∨ content.getD [] = []) ∧
      (d.Crashes (addSteps srv.state f.text owner o) fs' →
        fs' (dataPath dir f.text) ∈ d.kept (dataPath dir f.text) ∨ textAt fs' (dataPath dir f.text) = []) := by
  have hapart := fivePaths dir f
  have hfile := (h.seated f.text).hasPaths_newFile owner o.now
  have hwrite : ∀ content ∈ (d.step (.write (dataPath dir f.text) [])).kept (dataPath dir f.text),
      content ∈ d.kept (dataPath dir f.text) ∨ content.getD [] = [] := by
    intro content hcontent
    simp only [Disk.step, Function.update_self] at hcontent
    rcases hcontent with hold | ⟨part, hpart, rfl⟩
    · exact .inl hold
    · exact .inr (List.prefix_nil.1 hpart)
  have hunlink : ∀ content ∈ ((d.step (.write (dataPath dir f.text) [])).step (.unlink (dataPath dir f.text))).kept
      (dataPath dir f.text), content.getD [] = [] := by
    intro content hcontent
    simp only [Disk.step, Function.update_self, Set.mem_singleton_iff] at hcontent
    rw [hcontent]
    rfl
  have hsave (text : Text) : ((d.step (.write (dataPath dir f.text) [])).step (.write (metaPath dir f.text) text)).kept
      (dataPath dir f.text) = (d.step (.write (dataPath dir f.text) [])).kept (dataPath dir f.text) := by
    apply (Disk.step_untouched _).2
    rw [DiskStep.paths, List.mem_singleton]
    exact hapart.meta_data.symm
  unfold addSteps
  dsimp only
  rw [hfile.dataEq, hfile.metaEq]
  split
  · exact ⟨fun _ => .inl, fun hcrash => .inl (hcrash _)⟩
  split
  · exact ⟨fun _ => .inl, fun hcrash => .inl (hcrash _)⟩
  split
  · refine ⟨fun content hcontent => .inr (hunlink content hcontent), ?_⟩
    rintro (hcrash | hcrash | hcrash)
    · exact .inl (hcrash _)
    · exact hwrite _ (hcrash _)
    · exact .inr (hunlink _ (hcrash _))
  · constructor
    · intro content hcontent
      apply hwrite
      rwa [← hsave]
    · rintro (hcrash | hcrash | hcrash)
      · exact .inl (hcrash _)
      · exact hwrite _ (hcrash _)
      · apply hwrite
        rw [← hsave]
        exact hcrash _

/-- A file that was added is empty. -/
theorem data_ssStateAdd {owner : Text} {o : AddOutcome} {state : SsState} {fs : Fs}
    (hadd : ssStateAdd srv.state srv.fs f.text owner o = (true, state, fs)) : fs (dataPath dir f.text) = some [] := by
  have hfile := (h.seated f.text).hasPaths_newFile owner o.now
  unfold ssStateAdd at hadd
  dsimp only at hadd
  rw [hfile.dataEq] at hadd
  split at hadd
  · cases hadd
  split at hadd
  · cases hadd
  split at hadd
  · cases hadd
  split at hadd
  · cases hadd
  · cases hadd
    rw [ssStateSaveMeta, if_pos rfl, hfile.metaEq, Fs.write, Function.update_of_ne (fivePaths dir f).meta_data.symm]
    exact Function.update_self ..

theorem crashes_syncSteps {env : Env} {owner content : Text}
    (hcrash : (Disk.settled srv.fs).Crashes (syncSteps env srv f.text owner content) fs') :
    fs' (dataPath dir f.text) = srv.fs (dataPath dir f.text) ∨
      (fs' (dataPath dir f.text) = some content ∧ fs' (undoPath dir f.text) =
        some (if (srv.state.entry f.text).isSome then textAt srv.fs (dataPath dir f.text) else [])) ∨
      (srv.state.entry f.text = none ∧ textAt fs' (dataPath dir f.text) = []) := by
  have hkeep : KeepsPaths (recount content) := fun _ => ⟨rfl, rfl, rfl, rfl⟩
  obtain ⟨htarget, hview⟩ := Changes.syncTarget h env f owner
  unfold syncSteps at hcrash
  cases hentry : srv.state.entry f.text with
  | some view =>
    have hfind := (ssStateFind_eq h.sorted f.text).trans hentry
    have hself : syncTarget env srv f.text owner = (srv, some view) := by
      unfold syncTarget
      rw [hfind]
    rw [hfind, hself] at hcrash
    rw [Option.isSome_some, if_pos rfl]
    rcases crashes_replaceSteps h (h.hasPaths _ _ hentry) hkeep hcrash with hold | ⟨hnew, hundo⟩
    · exact .inl hold
    · exact .inr (.inl ⟨hnew, hundo⟩)
  | none =>
    have hfind := (ssStateFind_eq h.sorted f.text).trans hentry
    obtain ⟨hrun, hadd⟩ := @kept_addSteps (Disk.settled srv.fs) fs' _ _ _ h owner env.add
    rw [hfind, Disk.crashes_append] at hcrash
    rw [Option.isSome_none, if_neg Bool.false_ne_true]
    dsimp only at hcrash
    rcases hcrash with hcrash | hcrash
    · rcases hadd hcrash with hold | hnil
      · exact .inl hold
      · exact .inr (.inr ⟨rfl, hnil⟩)
    · cases hsync : syncTarget env srv f.text owner with
      | mk srv' target =>
        rw [hsync] at hcrash htarget hview
        cases target with
        | none =>
          rcases hrun _ (hcrash _) with hold | hnil
          · exact .inl hold
          · exact .inr (.inr ⟨rfl, hnil⟩)
        | some view =>
          have hfresh : textAt srv'.fs (dataPath dir f.text) = [] := by
            unfold syncTarget at hsync
            rw [hfind] at hsync
            dsimp only at hsync
            split at hsync
            · cases hsync
            · next hadded =>
              obtain ⟨rfl, -⟩ := Prod.mk.inj hsync
              dsimp only [textAt]
              rw [data_ssStateAdd h hadded]
              rfl
          rcases crashes_replaceSteps htarget.placed (hview view rfl) hkeep hcrash with hkept | ⟨hnew, hundo⟩
          · rcases hrun _ hkept with hold | hnil
            · exact .inl hold
            · exact .inr (.inr ⟨rfl, hnil⟩)
          · rw [hfresh] at hundo
            exact .inr (.inl ⟨hnew, hundo⟩)

/-- **A crash leaves a whole text**: the old one, or the new one with the old one in the undo copy; an undo takes the
new one from there. A file that a sync makes is empty in between. -/
theorem crash_keeps_text {write : OpenWrite} (hfile : write.file = f.text) (hview : HasPaths dir f.text write.view)
    (env : DataEnv) (tag user owner content : Text) (fs' : Fs) :
    ((Disk.settled srv.fs).Crashes (commitSteps env srv write) fs' →
      fs' (dataPath dir f.text) = srv.fs (dataPath dir f.text) ∨
        ∃ merged, writeSessionMerge write.session (textAt srv.fs (dataPath dir f.text)) = .ok merged ∧
          fs' (dataPath dir f.text) = some (joinSentences merged) ∧
          fs' (undoPath dir f.text) = some (textAt srv.fs (dataPath dir f.text))) ∧
    ((Disk.settled srv.fs).Crashes (revertSteps env.toEnv srv f.text tag user) fs' →
      fs' (dataPath dir f.text) = srv.fs (dataPath dir f.text) ∨
        ∃ checkpoint, ssReadCheckpoint env.toEnv srv f.text tag = .ok checkpoint ∧
          fs' (dataPath dir f.text) = some checkpoint ∧
          fs' (undoPath dir f.text) = some (textAt srv.fs (dataPath dir f.text))) ∧
    ((Disk.settled srv.fs).Crashes (undoSteps env.toEnv srv f.text user) fs' →
      fs' (dataPath dir f.text) = srv.fs (dataPath dir f.text) ∨
        ∃ text, srv.fs (undoPath dir f.text) = some text ∧ fs' (dataPath dir f.text) = some text) ∧
    ((Disk.settled srv.fs).Crashes (syncSteps env.toEnv srv f.text owner content) fs' →
      fs' (dataPath dir f.text) = srv.fs (dataPath dir f.text) ∨
        (fs' (dataPath dir f.text) = some content ∧ fs' (undoPath dir f.text) =
          some (if (srv.state.entry f.text).isSome then textAt srv.fs (dataPath dir f.text) else [])) ∨
        (srv.state.entry f.text = none ∧ textAt fs' (dataPath dir f.text) = [])) :=
  ⟨crashes_commitSteps h hfile hview, crashes_revertSteps h, crashes_undoSteps h, crashes_syncSteps h⟩

end Crash

/-- The write on the first sentence of the file. -/
def firstWrite : OpenWrite :=
  { file := Text.lit "f", user := Text.lit "u", sentence := 0, view := viewOfF, session := firstEdited (Text.lit "A!") }

/-- A crash after the last step of the commit. -/
theorem crash_keeps_committed : ∃ fs', (Disk.settled twiceSynced.fs).Crashes
      (commitSteps (.allOk 0) twiceSynced firstWrite) fs' ∧
    (fs' (dataPath (Text.lit "/s") (Text.lit "f")) = twiceSynced.fs (dataPath (Text.lit "/s") (Text.lit "f")) ∨
      ∃ merged, writeSessionMerge firstWrite.session
          (textAt twiceSynced.fs (dataPath (Text.lit "/s") (Text.lit "f"))) = .ok merged ∧
        fs' (dataPath (Text.lit "/s") (Text.lit "f")) = some (joinSentences merged) ∧
        fs' (undoPath (Text.lit "/s") (Text.lit "f")) =
          some (textAt twiceSynced.fs (dataPath (Text.lit "/s") (Text.lit "f")))) ∧
    fs' (dataPath (Text.lit "/s") (Text.lit "f")) = some (Text.lit "A!\nB.") := by
  have hpaths : HasPaths (Text.lit "/s") (FileName.text ⟨Text.lit "f", by decide, by decide⟩) firstWrite.view :=
    ⟨rfl, rfl, rfl⟩
  have hcrash := (Disk.leaves_settled twiceSynced.fs).crashes_run (commitSteps (.allOk 0) twiceSynced firstWrite)
  refine ⟨_, hcrash, (crash_keeps_text placed_twiceSynced rfl hpaths (.allOk 0) [] [] [] [] _).1 hcrash, ?_⟩
  rw [now_commitSteps ⟨rfl, rfl⟩]
  decide +kernel

end CoWrite.Ss
