import CoWrite.Ss.Cleanup
import CoWrite.Ss.Updates

/-!
# What a failed operation leaves

`store_text_atomic` replaces one file or leaves it alone. A commit and a revert store the undo copy and then the
text, so a failure between the two leaves the old text with a new undo copy; an undo stores the text alone.
`failed_intact_iff` says when an operation that reports a failure has changed nothing.
-/

namespace CoWrite.Ss

open CoWrite.Lib

/-- The text and the undo copy are what they were. -/
def Intact (dir name : Text) (fs fs' : Fs) : Prop :=
  fs' (dataPath dir name) = fs (dataPath dir name) ∧ fs' (undoPath dir name) = fs (undoPath dir name)

/-- The text that is loaded becomes the undo copy, which was another, and the text behind it is not stored. -/
structure StopsHalfway (env : Env) (dir name : Text) (fs : Fs) (current : Text) : Prop where
  loaded : currentText env fs (dataPath dir name) = some current
  undo : env.undoStore = .done
  data : env.dataStore ≠ .done
  lost : fs (undoPath dir name) ≠ some current

/-! ## Two stores -/

/-- The undo copy and then the text, as a commit and a revert store them. -/
def storeBoth (env : Env) (fs : Fs) (view : SsFile) (current text : Text) : Bool × Fs :=
  match storeTextAtomic fs view.undoPath current env.undoStore with
  | (false, fs) => (false, fs)
  | (true, fs) => storeTextAtomic fs view.dataPath text env.dataStore

section Stores

variable {dir : Text} {f : FileName} {fs fs' : Fs} {content : Text} {o : StoreOutcome} {ok : Bool}

/-- The text is not where the undo copy is. -/
theorem undo_storeData (hstore : storeTextAtomic fs (dataPath dir f.text) content o = (ok, fs')) :
    fs' (undoPath dir f.text) = fs (undoPath dir f.text) := by
  have hapart := fivePaths dir f
  have hwrites : Writes [dataPath dir f.text, tmpPath (dataPath dir f.text)] fs fs' :=
    writes_of_store hstore (by simp) (by simp)
  apply hwrites
  simp only [List.mem_cons, List.not_mem_nil, or_false, not_or]
  exact ⟨hapart.undo_data, hapart.undo_tmpData⟩

variable {env : Env} {view : SsFile} (hview : HasPaths dir f.text view) {current text : Text}

include hview

/-- A failure of the first store leaves both files, and one of the second leaves the text. -/
theorem intact_storeBoth (hfail : storeBoth env fs view current text = (false, fs')) :
    Intact dir f.text fs fs' ↔ (env.undoStore = .done → fs (undoPath dir f.text) = some current) := by
  have hapart := fivePaths dir f
  unfold storeBoth at hfail
  rw [hview.undoEq, hview.dataEq] at hfail
  have hfst := storeTextAtomic_fst fs (undoPath dir f.text) current env.undoStore
  cases hundo : storeTextAtomic fs (undoPath dir f.text) current env.undoStore with
  | mk done fs₁ =>
    rw [hundo] at hfail hfst
    have hdata₁ : fs₁ (dataPath dir f.text) = fs (dataPath dir f.text) := data_storeUndo hundo
    cases done with
    | false =>
      cases hfail
      have hnot : env.undoStore ≠ .done := fun hdone => Bool.false_ne_true (hfst.2 hdone)
      refine iff_of_true ⟨hdata₁, storeTextAtomic_failed hundo hapart.undo_tmp⟩ ?_
      intro hdone
      exact absurd hdone hnot
    | true =>
      have hstored : fs₁ (undoPath dir f.text) = some current := stored_of_store hundo
      have hundo' : fs' (undoPath dir f.text) = some current := (undo_storeData hfail).trans hstored
      have hdata' : fs' (dataPath dir f.text) = fs (dataPath dir f.text) :=
        (storeTextAtomic_failed hfail hapart.data_tmp).trans hdata₁
      constructor
      · rintro ⟨-, hsame⟩ -
        exact hsame.symm.trans hundo'
      · intro hlost
        exact ⟨hdata', hundo'.trans (hlost (hfst.1 rfl)).symm⟩

end Stores

theorem storeBoth_fst (env : Env) (fs : Fs) (view : SsFile) (current text : Text) :
    (storeBoth env fs view current text).1 = true ↔ env.undoStore = .done ∧ env.dataStore = .done := by
  have hfst := storeTextAtomic_fst fs view.undoPath current env.undoStore
  unfold storeBoth
  cases hundo : storeTextAtomic fs view.undoPath current env.undoStore with
  | mk done fs₁ =>
    rw [hundo] at hfst
    cases done with
    | false =>
      refine iff_of_false Bool.false_ne_true ?_
      rintro ⟨hdone, -⟩
      exact Bool.false_ne_true (hfst.2 hdone)
    | true =>
      rw [storeTextAtomic_fst]
      exact (and_iff_right (hfst.1 rfl)).symm

/-! ## The operations by their stores -/

theorem writeSessionCommit_eq (env : DataEnv) (fs : Fs) (session : WriteSession) (view : SsFile) :
    writeSessionCommit env fs session view =
      match currentText env.toEnv fs view.dataPath with
      | none => (fs, .error env.errno)
      | some current =>
        if !env.allocated then (fs, .error env.errno)
        else
          match writeSessionMerge session current with
          | .error e => (fs, .error e)
          | .ok merged =>
            match storeBoth env.toEnv fs view current (joinSentences merged) with
            | (false, fs) => (fs, .error env.errno)
            | (true, fs) => (fs, .ok (joinSentences merged)) := by
  unfold writeSessionCommit
  cases currentText env.toEnv fs view.dataPath with
  | none => rfl
  | some current =>
    dsimp only
    cases env.allocated with
    | false => rfl
    | true =>
      cases writeSessionMerge session current with
      | error e => rfl
      | ok merged =>
        dsimp only [storeBoth]
        rcases storeTextAtomic fs view.undoPath current env.undoStore with ⟨_ | _, fs₁⟩ <;> rfl

theorem ssRevertCheckpoint_eq (env : Env) (srv : Server) (fileName tag user : Text) :
    ssRevertCheckpoint env srv fileName tag user =
      match ssReadCheckpoint env srv fileName tag with
      | .error e => (srv, [], .error e)
      | .ok checkpoint =>
        match (ssStateFind srv.state fileName).1 with
        | none => (srv, [], .error env.errno)
        | some view =>
          if view.lockActive then (srv, [], .error .EBUSY)
          else
            match currentText env srv.fs view.dataPath with
            | none => (srv, [], .error .other)
            | some current =>
              match storeBoth env srv.fs view current checkpoint with
              | (false, fs) => ({ srv with fs := fs }, [], .error env.errno)
              | (true, fs) => restampFile env { srv with fs := fs } fileName user checkpoint := by
  unfold ssRevertCheckpoint
  cases ssReadCheckpoint env srv fileName tag with
  | error e => rfl
  | ok checkpoint =>
    cases (ssStateFind srv.state fileName).1 with
    | none => rfl
    | some view =>
      dsimp only
      cases view.lockActive with
      | true => rfl
      | false =>
        cases currentText env srv.fs view.dataPath with
        | none => rfl
        | some current =>
          dsimp only [storeBoth]
          rcases storeTextAtomic srv.fs view.undoPath current env.undoStore with ⟨_ | _, fs₁⟩ <;> rfl

/-- The commit comes to its stores if it finds the place. -/
theorem merge_ok_iff (session : WriteSession) (current : Text) :
    (∃ merged, writeSessionMerge session current = .ok merged) ↔ ¬ Conflicts session (splitSentences current) := by
  rw [← commitIndex_eq_none_iff]
  unfold writeSessionMerge commitIndex
  cases session.baselineSentence.filter (· ≠ []) with
  | none => exact iff_of_true ⟨_, rfl⟩ nofun
  | some baseline =>
    dsimp only
    by_cases hfound : locate session baseline (splitSentences current) ≥ 0
    · rw [if_pos hfound, if_pos hfound]
      exact iff_of_true ⟨_, rfl⟩ nofun
    · rw [if_neg hfound, if_neg hfound]
      refine iff_of_false ?_ (by simp)
      rintro ⟨_, hok⟩
      cases hok

section Operations

variable {dir : Text} {f : FileName}

theorem Intact.refl (dir name : Text) (fs : Fs) : Intact dir name fs fs := ⟨rfl, rfl⟩

/-- What the two stores come to, by what they were given. -/
theorem storeBoth_cases {view : SsFile} (hview : HasPaths dir f.text view) {env : Env} {fs : Fs} {current : Text}
    (hload : currentText env fs view.dataPath = some current) (text : Text) :
    (∃ fs', storeBoth env fs view current text = (true, fs') ∧ ¬ StopsHalfway env dir f.text fs current) ∨
      ∃ fs', storeBoth env fs view current text = (false, fs') ∧
        (Intact dir f.text fs fs' ↔ ¬ StopsHalfway env dir f.text fs current) := by
  have hfst := storeBoth_fst env fs view current text
  cases hstore : storeBoth env fs view current text with
  | mk done fs' =>
    rw [hstore] at hfst
    cases done with
    | true =>
      refine .inl ⟨fs', rfl, ?_⟩
      intro h
      exact h.data (hfst.1 rfl).2
    | false =>
      refine .inr ⟨fs', rfl, ?_⟩
      rw [intact_storeBoth hview hstore]
      have hnot : ¬ (env.undoStore = .done ∧ env.dataStore = .done) := fun hdone => Bool.false_ne_true (hfst.2 hdone)
      constructor
      · intro hsame h
        exact h.lost (hsame h.undo)
      · intro h hundo
        by_contra hlost
        have hdata : env.dataStore ≠ .done := fun hdata => hnot ⟨hundo, hdata⟩
        exact h ⟨by rw [← hview.dataEq, hload], hundo, hdata, hlost⟩

theorem commit_intact_iff {view : SsFile} (hview : HasPaths dir f.text view) (env : DataEnv) (fs : Fs)
    (session : WriteSession) :
    (∀ e, (writeSessionCommit env fs session view).2 = .error e →
        Intact dir f.text fs (writeSessionCommit env fs session view).1) ↔
      ¬ (env.allocated = true ∧ ∃ current, StopsHalfway env.toEnv dir f.text fs current ∧
        ¬ Conflicts session (splitSentences current)) := by
  rw [writeSessionCommit_eq]
  -- no text or no memory: nothing is stored
  cases hload : currentText env.toEnv fs view.dataPath with
  | none =>
    refine iff_of_true (fun _ _ => .refl ..) ?_
    rintro ⟨-, current, h, -⟩
    have hloaded := h.loaded
    rw [← hview.dataEq, hload] at hloaded
    cases hloaded
  | some current =>
    cases hallocated : env.allocated with
    | false => exact iff_of_true (fun _ _ => .refl ..) (by simp)
    | true =>
      have hcurrent {text : Text} (h : StopsHalfway env.toEnv dir f.text fs text) : text = current := by
        have hloaded := h.loaded
        rw [← hview.dataEq, hload] at hloaded
        exact (Option.some.inj hloaded).symm
      have hok := merge_ok_iff session current
      dsimp only
      rw [Bool.not_true, if_neg Bool.false_ne_true]
      cases hmerge : writeSessionMerge session current with
      | error e =>
        -- a conflict stores nothing
        refine iff_of_true (fun _ _ => .refl ..) ?_
        rintro ⟨-, text, h, hfree⟩
        rw [hcurrent h] at hfree
        obtain ⟨merged, hmerged⟩ := hok.2 hfree
        rw [hmerge] at hmerged
        cases hmerged
      | ok merged =>
        have hfree := hok.1 ⟨merged, hmerge⟩
        have hhalf : (true = true ∧ ∃ text, StopsHalfway env.toEnv dir f.text fs text ∧
            ¬ Conflicts session (splitSentences text)) ↔ StopsHalfway env.toEnv dir f.text fs current := by
          constructor
          · rintro ⟨-, text, h, -⟩
            exact hcurrent h ▸ h
          · intro h
            exact ⟨rfl, current, h, hfree⟩
        rw [hhalf]
        dsimp only
        rcases storeBoth_cases hview hload (joinSentences merged) with ⟨fs', hstore, hnot⟩ | ⟨fs', hstore, hiff⟩
        · rw [hstore]
          exact iff_of_true nofun hnot
        · rw [hstore, ← hiff]
          exact ⟨fun h => h _ rfl, fun h _ _ => h⟩

theorem revert_intact_iff {srv : Server} (h : Placed dir srv.state) (env : Env) (tag user : Text) :
    (∀ e, (ssRevertCheckpoint env srv f.text tag user).2.2 = .error e →
        Intact dir f.text srv.fs (ssRevertCheckpoint env srv f.text tag user).1.fs) ↔
      ¬ ((∃ checkpoint, ssReadCheckpoint env srv f.text tag = .ok checkpoint) ∧
        (∃ view, srv.state.entry f.text = some view ∧ view.lockActive = false) ∧
        ∃ current, StopsHalfway env dir f.text srv.fs current) := by
  have hstate : ∀ fs : Fs, ({ srv with fs := fs } : Server).state = srv.state := fun _ => rfl
  rw [ssRevertCheckpoint_eq]
  cases ssReadCheckpoint env srv f.text tag with
  | error e => exact iff_of_true (fun _ _ => .refl ..) (by simp)
  | ok checkpoint =>
    rw [← ssStateFind_eq h.sorted]
    cases hentry : (ssStateFind srv.state f.text).1 with
    | none => exact iff_of_true (fun _ _ => .refl ..) (by simp)
    | some view =>
      have hview := h.hasPaths f.text view ((ssStateFind_eq h.sorted _).symm.trans hentry)
      dsimp only
      cases hlock : view.lockActive with
      | true =>
        refine iff_of_true (fun _ _ => .refl ..) ?_
        rintro ⟨-, ⟨view', hview', hfree⟩, -⟩
        cases hview'
        exact absurd hfree (by simp [hlock])
      | false =>
        cases hload : currentText env srv.fs view.dataPath with
        | none =>
          refine iff_of_true (fun _ _ => .refl ..) ?_
          rintro ⟨-, -, current, hhalf⟩
          have hloaded := hhalf.loaded
          rw [← hview.dataEq, hload] at hloaded
          cases hloaded
        | some current =>
          have hhalf : ((∃ text, Except.ok checkpoint = (Except.ok text : Except Errno Text)) ∧
              (∃ view', some view = some view' ∧ view'.lockActive = false) ∧
              ∃ text, StopsHalfway env dir f.text srv.fs text) ↔ StopsHalfway env dir f.text srv.fs current := by
            constructor
            · rintro ⟨-, -, text, hhalf⟩
              have hloaded := hhalf.loaded
              rw [← hview.dataEq, hload] at hloaded
              cases hloaded
              exact hhalf
            · intro hhalf
              exact ⟨⟨checkpoint, rfl⟩, ⟨view, rfl, hlock⟩, current, hhalf⟩
          rw [hhalf]
          dsimp only
          rw [if_neg Bool.false_ne_true]
          rcases storeBoth_cases hview hload checkpoint with ⟨fs', hstore, hnot⟩ | ⟨fs', hstore, hiff⟩
          · -- an entry that is there is restamped
            have hdone := restampFile_ok env { srv with fs := fs' } (hstate fs' ▸ hentry) user checkpoint
            rw [hstore]
            dsimp only
            rw [hdone]
            exact iff_of_true nofun hnot
          · rw [hstore, ← hiff]
            exact ⟨fun h => h _ rfl, fun h _ _ => h⟩

/-- An undo that fails has stored nothing. -/
theorem undo_intact {srv : Server} (h : Placed dir srv.state) (env : Env) (user : Text) {e : Errno}
    (hfail : (performUndo env srv f.text user).2.2 = .error e) :
    Intact dir f.text srv.fs (performUndo env srv f.text user).1.fs := by
  have hapart := fivePaths dir f
  unfold performUndo at hfail ⊢
  cases hentry : (ssStateFind srv.state f.text).1 with
  | none => exact .refl ..
  | some view =>
    have hview := h.hasPaths f.text view ((ssStateFind_eq h.sorted _).symm.trans hentry)
    rw [hentry] at hfail
    dsimp only at hfail ⊢
    cases hlock : view.lockActive with
    | true => exact .refl ..
    | false =>
      cases hundo : loadText srv.fs view.undoPath env.undoLoad with
      | none => exact .refl ..
      | some undoText =>
        cases hload : currentText env srv.fs view.dataPath with
        | none => exact .refl ..
        | some current =>
          rw [hlock, hundo, hload] at hfail
          dsimp only at hfail ⊢
          rw [if_neg Bool.false_ne_true] at hfail ⊢
          cases hstore : storeTextAtomic srv.fs view.dataPath undoText env.dataStore with
          | mk done fs =>
            cases done with
            | false =>
              rw [hview.dataEq] at hstore
              exact ⟨storeTextAtomic_failed hstore hapart.data_tmp, undo_storeData hstore⟩
            | true =>
              rw [hstore] at hfail
              dsimp only at hfail
              have hdone := restampFile_ok env ⟨srv.state, if env.undoUnlinked then fs.unlink view.undoPath else fs,
                srv.tickets⟩ hentry user undoText
              rw [hdone] at hfail
              cases hfail

/-- **A failure leaves the text and the undo copy as they were**, an undo always, a commit and a revert exactly if they
do not stop between two stores. -/
theorem failed_intact_iff {srv : Server} (h : Placed dir srv.state) {view : SsFile} (hview : HasPaths dir f.text view)
    (env : DataEnv) (session : WriteSession) (tag user : Text) :
    ((∀ e, (writeSessionCommit env srv.fs session view).2 = .error e →
        Intact dir f.text srv.fs (writeSessionCommit env srv.fs session view).1) ↔
      ¬ (env.allocated = true ∧ ∃ current, StopsHalfway env.toEnv dir f.text srv.fs current ∧
        ¬ Conflicts session (splitSentences current))) ∧
    ((∀ e, (ssRevertCheckpoint env.toEnv srv f.text tag user).2.2 = .error e →
        Intact dir f.text srv.fs (ssRevertCheckpoint env.toEnv srv f.text tag user).1.fs) ↔
      ¬ ((∃ checkpoint, ssReadCheckpoint env.toEnv srv f.text tag = .ok checkpoint) ∧
        (∃ entry, srv.state.entry f.text = some entry ∧ entry.lockActive = false) ∧
        ∃ current, StopsHalfway env.toEnv dir f.text srv.fs current)) ∧
    ∀ e, (performUndo env.toEnv srv f.text user).2.2 = .error e →
      Intact dir f.text srv.fs (performUndo env.toEnv srv f.text user).1.fs :=
  ⟨commit_intact_iff hview env srv.fs session, revert_intact_iff h env.toEnv tag user,
    fun _ => undo_intact h env.toEnv user⟩

end Operations

theorem valid_f : validName (Text.lit "f") = true := by decide

theorem short_f : (Text.lit "f").length < 128 := by decide

/-- The file `f` with the text `A. B.` and the undo copy `A.`. -/
def twiceSynced : Server :=
  let f : FileName := ⟨Text.lit "f", valid_f, short_f⟩
  let start : Server := ⟨ssStateInit (Text.lit "/s"), fun _ => none, []⟩
  [Op.create f ['u'] ⟨0, true, true, true⟩, .sync (.allOk 0) f ['u'] (Text.lit "A."),
    .sync (.allOk 0) f ['u'] (Text.lit "A. B.")].foldl (fun srv op => op.run srv) start

theorem placed_twiceSynced : Placed (Text.lit "/s") twiceSynced.state := by
  unfold twiceSynced
  simp only [List.foldl_cons, List.foldl_nil]
  apply Changes.placed
  apply Op.changes
  apply Changes.placed
  apply Op.changes
  apply Changes.placed
  apply Op.changes
  exact .init _

/-- The undo copy cannot be opened. -/
def undoUnopened : DataEnv := { DataEnv.allOk 0 with undoStore := .openFailed }

theorem failed_intact_unopened :
    (writeSessionCommit undoUnopened twiceSynced.fs (firstEdited (Text.lit "A!")) viewOfF).2 = .error .other ∧
      Intact (Text.lit "/s") (Text.lit "f") twiceSynced.fs
        (writeSessionCommit undoUnopened twiceSynced.fs (firstEdited (Text.lit "A!")) viewOfF).1 := by
  have hpaths : HasPaths (Text.lit "/s") (FileName.text ⟨Text.lit "f", by decide, by decide⟩) viewOfF := ⟨rfl, rfl, rfl⟩
  have hfail : (writeSessionCommit undoUnopened twiceSynced.fs (firstEdited (Text.lit "A!")) viewOfF).2 =
      .error .other := by
    decide +kernel
  refine ⟨hfail, (failed_intact_iff placed_twiceSynced hpaths undoUnopened (firstEdited (Text.lit "A!")) [] []).1.2
    ?_ _ hfail⟩
  rintro ⟨-, current, hhalf, -⟩
  cases hhalf.undo

/-- The data file cannot be opened. -/
def dataUnopened : DataEnv := { DataEnv.allOk 0 with dataStore := .openFailed }

/-- The commit fails, and the undo copy is the text that is still there. -/
theorem failed_loses_undo : ∃ session, Begun (Text.lit "A. B.") 0 session ∧
    (writeSessionCommit dataUnopened twiceSynced.fs session viewOfF).2 = .error .other ∧
    twiceSynced.fs viewOfF.undoPath = some (Text.lit "A.") ∧
    (writeSessionCommit dataUnopened twiceSynced.fs session viewOfF).1 viewOfF.undoPath = some (Text.lit "A. B.") ∧
    (writeSessionCommit dataUnopened twiceSynced.fs session viewOfF).1 viewOfF.dataPath = some (Text.lit "A. B.") := by
  have hbegun : Begun (Text.lit "A. B.") 0 (firstEdited (Text.lit "A!")) :=
    ⟨[], [.replace 0 (Text.lit "A!")], _, rfl, by decide⟩
  refine ⟨_, hbegun, ?_⟩
  decide +kernel

end CoWrite.Ss
