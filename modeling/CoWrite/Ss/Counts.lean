import CoWrite.Ss.Load
import CoWrite.Ss.Undo

/-!
# The counts of a file

The word count and the character count of an entry belong to the text that is stored, whichever operation
stored it, and a server that starts again on its directory has them as they were.

* `length_splitWords`: the loop that counts words and the one that splits them agree.
* `counts_of_run`: in every run of operations on one file and restarts the counts are those of the text; so
  are the ones sent to the name manager, and the one that a stream announces.
-/

namespace CoWrite.Ss

open CoWrite.Lib

/-! ## Counting -/

/-- Inside a word the next word is still to be counted; between words nothing was read. -/
theorem length_splitWordsFrom (word s : Text) :
    (splitWordsFrom word s).length = countWordsFrom (!word.isEmpty) s + if word.isEmpty then 0 else 1 := by
  induction s generalizing word with
  | nil => cases word <;> rfl
  | cons c s ih =>
    rw [splitWordsFrom, countWordsFrom]
    by_cases hc : c ≤ ' '
    · have hblank : isBlank c = true := decide_eq_true hc
      rw [if_pos hblank, if_pos hc, List.length_append, ih]
      cases word with
      | nil => simp [flushWord]
      | cons d word => simp [flushWord, Nat.add_comm]
    · have hblank : ¬ isBlank c = true := by simpa [isBlank] using hc
      rw [if_neg hblank, if_neg hc, ih]
      cases word with
      | nil => simp
      | cons d word => simp

/-- **`split_words` makes as many words as are counted.** -/
theorem length_splitWords (text : Text) : (splitWords text).length = countWords text :=
  length_splitWordsFrom [] text

theorem countWordsFrom_le (inWord : Bool) (s : Text) : countWordsFrom inWord s ≤ s.length := by
  induction s generalizing inWord with
  | nil => exact Nat.le_refl 0
  | cons c s ih =>
    have hf := ih false
    have ht := ih true
    rw [countWordsFrom, List.length_cons]
    split_ifs <;> omega

theorem countWords_le (text : Text) : countWords text ≤ text.length := countWordsFrom_le false text

/-! ## The runs -/

/-- An operation, a reader, or the server starting again. -/
inductive CountEvent where
  | op (operation : Op)
  | read (env : DataEnv) (user : Text)
  | stream (env : DataEnv) (user : Text)
  | restart (o : LoadOutcome)

namespace CountEvent

def step (dir : Text) (file : FileName) (srv : Server) : CountEvent → Server
  | op operation => operation.run srv
  | read env user => (handleRead env srv file.text user).1
  | stream env user => (handleStream env srv file.text user).1
  | restart o => srv.restart o dir

/-- What the name manager is told. -/
def notices (file : FileName) (srv : Server) : CountEvent → List Text
  | op (.commit env file user session) =>
    (commitWrite env srv ⟨file.text, user, session.sentenceIndex, writeView srv.state file, session⟩).2.nm
  | op (.undo env file user) => (performUndo env srv file.text user).2.1
  | op (.revert env file tag user) => (ssRevertCheckpoint env srv file.text tag.text user).2.1
  | op _ => []
  | read env user => (handleRead env srv file.text user).2.nm
  | stream env user => (handleStream env srv file.text user).2.nm
  | restart _ => []

end CountEvent

/-- The calls of the operation succeed. -/
def Op.Smooth : Op → Prop
  | .create _ _ o => o.inserted = true ∧ o.dataOpened = true ∧ o.metaOpened = true
  | .delete _ | .checkpoint _ _ _ => True
  | .commit env _ _ _ => env.Smooth ∧ env.allocated = true
  | .undo env _ _ | .revert env _ _ _ | .sync env _ _ _ => env.Smooth

/-- The event is about the file, its calls succeed, and the text it stores fits a `size_t`. -/
structure CountEvent.Proper (dir : Text) (file : FileName) (srv : Server) (e : CountEvent) : Prop where
  op : ∀ op, e = .op op → op.file.text = file.text ∧ op.Smooth
  read : ∀ env user, e = .read env user → env.Smooth
  stream : ∀ env user, e = .stream env user → env.Smooth
  restart : ∀ o, e = .restart o → o.Smooth ∧ Lists srv.fs (ssStateInit dir).metaDir o.names
  size : ∀ text, (e.step dir file srv).fs (dataPath dir file.text) = some text → text.length < 2 ^ 64

/-- A server that does not have the file. -/
structure CountStarted (dir : Text) (file : FileName) (srv : Server) : Prop where
  placed : Placed dir srv.state
  metas : ValidMetas dir srv.fs
  entry : srv.state.entry file.text = none
  saved : srv.fs (metaPath dir file.text) = none
  size : ∀ text, srv.fs (dataPath dir file.text) = some text → text.length < 2 ^ 64

def countSystem (dir : Text) (file : FileName) : System Server CountEvent where
  init := CountStarted dir file
  step srv e srv' := srv' = e.step dir file srv

/-! ## The invariant -/

/-- The entry has the counts of the text. -/
structure SsFile.Counts (file : SsFile) (text : Text) : Prop where
  words : file.wordCount = countWords text
  chars : file.charCount = text.length

/-- The entry has the counts of the text and so has the meta file; without an entry there is none. -/
def Copy.Counted (c : Copy) : Prop :=
  match c.entry with
  | none => c.saved = none
  | some file => file.Counts c.text ∧ ∃ saved : SsFile, c.saved = some (metaText saved) ∧ saved.Counts c.text

namespace Copy.Counted

variable {c : Copy}

/-- The entry is assigned the counts of the text that is there. -/
theorem update {f : SsFile → SsFile} (hnone : c.entry = none → c.saved = none)
    (hf : ∀ file, c.entry = some file → (f file).Counts c.text) : (c.update f).Counted := by
  unfold Copy.update
  cases hentry : c.entry with
  | none =>
    dsimp only
    rw [Copy.Counted, hentry]
    exact hnone hentry
  | some file => exact ⟨hf file hentry, f file, rfl, hf file hentry⟩

/-- The text is replaced and counted. -/
theorem store {f : SsFile → SsFile} (h : c.Counted) (text : Text) (undo : Option Text)
    (hf : ∀ file, (f file).Counts text) : ((c.store text undo).update f).Counted := by
  apply update
  · intro hentry
    have hentry : c.entry = none := hentry
    rw [Copy.Counted, hentry] at h
    exact h
  · intro file _
    exact hf file

theorem create (dir : Text) (name owner : Text) (now : Int) : (c.create dir name owner now).Counted := by
  have hcounts : (newFile (ssStateInit dir) name owner now).Counts [] := ⟨rfl, rfl⟩
  exact ⟨hcounts, _, rfl, hcounts⟩

/-- A reader assigns no count. -/
theorem touch {f : SsFile → SsFile} (h : c.Counted) (hf : ∀ file, (f file).wordCount = file.wordCount ∧
    (f file).charCount = file.charCount) : (c.update f).Counted := by
  apply update
  · intro hentry
    rw [Copy.Counted, hentry] at h
    exact h
  · intro file hentry
    rw [Copy.Counted, hentry] at h
    exact ⟨(hf file).1.trans h.1.words, (hf file).2.trans h.1.chars⟩

end Copy.Counted

theorem counts_restamp (text user : Text) (now : Int) (file : SsFile) : (restamp text user now file).Counts text := ⟨rfl, rfl⟩

theorem counts_commitFields (text user : Text) (now : Int) (file : SsFile) :
    (commitFields text user now file).Counts text := ⟨rfl, rfl⟩

theorem counts_recount (text : Text) (file : SsFile) : (recount text file).Counts text := ⟨rfl, rfl⟩

structure CountInv (dir : Text) (file : FileName) (srv : Server) : Prop where
  placed : Placed dir srv.state
  metas : ValidMetas dir srv.fs
  counted : (srv.copy dir file.text).Counted
  size : ∀ text, srv.fs (dataPath dir file.text) = some text → text.length < 2 ^ 64

theorem countInv_started {dir : Text} {file : FileName} {srv : Server} (h : CountStarted dir file srv) :
    CountInv dir file srv where
  placed := h.placed
  metas := h.metas
  counted := by
    have hentry : (srv.copy dir file.text).entry = none := h.entry
    rw [Copy.Counted, hentry]
    exact h.saved
  size := h.size

/-! ## What a step does to the copy -/

section Steps

variable {dir : Text} {file : FileName} {srv : Server} (h : CountInv dir file srv)

include h

/-- The entry that a notice was printed from is the entry from then on. -/
def Noticed (file : FileName) (srv : Server) (frames : List Text) : Prop :=
  ∀ frame ∈ frames, ∃ view, srv.state.entry file.text = some view ∧ frame ∈ notifyNmFileUpdate view

omit h in
theorem noticed_nil : Noticed file srv [] := by
  intro frame hframe
  cases hframe

omit h in
theorem Holds.noticed {c : Copy} (hc : Holds dir file.text srv c) {view : SsFile} (hview : c.entry = some view) :
    Noticed file srv (notifyNmFileUpdate view) := by
  intro frame hframe
  have hentry : srv.state.entry file.text = c.entry := congrArg Copy.entry hc.copy
  exact ⟨view, hentry.trans hview, hframe⟩

theorem CountInv.create {o : AddOutcome} (ho : o.inserted = true ∧ o.dataOpened = true ∧ o.metaOpened = true) (owner : Text) :
    ((Op.create file owner o).run srv |>.copy dir file.text).Counted := by
  have hseated := h.placed.seated file.text
  have hcounted := h.counted
  cases hentry : (srv.copy dir file.text).entry with
  | none =>
    have hcopy := (copy_create hseated ho hentry owner).2.copy
    show (Server.copy _ dir file.text).Counted
    simp only [Op.run]
    rw [hcopy]
    exact .create dir file.text owner o.now
  | some view =>
    show (Server.copy _ dir file.text).Counted
    simp only [Op.run, ssStateAdd_exists hseated hentry]
    exact hcounted

theorem CountInv.delete : ((Op.delete file).run srv |>.copy dir file.text).Counted := by
  have hseated := h.placed.seated file.text
  cases hentry : (srv.copy dir file.text).entry with
  | none =>
    have hremove := ssStateRemove_missing hseated hentry
    simp only [Op.run, hremove]
    exact h.counted
  | some view =>
    obtain ⟨state, fs, hremove, hholds⟩ := copy_delete hseated hentry
    simp only [Op.run, hremove]
    rw [hholds.copy]
    exact rfl

theorem CountInv.commit {env : DataEnv} (henv : env.Smooth) (hallocated : env.allocated = true) {write : OpenWrite}
    (hfile : write.file = file.text) (hview : HasPaths dir file.text write.view) :
    ((commitWrite env srv write).1.copy dir file.text).Counted ∧
      Noticed file (commitWrite env srv write).1 (commitWrite env srv write).2.nm := by
  have hseated := h.placed.seated file.text
  cases hmerge : writeSessionMerge write.session (srv.copy dir file.text).text with
  | error e =>
    have hcommit : (commitWrite env srv write).2.nm = [] := by
      have hresult := (commitWrite_conflict henv hallocated hview hmerge).2
      unfold commitWrite
      cases hc : writeSessionCommit env srv.fs write.session write.view with
      | mk fs r =>
        rw [hc] at hresult
        obtain rfl : r = .error e := hresult
        dsimp only
        split <;> rfl
    rw [(commitWrite_conflict henv hallocated hview hmerge).1, hcommit]
    exact ⟨h.counted, noticed_nil⟩
  | ok merged =>
    obtain ⟨hholds, -, hout⟩ := copy_commitWrite hseated henv hallocated hfile hview hmerge
    rw [hholds.copy, hout]
    refine ⟨h.counted.store _ _ fun file => counts_commitFields .., ?_⟩
    cases hentry : (srv.copy dir file.text).entry with
    | none => exact noticed_nil
    | some view =>
      apply hholds.noticed
      simp only [Copy.update, Copy.replace, Copy.store, hentry]

theorem CountInv.undo {env : Env} (henv : env.Smooth) (user : Text) :
    ((performUndo env srv file.text user).1.copy dir file.text).Counted ∧
      Noticed file (performUndo env srv file.text user).1 (performUndo env srv file.text user).2.1 := by
  have hseated := h.placed.seated file.text
  cases hentry : (srv.copy dir file.text).entry with
  | none =>
    have heq : performUndo env srv file.text user = (srv, [], .error .ENOENT) := by
      simp only [performUndo, hseated.find.trans hentry]
    rw [heq]
    exact ⟨h.counted, noticed_nil⟩
  | some view =>
    cases hlock : view.lockActive with
    | true =>
      rw [performUndo_busy hseated hentry user hlock]
      exact ⟨h.counted, noticed_nil⟩
    | false =>
      cases hundo : (srv.copy dir file.text).undo with
      | none =>
        rw [performUndo_none hseated henv hentry user hlock hundo]
        exact ⟨h.counted, noticed_nil⟩
      | some text =>
        obtain ⟨hholds, hout⟩ := copy_performUndo hseated henv hentry user hlock hundo
        rw [hholds.copy, hout]
        refine ⟨h.counted.store _ _ fun file => counts_restamp .., hholds.noticed ?_⟩
        simp only [Copy.update, Copy.store, hentry]

theorem CountInv.revert {env : Env} (henv : env.Smooth) (tag user : Text) :
    ((ssRevertCheckpoint env srv file.text tag user).1.copy dir file.text).Counted ∧
      Noticed file (ssRevertCheckpoint env srv file.text tag user).1
        (ssRevertCheckpoint env srv file.text tag user).2.1 := by
  have hseated := h.placed.seated file.text
  cases hread : ssReadCheckpoint env srv file.text tag with
  | error e =>
    have heq : ssRevertCheckpoint env srv file.text tag user = (srv, [], .error e) := by
      simp only [ssRevertCheckpoint, hread]
    rw [heq]
    exact ⟨h.counted, noticed_nil⟩
  | ok checkpoint =>
    cases hentry : (srv.copy dir file.text).entry with
    | none =>
      have heq : ssRevertCheckpoint env srv file.text tag user = (srv, [], .error env.errno) := by
        simp only [ssRevertCheckpoint, hread, hseated.find.trans hentry]
      rw [heq]
      exact ⟨h.counted, noticed_nil⟩
    | some view =>
      cases hlock : view.lockActive with
      | true =>
        rw [ssRevertCheckpoint_busy hseated hentry hread user hlock]
        exact ⟨h.counted, noticed_nil⟩
      | false =>
        obtain ⟨hholds, hout⟩ := copy_ssRevertCheckpoint hseated henv hentry hread user hlock
        rw [hholds.copy, hout]
        refine ⟨h.counted.store _ _ fun file => counts_restamp .., hholds.noticed ?_⟩
        simp only [Copy.update, Copy.replace, Copy.store, hentry]

theorem CountInv.sync {env : Env} (henv : env.Smooth) (owner content : Text) :
    ((syncFile env srv file.text owner content).1.copy dir file.text).Counted := by
  have hholds := (copy_syncFile (h.placed.seated file.text) henv owner content).1
  rw [hholds.copy]
  apply Copy.Counted.store
  · split
    · exact h.counted
    · exact .create ..
  · intro file
    exact counts_recount ..

/-- A reader leaves its access time, or nothing. -/
theorem CountInv.touched {env : DataEnv} (henv : env.Smooth) (user : Text) :
    ((touchFile env srv file.text user).1.copy dir file.text).Counted ∧
      Noticed file (touchFile env srv file.text user).1 (touchFile env srv file.text user).2.1 := by
  have hseated := h.placed.seated file.text
  have hholds := copy_touchFile hseated henv user
  refine ⟨?_, ?_⟩
  · rw [hholds.copy]
    exact h.counted.touch fun _ => ⟨rfl, rfl⟩
  · cases hentry : (srv.copy dir file.text).entry with
    | none =>
      have hnone : (touchFile env srv file.text user).2.1 = [] := by
        unfold touchFile
        dsimp only
        rw [(updateFile_eq_none h.placed.sorted).2 hentry]
      rw [hnone]
      exact noticed_nil
    | some view =>
      have hsome : (touchFile env srv file.text user).2.1 = notifyNmFileUpdate
          { view with lastAccess := env.now, lastAccessUser := Text.copyTo SS_USER_MAX user } := by
        unfold touchFile
        dsimp only
        cases hup : updateFile srv.state file.text fun file =>
            { file with lastAccess := env.now, lastAccessUser := Text.copyTo SS_USER_MAX user } with
        | none =>
          rw [updateFile_eq_none h.placed.sorted] at hup
          exact absurd (hup.symm.trans hentry) (by simp)
        | some p =>
          obtain ⟨new, state⟩ := p
          obtain ⟨old, hold, rfl, -⟩ := updateFile_some h.placed.sorted (by intro; rfl) hup
          obtain rfl : view = old := Option.some.inj (hentry.symm.trans hold)
          rfl
      rw [hsome]
      apply hholds.noticed
      simp only [Copy.update, hentry]

end Steps

/-! ## The meta directory -/

section Metas

theorem validChars_append {s t : Text} (h : validChars (s ++ t) = true) : validChars s = true := by
  induction s with
  | nil => rfl
  | cons c s ih =>
    rw [List.cons_append] at h
    simp only [validChars, Bool.and_eq_true] at h ⊢
    obtain ⟨⟨⟨hdots, hslash⟩, hrange⟩, hrest⟩ := h
    refine ⟨⟨⟨?_, hslash⟩, hrange⟩, ih hrest⟩
    cases s with
    | nil => simp
    | cons d s => exact hdots

/-- What stands before `.meta` in a valid name is a valid name. -/
theorem validName_of_append {p e : Text} (h : validName (p ++ '.' :: e) = true) : validName p = true := by
  cases p with
  | nil => cases h
  | cons c p =>
    rw [List.cons_append] at h
    simp only [validName, Bool.and_eq_true] at h ⊢
    exact ⟨h.1, validChars_append (t := '.' :: e) h.2⟩

variable {dir : Text} {file : FileName} {fs fs' : Fs}

/-- A path is not where a meta file of an invalid name would be. -/
def PathValid (dir path : Text) : Prop :=
  ∀ p, '/' ∉ p → path = (ssStateInit dir).metaDir ++ '/' :: (p ++ Text.lit ".meta") →
    validName p = true ∧ p.length < SS_NAME_MAX

theorem ValidMetas.writes (h : ValidMetas dir fs) {ws : List Text} (hws : ∀ path ∈ ws, PathValid dir path)
    (hfs : Writes ws fs fs') : ValidMetas dir fs' := by
  intro p hp hhead hstored
  by_cases hmem : (ssStateInit dir).metaDir ++ '/' :: (p ++ Text.lit ".meta") ∈ ws
  · exact hws _ hmem p hp rfl
  · rw [hfs _ hmem] at hstored
    exact h p hp hhead hstored

/-- What stands behind the last slash of the path decides. -/
theorem pathValid_of_last {D x : Text} (hx : '/' ∉ x)
    (hlast : ∀ p, x = p ++ Text.lit ".meta" → validName p = true ∧ p.length < SS_NAME_MAX) :
    PathValid dir (D ++ '/' :: x) := by
  intro p hp heq
  apply hlast
  apply append_slash_right_inj hx _ heq
  simp [hp, Text.lit]

/-- A name with another ending is no meta file. -/
theorem append_ne_meta {name e : Text} (he : e.getLast? ≠ some 'a') (hne : e ≠ []) (p : Text) :
    name ++ e ≠ p ++ Text.lit ".meta" := by
  intro heq
  have hlast := congrArg List.getLast? heq
  rw [List.getLast?_append_of_ne_nil _ hne, List.getLast?_append_of_ne_nil _ (by decide)] at hlast
  exact he hlast

theorem pathValid_files : PathValid dir (dataPath dir file.text) ∧ PathValid dir (metaPath dir file.text) ∧
    PathValid dir (undoPath dir file.text) ∧ PathValid dir (tmpPath (dataPath dir file.text)) ∧
    PathValid dir (tmpPath (undoPath dir file.text)) := by
  obtain ⟨hd, hm, hu, hdt, hut⟩ := paths_eq dir file
  have hs := slash_not_mem file
  rw [hdt, hut, hd, hm, hu]
  refine ⟨pathValid_of_last hs ?_, pathValid_of_last ?_ ?_, pathValid_of_last ?_ ?_, pathValid_of_last ?_ ?_,
    pathValid_of_last ?_ ?_⟩
  · intro p hp
    have hvalid := file.valid
    have hshort := file.short
    rw [hp] at hvalid hshort
    rw [List.length_append] at hshort
    exact ⟨validName_of_append hvalid, Nat.lt_of_le_of_lt (Nat.le_add_right _ _) hshort⟩
  · simp [hs, Text.lit]
  · intro p hp
    obtain rfl := List.append_cancel_right hp
    exact ⟨file.valid, file.short⟩
  · simp [hs, Text.lit]
  · intro p hp
    exact absurd hp (append_ne_meta (by decide) (by decide) p)
  · simp [hs, Text.lit]
  · intro p hp
    exact absurd hp (append_ne_meta (by decide) (by decide) p)
  · simp [hs, Text.lit]
  · intro p hp
    exact absurd hp (append_ne_meta (by decide) (by decide) p)

theorem pathValid_checkpoint {tag : FileName} : ∀ path ∈ [checkpointPath dir file.text tag.text,
    tmpPath (checkpointPath dir file.text tag.text)], PathValid dir path := by
  intro path hpath p hp heq
  have hslash : '/' ∉ p ++ Text.lit ".meta" := by simp [hp, Text.lit]
  exact absurd heq (checkpointPaths_ne hpath hslash).2.1

/-- The paths of an operation. -/
theorem pathValid_op (op : Op) : ∀ path ∈ op.paths dir, PathValid dir path := by
  have hreplaced (file : FileName) : ∀ path ∈ replacedPaths dir file.text, PathValid dir path := by
    obtain ⟨hd, hm, hu, hdt, hut⟩ := @pathValid_files dir file
    intro path hpath
    simp only [replacedPaths, List.mem_cons, List.not_mem_nil, or_false] at hpath
    rcases hpath with rfl | rfl | rfl | rfl | rfl
    · exact hd
    · exact hdt
    · exact hu
    · exact hut
    · exact hm
  cases op with
  | create file owner o =>
    intro path hpath
    apply hreplaced file
    simp only [Op.paths, List.mem_cons, List.not_mem_nil, or_false] at hpath
    rcases hpath with rfl | rfl <;> simp [replacedPaths]
  | delete file =>
    intro path hpath
    apply hreplaced file
    simp only [Op.paths, List.mem_cons, List.not_mem_nil, or_false] at hpath
    rcases hpath with rfl | rfl | rfl <;> simp [replacedPaths]
  | undo env file user =>
    intro path hpath
    apply hreplaced file
    simp only [Op.paths, List.mem_cons, List.not_mem_nil, or_false] at hpath
    rcases hpath with rfl | rfl | rfl | rfl <;> simp [replacedPaths]
  | commit env file user session => exact hreplaced file
  | revert env file tag user => exact hreplaced file
  | sync env file owner content => exact hreplaced file
  | checkpoint env file tag => exact pathValid_checkpoint

end Metas

/-! ## Readers -/

theorem changes_touchFile {dir : Text} {srv : Server} (h : Placed dir srv.state) (name : Text) (env : DataEnv) (user : Text) :
    Changes dir name [metaPath dir name] srv (touchFile env srv name user).1 := by
  unfold touchFile
  dsimp only
  split
  · exact .refl h
  · next hup =>
    refine .update h ?_ hup env.metaOpened List.mem_cons_self
    exact fun _ => ⟨rfl, rfl, rfl, rfl⟩

/-- A read touches the file or does nothing. -/
theorem handleRead_touch (env : DataEnv) (srv : Server) (name user : Text) :
    ((handleRead env srv name user).1 = srv ∧ (handleRead env srv name user).2.nm = []) ∨
      ((handleRead env srv name user).1 = (touchFile env srv name user).1 ∧
        (handleRead env srv name user).2.nm = (touchFile env srv name user).2.1) := by
  unfold handleRead
  split
  · exact .inl ⟨rfl, rfl⟩
  split
  · exact .inl ⟨rfl, rfl⟩
  split
  · exact .inl ⟨rfl, rfl⟩
  · dsimp only
    split
    · exact .inr ⟨rfl, rfl⟩
    · exact .inr ⟨rfl, rfl⟩

theorem handleStream_touch (env : DataEnv) (srv : Server) (name user : Text) :
    ((handleStream env srv name user).1 = srv ∧ (handleStream env srv name user).2.nm = []) ∨
      ((handleStream env srv name user).1 = (touchFile env srv name user).1 ∧
        (handleStream env srv name user).2.nm = (touchFile env srv name user).2.1) := by
  unfold handleStream
  split
  · exact .inl ⟨rfl, rfl⟩
  split
  · exact .inl ⟨rfl, rfl⟩
  · dsimp only
    split
    · exact .inl ⟨rfl, rfl⟩
    split
    · exact .inl ⟨rfl, rfl⟩
    split
    · exact .inl ⟨rfl, rfl⟩
    · exact .inr ⟨rfl, rfl⟩

/-! ## Every step -/

section Step

variable {dir : Text} {file : FileName} {srv : Server}

/-- The entry of a counted file is loaded with its counts. -/
theorem counts_loadFile {fs : Fs} {o : LoadOutcome} (ho : o.Smooth) {saved : SsFile}
    (hsaved : fs (metaPath dir file.text) = some (metaText saved))
    (hcounts : saved.Counts ((fs (dataPath dir file.text)).getD []))
    (hsize : ((fs (dataPath dir file.text)).getD []).length < 2 ^ 64) :
    ∃ view, loadFile o (ssStateInit dir) fs file.text = some view ∧
      view.Counts ((fs (dataPath dir file.text)).getD []) := by
  have hpaths := (hasPaths_blankFile (show { ssStateInit dir with files := [] } = ssStateInit dir from rfl) file.text).2
  have hwords : saved.wordCount < 2 ^ 64 := by
    rw [hcounts.words]
    exact Nat.lt_of_le_of_lt (countWords_le _) hsize
  have hchars : saved.charCount < 2 ^ 64 := by
    rw [hcounts.chars]
    exact hsize
  obtain ⟨hw, hc⟩ := counts_loadMetaFile (blankFile (ssStateInit dir) file.text) saved hwords hchars
  have hmeta : loadText fs (blankFile (ssStateInit dir) file.text).metaPath
      (o.opened (blankFile (ssStateInit dir) file.text).metaPath) = some (metaText saved) := by
    rw [loadText, ho.opened, if_pos rfl, hpaths.metaEq]
    exact hsaved
  have hkeep := keepsPaths_loadMetaFile (metaText saved) (blankFile (ssStateInit dir) file.text)
  unfold loadFile
  simp only [hmeta, Option.map_some]
  refine ⟨_, rfl, ?_⟩
  have hloaded : (loadMetaFile (blankFile (ssStateInit dir) file.text) (metaText saved)).Counts
      ((fs (dataPath dir file.text)).getD []) := ⟨hw.trans hcounts.words, hc.trans hcounts.chars⟩
  have hdata : (loadMetaFile (blankFile (ssStateInit dir) file.text) (metaText saved)).dataPath =
      dataPath dir file.text := hkeep.2.1.trans hpaths.dataEq
  rw [hdata, loadText, ho.opened, if_pos rfl, ho.memory]
  generalize loadMetaFile (blankFile (ssStateInit dir) file.text) (metaText saved) = loaded at hloaded
  cases hstored : fs (dataPath dir file.text) with
  | none =>
    rw [hstored] at hloaded
    constructor
    · split <;> exact hloaded.words
    · split <;> exact hloaded.chars
  | some text =>
    rw [hstored] at hloaded
    constructor
    · split
      · rfl
      · exact hloaded.words
    · split
      · rfl
      · exact hloaded.chars

variable (h : CountInv dir file srv)

include h

theorem CountInv.text_size : (srv.copy dir file.text).text.length < 2 ^ 64 := by
  show ((srv.fs (dataPath dir file.text)).getD []).length < 2 ^ 64
  cases hdata : srv.fs (dataPath dir file.text) with
  | none => exact Nat.two_pow_pos 64
  | some text => exact h.size text hdata

/-- The copy after the server has started again. -/
theorem CountInv.restart {o : LoadOutcome} (ho : o.Smooth) (hlist : Lists srv.fs (ssStateInit dir).metaDir o.names) :
    Placed dir (srv.restart o dir).state ∧ ((srv.restart o dir).copy dir file.text).Counted ∧
      ∀ view, srv.state.entry file.text = some view → ∃ view',
        (srv.restart o dir).state.entry file.text = some view' ∧ view'.Counts (srv.copy dir file.text).text := by
  obtain ⟨hplaced, hentries⟩ := load_spec ho h.metas hlist
  have hcounted := h.counted
  have hentry := hentries file
  refine ⟨hplaced, ?_⟩
  cases hview : (srv.copy dir file.text).entry with
  | none =>
    rw [Copy.Counted, hview] at hcounted
    have hsaved : srv.fs (metaPath dir file.text) = none := hcounted
    rw [hsaved] at hentry
    have hnone : ((srv.restart o dir).copy dir file.text).entry = none := hentry
    refine ⟨?_, ?_⟩
    · rw [Copy.Counted, hnone]
      exact hsaved
    · intro view hsome
      exact absurd (hview.symm.trans hsome) (by simp)
  | some view =>
    rw [Copy.Counted, hview] at hcounted
    obtain ⟨-, saved, hsaved, hcounts⟩ := hcounted
    have hsaved' : srv.fs (metaPath dir file.text) = some (metaText saved) := hsaved
    obtain ⟨view', hload, hcounts'⟩ := counts_loadFile ho hsaved' hcounts h.text_size
    rw [hsaved', Option.isSome_some, if_pos rfl, hload] at hentry
    have hsome : ((srv.restart o dir).copy dir file.text).entry = some view' := hentry
    refine ⟨?_, ?_⟩
    · rw [Copy.Counted, hsome]
      exact ⟨hcounts', saved, hsaved, hcounts⟩
    · intro view _
      exact ⟨view', hentry, hcounts'⟩

/-- An operation keeps the counts, and what the name manager is told of it. -/
theorem CountInv.op {op : Op} (hop : op.file.text = file.text) (hsmooth : op.Smooth) :
    ((op.run srv).copy dir file.text).Counted ∧ Noticed file (op.run srv) (CountEvent.notices file srv (.op op)) := by
  obtain ⟨file', hfile'⟩ : ∃ file', op.file = file' := ⟨_, rfl⟩
  obtain rfl : file' = file := by
    cases file'
    cases file
    rw [hfile'] at hop
    cases hop
    rfl
  cases op with
  | create file owner o =>
    cases hfile'
    exact ⟨h.create hsmooth owner, noticed_nil⟩
  | delete file =>
    cases hfile'
    exact ⟨h.delete, noticed_nil⟩
  | commit env file user session =>
    cases hfile'
    let write : OpenWrite := ⟨file.text, user, session.sentenceIndex, writeView srv.state file, session⟩
    have hfile : write.file = file.text := rfl
    exact h.commit hsmooth.1 hsmooth.2 hfile (h.placed.fillPaths _)
  | undo env file user =>
    cases hfile'
    exact h.undo hsmooth user
  | revert env file tag user =>
    cases hfile'
    exact h.revert hsmooth tag.text user
  | sync env file owner content =>
    cases hfile'
    exact ⟨h.sync hsmooth owner content, noticed_nil⟩
  | checkpoint env file tag =>
    cases hfile'
    refine ⟨?_, noticed_nil⟩
    show ((ssCreateCheckpoint env srv file.text tag.text).1.copy dir file.text).Counted
    rw [(copy_checkpoint h.placed env tag).1]
    exact h.counted

theorem CountInv.step {e : CountEvent} (hproper : e.Proper dir file srv) :
    CountInv dir file (e.step dir file srv) ∧ Noticed file (e.step dir file srv) (e.notices file srv) := by
  have hmetaWs : ∀ path ∈ [metaPath dir file.text], PathValid dir path := by
    intro path hpath
    rw [List.mem_singleton.1 hpath]
    exact pathValid_files.2.1
  cases e with
  | op op =>
    obtain ⟨hfile, hsmooth⟩ := hproper.op op rfl
    have hchanges := Op.changes h.placed op
    obtain ⟨hcounted, hnoticed⟩ := h.op hfile hsmooth
    exact ⟨⟨hchanges.placed, h.metas.writes (pathValid_op op) hchanges.writes, hcounted, hproper.size⟩, hnoticed⟩
  | read env user =>
    have htouch := changes_touchFile h.placed file.text env user
    obtain ⟨hcounted, hnoticed⟩ := h.touched (hproper.read env user rfl) user
    have hsize := hproper.size
    simp only [CountEvent.step, CountEvent.notices] at hsize ⊢
    rcases handleRead_touch env srv file.text user with ⟨hsrv, hnm⟩ | ⟨hsrv, hnm⟩
    · rw [hsrv, hnm]
      exact ⟨h, noticed_nil⟩
    · rw [hsrv] at hsize ⊢
      rw [hnm]
      exact ⟨⟨htouch.placed, h.metas.writes hmetaWs htouch.writes, hcounted, hsize⟩, hnoticed⟩
  | stream env user =>
    have htouch := changes_touchFile h.placed file.text env user
    obtain ⟨hcounted, hnoticed⟩ := h.touched (hproper.stream env user rfl) user
    have hsize := hproper.size
    simp only [CountEvent.step, CountEvent.notices] at hsize ⊢
    rcases handleStream_touch env srv file.text user with ⟨hsrv, hnm⟩ | ⟨hsrv, hnm⟩
    · rw [hsrv, hnm]
      exact ⟨h, noticed_nil⟩
    · rw [hsrv] at hsize ⊢
      rw [hnm]
      exact ⟨⟨htouch.placed, h.metas.writes hmetaWs htouch.writes, hcounted, hsize⟩, hnoticed⟩
  | restart o =>
    obtain ⟨ho, hlist⟩ := hproper.restart o rfl
    obtain ⟨hplaced, hcounted, -⟩ := h.restart ho hlist
    exact ⟨⟨hplaced, h.metas, hcounted, h.size⟩, noticed_nil⟩

/-- A stream announces the number of words that the entry has. -/
theorem CountInv.stream {view : SsFile} (hview : srv.state.entry file.text = some view) {env : DataEnv}
    (henv : env.Smooth) (hallocated : env.allocated = true) (user : Text) :
    ∃ frames, (handleStream env srv file.text user).2.client = sendOk (streamExtra view.wordCount) ++ frames := by
  have hcounted := h.counted
  have hentry : (srv.copy dir file.text).entry = some view := hview
  rw [Copy.Counted, hentry] at hcounted
  have hseated := h.placed.seated file.text
  have hwords : (splitWords (srv.copy dir file.text).text).length = view.wordCount := by
    rw [length_splitWords, hcounted.1.words]
  have hshort : ¬ (streamExtra view.wordCount).length ≥ 256 := by
    have hnum := length_printNat_size (n := view.wordCount) (by
      rw [hcounted.1.words]
      exact Nat.lt_of_le_of_lt (countWords_le _) h.text_size)
    simp [streamExtra, printFields, printField, Value.print, Text.lit]
    omega
  have hcurrent := (hseated.hasPaths view hview).currentText henv srv
  simp only [handleStream, hseated.find.trans hentry, hcurrent, hallocated, Bool.not_true, Bool.false_eq_true, if_false,
    hwords, if_neg hshort]
  split
  · exact ⟨[], (List.append_nil _).symm⟩
  · exact ⟨_, List.append_assoc _ _ _⟩

end Step

/-! ## The result -/

/-- **The counts of a file are those of its text**, in the table, after every restart, in what a stream
announces and in what the name manager is told. -/
theorem counts_of_run {dir : Text} {file : FileName} {tr : List (Server × CountEvent)} {srv : Server}
    (h : (countSystem dir file).Run tr srv) (hG : System.Meets (fun srv e => e.Proper dir file srv) tr) :
    (∀ view, srv.state.entry file.text = some view →
      view.wordCount = (splitWords (srv.copy dir file.text).text).length ∧
      view.charCount = (srv.copy dir file.text).text.length ∧
      (∀ o, o.Smooth → Lists srv.fs (ssStateInit dir).metaDir o.names → ∃ view',
        (srv.restart o dir).state.entry file.text = some view' ∧
          view'.wordCount = view.wordCount ∧ view'.charCount = view.charCount) ∧
      (∀ env user, env.Smooth → env.allocated = true → ∃ frames,
        (handleStream env srv file.text user).2.client = sendOk (streamExtra view.wordCount) ++ frames)) ∧
    System.Meets (fun srv e => ∀ frame ∈ e.notices file srv, ∃ view,
      frame ∈ notifyNmFileUpdate view ∧
      view.wordCount = (splitWords ((e.step dir file srv).copy dir file.text).text).length ∧
      view.charCount = ((e.step dir file srv).copy dir file.text).text.length) tr := by
  have hinit : ∀ srv, (countSystem dir file).init srv → CountInv dir file srv := fun _ => countInv_started
  have hstep : ∀ srv e srv', CountInv dir file srv → e.Proper dir file srv → (countSystem dir file).step srv e srv' →
      CountInv dir file srv' := by
    intro srv e srv' hI hproper hs
    rw [show srv' = e.step dir file srv from hs]
    exact (hI.step hproper).1
  have hI := h.invariant hinit hstep hG
  -- an entry has the counts of its text
  have hcounts {srv : Server} (hI : CountInv dir file srv) {view : SsFile}
      (hview : srv.state.entry file.text = some view) : view.Counts (srv.copy dir file.text).text := by
    have hcounted := hI.counted
    have hentry : (srv.copy dir file.text).entry = some view := hview
    rw [Copy.Counted, hentry] at hcounted
    exact hcounted.1
  refine ⟨?_, ?_⟩
  · intro view hview
    have hc := hcounts hI hview
    refine ⟨?_, hc.chars, ?_, ?_⟩
    · rw [length_splitWords, hc.words]
    · intro o ho hlist
      obtain ⟨view', hview', hc'⟩ := (hI.restart ho hlist).2.2 view hview
      exact ⟨view', hview', hc'.words.trans hc.words.symm, hc'.chars.trans hc.chars.symm⟩
    · intro env user henv hallocated
      exact hI.stream hview henv hallocated user
  · refine System.Run.steps hinit hstep ?_ h hG
    intro srv e hI hproper frame hframe
    obtain ⟨hI', hnoticed⟩ := hI.step hproper
    obtain ⟨view, hview, hprinted⟩ := hnoticed frame hframe
    have hc := hcounts hI' hview
    refine ⟨view, hprinted, ?_, hc.chars⟩
    rw [length_splitWords, hc.words]

/-- A file is made and takes over a text of two words. -/
theorem counts_two_words : ∃ tr srv view, (countSystem (Text.lit "/s") ⟨Text.lit "g", by decide, by decide⟩).Run tr srv ∧
    tr.length = 2 ∧ srv.state.entry (Text.lit "g") = some view ∧
    (srv.copy (Text.lit "/s") (Text.lit "g")).text = Text.lit "Two words" ∧
    view.wordCount = (splitWords (srv.copy (Text.lit "/s") (Text.lit "g")).text).length := by
  let file : FileName := ⟨Text.lit "g", by decide, by decide⟩
  have hstarted : CountStarted (Text.lit "/s") file ⟨ssStateInit (Text.lit "/s"), fun _ => none, []⟩ := by
    refine ⟨Placed.init _, ?_, rfl, rfl, ?_⟩
    · intro p _ _ hstored
      cases hstored
    · intro text htext
      cases htext
  let create : CountEvent := .op (.create file (Text.lit "u") ⟨0, true, true, true⟩)
  let sync : CountEvent := .op (.sync (.allOk 0) file (Text.lit "u") (Text.lit "Two words"))
  have hrun := ((System.Run.start (S := countSystem (Text.lit "/s") file) hstarted).step (e := create) rfl).step
    (e := sync) rfl
  have hproper {srv : Server} {op : Op} (hop : op.file.text = file.text) (hsmooth : op.Smooth)
      (hsize : ∀ text, (op.run srv).fs (dataPath (Text.lit "/s") file.text) = some text → text.length < 2 ^ 64) :
      CountEvent.Proper (Text.lit "/s") file srv (.op op) := by
    refine ⟨?_, ?_, ?_, ?_, hsize⟩
    · intro op' h
      cases h
      exact ⟨hop, hsmooth⟩
    · intro _ _ h
      cases h
    · intro _ _ h
      cases h
    · intro _ h
      cases h
  have hdecide {t : Option Text} (ht : (t.map fun text => decide (text.length < 2 ^ 64)) = some true) :
      ∀ text, t = some text → text.length < 2 ^ 64 := by
    rintro text rfl
    exact of_decide_eq_true (Option.some.inj ht)
  have hcounts := (counts_of_run hrun ?_).1
  · obtain ⟨view, hview⟩ := Option.isSome_iff_exists.1
      (show (((sync.step (Text.lit "/s") file (create.step (Text.lit "/s") file
        ⟨ssStateInit (Text.lit "/s"), fun _ => none, []⟩)).state.entry file.text).isSome = true) by decide +kernel)
    exact ⟨_, _, view, hrun, rfl, hview, by decide +kernel, (hcounts view hview).1⟩
  · simp only [System.meets_cons]
    refine ⟨hproper rfl (Env.smooth_allOk 0) (hdecide (by decide +kernel)),
      hproper rfl ⟨rfl, rfl, rfl⟩ (hdecide (by decide +kernel)), by simp [System.Meets]⟩

end CoWrite.Ss
