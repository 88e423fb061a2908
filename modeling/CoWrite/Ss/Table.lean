import Mathlib.Data.List.Sort
import CoWrite.Ss.Counts

/-!
# The table over a run, and after it

Files are added and removed, by `ss_state_add` and `ss_state_remove`, from an empty directory or from a table
that was loaded.

* `exact_step`, `searchable_of_sorted`: whatever the calls answer, the table stays sorted, the two searches
  agree on it, and an operation changes exactly the entry it is about, or nothing.
* `reloaded_of_run`: the meta files that the run left make the same names again, in any order of `readdir`,
  unless a text was written over a meta file. That takes a storage directory whose four directories are cut
  off to one.
-/

namespace CoWrite.Ss

open CoWrite.Lib

/-! ## The runs -/

inductive TableEvent where
  | add (name owner : Text) (o : AddOutcome)
  | remove (name : Text)

namespace TableEvent

def step (srv : Server) : TableEvent → Server
  | add name owner o =>
    let added := ssStateAdd srv.state srv.fs name owner o
    { srv with state := added.2.1, fs := added.2.2 }
  | remove name =>
    match ssStateRemove srv.state srv.fs name with
    | none => srv
    | some (state, fs) => { srv with state := state, fs := fs }

/-- The decoder of the caller hands over a name of the table. -/
def Decoded : TableEvent → Prop
  | add name _ _ => name.length < SS_NAME_MAX
  | remove _ => True

/-- The caller has checked the name. -/
def Checked : TableEvent → Prop
  | add name _ _ => validName name = true
  | remove _ => True

def name : TableEvent → Text
  | add name _ _ => name
  | remove name => name

/-- The event comes to the files. -/
def Touches (srv : Server) : TableEvent → Prop
  | add name _ o => (ssStateFind srv.state name).1 = none ∧ o.inserted = true ∧ o.dataOpened = true
  | remove name => (ssStateFind srv.state name).1.isSome = true

/-- The text of the file is not stored where the meta file of another belongs. -/
def Separate (dir : Text) (srv : Server) (e : TableEvent) : Prop :=
  dir.length ≤ 253 ∨ ¬ Text.lit ".meta" <:+ e.name ∨ ¬ e.Touches srv

/-- The event changes the entry of its name, at the place that the search found, or nothing. -/
def Exact (srv : Server) : TableEvent → Prop
  | add name owner o => ∃ found idx, ssStateFind srv.state name = (found, idx) ∧
      (newFile srv.state name owner o.now).name = name ∧
      ((ssStateAdd srv.state srv.fs name owner o).1 = true ↔
        found = none ∧ o.inserted = true ∧ o.dataOpened = true ∧ o.metaOpened = true) ∧
      ((add name owner o).step srv).state = if (ssStateAdd srv.state srv.fs name owner o).1 = true then
        { srv.state with files := srv.state.files.insertIdx idx (newFile srv.state name owner o.now) }
        else srv.state
  | remove name => ∃ found idx, ssStateFind srv.state name = (found, idx) ∧
      ((remove name).step srv).state = if found.isSome = true then
        { srv.state with files := srv.state.files.eraseIdx idx } else srv.state

end TableEvent

/-- A server on an empty directory, or one that has loaded its table. -/
inductive TableStarted (dir : Text) : Server → Prop where
  | empty {fs : Fs} (h : ∀ p, '/' ∉ p → fs ((ssStateInit dir).metaDir ++ '/' :: (p ++ Text.lit ".meta")) = none) :
      TableStarted dir ⟨ssStateInit dir, fs, []⟩
  | loaded {srv : Server} {o : LoadOutcome} (ho : o.Smooth) (hmetas : ValidMetas dir srv.fs)
      (hlist : Lists srv.fs (ssStateInit dir).metaDir o.names) : TableStarted dir (srv.restart o dir)

def tableSystem (dir : Text) : System Server TableEvent where
  init := TableStarted dir
  step srv e srv' := e.Decoded ∧ srv' = e.step srv

/-- The table is sorted; a search returns the entry of the name, or the place of the name. -/
structure SsState.Searchable (state : SsState) : Prop where
  sorted : state.files.Pairwise fun a b => a.name < b.name
  found : ∀ name file idx, ssStateFind state name = (some file, idx) →
    state.files[idx]? = some file ∧ file.name = name
  missing : ∀ name idx, ssStateFind state name = (none, idx) →
    name ∉ state.files.map SsFile.name ∧ SortedList.Cut SsFile.name state.files name idx

/-! ## The table -/

theorem searchable_of_sorted {state : SsState} (hs : state.Sorted) : state.Searchable where
  sorted := hs
  found _ _ _ h := ssStateFind_some hs h
  missing name idx h := by
    have hcut := ssStateFind_none hs h
    refine ⟨?_, hcut⟩
    intro hmem
    obtain ⟨file, hfile, rfl⟩ := List.mem_map.1 hmem
    exact SortedList.lookup_eq_none_iff.1 hcut.lookup_eq_none file hfile rfl

theorem sorted_step {srv : Server} (hs : srv.state.Sorted) {e : TableEvent} (he : e.Decoded) :
    (e.step srv).state.Sorted := by
  cases e with
  | add name owner o => exact (ssStateAdd_state hs srv.fs he owner o).1
  | remove name =>
    have hremove := ssStateRemove_state hs srv.fs name
    simp only [TableEvent.step]
    cases h : ssStateRemove srv.state srv.fs name with
    | none => exact hs
    | some removed =>
      rw [h] at hremove
      exact hremove.1

/-- **An event changes exactly its entry.** The undo of an add erases at the index of the first search; that
the second one has inserted there is `SortedList.Cut.unique`. -/
theorem exact_step {srv : Server} (hs : srv.state.Sorted) {e : TableEvent} (he : e.Decoded) : e.Exact srv := by
  cases e with
  | add name owner o =>
    have hnew : (newFile srv.state name owner o.now).name = name := Text.copyTo_eq_self he
    cases hfind : ssStateFind srv.state name with
    | mk found idx =>
      refine ⟨found, idx, hfind, hnew, ?_⟩
      cases found with
      | some file => simp [TableEvent.step, ssStateAdd, hfind]
      | none =>
        have hcut := ssStateFind_none hs hfind
        have hnone := SortedList.lookup_eq_none_iff.1 hcut.lookup_eq_none
        have hidx := SortedList.lowerBound_spec hs hnone
        have hins : insertSorted srv.state (newFile srv.state name owner o.now) =
            { srv.state with files := srv.state.files.insertIdx idx (newFile srv.state name owner o.now) } := by
          rw [insertSorted, hnew, hidx.unique hcut]
        simp only [TableEvent.step, ssStateAdd, hfind]
        cases o.inserted <;> cases o.dataOpened <;> cases o.metaOpened <;> simp [hins]
  | remove name =>
    cases hfind : ssStateFind srv.state name with
    | mk found idx =>
      refine ⟨found, idx, hfind, ?_⟩
      cases found with
      | none => simp [TableEvent.step, ssStateRemove, hfind]
      | some file => simp [TableEvent.step, ssStateRemove, hfind]

/-- An event that does not come to the files changes nothing. -/
theorem step_idle {srv : Server} (hs : srv.state.Sorted) {e : TableEvent} (he : e.Decoded) (h : ¬ e.Touches srv) :
    e.step srv = srv := by
  cases e with
  | add name owner o =>
    simp only [TableEvent.step, ssStateAdd]
    cases hfind : ssStateFind srv.state name with
    | mk found idx =>
      have hidle : ¬ (found = none ∧ o.inserted = true ∧ o.dataOpened = true) := by
        simpa [TableEvent.Touches, hfind] using h
      cases found with
      | some file => rfl
      | none =>
        dsimp only
        cases hinserted : o.inserted with
        | false => rfl
        | true =>
          cases hdata : o.dataOpened with
          | true => exact absurd ⟨rfl, hinserted, hdata⟩ hidle
          | false =>
            have hnew : (newFile srv.state name owner o.now).name = name := Text.copyTo_eq_self he
            have hplace : ssStateFind srv.state (newFile srv.state name owner o.now).name = (none, idx) := by
              rw [hnew]
              exact hfind
            have hdel := eraseIdx_insertSorted hs hplace
            simp [hdel]
  | remove name =>
    simp only [TableEvent.step, ssStateRemove]
    cases hfind : ssStateFind srv.state name with
    | mk found idx =>
      cases found with
      | none => rfl
      | some file => exact absurd (by simp [TableEvent.Touches, hfind]) h

/-! ## The meta files -/

/-- A text is stored in place of a meta file only where the directories were cut off. -/
theorem dataPath_ne_metaPath {dir : Text} {f g : FileName} (h : dir.length ≤ 253 ∨ ¬ Text.lit ".meta" <:+ f.text) :
    dataPath dir f.text ≠ metaPath dir g.text := by
  have hslash : '/' ∉ g.text ++ Text.lit ".meta" := by simp [slash_not_mem g, Text.lit]
  rw [(paths_eq dir f).1, (paths_eq dir g).2.1]
  intro heq
  have hname := append_slash_right_inj (slash_not_mem f) hslash heq
  rcases h with hdir | hmeta
  · rw [hname] at heq
    have hdirs : (dir ++ Text.lit "/files").take 255 = (dir ++ Text.lit "/meta").take 255 :=
      List.append_cancel_right heq
    -- the first letters behind the storage directory are kept
    have hletter := congrArg (fun t => t[dir.length + 1]?) hdirs
    simp only [List.getElem?_take, if_pos (show dir.length + 1 < 255 by omega),
      List.getElem?_append_right (Nat.le_add_right _ _), Nat.add_sub_cancel_left] at hletter
    exact absurd hletter (by decide)
  · exact hmeta ⟨g.text, hname.symm⟩

theorem undoPath_ne_metaPath {dir : Text} (f g : FileName) : undoPath dir f.text ≠ metaPath dir g.text := by
  rw [(paths_eq dir f).2.2.1, (paths_eq dir g).2.1]
  intro heq
  have hname := append_slash_right_inj (by simp [slash_not_mem f, Text.lit]) (by simp [slash_not_mem g, Text.lit]) heq
  exact append_ne_meta (by decide) (by decide) _ hname

theorem metaPath_inj {dir : Text} {f g : FileName} : metaPath dir f.text = metaPath dir g.text ↔ f.text = g.text := by
  rw [(paths_eq dir f).2.1, (paths_eq dir g).2.1]
  refine ⟨?_, fun h => by rw [h]⟩
  intro heq
  have hname := append_slash_right_inj (by simp [slash_not_mem f, Text.lit]) (by simp [slash_not_mem g, Text.lit]) heq
  exact List.append_cancel_right hname

/-- Besides the text an add writes the meta file, when it succeeds. -/
theorem ssStateAdd_fs (state : SsState) (fs : Fs) (name owner : Text) (o : AddOutcome) (path : Text)
    (hdata : path ≠ (newFile state name owner o.now).dataPath) :
    (ssStateAdd state fs name owner o).2.2 path =
      if (ssStateAdd state fs name owner o).1 = true ∧ path = (newFile state name owner o.now).metaPath then
        some (metaText (newFile state name owner o.now)) else fs path := by
  unfold ssStateAdd
  split
  · simp
  split
  · simp
  dsimp only
  split
  · simp
  split
  · simp [Fs.write, Fs.unlink, Function.update_of_ne hdata]
  · rcases eq_or_ne path (newFile state name owner o.now).metaPath with rfl | hmeta
    · simp [ssStateSaveMeta, Fs.write]
    · simp [ssStateSaveMeta, Fs.write, Function.update_of_ne hdata, hmeta]

/-- The meta files are those of the entries. -/
structure Reloadable (dir : Text) (srv : Server) : Prop where
  placed : Placed dir srv.state
  metas : ValidMetas dir srv.fs
  stored : ∀ f : FileName, (srv.fs (metaPath dir f.text)).isSome = (srv.state.entry f.text).isSome

/-- The names that a load makes are those of the meta files. -/
theorem isSome_entry_load {dir : Text} {srv : Server} {o : LoadOutcome} (ho : o.Smooth) (hmetas : ValidMetas dir srv.fs)
    (hlist : Lists srv.fs (ssStateInit dir).metaDir o.names) (f : FileName) :
    ((srv.restart o dir).state.entry f.text).isSome = (srv.fs (metaPath dir f.text)).isSome := by
  have hentry := (load_spec ho hmetas hlist).2 f
  have hload : (loadFile o (ssStateInit dir) srv.fs f.text).isSome = (srv.fs (metaPath dir f.text)).isSome := by
    have hpath : (blankFile (ssStateInit dir) f.text).metaPath = metaPath dir f.text := rfl
    simp [loadFile, hpath, loadText, ho.opened]
  show (SsState.entry (ssStateLoad o (ssStateInit dir) srv.fs) f.text).isSome = _
  rw [hentry]
  split
  · exact hload
  · next hmissing => simpa using hmissing

theorem Reloadable.started {dir : Text} {srv : Server} (h : TableStarted dir srv) : Reloadable dir srv := by
  cases h with
  | @empty fs hempty =>
    refine ⟨.init dir, ?_, ?_⟩
    · intro p hp _ hstored
      exact absurd (congrArg Option.isSome (hempty p hp)) (by simp only [hstored]; decide)
    · intro f
      have hmeta := (paths_eq dir f).2.1
      show (fs (metaPath dir f.text)).isSome = _
      rw [hmeta, hempty f.text (slash_not_mem f)]
      rfl
  | loaded ho hmetas hlist =>
    exact ⟨(load_spec ho hmetas hlist).1, hmetas, fun f => (isSome_entry_load ho hmetas hlist f).symm⟩

/-- Neither path of an add is a meta file without a valid name. -/
theorem pathValid_add {dir : Text} {f : FileName} : ∀ path ∈ [dataPath dir f.text, metaPath dir f.text],
    PathValid dir path := by
  obtain ⟨hd, hm, -⟩ := @pathValid_files dir f
  rintro path (_ | ⟨_, _ | ⟨_, hmem⟩⟩)
  · exact hd
  · exact hm
  · cases hmem

section Steps

variable {dir : Text} {srv : Server} (h : Reloadable dir srv)

include h

theorem Reloadable.add {f : FileName} (hseparate : dir.length ≤ 253 ∨ ¬ Text.lit ".meta" <:+ f.text) (owner : Text)
    (o : AddOutcome) : Reloadable dir ((TableEvent.add f.text owner o).step srv) := by
  have hpaths : HasPaths dir f.text (newFile srv.state f.text owner o.now) := h.placed.fillPaths _
  have hchanges : Changes dir f.text [dataPath dir f.text, metaPath dir f.text] srv _ :=
    Changes.add h.placed f owner o List.mem_cons_self (List.mem_cons_of_mem _ List.mem_cons_self)
  have hentries := (ssStateAdd_state h.placed.sorted srv.fs f.short owner o).2
  refine ⟨hchanges.placed, h.metas.writes ?_ hchanges.writes, ?_⟩
  · exact pathValid_add
  · intro g
    have hfs := ssStateAdd_fs srv.state srv.fs f.text owner o (metaPath dir g.text) (by
      rw [hpaths.dataEq]
      exact (dataPath_ne_metaPath hseparate).symm)
    simp only [hpaths.metaEq, metaPath_inj] at hfs
    show ((ssStateAdd srv.state srv.fs f.text owner o).2.2 (metaPath dir g.text)).isSome =
      (SsState.entry (ssStateAdd srv.state srv.fs f.text owner o).2.1 g.text).isSome
    rw [hfs, hentries]
    split
    · rfl
    · exact h.stored g

theorem Reloadable.remove {name : Text} (hseparate : dir.length ≤ 253 ∨ ¬ Text.lit ".meta" <:+ name) :
    Reloadable dir ((TableEvent.remove name).step srv) := by
  simp only [TableEvent.step]
  cases hremove : ssStateRemove srv.state srv.fs name with
  | none => exact h
  | some removed =>
    obtain ⟨state, fs⟩ := removed
    have hspec := ssStateRemove_state h.placed.sorted srv.fs name
    rw [hremove] at hspec
    -- the entry that is removed has a name that was checked
    obtain ⟨f, rfl⟩ : ∃ f : FileName, f.text = name := by
      have hsome : (srv.state.entry name).isSome := by
        rw [← ssStateFind_eq h.placed.sorted]
        unfold ssStateRemove at hremove
        split at hremove
        · cases hremove
        · next hfind => simp [hfind]
      obtain ⟨hvalid, hshort⟩ := h.placed.named name hsome
      exact ⟨⟨name, hvalid, hshort⟩, rfl⟩
    have hchanges : Changes dir f.text [dataPath dir f.text, metaPath dir f.text, undoPath dir f.text] srv _ :=
      Changes.remove h.placed hremove (List.Subset.refl _)
    obtain ⟨file, hentry, rfl⟩ : ∃ file, srv.state.entry f.text = some file ∧
        ((srv.fs.unlink file.dataPath).unlink file.metaPath).unlink file.undoPath = fs := by
      unfold ssStateRemove at hremove
      split at hremove
      · cases hremove
      · next file idx hfind =>
        cases hremove
        exact ⟨file, by rw [← ssStateFind_eq h.placed.sorted, hfind], rfl⟩
    have hpaths := h.placed.hasPaths _ _ hentry
    refine ⟨hchanges.placed, h.metas.writes ?_ hchanges.writes, ?_⟩
    · obtain ⟨hd, hm, hu, -⟩ := @pathValid_files dir f
      rintro path (_ | ⟨_, _ | ⟨_, _ | ⟨_, hmem⟩⟩⟩)
      · exact hd
      · exact hm
      · exact hu
      · cases hmem
    · intro g
      show ((((srv.fs.unlink file.dataPath).unlink file.metaPath).unlink file.undoPath) (metaPath dir g.text)).isSome =
        (state.entry g.text).isSome
      rw [hspec.2 g.text, hpaths.dataEq, hpaths.metaEq, hpaths.undoEq, Fs.unlink,
        Function.update_of_ne (undoPath_ne_metaPath f g).symm]
      split
      · next heq =>
        rw [heq, Fs.unlink, Function.update_self]
        rfl
      · next hne =>
        rw [Fs.unlink, Function.update_of_ne (mt metaPath_inj.1 hne), Fs.unlink,
          Function.update_of_ne (dataPath_ne_metaPath hseparate).symm]
        exact h.stored g

theorem Reloadable.step {e : TableEvent} (hdecoded : e.Decoded) (hchecked : e.Checked) (hseparate : e.Separate dir srv) :
    Reloadable dir (e.step srv) := by
  by_cases htouch : e.Touches srv
  · have hplace : dir.length ≤ 253 ∨ ¬ Text.lit ".meta" <:+ e.name :=
      hseparate.imp_right fun hname => hname.resolve_right (not_not_intro htouch)
    cases e with
    | add name owner o => exact h.add (f := ⟨name, hchecked, hdecoded⟩) hplace owner o
    | remove name => exact h.remove hplace
  · rw [step_idle h.placed.sorted hdecoded htouch]
    exact h

end Steps

/-! ## The results -/

/-- Sorted lists of the same names. -/
theorem names_restart {dir : Text} {srv : Server} (h : Reloadable dir srv) {o : LoadOutcome} (ho : o.Smooth)
    (hlist : Lists srv.fs (ssStateInit dir).metaDir o.names) :
    (srv.restart o dir).state.files.map SsFile.name = srv.state.files.map SsFile.name := by
  have hplaced : Placed dir (srv.restart o dir).state := (load_spec ho h.metas hlist).1
  refine SortedList.map_key_eq hplaced.sorted h.placed.sorted ?_
  intro name
  show ((srv.restart o dir).state.entry name).isSome = (srv.state.entry name).isSome
  -- only a name that was checked is in one of the tables
  by_cases hname : validName name = true ∧ name.length < SS_NAME_MAX
  · let f : FileName := ⟨name, hname.1, hname.2⟩
    exact (isSome_entry_load ho h.metas hlist f).trans (h.stored f)
  · rw [Bool.eq_false_iff.2 fun hsome => hname (hplaced.named name hsome),
      Bool.eq_false_iff.2 fun hsome => hname (h.placed.named name hsome)]

theorem sorted_of_run {dir : Text} {tr : List (Server × TableEvent)} {srv : Server} (h : (tableSystem dir).Run tr srv) :
    srv.state.Sorted := by
  have hinit : ∀ srv, (tableSystem dir).init srv → srv.state.Sorted := fun _ h => (Reloadable.started h).placed.sorted
  refine (h.throughout hinit ?_).1
  rintro srv e _ hI ⟨hdecoded, rfl⟩
  exact sorted_step hI hdecoded

theorem reloadable_of_run {dir : Text} {tr : List (Server × TableEvent)} {srv : Server} (h : (tableSystem dir).Run tr srv)
    (hG : System.Meets (fun srv e => e.Checked ∧ e.Separate dir srv) tr) : Reloadable dir srv := by
  have hinit : ∀ srv, (tableSystem dir).init srv → Reloadable dir srv := fun _ => Reloadable.started
  refine h.invariant hinit ?_ hG
  rintro srv e _ hI ⟨hchecked, hseparate⟩ ⟨hdecoded, rfl⟩
  exact hI.step hdecoded hchecked hseparate

/-- **The table and its meta files.** In every run the table can be searched and every event has changed exactly its
entry; when every name was checked and no text was stored in place of a meta file, the meta files make the same
sorted names again, in whatever order they are listed. -/
theorem table_of_run {dir : Text} {tr : List (Server × TableEvent)} {srv : Server} (h : (tableSystem dir).Run tr srv) :
    srv.state.Searchable ∧ System.Meets (fun srv e => e.Exact srv) tr ∧
      (System.Meets (fun srv e => e.Checked ∧ e.Separate dir srv) tr → ∀ o : LoadOutcome, o.Smooth →
        Lists srv.fs (ssStateInit dir).metaDir o.names →
          (srv.restart o dir).state.files.map SsFile.name = srv.state.files.map SsFile.name) := by
  refine ⟨searchable_of_sorted (sorted_of_run h), ?_, ?_⟩
  · induction h with
    | start _ =>
      intro p hp
      cases hp
    | step hrun hs ih =>
      obtain ⟨hdecoded, rfl⟩ := hs
      exact System.meets_cons.2 ⟨exact_step (sorted_of_run hrun) hdecoded, ih⟩
  · intro hG o ho hlist
    exact names_restart (reloadable_of_run h hG) ho hlist

/-- Two files are made, in the other order of their names, and one is removed. -/
theorem table_of_two : ∃ tr srv, (tableSystem (Text.lit "/s")).Run tr srv ∧ tr.length = 3 ∧
    srv.state.files.map SsFile.name = [Text.lit "b"] ∧ srv.state.Searchable ∧
    ∀ o : LoadOutcome, o.Smooth → Lists srv.fs (ssStateInit (Text.lit "/s")).metaDir o.names →
      (srv.restart o (Text.lit "/s")).state.files.map SsFile.name = srv.state.files.map SsFile.name := by
  have hstarted : TableStarted (Text.lit "/s") ⟨ssStateInit (Text.lit "/s"), fun _ => none, []⟩ := .empty fun _ _ => rfl
  have hlen : (Text.lit "a").length < SS_NAME_MAX ∧ (Text.lit "b").length < SS_NAME_MAX := by decide
  have hvalid : validName (Text.lit "a") = true ∧ validName (Text.lit "b") = true := by decide
  let addB : TableEvent := .add (Text.lit "b") (Text.lit "u") ⟨0, true, true, true⟩
  let addA : TableEvent := .add (Text.lit "a") (Text.lit "u") ⟨0, true, true, true⟩
  let removeA : TableEvent := .remove (Text.lit "a")
  have hdecoded : addB.Decoded ∧ addA.Decoded ∧ removeA.Decoded := ⟨hlen.2, hlen.1, trivial⟩
  have hrun := (((System.Run.start (S := tableSystem (Text.lit "/s")) hstarted).step (e := addB) ⟨hdecoded.1, rfl⟩).step
    (e := addA) ⟨hdecoded.2.1, rfl⟩).step (e := removeA) ⟨hdecoded.2.2, rfl⟩
  obtain ⟨hsearch, -, hload⟩ := table_of_run hrun
  refine ⟨_, _, hrun, rfl, by decide +kernel, hsearch, hload ?_⟩
  have hshort : (Text.lit "/s").length ≤ 253 := by decide
  simp only [System.meets_cons]
  exact ⟨⟨trivial, .inl hshort⟩, ⟨hvalid.1, .inl hshort⟩, ⟨hvalid.2, .inl hshort⟩, by simp [System.Meets]⟩

/-- In a directory with a path of 254 characters the text of `x.meta` is taken for the meta file of a file `x`. -/
theorem text_read_as_meta : ∃ tr srv, ∃ o : LoadOutcome, (tableSystem (List.replicate 254 'd')).Run tr srv ∧
    System.Meets (fun _ e => e.Checked) tr ∧ o.Smooth ∧
    Lists srv.fs (ssStateInit (List.replicate 254 'd')).metaDir o.names ∧
    (srv.restart o (List.replicate 254 'd')).state.files.map SsFile.name ≠ srv.state.files.map SsFile.name := by
  have hdir : (List.replicate 254 'd').length = 254 := List.length_replicate
  generalize List.replicate 254 'd' = dir at hdir ⊢
  let f : FileName := ⟨Text.lit "x.meta", by decide, by decide⟩
  let g : FileName := ⟨Text.lit "x", by decide, by decide⟩
  let start : Server := ⟨ssStateInit dir, fun _ => none, []⟩
  have hstarted : TableStarted dir start := .empty fun _ _ => rfl
  let e : TableEvent := .add f.text (Text.lit "u") ⟨0, true, true, true⟩
  have hrun := (System.Run.start (S := tableSystem dir) hstarted).step (e := e) ⟨f.short, rfl⟩
  have hplaced : Placed dir start.state := .init dir
  have hchanges : Changes dir f.text [dataPath dir f.text, metaPath dir f.text] start _ :=
    Changes.add hplaced f (Text.lit "u") ⟨0, true, true, true⟩ List.mem_cons_self (List.mem_cons_of_mem _ List.mem_cons_self)
  have hfs : (e.step start).fs = Fs.write (Fs.write (fun _ => none) (dataPath dir f.text) []) (metaPath dir f.text)
      (metaText (newFile (ssStateInit dir) f.text (Text.lit "u") 0)) := rfl
  -- both directories are the storage directory with a slash
  have hdirs : (ssStateInit dir).filesDir = (ssStateInit dir).metaDir := by
    show (dir ++ Text.lit "/files").take 255 = (dir ++ Text.lit "/meta").take 255
    rw [List.take_append, List.take_append, hdir]
    rfl
  have hdata : dataPath dir f.text = (ssStateInit dir).metaDir ++ '/' :: Text.lit "x.meta" := by
    rw [(paths_eq dir f).1, hdirs]
  have hmeta : metaPath dir f.text = (ssStateInit dir).metaDir ++ '/' :: Text.lit "x.meta.meta" := (paths_eq dir f).2.1
  have hother : metaPath dir g.text = (ssStateInit dir).metaDir ++ '/' :: Text.lit "x.meta" := (paths_eq dir g).2.1
  rw [hdata, hmeta] at hfs
  let o : LoadOutcome := ⟨[Text.lit "x.meta", Text.lit "x.meta.meta"], fun _ => true, fun _ => true, fun _ => true⟩
  have ho : o.Smooth := ⟨fun _ => rfl, fun _ => rfl, fun _ => rfl⟩
  have hne : Text.lit "x.meta" ≠ Text.lit "x.meta.meta" := by decide
  have hlist : Lists (e.step start).fs (ssStateInit dir).metaDir o.names := by
    refine ⟨by simp [o, hne], ?_, ?_⟩
    · intro entry hentry hstored
      rw [hfs] at hstored
      have hcases : entry = Text.lit "x.meta.meta" ∨ entry = Text.lit "x.meta" := by
        by_contra hnot
        obtain ⟨hnot, hnot'⟩ := not_or.1 hnot
        simp [Fs.write, hnot, hnot'] at hstored
      rcases hcases with rfl | rfl
      · exact List.mem_cons_of_mem _ List.mem_cons_self
      · exact List.mem_cons_self
    · intro entry hentry
      rw [hfs]
      simp only [o, List.mem_cons, List.not_mem_nil, or_false] at hentry
      rcases hentry with rfl | rfl
      · exact .inr (.inr ⟨by decide, by simp [Fs.write, hne]⟩)
      · exact .inr (.inr ⟨by decide, by simp [Fs.write]⟩)
  refine ⟨_, _, o, hrun, ?_, ho, hlist, ?_⟩
  · simp only [System.meets_cons]
    exact ⟨f.valid, by simp [System.Meets]⟩
  · intro hnames
    have hmetas : ValidMetas dir (e.step start).fs := by
      exact (Reloadable.started hstarted).metas.writes pathValid_add hchanges.writes
    have hsome := isSome_entry_load ho hmetas hlist g
    rw [hother, hfs, Fs.write, Function.update_of_ne (by simp [hne]), Fs.write, Function.update_self] at hsome
    obtain ⟨file, hfile⟩ := Option.isSome_iff_exists.1 hsome
    have hplaced := (load_spec ho hmetas hlist).1
    obtain ⟨hmem, hname⟩ := (SortedList.lookup_eq_some_iff hplaced.sorted).1 hfile
    have hlisted : Text.lit "x" ∈ (e.step start).state.files.map SsFile.name := by
      rw [← hnames]
      exact List.mem_map.2 ⟨file, hmem, hname⟩
    have hentries : (e.step start).state.files.map SsFile.name = [Text.lit "x.meta"] := rfl
    rw [hentries] at hlisted
    exact absurd hlisted (by decide)

end CoWrite.Ss
