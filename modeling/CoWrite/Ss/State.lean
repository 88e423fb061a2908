import Mathlib.Data.Char
import Mathlib.Data.List.Lex
import Mathlib.Logic.Function.Basic
import CoWrite.Common.Name
import CoWrite.Common.Number
import CoWrite.Lib.SortedList

/-!
# The storage server's file table

`ss_state.c` and the helpers of `ss_main.c` that read and write files. The table is an array kept
sorted by name; `ss_state_find` and `insert_sorted` are binary searches on it. The file system is a
map from paths to contents; directories are not in it.

What the C library may answer (a failed `fopen`, no memory, an array that cannot grow) is an argument
of the operation that asks. Locks are always acquired. `ssStateFind_eq` turns the binary search into
the lookup of a finite map, and `setFile_spec`, `ssStateAdd_state` and `ssStateRemove_state` are the
operations on it.
-/

namespace CoWrite.Ss

open CoWrite.Lib

abbrev SS_NAME_MAX : Nat := 128
abbrev SS_USER_MAX : Nat := 64

/-- `valid_filename`. -/
def validFilename (name : Text) : Bool := validName name

/-- `struct ss_file`. -/
structure SsFile where
  name : Text
  owner : Text
  dataPath : Text
  metaPath : Text
  undoPath : Text
  created : Int
  modified : Int
  lastAccess : Int
  lastAccessUser : Text
  wordCount : Nat
  charCount : Nat
  lockActive : Bool
  lockUser : Text
  lockSentence : Int
deriving DecidableEq, Repr

/-- `struct ss_state`. -/
structure SsState where
  storageDir : Text
  filesDir : Text
  metaDir : Text
  undoDir : Text
  checkpointsDir : Text
  files : List SsFile
deriving DecidableEq, Repr

/-- `ss_state_init` on an empty storage directory. -/
def ssStateInit (storageDir : Text) : SsState where
  storageDir := Text.copyTo 256 storageDir
  filesDir := Text.copyTo 256 (storageDir ++ Text.lit "/files")
  metaDir := Text.copyTo 256 (storageDir ++ Text.lit "/meta")
  undoDir := Text.copyTo 256 (storageDir ++ Text.lit "/undo")
  checkpointsDir := Text.copyTo 256 (storageDir ++ Text.lit "/checkpoints")
  files := []

/-! ## The file system -/

/-- The content of every path that has a file. -/
abbrev Fs := Text → Option Text

def Fs.write (fs : Fs) (path content : Text) : Fs := Function.update fs path (some content)

def Fs.unlink (fs : Fs) (path : Text) : Fs := Function.update fs path none

/-- `rename(2)` of a file that exists; a path renamed to itself stays. -/
def Fs.rename (fs : Fs) (src dst : Text) : Fs :=
  if src = dst then fs else Function.update (Function.update fs dst (fs src)) src none

/-- What happens in `store_text_atomic` after its path is built. -/
inductive StoreOutcome where
  | done
  | openFailed
  /-- Writing, flushing or renaming failed; `left` is what `unlink(tmp_path)` could not remove. -/
  | failed (left : Option Text)
deriving DecidableEq, Repr

def tmpPath (path : Text) : Text := Text.copyTo 512 (path ++ Text.lit ".tmp")

def storeTextAtomic (fs : Fs) (path content : Text) : StoreOutcome → Bool × Fs
  | .done => (true, (fs.write (tmpPath path) content).rename (tmpPath path) path)
  | .openFailed => (false, fs)
  | .failed left => (false, Function.update fs (tmpPath path) left)

/-- `load_text`; `ok` is whether its own calls succeed on a file that exists. -/
def loadText (fs : Fs) (path : Text) (ok : Bool) : Option Text := if ok then fs path else none

/-- `count_words`, `count_words_in_text`, from inside or outside a word. -/
def countWordsFrom (inWord : Bool) : Text → Nat
  | [] => 0
  | c :: s =>
    if c ≤ ' ' then countWordsFrom false s
    else if inWord then countWordsFrom true s
    else countWordsFrom true s + 1

def countWords (text : Text) : Nat := countWordsFrom false text

/-! ## The table -/

/-- `compare_names` is `strcmp`, the order of `Text`; `ss_state_find` returns the entry and its
index, or the index where the name belongs. -/
def ssStateFind (state : SsState) (name : Text) : Option SsFile × Nat :=
  SortedList.search SsFile.name state.files name state.files.length 0 state.files.length

/-- `insert_sorted`. -/
def insertSorted (state : SsState) (file : SsFile) : SsState :=
  { state with files := state.files.insertIdx (SortedList.lowerBound SsFile.name state.files
      file.name state.files.length 0 state.files.length) file }

/-- An assignment through the pointer that `ss_state_find` returned. -/
def setFile (state : SsState) (idx : Nat) (file : SsFile) : SsState :=
  { state with files := state.files.set idx file }

/-- `fill_paths`. -/
def fillPaths (state : SsState) (name : Text) (file : SsFile) : SsFile :=
  { file with
    dataPath := Text.copyTo 512 (state.filesDir ++ '/' :: name)
    metaPath := Text.copyTo 512 (state.metaDir ++ '/' :: name ++ Text.lit ".meta")
    undoPath := Text.copyTo 512 (state.undoDir ++ '/' :: name ++ Text.lit ".undo") }

/-- What `write_meta_file` prints. -/
def metaText (file : SsFile) : Text :=
  Text.lit "owner:" ++ file.owner ++ Text.lit "\ncreated:" ++ printInt file.created ++
  Text.lit "\nmodified:" ++ printInt file.modified ++
  Text.lit "\nlast_access:" ++ printInt file.lastAccess ++
  Text.lit "\nlast_access_user:" ++ file.lastAccessUser ++
  Text.lit "\nword_count:" ++ printNat file.wordCount ++
  Text.lit "\nchar_count:" ++ printNat file.charCount ++ ['\n']

/-- `ss_state_save_meta`; `ok` is whether `fopen` succeeds. -/
def ssStateSaveMeta (fs : Fs) (file : SsFile) (ok : Bool) : Fs :=
  if ok then fs.write file.metaPath (metaText file) else fs

/-- What the calls of `ss_state_add` answer. -/
structure AddOutcome where
  now : Int
  inserted : Bool
  dataOpened : Bool
  metaOpened : Bool
deriving DecidableEq, Repr

/-- The entry that `ss_state_add` makes. -/
def newFile (state : SsState) (name owner : Text) (now : Int) : SsFile :=
  fillPaths state name
    { name := Text.copyTo SS_NAME_MAX name
      owner := Text.copyTo SS_USER_MAX owner
      dataPath := [], metaPath := [], undoPath := []
      created := now
      modified := now
      lastAccess := now
      lastAccessUser := Text.copyTo SS_USER_MAX owner
      wordCount := 0
      charCount := 0
      lockActive := false
      lockUser := []
      lockSentence := -1 }

/-- `ss_state_add`: whether it returns `0`, with the table and the files it leaves. -/
def ssStateAdd (state : SsState) (fs : Fs) (name owner : Text) (o : AddOutcome) :
    Bool × SsState × Fs :=
  match ssStateFind state name with
  | (some _, _) => (false, state, fs)
  | (none, idx) =>
    let file := newFile state name owner o.now
    if !o.inserted then (false, state, fs)
    else
      let state' := insertSorted state file
      if !o.dataOpened then (false, { state' with files := state'.files.eraseIdx idx }, fs)
      else
        let fs := fs.write file.dataPath []
        if !o.metaOpened then
          (false, { state' with files := state'.files.eraseIdx idx }, fs.unlink file.dataPath)
        else
          (true, state', ssStateSaveMeta fs file true)

/-- `ss_state_remove`: nothing when the file is not in the table. -/
def ssStateRemove (state : SsState) (fs : Fs) (name : Text) : Option (SsState × Fs) :=
  match ssStateFind state name with
  | (none, _) => none
  | (some file, idx) =>
    some ({ state with files := state.files.eraseIdx idx },
      ((fs.unlink file.dataPath).unlink file.metaPath).unlink file.undoPath)

/-! ## The table as a finite map -/

/-- The table is sorted by name, without duplicates. -/
def SsState.Sorted (state : SsState) : Prop := SortedList.Sorted SsFile.name state.files

/-- The map that the table stands for. -/
def SsState.entry (state : SsState) (name : Text) : Option SsFile :=
  SortedList.lookup SsFile.name state.files name

theorem sorted_ssStateInit (storageDir : Text) : (ssStateInit storageDir).Sorted :=
  List.Pairwise.nil

section Table

variable {state : SsState} (hs : state.Sorted) {name : Text}

include hs

/-- **The binary search is the lookup of the map.** -/
theorem ssStateFind_eq (name : Text) : (ssStateFind state name).1 = state.entry name :=
  SortedList.search_fst hs name

theorem ssStateFind_some {file : SsFile} {idx : Nat} (h : ssStateFind state name = (some file, idx)) :
    state.files[idx]? = some file ∧ file.name = name := by
  have := (SortedList.search_spec hs name).1 file (congrArg Prod.fst h)
  rwa [show (SortedList.search SsFile.name state.files name state.files.length 0
    state.files.length).2 = idx from congrArg Prod.snd h] at this

theorem ssStateFind_none {idx : Nat} (h : ssStateFind state name = (none, idx)) :
    SortedList.Cut SsFile.name state.files name idx := by
  have := (SortedList.search_spec hs name).2 (congrArg Prod.fst h)
  rwa [show (SortedList.search SsFile.name state.files name state.files.length 0
    state.files.length).2 = idx from congrArg Prod.snd h] at this

/-- An entry is stored under its own name. -/
theorem SsState.entry_name {file : SsFile} (h : state.entry name = some file) : file.name = name :=
  ((SortedList.lookup_eq_some_iff hs).1 h).2

/-- Replacing the entry that was found changes the map at that name only. -/
theorem setFile_spec {file file' : SsFile} {idx : Nat}
    (h : ssStateFind state name = (some file, idx)) (hname : file'.name = file.name) :
    (setFile state idx file').Sorted ∧
      ∀ n, (setFile state idx file').entry n = if n = name then some file' else state.entry n := by
  obtain ⟨hidx, rfl⟩ := ssStateFind_some hs h
  refine ⟨hs.set hidx hname, fun n => ?_⟩
  rw [SsState.entry, setFile, SortedList.lookup_set hs hidx hname]
  rcases eq_or_ne n file.name with rfl | hn
  · simp
  · simp [hn, hn.symm, SsState.entry]

theorem insertSorted_spec {file : SsFile} (h : state.entry file.name = none) :
    (insertSorted state file).Sorted ∧ ∀ n, (insertSorted state file).entry n =
      if n = file.name then some file else state.entry n := by
  have hcut := SortedList.lowerBound_spec hs (SortedList.lookup_eq_none_iff.1 h)
  refine ⟨hs.insertIdx hcut, fun n => ?_⟩
  rw [SsState.entry, insertSorted, SortedList.lookup_insertIdx hs hcut]
  rcases eq_or_ne n file.name with rfl | hn
  · simp
  · simp [hn, hn.symm, SsState.entry]

/-- An entry that was inserted at its place is erased there. -/
theorem eraseIdx_insertSorted {file : SsFile} {idx : Nat}
    (h : ssStateFind state file.name = (none, idx)) :
    { insertSorted state file with files := (insertSorted state file).files.eraseIdx idx } =
      state := by
  have hcut := ssStateFind_none hs h
  have hidx := SortedList.lowerBound_spec hs (SortedList.lookup_eq_none_iff.1 hcut.lookup_eq_none)
  simp [insertSorted, hidx.unique hcut, List.eraseIdx_insertIdx_self]

/-- **`ss_state_add`** adds one entry when it returns `0`, and nothing otherwise. -/
theorem ssStateAdd_state (fs : Fs) (hname : name.length < SS_NAME_MAX) (owner : Text)
    (o : AddOutcome) :
    (ssStateAdd state fs name owner o).2.1.Sorted ∧
      ∀ n, (ssStateAdd state fs name owner o).2.1.entry n =
        if (ssStateAdd state fs name owner o).1 ∧ n = name then
          some (newFile state name owner o.now) else state.entry n := by
  have hnew : (newFile state name owner o.now).name = name := Text.copyTo_eq_self hname
  unfold ssStateAdd
  split
  · simpa using hs
  · next idx h =>
    have hnone : state.entry (newFile state name owner o.now).name = none := by
      rw [hnew, ← ssStateFind_eq hs, h]
    have hins := insertSorted_spec hs hnone
    have hdel : { insertSorted state (newFile state name owner o.now) with
        files := (insertSorted state (newFile state name owner o.now)).files.eraseIdx idx } = state :=
      eraseIdx_insertSorted hs (hnew.symm ▸ h)
    rw [hnew] at hins
    split
    · simpa using hs
    simp only
    split
    · simpa [hdel] using hs
    split
    · simpa [hdel] using hs
    · simpa using hins

/-- Only a name that has no entry is added. -/
theorem entry_of_ssStateAdd {fs : Fs} {owner : Text} {o : AddOutcome}
    (h : (ssStateAdd state fs name owner o).1 = true) : state.entry name = none := by
  rw [← ssStateFind_eq hs]
  unfold ssStateAdd at h
  split at h
  · simp at h
  · next hfind => rw [hfind]

/-- **`ss_state_remove`** removes the entry, or finds none. -/
theorem ssStateRemove_state (fs : Fs) (name : Text) :
    match ssStateRemove state fs name with
    | none => state.entry name = none
    | some (state', _) => state'.Sorted ∧
      ∀ n, state'.entry n = if n = name then none else state.entry n := by
  unfold ssStateRemove
  cases h : ssStateFind state name with
  | mk found idx =>
    cases found with
    | none => simpa [h] using (ssStateFind_eq hs name).symm
    | some file =>
      obtain ⟨hidx, rfl⟩ := ssStateFind_some hs h
      refine ⟨SortedList.Sorted.eraseIdx hs, fun n => ?_⟩
      rw [SsState.entry, SortedList.lookup_eraseIdx hs hidx]
      rcases eq_or_ne n file.name with rfl | hn
      · simp
      · simp [hn, hn.symm, SsState.entry]

end Table

end CoWrite.Ss
