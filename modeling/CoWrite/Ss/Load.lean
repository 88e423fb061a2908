import Mathlib.Data.List.DropRight
import CoWrite.Ss.Copy

/-!
# Starting on a storage directory

`ss_state_load` makes an entry of every meta file in the directory, in the order of `readdir`, and counts the
text again where a count it read is zero.

* `load_spec`: the table it makes is sorted and has the names of the meta files, each with the entry that its
  meta file and its text give.
* `counts_loadMetaFile`: the counts that were saved are read back, whatever the strings before them contain.
-/

namespace CoWrite.Ss

open CoWrite.Lib

/-! ## Meta files -/

/-- What `fgets` into `size` bytes returns, one call after the other, the newline cut off; `line` is what the
call has read. -/
def fgetsLines (size : Nat) (line : Text) : Text → List Text
  | [] => if line.isEmpty then [] else [line]
  | c :: s =>
    if c = '\n' then line :: fgetsLines size [] s
    else if (line ++ [c]).length = size - 1 then (line ++ [c]) :: fgetsLines size [] s
    else fgetsLines size (line ++ [c]) s

/-- One turn of the loop of `load_meta_file`. -/
def loadMetaLine (file : SsFile) (line : Text) : SsFile :=
  if ':' ∉ line then file
  else
    let key := line.takeWhile (· != ':')
    let value := line.drop (key.length + 1)
    if key = Text.lit "owner" then { file with owner := Text.copyTo SS_USER_MAX value }
    else if key = Text.lit "created" then { file with created := atol value }
    else if key = Text.lit "modified" then { file with modified := atol value }
    else if key = Text.lit "last_access" then { file with lastAccess := atol value }
    else if key = Text.lit "last_access_user" then { file with lastAccessUser := Text.copyTo SS_USER_MAX value }
    else if key = Text.lit "word_count" then { file with wordCount := strtoull value }
    else if key = Text.lit "char_count" then { file with charCount := strtoull value }
    else file

/-- `load_meta_file`, on a file that was opened. -/
def loadMetaFile (file : SsFile) (text : Text) : SsFile := (fgetsLines 256 [] text).foldl loadMetaLine file

/-! ## The directory -/

/-- What the calls of `ss_state_load` answer. -/
structure LoadOutcome where
  /-- What `readdir` returns, in order. -/
  names : List Text
  /-- `fopen` of a file that exists. -/
  opened : Text → Bool
  /-- `malloc` for the text of the file. -/
  memory : Text → Bool
  /-- `insert_sorted` of the entry. -/
  inserted : Text → Bool

/-- The name before `.meta`, where the last dot of `d_name` begins that. -/
def metaName (dName : Text) : Option Text :=
  if '.' ∈ dName ∧ dName.rtakeWhile (· != '.') = Text.lit "meta" then
    some (Text.copyTo SS_NAME_MAX (dName.take (dName.length - 5)))
  else none

/-- `memset` of an entry, and its name and paths. -/
def blankFile (state : SsState) (name : Text) : SsFile :=
  fillPaths state name
    { name := Text.copyTo SS_NAME_MAX name
      owner := [], dataPath := [], metaPath := [], undoPath := []
      created := 0, modified := 0, lastAccess := 0, lastAccessUser := []
      wordCount := 0, charCount := 0, lockActive := false, lockUser := [], lockSentence := 0 }

/-- The entry of a name: its meta file, and the counts again where one is zero. -/
def loadFile (o : LoadOutcome) (state : SsState) (fs : Fs) (name : Text) : Option SsFile :=
  let file := blankFile state name
  (loadText fs file.metaPath (o.opened file.metaPath)).map fun text =>
    let file := loadMetaFile file text
    let file :=
      if file.wordCount = 0 ∨ file.charCount = 0 then
        match loadText fs file.dataPath (o.opened file.dataPath) with
        | some data => if o.memory name then recount data file else file
        | none => file
      else file
    { file with lockActive := false, lockSentence := -1 }

/-- One turn of the loop of `ss_state_load`. -/
def loadEntry (o : LoadOutcome) (fs : Fs) (state : SsState) (dName : Text) : SsState :=
  if dName.head? = some '.' then state
  else
    match metaName dName with
    | none => state
    | some name =>
      match loadFile o state fs name with
      | none => state
      | some file => if o.inserted name then insertSorted state file else state

/-- `ss_state_load`. -/
def ssStateLoad (o : LoadOutcome) (state : SsState) (fs : Fs) : SsState := o.names.foldl (loadEntry o fs) state

/-- The server starts again on its storage directory. -/
def Server.restart (srv : Server) (o : LoadOutcome) (dir : Text) : Server :=
  ⟨ssStateLoad o (ssStateInit dir) srv.fs, srv.fs, []⟩

/-- Every call succeeds. -/
structure LoadOutcome.Smooth (o : LoadOutcome) : Prop where
  opened : ∀ path, o.opened path = true
  memory : ∀ name, o.memory name = true
  inserted : ∀ name, o.inserted name = true

/-- `readdir` returns the files of the directory once each, and the two directories that are always there. -/
structure Lists (fs : Fs) (dir : Text) (names : List Text) : Prop where
  nodup : names.Nodup
  complete : ∀ e, '/' ∉ e → (fs (dir ++ '/' :: e)).isSome → e ∈ names
  sound : ∀ e ∈ names, e = ['.'] ∨ e = ['.', '.'] ∨ ('/' ∉ e ∧ (fs (dir ++ '/' :: e)).isSome)

/-! ## Reading a meta file back -/

section Lines

variable {size : Nat}

/-- What stands behind a newline is read from the start of a line. -/
theorem fgetsLines_append (line pre rest : Text) :
    fgetsLines size line (pre ++ '\n' :: rest) = fgetsLines size line (pre ++ ['\n']) ++ fgetsLines size [] rest := by
  induction pre generalizing line with
  | nil =>
    have hone : fgetsLines size line ['\n'] = [line] := rfl
    rw [List.nil_append, List.nil_append, hone]
    rfl
  | cons c pre ih =>
    simp only [List.cons_append, fgetsLines]
    split
    · rw [ih, List.cons_append]
    split
    · rw [ih, List.cons_append]
    · exact ih _

/-- A line that fits is returned whole. -/
theorem fgetsLines_line {line : Text} (hline : '\n' ∉ line) (read : Text) (hlen : read.length + line.length < size - 1)
    (rest : Text) : fgetsLines size read (line ++ '\n' :: rest) = (read ++ line) :: fgetsLines size [] rest := by
  induction line generalizing read with
  | nil =>
    rw [List.append_nil]
    rfl
  | cons c line ih =>
    obtain ⟨hc, hline⟩ := List.ne_and_not_mem_of_not_mem_cons hline
    rw [List.length_cons] at hlen
    have hnext : (read ++ [c]).length + line.length < size - 1 := by
      rw [List.length_append, List.length_singleton]
      omega
    rw [List.cons_append, fgetsLines, if_neg (Ne.symm hc), if_neg (by omega), ih hline _ hnext, List.append_assoc]
    rfl

end Lines

/-- The names and the paths of an entry come from elsewhere. -/
theorem keepsPaths_loadMetaLine (line : Text) : KeepsPaths fun file => loadMetaLine file line := by
  intro file
  unfold loadMetaLine
  split
  · exact ⟨rfl, rfl, rfl, rfl⟩
  · dsimp only
    split_ifs <;> exact ⟨rfl, rfl, rfl, rfl⟩

theorem keepsPaths_loadMetaFile (text : Text) : KeepsPaths fun file => loadMetaFile file text := by
  intro file
  unfold loadMetaFile
  induction fgetsLines 256 [] text generalizing file with
  | nil => exact ⟨rfl, rfl, rfl, rfl⟩
  | cons line lines ih =>
    obtain ⟨h1, h2, h3, h4⟩ := ih (loadMetaLine file line)
    obtain ⟨g1, g2, g3, g4⟩ := keepsPaths_loadMetaLine line file
    exact ⟨h1.trans g1, h2.trans g2, h3.trans g3, h4.trans g4⟩

theorem newline_not_mem_printNat (n : Nat) : '\n' ∉ printNat n :=
  fun h => absurd (isDigit_of_mem_printNat h) (by decide)

theorem length_printNat_size {n : Nat} (h : n < 2 ^ 64) : (printNat n).length ≤ 20 := by
  apply length_printNat_le (by omega)
  exact Nat.lt_of_lt_of_le h (by decide)

/-- The counts stand in the last two lines of a meta file. -/
theorem exists_metaText (file : SsFile) : ∃ pre : Text, metaText file = pre ++ '\n' ::
    ((Text.lit "word_count:" ++ printNat file.wordCount) ++ '\n' ::
      ((Text.lit "char_count:" ++ printNat file.charCount) ++ ['\n'])) := by
  have hwords : Text.lit "\nword_count:" = '\n' :: Text.lit "word_count:" := rfl
  have hchars : Text.lit "\nchar_count:" = '\n' :: Text.lit "char_count:" := rfl
  unfold metaText
  rw [hwords, hchars]
  generalize Text.lit "word_count:" = words
  generalize Text.lit "char_count:" = chars
  refine ⟨Text.lit "owner:" ++ file.owner ++ Text.lit "\ncreated:" ++ printInt file.created ++
    Text.lit "\nmodified:" ++ printInt file.modified ++ Text.lit "\nlast_access:" ++ printInt file.lastAccess ++
    Text.lit "\nlast_access_user:" ++ file.lastAccessUser, ?_⟩
  simp only [List.append_assoc, List.cons_append]

/-- A line of a count is one line. -/
theorem countLine {key : Text} (hkey : '\n' ∉ key) (hlen : key.length ≤ 200) {n : Nat} (hn : n < 2 ^ 64) (rest : Text) :
    fgetsLines 256 [] ((key ++ printNat n) ++ '\n' :: rest) = (key ++ printNat n) :: fgetsLines 256 [] rest := by
  have hnum := length_printNat_size hn
  apply fgetsLines_line
  · rw [List.mem_append, not_or]
    exact ⟨hkey, newline_not_mem_printNat n⟩
  · rw [List.length_nil, List.length_append]
    omega

theorem loadMetaLine_words (file : SsFile) {n : Nat} (hn : n < 2 ^ 64) :
    loadMetaLine file (Text.lit "word_count:" ++ printNat n) = { file with wordCount := n } := by
  have hread := strtoull_printNat hn
  simp [loadMetaLine, Text.lit, hread]

theorem loadMetaLine_chars (file : SsFile) {n : Nat} (hn : n < 2 ^ 64) :
    loadMetaLine file (Text.lit "char_count:" ++ printNat n) = { file with charCount := n } := by
  have hread := strtoull_printNat hn
  simp [loadMetaLine, Text.lit, hread]

/-- **The counts of a meta file are read back.** -/
theorem counts_loadMetaFile (file saved : SsFile) (hwords : saved.wordCount < 2 ^ 64)
    (hchars : saved.charCount < 2 ^ 64) :
    (loadMetaFile file (metaText saved)).wordCount = saved.wordCount ∧
      (loadMetaFile file (metaText saved)).charCount = saved.charCount := by
  obtain ⟨pre, hpre⟩ := exists_metaText saved
  have hlines : fgetsLines 256 [] (metaText saved) = fgetsLines 256 [] (pre ++ ['\n']) ++
      [Text.lit "word_count:" ++ printNat saved.wordCount, Text.lit "char_count:" ++ printNat saved.charCount] := by
    rw [hpre, fgetsLines_append, countLine (by decide) (by decide) hwords, countLine (by decide) (by decide) hchars]
    rfl
  unfold loadMetaFile
  rw [hlines, List.foldl_append, List.foldl_cons, List.foldl_cons, List.foldl_nil, loadMetaLine_words _ hwords,
    loadMetaLine_chars _ hchars]
  exact ⟨rfl, rfl⟩

/-! ## The names in the directory -/

theorem rtakeWhile_meta (p : Text) : (p ++ Text.lit ".meta").rtakeWhile (· != '.') = Text.lit "meta" := by
  have hrev : (p ++ Text.lit ".meta").reverse = 'a' :: 't' :: 'e' :: 'm' :: '.' :: p.reverse := by simp [Text.lit]
  rw [List.rtakeWhile, hrev]
  rfl

theorem metaName_append (p : Text) : metaName (p ++ Text.lit ".meta") = some (Text.copyTo SS_NAME_MAX p) := by
  have hdot : '.' ∈ p ++ Text.lit ".meta" := by simp [Text.lit]
  have htake : (p ++ Text.lit ".meta").take ((p ++ Text.lit ".meta").length - 5) = p := by
    rw [List.length_append]
    exact List.take_left
  rw [metaName, if_pos ⟨hdot, rtakeWhile_meta p⟩, htake]

theorem metaName_some {dName name : Text} (h : metaName dName = some name) :
    ∃ p, dName = p ++ Text.lit ".meta" ∧ name = Text.copyTo SS_NAME_MAX p := by
  unfold metaName at h
  split at h
  · next hmeta =>
    obtain ⟨hdot, hext⟩ := hmeta
    obtain ⟨q, hq⟩ := List.rtakeWhile_suffix (p := (· != '.')) (l := dName)
    rw [hext] at hq
    -- the character before the extension is the dot
    obtain ⟨p, rfl⟩ : ∃ p, q = p ++ ['.'] := by
      rcases List.eq_nil_or_concat q with rfl | ⟨p, c, rfl⟩
      · rw [← hq] at hdot
        exact absurd hdot (by decide)
      · by_cases hc : c = '.'
        · exact ⟨p, by rw [hc, List.concat_eq_append]⟩
        · have hlong : (dName.rtakeWhile (· != '.')).length = 4 := by rw [hext]; rfl
          rw [← hq, List.rtakeWhile] at hlong
          simp [Text.lit, hc] at hlong
    have hname : dName = p ++ Text.lit ".meta" := by
      rw [← hq]
      simp [Text.lit]
    refine ⟨p, hname, ?_⟩
    have hsome := metaName_append p
    rw [← hname, metaName, if_pos ⟨hdot, hext⟩] at hsome
    exact (Option.some.inj h).symm.trans (Option.some.inj hsome)
  · cases h

/-- What is stored in the meta directory under the name of a meta file is one. -/
def ValidMetas (dir : Text) (fs : Fs) : Prop :=
  ∀ p, '/' ∉ p → (p ++ Text.lit ".meta").head? ≠ some '.' →
    (fs ((ssStateInit dir).metaDir ++ '/' :: (p ++ Text.lit ".meta"))).isSome → validName p = true ∧ p.length < SS_NAME_MAX

/-! ## The table -/

theorem head?_validName {name : Text} (h : validName name = true) (rest : Text) : (name ++ rest).head? ≠ some '.' := by
  cases name with
  | nil => cases h
  | cons c s =>
    simp only [validName, Bool.and_eq_true, bne_iff_ne] at h
    simp [h.1]

section Table

variable {dir : Text} {fs : Fs} {o : LoadOutcome}

theorem hasPaths_blankFile {state : SsState} (hdirs : { state with files := [] } = ssStateInit dir) (name : Text) :
    blankFile state name = blankFile (ssStateInit dir) name ∧ HasPaths dir name (blankFile state name) := by
  have heq : blankFile state name = blankFile (ssStateInit dir) name := by
    rw [← hdirs]
    rfl
  rw [heq]
  exact ⟨rfl, rfl, rfl, rfl⟩

/-- The entry of a meta file has the name and its paths. -/
theorem hasPaths_loadFile {name : Text} (hname : name.length < SS_NAME_MAX) {file : SsFile}
    (h : loadFile o (ssStateInit dir) fs name = some file) : HasPaths dir name file ∧ file.name = name := by
  obtain ⟨text, -, rfl⟩ := Option.map_eq_some_iff.1 h
  have hpaths := (hasPaths_blankFile (show { ssStateInit dir with files := [] } = ssStateInit dir from rfl) name).2
  obtain ⟨hn, hd, hm, hu⟩ := keepsPaths_loadMetaFile text (blankFile (ssStateInit dir) name)
  have hblank : (blankFile (ssStateInit dir) name).name = name := Text.copyTo_eq_self hname
  have hloaded : HasPaths dir name (loadMetaFile (blankFile (ssStateInit dir) name) text) ∧
      (loadMetaFile (blankFile (ssStateInit dir) name) text).name = name :=
    ⟨⟨hd.trans hpaths.dataEq, hm.trans hpaths.metaEq, hu.trans hpaths.undoEq⟩, hn.trans hblank⟩
  generalize loadMetaFile (blankFile (ssStateInit dir) name) text = file at hloaded
  obtain ⟨hfile, hnamed⟩ := hloaded
  dsimp only
  split
  · split
    · split
      · exact ⟨⟨hfile.dataEq, hfile.metaEq, hfile.undoEq⟩, hnamed⟩
      · exact ⟨⟨hfile.dataEq, hfile.metaEq, hfile.undoEq⟩, hnamed⟩
    · exact ⟨⟨hfile.dataEq, hfile.metaEq, hfile.undoEq⟩, hnamed⟩
  · exact ⟨⟨hfile.dataEq, hfile.metaEq, hfile.undoEq⟩, hnamed⟩

/-- The table after the names `done`. -/
structure Loaded (dir : Text) (fs : Fs) (o : LoadOutcome) (done : List Text) (state : SsState) : Prop where
  placed : Placed dir state
  sound : ∀ n file, state.entry n = some file → n ++ Text.lit ".meta" ∈ done
  complete : ∀ f : FileName, f.text ++ Text.lit ".meta" ∈ done →
    state.entry f.text = loadFile o (ssStateInit dir) fs f.text

theorem loaded_init : Loaded dir fs o [] (ssStateInit dir) where
  placed := .init dir
  sound n file h := by simp [SsState.entry, ssStateInit, SortedList.lookup] at h
  complete f h := by cases h

/-- A name that makes no entry. -/
theorem Loaded.skip {done : List Text} {state : SsState} (h : Loaded dir fs o done state) {dName : Text}
    (hskip : ∀ f : FileName, dName ≠ f.text ++ Text.lit ".meta") : Loaded dir fs o (done ++ [dName]) state where
  placed := h.placed
  sound n file hn := List.mem_append_left _ (h.sound n file hn)
  complete f hf := by
    rcases List.mem_append.1 hf with hf | hf
    · exact h.complete f hf
    · exact absurd (List.mem_singleton.1 hf).symm (hskip f)

/-- A name that makes an entry. -/
theorem Loaded.insert {done : List Text} {state : SsState} (h : Loaded dir fs o done state) {f : FileName}
    (hnew : f.text ++ Text.lit ".meta" ∉ done) {file : SsFile}
    (hfile : loadFile o (ssStateInit dir) fs f.text = some file) :
    Loaded dir fs o (done ++ [f.text ++ Text.lit ".meta"]) (insertSorted state file) := by
  obtain ⟨hpaths, hname⟩ := hasPaths_loadFile f.short hfile
  have hnone : state.entry file.name = none := by
    rw [hname]
    by_contra hsome
    obtain ⟨old, hold⟩ := Option.ne_none_iff_exists'.1 hsome
    exact hnew (h.sound _ _ hold)
  obtain ⟨hsorted, hentries⟩ := insertSorted_spec h.placed.sorted hnone
  rw [hname] at hentries
  refine ⟨⟨h.placed.dirs, hsorted, ?_, ?_⟩, ?_, ?_⟩
  · intro n file' hn
    rw [hentries] at hn
    split at hn
    · next heq =>
      cases hn
      exact heq ▸ hpaths
    · exact h.placed.hasPaths n file' hn
  · intro n hn
    rw [hentries] at hn
    split at hn
    · next heq => exact heq ▸ ⟨f.valid, f.short⟩
    · exact h.placed.named n hn
  · intro n file' hn
    rw [hentries] at hn
    split at hn
    · next heq =>
      rw [heq]
      exact List.mem_append_right _ List.mem_cons_self
    · exact List.mem_append_left _ (h.sound n file' hn)
  · intro g hg
    rw [hentries]
    split
    · next heq => rw [heq, hfile]
    · next hne =>
      rcases List.mem_append.1 hg with hg | hg
      · exact h.complete g hg
      · exact absurd (List.append_cancel_right (List.mem_singleton.1 hg)) hne

variable (ho : o.Smooth) (hvalid : ValidMetas dir fs) (hlist : Lists fs (ssStateInit dir).metaDir o.names)

include ho hvalid hlist

theorem Loaded.entry {done rest : List Text} {dName : Text} (hnames : o.names = done ++ dName :: rest)
    {state : SsState} (h : Loaded dir fs o done state) :
    Loaded dir fs o (done ++ [dName]) (loadEntry o fs state dName) := by
  have hmem : dName ∈ o.names := by simp [hnames]
  have hnew : dName ∉ done := by
    have hnodup := hlist.nodup
    rw [hnames] at hnodup
    intro hdone
    exact (List.nodup_append.1 hnodup).2.2 _ hdone _ List.mem_cons_self rfl
  unfold loadEntry
  by_cases hhead : dName.head? = some '.'
  · rw [if_pos hhead]
    apply h.skip
    rintro f rfl
    exact head?_validName f.valid _ hhead
  rw [if_neg hhead]
  cases hname : metaName dName with
  | none =>
    apply h.skip
    rintro f rfl
    rw [metaName_append] at hname
    cases hname
  | some name =>
    obtain ⟨p, rfl, rfl⟩ := metaName_some hname
    -- the listing has no other name of this form
    obtain ⟨hslash, hstored⟩ : '/' ∉ p ++ Text.lit ".meta" ∧
        (fs ((ssStateInit dir).metaDir ++ '/' :: (p ++ Text.lit ".meta"))).isSome := by
      rcases hlist.sound _ hmem with hdot | hdot | hfile
      · rw [hdot] at hhead
        exact absurd rfl hhead
      · rw [hdot] at hhead
        exact absurd rfl hhead
      · exact hfile
    have hp : '/' ∉ p := fun hp => hslash (List.mem_append_left _ hp)
    obtain ⟨hpvalid, hshort⟩ := hvalid p hp hhead hstored
    let f : FileName := ⟨p, hpvalid, hshort⟩
    have hcopy : Text.copyTo SS_NAME_MAX p = p := Text.copyTo_eq_self hshort
    obtain ⟨hblank, hpaths⟩ := hasPaths_blankFile h.placed.dirs p
    have hload : loadFile o state fs p = loadFile o (ssStateInit dir) fs p := by
      unfold loadFile
      rw [hblank]
    obtain ⟨text, htext⟩ := Option.isSome_iff_exists.1 hstored
    have hread : ∃ file, loadFile o (ssStateInit dir) fs p = some file := by
      have hmeta : loadText fs (blankFile (ssStateInit dir) p).metaPath
          (o.opened (blankFile (ssStateInit dir) p).metaPath) = some text := by
        rw [loadText, ho.opened, if_pos rfl, ← hblank, hpaths.metaEq, (paths_eq dir f).2.1]
        exact htext
      unfold loadFile
      simp only [hmeta, Option.map_some]
      exact ⟨_, rfl⟩
    obtain ⟨file, hfile⟩ := hread
    simp only [hcopy, hload, hfile, ho.inserted, if_true]
    exact h.insert (f := f) hnew hfile

theorem loaded_names {done rest : List Text} (hnames : o.names = done ++ rest) {state : SsState}
    (h : Loaded dir fs o done state) : Loaded dir fs o o.names (rest.foldl (loadEntry o fs) state) := by
  induction rest generalizing done state with
  | nil =>
    rw [List.append_nil] at hnames
    rw [hnames]
    exact h
  | cons dName rest ih =>
    have hstep := Loaded.entry ho hvalid hlist hnames h
    apply ih _ hstep
    rw [hnames, List.append_assoc]
    rfl

/-- **The table after `ss_state_load`.** -/
theorem load_spec : Placed dir (ssStateLoad o (ssStateInit dir) fs) ∧ ∀ f : FileName,
    (ssStateLoad o (ssStateInit dir) fs).entry f.text =
      if (fs (metaPath dir f.text)).isSome then loadFile o (ssStateInit dir) fs f.text else none := by
  have hnames : o.names = [] ++ o.names := rfl
  have h := loaded_names ho hvalid hlist hnames loaded_init
  refine ⟨h.placed, ?_⟩
  intro f
  have hmeta := (paths_eq dir f).2.1
  have hslash : '/' ∉ f.text ++ Text.lit ".meta" := by simp [slash_not_mem f, Text.lit]
  split
  · next hstored =>
    rw [hmeta] at hstored
    exact h.complete f (hlist.complete _ hslash hstored)
  · next hmissing =>
    by_contra hsome
    obtain ⟨file, hfile⟩ := Option.ne_none_iff_exists'.1 hsome
    have hmem := h.sound _ _ hfile
    have hhead := head?_validName f.valid (Text.lit ".meta")
    rcases hlist.sound _ hmem with hdot | hdot | hstored
    · rw [hdot] at hhead
      exact hhead rfl
    · rw [hdot] at hhead
      exact hhead rfl
    · exact hmissing (hmeta ▸ hstored.2)

end Table

end CoWrite.Ss
