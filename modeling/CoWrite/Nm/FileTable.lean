import CoWrite.Lib.Chains
import CoWrite.Nm.Persist

/-!
# The hash chains of the file table

`file_buckets` and the `hash_next` fields of `nm_state.c`, threaded through the array of files that
`nm_add_file` and `nm_remove_file` keep dense. The rest of the development looks files up in the list
alone (`findFileIndex`); here the chains are followed, and `chained_of_run` says that in every run they
lead to the same entries: each live index is on the chain of its name's bucket once, every chain ends,
and a removal disturbs no other entry.
-/

namespace CoWrite.Nm

open CoWrite.Lib

abbrev NM_FILE_BUCKETS : Nat := 1024

/-- `file_hash_name`, on an `unsigned long` of 64 bits. -/
def fileHashName (name : Text) : Nat :=
  name.foldl (fun hash c => (hash * 2 ^ 5 + hash + c.toNat) % 2 ^ 64) 5381

def bucketOf (name : Text) : Nat := fileHashName name % NM_FILE_BUCKETS

/-- `files` up to `file_count`; `file_buckets` and the `hash_next` of all slots. -/
structure FileTable where
  files : List FileEntry
  links : Chains Nat

namespace FileTable

/-- The table of `clear_state`. -/
def clear : FileTable := ⟨[], ⟨fun _ => -1, fun _ => 0⟩⟩

/-- Enough links to follow for any chain without a cycle. -/
def linkLimit (t : FileTable) : Nat := t.files.length + 1

/-- `file_hash_insert`. -/
def fileHashInsert (t : FileTable) (index : Nat) : FileTable :=
  match t.files[index]? with
  | none => t
  | some file => { t with links := t.links.insert (bucketOf file.name) index }

/-- `file_hash_remove`; nothing if its loop goes on past the limit. -/
def fileHashRemove (t : FileTable) (index : Nat) : Option FileTable :=
  match t.files[index]? with
  | none => some t
  | some file =>
    (t.links.unlinkFrom index t.linkLimit (.head (bucketOf file.name))).map fun links =>
      { t with links := links }

/-- `find_file_index`; nothing if its loop goes on past the limit. -/
def findFileIndex (t : FileTable) (name : Text) : Option (Option Nat) :=
  t.links.search (fun i => t.files[i]?.any fun file => file.name == name) t.linkLimit
    (t.links.heads (bucketOf name))

/-- `hash_next` of a slot that is written over. -/
def setNext (t : FileTable) (index : Nat) (v : Int) : FileTable :=
  { t with links := t.links.set v (.next index) }

/-- An entry in the slot at `file_count`, on its chain. -/
def push (t : FileTable) (file : FileEntry) (hashNext : Int) : FileTable :=
  fileHashInsert { t.setNext t.files.length hashNext with files := t.files ++ [file] } t.files.length

/-- `nm_add_file`, with whether it succeeds. -/
def nmAddFile (t : FileTable) (name owner : Text) (ssIndex backupIndex now : Int) :
    Option (Bool × FileTable) :=
  if t.files.length ≥ NM_MAX_FILES then some (false, t)
  else
    (t.findFileIndex name).map fun
      | some _ => (false, t)
      | none => (true, t.push (newFileEntry name owner ssIndex backupIndex now) (-1))

/-- `files[index] = files[last]`, on the chain of the moved name. -/
def moveLast (t : FileTable) (index : Nat) : FileTable :=
  match t.files.getLast? with
  | none => t
  | some last =>
    fileHashInsert
      { t.setNext index (t.links.next (t.files.length - 1)) with files := t.files.set index last } index

/-- `file_count--`. -/
def pop (t : FileTable) : FileTable := { t with files := t.files.dropLast }

/-- `nm_remove_file`, with whether it succeeds. -/
def nmRemoveFile (t : FileTable) (name : Text) : Option (Bool × FileTable) :=
  (t.findFileIndex name).bind fun
    | none => some (false, t)
    | some index =>
      (t.fileHashRemove index).bind fun t =>
        if index ≠ t.files.length - 1 then
          (t.fileHashRemove (t.files.length - 1)).map fun t => (true, (t.moveLast index).pop)
        else some (true, t.pop)

/-- A `FILE` record of `nm_state_load`. -/
def load (t : FileTable) (file : FileEntry) : FileTable :=
  if t.files.length ≥ NM_MAX_FILES then t else t.push file 0

/-- The table that `nm_state_load` builds for entries in that order; records after `FILE` change neither
names nor links. -/
def ofList (files : List FileEntry) : FileTable := files.foldl load clear

/-! ## Runs -/

inductive Event where
  | add (name owner : Text) (ssIndex backupIndex now : Int)
  | remove (name : Text)

def step (t : FileTable) : Event → Option (Bool × FileTable)
  | .add name owner ssIndex backupIndex now => t.nmAddFile name owner ssIndex backupIndex now
  | .remove name => t.nmRemoveFile name

/-- Runs from the empty table or from one that was loaded. -/
def system : System FileTable Event :=
  .ofStep (fun t => t = clear ∨ ∃ file, t = ofList (nmStateLoad file).files) fun t e =>
    (t.step e).map Prod.snd

/-! ## Chains and entries -/

/-- The bucket of a live index. -/
def bucket (t : FileTable) (i : Nat) : Option Nat := t.files[i]?.map fun file => bucketOf file.name

/-- Each live index is on the chain of its bucket, once; chains end, and hold nothing else. -/
def Chained (t : FileTable) : Prop := t.links.Threads t.bucket

theorem chained_clear : clear.Chained := ⟨fun _ => [], fun _ => ⟨rfl, by simp, by simp [bucket, clear]⟩⟩

theorem lt_of_bucket {t : FileTable} {i : Nat} (h : t.bucket i ≠ none) : i < t.files.length := by
  by_contra hi
  exact h (by simp [bucket, List.getElem?_eq_none (Nat.le_of_not_lt hi)])

theorem chained_of_threads {t : FileTable} {bucket : Nat → Option Nat} (h : t.links.Threads bucket)
    (hb : ∀ i, t.bucket i = bucket i) : t.Chained := by
  rwa [Chained, funext hb]

theorem push_files (t : FileTable) (file : FileEntry) (hashNext : Int) :
    (t.push file hashNext).files = t.files ++ [file] := by
  simp [push, fileHashInsert]

theorem push_chained {t : FileTable} (h : t.Chained) (file : FileEntry) (hashNext : Int) :
    (t.push file hashNext).Chained := by
  have hnew : t.bucket t.files.length = none := by simp [bucket]
  have hget : (t.files ++ [file])[t.files.length]? = some file := by simp
  have hthreads := (Chains.Threads.setNext h hnew hashNext).insert (bucketOf file.name) hnew
  simp only [push, fileHashInsert, hget]
  refine chained_of_threads hthreads fun i => ?_
  simp only [bucket, Function.update_apply]
  split
  · next hi => simp [hi]
  · next hi =>
    congr 1
    grind

theorem load_chained {t : FileTable} (h : t.Chained) (file : FileEntry) : (t.load file).Chained := by
  unfold load
  split
  · exact h
  · exact push_chained h file 0

theorem ofList_chained (files : List FileEntry) : (ofList files).Chained := by
  suffices ∀ t : FileTable, t.Chained → (files.foldl load t).Chained from this _ chained_clear
  induction files with
  | nil => exact fun _ h => h
  | cons file files ih => exact fun t h => ih _ (load_chained h file)

/-- Looking a name up ends, with a live index of an entry of that name if there is one. -/
theorem exists_findFileIndex {t : FileTable} (h : t.Chained) (name : Text) :
    ∃ r, t.findFileIndex name = some r ∧
      (∀ i, r = some i → ∃ file, t.files[i]? = some file ∧ file.name = name) ∧
      (r = none → ∀ file ∈ t.files, file.name ≠ name) := by
  obtain ⟨r, hr, hsome, hnone⟩ := Chains.Threads.search h
    (fun i => t.files[i]?.any fun file => file.name == name) (bucketOf name) (fun _ => lt_of_bucket)
  refine ⟨r, hr, fun i hi => ?_, fun hn file hm hname => ?_⟩
  · simpa [Option.any_eq_true] using (hsome i hi).2
  · obtain ⟨i, hi⟩ := List.getElem?_of_mem hm
    have := hnone hn i (by simp [bucket, hi, hname])
    simp [hi, hname] at this

/-- Unlinking a live index ends, and takes it off its chain. -/
theorem exists_fileHashRemove {t : FileTable} {bucket : Nat → Option Nat} (h : t.links.Threads bucket)
    (hb : ∀ j, bucket j ≠ none → j < t.files.length) {i : Nat} {file : FileEntry} (hi : t.files[i]? = some file)
    (hlive : bucket i = some (bucketOf file.name)) :
    ∃ links, t.fileHashRemove i = some { t with links := links } ∧
      links.Threads (Function.update bucket i none) := by
  obtain ⟨links, hrun, hlinks⟩ := Chains.Threads.unlink h hlive hb
  refine ⟨links, ?_, hlinks⟩
  simp [fileHashRemove, hi, linkLimit, hrun]

theorem bucket_eq {t : FileTable} {i : Nat} {file : FileEntry} (hi : t.files[i]? = some file) :
    t.bucket i = some (bucketOf file.name) := by
  simp [bucket, hi]

/-- A removal ends, and moves the last entry into the freed slot. -/
theorem exists_nmRemoveFile {t : FileTable} (h : t.Chained) (name : Text) :
    (∃ i file t', t.findFileIndex name = some (some i) ∧ t.files[i]? = some file ∧ file.name = name ∧
      t.nmRemoveFile name = some (true, t') ∧ t'.Chained ∧ t'.files = swapRemove t.files i) ∨
    ((∀ file ∈ t.files, file.name ≠ name) ∧ t.nmRemoveFile name = some (false, t)) := by
  obtain ⟨r, hfind, hsome, hnone⟩ := exists_findFileIndex h name
  cases r with
  | none => exact .inr ⟨hnone rfl, by simp [nmRemoveFile, hfind]⟩
  | some i =>
    obtain ⟨file, hi, hname⟩ := hsome i rfl
    left
    obtain ⟨init, last, hfiles⟩ : ∃ init last, t.files = init ++ [last] := by
      rcases List.eq_nil_or_concat t.files with hnil | ⟨init, last, hconcat⟩
      · simp [hnil] at hi
      · exact ⟨init, last, by simpa using hconcat⟩
    have hlen : t.files.length - 1 = init.length := by simp [hfiles]
    obtain ⟨links, hrun, hlinks⟩ := exists_fileHashRemove h (fun _ => lt_of_bucket) hi (bucket_eq hi)
    by_cases hlast : i = init.length
    · refine ⟨i, file, { files := init, links := links }, hfind, hi, hname, ?_, ?_, ?_⟩
      · simp only [nmRemoveFile, hfind, Option.bind_some, hrun, hlen]
        rw [if_neg (not_not_intro hlast)]
        simp [pop, hfiles]
      · refine chained_of_threads hlinks fun j => ?_
        simp only [bucket, hfiles, Function.update_apply]
        grind
      · simp [hfiles, swapRemove_concat, hlast]
    · have hlt : i < init.length := by
        have := (List.getElem?_eq_some_iff.1 hi).1
        simp only [hfiles, List.length_append, List.length_cons, List.length_nil] at this
        omega
      have hgetlast : t.files[init.length]? = some last := by simp [hfiles]
      have hlive : ∀ j, Function.update t.bucket i none j ≠ none → j < t.files.length := by
        intro j hj
        refine lt_of_bucket fun hz => hj ?_
        by_cases hji : j = i
        · rw [hji, Function.update_self]
        · rw [Function.update_of_ne hji, hz]
      obtain ⟨links', hrun', hlinks'⟩ := exists_fileHashRemove (t := { t with links := links }) hlinks hlive
        hgetlast (by rw [Function.update_of_ne (Ne.symm hlast)]; exact bucket_eq hgetlast)
      have hfree : Function.update (Function.update t.bucket i none) init.length none i = none := by
        rw [Function.update_of_ne hlast, Function.update_self]
      have hmoved := (Chains.Threads.setNext hlinks' hfree (links'.next init.length)).insert
        (bucketOf last.name) hfree
      have hset : (init ++ [last]).set i last = init.set i last ++ [last] := List.set_append_left _ _ hlt
      refine ⟨i, file, ⟨init.set i last, _⟩, hfind, hi, hname, ?_, chained_of_threads hmoved fun j => ?_, ?_⟩
      · simp only [nmRemoveFile, hfind, Option.bind_some, hrun, hlen]
        rw [if_pos hlast, hrun']
        simp [moveLast, pop, hfiles, fileHashInsert, hset, setNext, List.getElem?_append, hlt]
        rfl
      · simp only [bucket, Function.update_apply, hfiles]
        grind
      · simp [hfiles, swapRemove_concat, hlt]

/-- An addition ends: with a new entry, or with the table as it was. -/
theorem exists_nmAddFile {t : FileTable} (h : t.Chained) (name owner : Text) (ssIndex backupIndex now : Int) :
    (t.files.length < NM_MAX_FILES ∧ (∀ file ∈ t.files, file.name ≠ name) ∧
      ∃ t', t.nmAddFile name owner ssIndex backupIndex now = some (true, t') ∧ t'.Chained ∧
        t'.files = t.files ++ [newFileEntry name owner ssIndex backupIndex now]) ∨
    ((NM_MAX_FILES ≤ t.files.length ∨ ∃ file ∈ t.files, file.name = name) ∧
      t.nmAddFile name owner ssIndex backupIndex now = some (false, t)) := by
  unfold nmAddFile
  by_cases hfull : t.files.length ≥ NM_MAX_FILES
  · rw [if_pos hfull]
    exact .inr ⟨.inl hfull, rfl⟩
  · rw [if_neg hfull]
    obtain ⟨r, hfind, hsome, hnone⟩ := exists_findFileIndex h name
    rw [hfind]
    cases r with
    | none =>
      refine .inl ⟨Nat.lt_of_not_le hfull, hnone rfl, _, rfl, push_chained h _ _, ?_⟩
      rw [push_files]
    | some i =>
      obtain ⟨file, hi, hname⟩ := hsome i rfl
      exact .inr ⟨.inr ⟨file, List.mem_of_getElem? hi, hname⟩, rfl⟩

/-- Every operation ends, with chains that fit the entries. -/
theorem exists_step {t : FileTable} (h : t.Chained) (e : Event) : ∃ ok t', t.step e = some (ok, t') ∧ t'.Chained := by
  cases e with
  | add name owner ssIndex backupIndex now =>
    rcases exists_nmAddFile h name owner ssIndex backupIndex now with ⟨-, -, t', ht', hc, -⟩ | ⟨-, hrun⟩
    · exact ⟨_, _, ht', hc⟩
    · exact ⟨_, _, hrun, h⟩
  | remove name =>
    rcases exists_nmRemoveFile h name with ⟨-, -, t', -, -, -, ht', hc, -⟩ | ⟨-, hrun⟩
    · exact ⟨_, _, ht', hc⟩
    · exact ⟨_, _, hrun, h⟩

theorem chained_of_init {t : FileTable} (h : system.init t) : t.Chained := by
  rcases h with rfl | ⟨file, rfl⟩
  · exact chained_clear
  · exact ofList_chained _

theorem chained_of_step {t t' : FileTable} {e : Event} (h : t.Chained) (hs : system.step t e t') : t'.Chained := by
  obtain ⟨ok, t'', hrun, hc⟩ := exists_step h e
  obtain ⟨r, hr, rfl⟩ := Option.map_eq_some_iff.1 hs
  rw [hrun] at hr
  cases hr
  exact hc

theorem chained_of_run {tr : List (FileTable × Event)} {t : FileTable} (h : system.Run tr t) : t.Chained :=
  h.invariant (G := fun _ _ => True) (fun _ => chained_of_init) (fun _ _ _ hc _ hs => chained_of_step hc hs)
    fun _ _ => trivial

/-! ## The list of entries -/

/-- **Hash chains.** In every run each live index is on the chain of its name's bucket, once, and nothing
else is on a chain; a name is found, in finitely many steps, exactly when a live entry has it; and a
removal takes one entry of the name out and leaves the contents of the others. -/
theorem chains_of_run {tr : List (FileTable × Event)} {t : FileTable} (h : system.Run tr t) :
    (∃ chain : Nat → List Nat, ∀ b, Chains.Linked t.links.next (t.links.heads b) (chain b) ∧ (chain b).Nodup ∧
      ∀ i, i ∈ chain b ↔ ∃ file, t.files[i]? = some file ∧ bucketOf file.name = b) ∧
    (∀ name, ∃ r, t.findFileIndex name = some r ∧ (r.isSome = true ↔ ∃ file ∈ t.files, file.name = name) ∧
      ∀ i, r = some i → ∃ file, t.files[i]? = some file ∧ file.name = name) ∧
    ∀ name, ∃ ok t', t.nmRemoveFile name = some (ok, t') ∧
      ((ok = true ∧ ∃ i file, t.files[i]? = some file ∧ file.name = name ∧ t'.files.Perm (t.files.eraseIdx i)) ∨
        (ok = false ∧ t' = t ∧ ∀ file ∈ t.files, file.name ≠ name)) := by
  have hc := chained_of_run h
  refine ⟨?_, fun name => ?_, fun name => ?_⟩
  · obtain ⟨chain, hchain⟩ := hc
    refine ⟨chain, fun b => ⟨(hchain b).1, (hchain b).2.1, fun i => ?_⟩⟩
    rw [(hchain b).2.2 i, bucket, Option.map_eq_some_iff]
  · obtain ⟨r, hfind, hsome, hnone⟩ := exists_findFileIndex hc name
    refine ⟨r, hfind, ?_, hsome⟩
    cases r with
    | none => simpa using hnone rfl
    | some i =>
      obtain ⟨file, hi, hname⟩ := hsome i rfl
      simpa using ⟨file, List.mem_of_getElem? hi, hname⟩
  · rcases exists_nmRemoveFile hc name with ⟨i, file, t', -, hi, hname, hrun, -, hrest⟩ | ⟨hnone, hrun⟩
    · refine ⟨true, t', hrun, .inl ⟨rfl, i, file, hi, hname, ?_⟩⟩
      rw [hrest]
      exact swapRemove_perm (List.getElem?_eq_some_iff.1 hi).1
    · exact ⟨false, t, hrun, .inr ⟨rfl, rfl, hnone⟩⟩

/-- Two files of one bucket and a third one, of which the first is removed again. -/
theorem chains_after_removal : ∃ tr t, tr.length = 4 ∧ t.files.map FileEntry.name = [Text.lit "c", Text.lit "bA"] ∧
    bucketOf (Text.lit "ab") = bucketOf (Text.lit "bA") ∧ t.findFileIndex (Text.lit "bA") = some (some 1) ∧
    ∃ r, t.findFileIndex (Text.lit "c") = some r ∧
      (r.isSome = true ↔ ∃ file ∈ t.files, file.name = Text.lit "c") ∧ system.Run tr t := by
  let add (name : String) : Event := .add (Text.lit name) (Text.lit "u") 0 (-1) 9
  have hex : (System.exec (fun t e => (step t e).map Prod.snd) [] clear
      [add "ab", add "bA", add "c", .remove (Text.lit "ab")]).map (fun r => (r.1.length, r.2.files.map FileEntry.name,
        r.2.findFileIndex (Text.lit "bA"))) =
      some (4, [Text.lit "c", Text.lit "bA"], some (some 1)) := by decide +kernel
  obtain ⟨⟨tr, t⟩, hrun, heq⟩ := Option.map_eq_some_iff.1 hex
  simp only [Prod.mk.injEq] at heq
  have hr : system.Run tr t := System.Run.exec (.start (.inl rfl)) hrun
  obtain ⟨r, hr1, hr2, -⟩ := (chains_of_run hr).2.1 (Text.lit "c")
  exact ⟨tr, t, heq.1, heq.2.1, by decide +kernel, heq.2.2, r, hr1, hr2, hr⟩

section Refinement

variable {t : FileTable} {state : NmState} (h : t.Chained) (hfiles : state.files = t.files)
  (hnames : (state.files.map FileEntry.name).Nodup)

include h hfiles hnames

/-- When names differ the chain leads to the entry that the list alone gives. -/
theorem findFileIndex_eq (name : Text) : t.findFileIndex name = some (Nm.findFileIndex state name) := by
  obtain ⟨r, hfind, hsome, hnone⟩ := exists_findFileIndex h name
  rw [hfind, Nm.findFileIndex, hfiles]
  congr 1
  cases r with
  | none => exact (List.findIdx?_eq_none_iff.2 (by simpa using hnone rfl)).symm
  | some i =>
    obtain ⟨file, hi, rfl⟩ := hsome i rfl
    obtain ⟨pre, post, hsplit, rfl⟩ := exists_append_of_getElem? hi
    rw [hfiles, hsplit, List.map_append, List.nodup_append] at hnames
    have hpre : ∀ x ∈ pre, x.name ≠ file.name := fun x hx =>
      hnames.2.2 _ (List.mem_map_of_mem hx) _ (by simp)
    rw [hsplit, List.findIdx?_append, List.findIdx?_eq_none_iff.2 (by simpa using hpre)]
    simp [List.findIdx?_cons]

/-- `nm_add_file` on the chains does what it does on the list alone. -/
theorem nmAddFile_eq (name owner : Text) (ssIndex backupIndex now : Int) :
    ∃ t', t.nmAddFile name owner ssIndex backupIndex now =
        some ((Nm.nmAddFile state name owner ssIndex backupIndex now).isSome, t') ∧
      t'.files = ((Nm.nmAddFile state name owner ssIndex backupIndex now).getD state).files := by
  unfold nmAddFile Nm.nmAddFile
  rw [findFileIndex_eq h hfiles hnames, hfiles]
  by_cases hfull : t.files.length ≥ NM_MAX_FILES
  · simp [hfull, hfiles]
  · rw [if_neg hfull, if_neg hfull]
    cases Nm.findFileIndex state name <;> simp [push_files, hfiles]

/-- So does `nm_remove_file`. -/
theorem nmRemoveFile_eq (name : Text) :
    ∃ t', t.nmRemoveFile name = some ((Nm.nmRemoveFile state name).isSome, t') ∧
      t'.files = ((Nm.nmRemoveFile state name).getD state).files := by
  have hfind := findFileIndex_eq h hfiles hnames name
  unfold Nm.nmRemoveFile
  rcases exists_nmRemoveFile h name with ⟨i, file, t', hi, -, -, hrun, -, hrest⟩ | ⟨hnone, hrun⟩
  · have hidx : Nm.findFileIndex state name = some i := by
      rw [hfind] at hi
      simpa using hi
    refine ⟨t', ?_, ?_⟩
    · simp [hidx, hrun]
    · simp [hidx, hrest, hfiles]
  · have hidx : Nm.findFileIndex state name = none := by
      rw [Nm.findFileIndex, hfiles, List.findIdx?_eq_none_iff]
      simpa using hnone
    refine ⟨t, ?_, ?_⟩
    · simp [hidx, hrun]
    · simp [hidx, hfiles]

end Refinement

/-! ## Loaded tables -/

/-- The indices of a bucket, the latest first: the chain while entries only come in. -/
def latestFirst (files : List FileEntry) (b : Nat) : List Nat :=
  (List.range files.length).reverse.filter fun i => files[i]?.any fun file => bucketOf file.name == b

theorem latestFirst_concat (files : List FileEntry) (file : FileEntry) (b : Nat) :
    latestFirst (files ++ [file]) b =
      if bucketOf file.name = b then files.length :: latestFirst files b else latestFirst files b := by
  have hold : (List.range files.length).reverse.filter
      (fun i => (files ++ [file])[i]?.any fun file => bucketOf file.name == b) = latestFirst files b := by
    refine List.filter_congr fun i hi => ?_
    have hlt : i < files.length := by simpa using hi
    rw [List.getElem?_append_left hlt]
  rw [latestFirst, List.length_append, List.length_singleton, List.range_succ, List.reverse_append,
    List.reverse_singleton, List.singleton_append, List.filter_cons, hold]
  simp

theorem ofList_linked (files : List FileEntry) (hlen : files.length ≤ NM_MAX_FILES) :
    (ofList files).files = files ∧
      ∀ b, Chains.Linked (ofList files).links.next ((ofList files).links.heads b) (latestFirst files b) := by
  induction files using List.reverseRecOn with
  | nil => exact ⟨rfl, fun _ => rfl⟩
  | append_singleton files file ih =>
    rw [List.length_append, List.length_singleton] at hlen
    obtain ⟨hfiles, hlinked⟩ := ih (by omega)
    have hpush : ofList (files ++ [file]) = (ofList files).push file 0 := by
      rw [ofList, List.foldl_append, List.foldl_cons, List.foldl_nil, load, if_neg]
      · rfl
      · change ¬ (ofList files).files.length ≥ NM_MAX_FILES
        rw [hfiles]
        omega
    have hnew : ∀ b, files.length ∉ latestFirst files b := fun b hm => by
      simp [latestFirst] at hm
    have hlinks : (ofList (files ++ [file])).links =
        ((ofList files).links.set 0 (.next files.length)).insert (bucketOf file.name) files.length := by
      simp [hpush, push, fileHashInsert, setNext, hfiles]
    refine ⟨by rw [hpush, push_files, hfiles], fun b => ?_⟩
    have hnext := Chains.linked_insert (Chains.linked_setNext hlinked hnew 0) (bucketOf file.name) hnew b
    rw [← hlinks] at hnext
    rw [latestFirst_concat]
    split
    · next hb =>
      subst hb
      rwa [Function.update_self] at hnext
    · next hb => rwa [Function.update_of_ne (Ne.symm hb)] at hnext

/-- In a table that was loaded, looking a name up finds the entry of that name that was loaded last. -/
theorem findFileIndex_ofList (state : NmState) (hlen : state.files.length ≤ NM_MAX_FILES) (name : Text) :
    (ofList state.files).findFileIndex name = some (findLoadedFile state name) := by
  obtain ⟨hfiles, hlinked⟩ := ofList_linked state.files hlen
  have hshort : (latestFirst state.files (bucketOf name)).length < (ofList state.files).linkLimit := by
    have := List.length_filter_le (fun i => state.files[i]?.any fun file => bucketOf file.name == bucketOf name)
      (List.range state.files.length).reverse
    rw [List.length_reverse, List.length_range] at this
    rw [linkLimit, hfiles]
    exact Nat.lt_succ_of_le this
  unfold findFileIndex
  rw [Chains.search_linked _ (hlinked (bucketOf name)) hshort, hfiles, findLoadedFile, latestFirst, List.find?_filter]
  congr 2
  funext i
  cases state.files[i]? with
  | none => rfl
  | some file =>
    by_cases hname : file.name = name
    · simp [hname]
    · simp [hname]

end FileTable

end CoWrite.Nm
