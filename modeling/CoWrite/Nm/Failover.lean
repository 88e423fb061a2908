import CoWrite.Nm.Replication

/-!
# Failover, twice

A lost server is met in two places: `handle_server_disconnect` goes through all files at once, and
`select_storage_server` looks at one file when a request comes for it. Both make the same of an entry whose primary is
the lost server (`selectFile_eq`), so it does not matter which of these files are selected before the disconnect
(`failover_agrees`).
-/

namespace CoWrite.Nm

/-- `select_storage_server` for the files with the names, one after the other. -/
def selectAll (s : NmState) (names : List Text) : NmState :=
  names.foldl (fun s name => (selectStorageServer s name).2) s

/-- What `select_storage_server` makes of the entry. -/
def selectFile (s : NmState) (file : FileEntry) : FileEntry :=
  if file.ssIndex ≥ 0 ∧ s.available file.ssIndex then file
  else if file.backupIndex ≥ 0 then
    if s.available file.backupIndex then failover file else dropBackup file
  else file

theorem select_tables {s : NmState} {name : Text} {file : FileEntry} (hfind : nmFindFile s name = some file) :
    ∃ pre post, s.files = pre ++ file :: post ∧
      (selectStorageServer s name).2 = { s with files := pre ++ selectFile s file :: post } := by
  have hmodify (f : FileEntry → FileEntry) (hf : selectFile s file = f file) : ∃ pre post,
      s.files = pre ++ file :: post ∧ s.modifyFile name f = { s with files := pre ++ selectFile s file :: post } := by
    obtain ⟨-, pre, post, hfiles, -, heq⟩ := exists_modifyFile hfind f
    exact ⟨pre, post, hfiles, hf ▸ heq⟩
  have hkept (hf : selectFile s file = file) : ∃ pre post,
      s.files = pre ++ file :: post ∧ s = { s with files := pre ++ selectFile s file :: post } := by
    obtain ⟨-, pre, post, hfiles, -⟩ := exists_modifyFile hfind id
    refine ⟨pre, post, hfiles, ?_⟩
    rw [hf, ← hfiles]
  unfold selectStorageServer
  rw [hfind]
  dsimp only
  by_cases hprimary : file.ssIndex ≥ 0 ∧ s.available file.ssIndex = true
  · rw [if_pos hprimary]
    exact hkept (if_pos hprimary)
  · rw [if_neg hprimary]
    by_cases hbackup : file.backupIndex ≥ 0
    · rw [if_pos hbackup]
      by_cases havailable : s.available file.backupIndex = true
      · rw [if_pos havailable]
        refine hmodify failover ?_
        rw [selectFile, if_neg hprimary, if_pos hbackup, if_pos havailable]
      · rw [if_neg havailable]
        refine hmodify dropBackup ?_
        rw [selectFile, if_neg hprimary, if_pos hbackup, if_neg havailable]
    · rw [if_neg hbackup]
      refine hkept ?_
      rw [selectFile, if_neg hprimary, if_neg hbackup]

/-! ## One entry -/

section Entry

variable {s : NmState} {k : Nat} (hdown : s.available k = false)

include hdown

/-- The lost server is in no entry that the disconnect leaves, but as a primary without a backup. -/
theorem disconnectFile_settled (file : FileEntry) : (disconnectFile s k file).backupIndex ≠ k ∧
    ((disconnectFile s k file).ssIndex = k → (disconnectFile s k file).backupIndex < 0) := by
  have hdrop (file' : FileEntry) : (dropBackup file').backupIndex ≠ k ∧
      ((dropBackup file').ssIndex = k → (dropBackup file').backupIndex < 0) := by
    have hnone : (dropBackup file').backupIndex = -1 := rfl
    rw [hnone]
    exact ⟨by omega, fun _ => by omega⟩
  unfold disconnectFile
  by_cases hprimary : file.ssIndex = k ∧ file.backupIndex ≥ 0
  · by_cases havailable : s.available file.backupIndex = true
    · have hne : (failover file).ssIndex ≠ k := by
        intro heq
        rw [show file.backupIndex = k from heq, hdown] at havailable
        cases havailable
      simp only [if_pos hprimary, if_pos havailable]
      split
      · exact hdrop _
      · next hbackup => exact ⟨hbackup, fun heq => absurd heq hne⟩
    · simp only [if_pos hprimary, if_neg havailable]
      split
      · exact hdrop _
      · exact hdrop _
  · simp only [if_neg hprimary]
    split
    · exact hdrop _
    · next hbackup =>
      refine ⟨hbackup, fun heq => ?_⟩
      by_contra hge
      exact hprimary ⟨heq, Int.not_lt.1 hge⟩

omit hdown in
/-- An entry that the lost server is not in stays. -/
theorem disconnectFile_eq_self {file : FileEntry} (hbackup : file.backupIndex ≠ k)
    (hprimary : file.ssIndex = k → file.backupIndex < 0) : disconnectFile s k file = file := by
  have hnot : ¬ (file.ssIndex = k ∧ file.backupIndex ≥ 0) := fun h => Int.not_lt.2 h.2 (hprimary h.1)
  simp only [disconnectFile, if_neg hnot, if_neg hbackup]

theorem disconnectFile_disconnectFile (file : FileEntry) :
    disconnectFile s k (disconnectFile s k file) = disconnectFile s k file :=
  disconnectFile_eq_self (disconnectFile_settled hdown file).1 (disconnectFile_settled hdown file).2

/-- **Both make the same** of an entry whose primary is lost. -/
theorem selectFile_eq {file : FileEntry} (hprimary : file.ssIndex = k) : selectFile s file = disconnectFile s k file := by
  have hnot : ¬ (file.ssIndex ≥ 0 ∧ s.available file.ssIndex = true) := by
    rw [hprimary, hdown]
    simp
  by_cases hbackup : file.backupIndex ≥ 0
  · unfold selectFile disconnectFile
    rw [if_neg hnot, if_pos hbackup]
    simp only [if_pos (show file.ssIndex = k ∧ file.backupIndex ≥ 0 from ⟨hprimary, hbackup⟩)]
    split
    · have hnone : (failover file).backupIndex ≠ k := by
        show (-1 : Int) ≠ k
        omega
      rw [if_neg hnone]
    · have hnone : (dropBackup file).backupIndex ≠ k := by
        show (-1 : Int) ≠ k
        omega
      rw [if_neg hnone]
  · have hnone : file.backupIndex ≠ k := by omega
    rw [disconnectFile_eq_self hnone fun _ => Int.not_le.1 hbackup, selectFile, if_neg hnot, if_neg hbackup]

/-- The primary after the disconnect of an entry that had the lost one. -/
theorem ssIndex_disconnectFile {file : FileEntry} (hprimary : file.ssIndex = k) :
    (disconnectFile s k file).ssIndex = k ∨
      0 ≤ (disconnectFile s k file).ssIndex ∧ s.available (disconnectFile s k file).ssIndex = true := by
  rw [← selectFile_eq hdown hprimary]
  unfold selectFile
  split_ifs with hup hbackup havailable
  · exact .inl hprimary
  · exact .inr ⟨hbackup, havailable⟩
  · exact .inl hprimary
  · exact .inl hprimary

/-- An entry that the disconnect makes the same of as of one with the lost primary may be selected first. -/
theorem disconnectFile_selectFile {file old : FileEntry} (hprimary : old.ssIndex = k)
    (hsame : disconnectFile s k file = disconnectFile s k old) :
    disconnectFile s k (selectFile s file) = disconnectFile s k file := by
  by_cases hfile : file.ssIndex = k
  · rw [selectFile_eq hdown hfile, disconnectFile_disconnectFile hdown]
  · -- the file has its new primary already
    have hkept : (disconnectFile s k file).ssIndex = file.ssIndex := by
      have hnot : ¬ (file.ssIndex = k ∧ file.backupIndex ≥ 0) := fun h => hfile h.1
      simp only [disconnectFile, if_neg hnot]
      split <;> rfl
    rcases ssIndex_disconnectFile hdown hprimary with heq | hup
    · rw [← hsame, hkept] at heq
      exact absurd heq hfile
    · rw [← hsame, hkept] at hup
      rw [selectFile, if_pos hup]

end Entry

/-! ## All files -/

/-- What the disconnect would make of the files does not change with the selections. -/
theorem selectAll_spec {s : NmState} {k : Nat} (hdown : s.available k = false) {names : List Text}
    (hnames : ∀ name ∈ names, ∀ file, nmFindFile s name = some file → file.ssIndex = k) :
    (selectAll s names).servers = s.servers ∧
      (selectAll s names).files.map (disconnectFile s k) = s.files.map (disconnectFile s k) := by
  induction names using List.reverseRecOn with
  | nil => exact ⟨rfl, rfl⟩
  | append_singleton names name ih =>
    obtain ⟨hservers, hfiles⟩ := ih fun n hn => hnames n (List.mem_append_left _ hn)
    have hlast : selectAll s (names ++ [name]) = (selectStorageServer (selectAll s names) name).2 := by
      unfold selectAll
      rw [List.foldl_append]
      rfl
    rw [hlast]
    refine ⟨(beside_servers.selectStorageServer_eq _ _).trans hservers, ?_⟩
    cases hfind : nmFindFile (selectAll s names) name with
    | none =>
      unfold selectStorageServer
      rw [hfind]
      exact hfiles
    | some file =>
      obtain ⟨pre, post, hsplit, heq⟩ := select_tables hfind
      obtain ⟨old, hold, hsame⟩ : ∃ old, nmFindFile s name = some old ∧ disconnectFile s k file = disconnectFile s k old := by
        have hmap : (nmFindFile (selectAll s names) name).map (disconnectFile s k) =
            (nmFindFile s name).map (disconnectFile s k) := by
          have hview (t : NmState) : (nmFindFile t name).map (disconnectFile s k) =
              (t.files.map (disconnectFile s k)).find? fun file => file.name == name := by
            rw [List.find?_map]
            simp only [Function.comp_def, disconnectFile_name]
            rfl
          rw [hview, hview, hfiles]
        rw [hfind, Option.map_some] at hmap
        obtain ⟨old, hold, hsame⟩ := Option.map_eq_some_iff.1 hmap.symm
        exact ⟨old, hold, hsame.symm⟩
      have hprimary := hnames name (List.mem_append_right _ (List.mem_singleton_self name)) old hold
      have hselect : selectFile (selectAll s names) file = selectFile s file := by
        simp only [selectFile, available_congr hservers]
      rw [heq, ← hfiles, hsplit, hselect]
      simp only [List.map_append, List.map_cons, disconnectFile_selectFile hdown hprimary hsame]

/-- The same server is marked down twice. -/
theorem available_nmMarkServerDown_twice (s : NmState) (k : Nat) (i : Int) :
    (nmMarkServerDown (nmMarkServerDown s k) k).available i = (nmMarkServerDown s k).available i := by
  by_cases hi : (k : Int) = i
  · subst hi
    rw [not_available_nmMarkServerDown, not_available_nmMarkServerDown]
  · rw [available_nmMarkServerDown hi]

/-- **The two failovers agree**: whichever files of a lost server are selected first, the disconnect leaves the same
entries. A backup that is available is the primary after it, the lost server is the backup of no file, and entries
without it stay. -/
theorem failover_agrees {s : NmState} (h : s.Placed) (k : Nat) {names : List Text}
    (hnames : ∀ name ∈ names, ∀ file, nmFindFile s name = some file → file.ssIndex = k) :
    (handleServerDisconnect (selectAll (nmMarkServerDown s k) names) k).1.files = (handleServerDisconnect s k).1.files ∧
      List.Forall₂ (fun file file' : FileEntry => file'.name = file.name ∧
        (file.ssIndex = k → s.available file.backupIndex = true → file'.ssIndex = file.backupIndex) ∧
        file'.backupIndex ≠ k ∧ (file.ssIndex ≠ k → file.backupIndex ≠ k → file' = file))
        s.files (handleServerDisconnect s k).1.files := by
  have hdown : (nmMarkServerDown s k).available k = false := not_available_nmMarkServerDown s k
  constructor
  · have hmarked : ∀ name ∈ names, ∀ file, nmFindFile (nmMarkServerDown s k) name = some file → file.ssIndex = k := by
      intro name hname file hfind
      refine hnames name hname file ?_
      unfold nmFindFile at hfind ⊢
      rwa [nmMarkServerDown_files] at hfind
    obtain ⟨hservers, hfiles⟩ := selectAll_spec hdown hmarked
    have hmark : disconnectFile (nmMarkServerDown (selectAll (nmMarkServerDown s k) names) k) k =
        disconnectFile (nmMarkServerDown s k) k := by
      funext file
      have havailable (i : Int) : (nmMarkServerDown (selectAll (nmMarkServerDown s k) names) k).available i =
          (nmMarkServerDown s k).available i := by
        rw [← available_nmMarkServerDown_twice s k i]
        by_cases hi : (k : Int) = i
        · subst hi
          rw [not_available_nmMarkServerDown, not_available_nmMarkServerDown]
        · rw [available_nmMarkServerDown hi, available_nmMarkServerDown hi, available_congr hservers]
      simp only [disconnectFile, havailable]
    simp only [handleServerDisconnect, nmMarkServerDown_files, hmark]
    rw [hfiles, nmMarkServerDown_files]
  · simp only [handleServerDisconnect, nmMarkServerDown_files, List.forall₂_map_right_iff, List.forall₂_same]
    intro file hfile
    refine ⟨disconnectFile_name .., ?_, (disconnectFile_settled hdown file).1, ?_⟩
    · intro hprimary hbackup
      obtain ⟨hge, -⟩ := available_iff.1 hbackup
      have hne : (k : Int) ≠ file.backupIndex := by
        obtain ⟨-, -, hbackup⟩ := h file hfile
        omega
      rw [← available_nmMarkServerDown hne] at hbackup
      have hnot : ¬ (file.ssIndex ≥ 0 ∧ (nmMarkServerDown s k).available file.ssIndex = true) := by
        rw [hprimary, hdown]
        simp
      rw [← selectFile_eq hdown hprimary, selectFile, if_neg hnot, if_pos hge, if_pos hbackup]
      rfl
    · intro hprimary hbackup
      exact disconnectFile_eq_self hbackup fun heq => absurd heq hprimary

/-- Two servers are up and one is down; one file has its backup on each of the other two, and one its backup on the
first. -/
def threeServers : NmState :=
  let server (id : String) (online : Bool) : StorageServer :=
    { id := Text.lit id, host := Text.lit "127.0.0.1", ctrlPort := Text.lit "0", dataPort := Text.lit "9001"
      ctrlFd := if online then 4 else -1, online := online }
  let file (name : String) (primary backup : Int) : FileEntry :=
    newFileEntry (Text.lit name) (Text.lit "alice") primary backup 1700000000
  { NmState.clear with
    servers := [server "ss1" true, server "ss2" true, server "ss3" false]
    files := [file "a" 0 1, file "b" 0 2, file "c" 1 0] }

theorem failover_agrees_three :
    (handleServerDisconnect (selectAll (nmMarkServerDown threeServers (0 : Nat)) [Text.lit "b"]) (0 : Nat)).1.files =
        (handleServerDisconnect threeServers (0 : Nat)).1.files ∧
      ((handleServerDisconnect threeServers (0 : Nat)).1.files.map fun file => (file.ssIndex, file.backupIndex)) =
        [(1, -1), (0, -1), (1, -1)] := by
  have hplaced : threeServers.Placed := by
    unfold NmState.Placed FileEntry.Placed
    decide
  refine ⟨(failover_agrees hplaced 0 ?_).1, by decide⟩
  intro name hname file hfind
  cases List.mem_singleton.1 hname
  have hb : nmFindFile threeServers (Text.lit "b") = some (newFileEntry (Text.lit "b") (Text.lit "alice") 0 2 1700000000) := by
    decide
  cases hfind.symm.trans hb
  rfl

end CoWrite.Nm
