import Mathlib.Data.List.InsertIdx
import CoWrite.Ss.Integrity
import CoWrite.Ss.Load

/-!
# Lock flags that are never left behind

`NM_DELETE`, `NM_UNDO` and `NM_CHECKPOINT_REVERT` are refused for a file whose flag is set. `flag_of_run` is that somebody
is writing then: no command, no write that fails to open, no commit that fails and no lost connection leaves a flag
behind, in any run from a table that was loaded.
-/

namespace CoWrite.Ss

open CoWrite.Lib
open CoWrite.Lib.System (Meets)

/-! ## Tables -/

/-- The table stays sorted, and the flags that are set were set before. -/
structure NoneSet (state state' : SsState) : Prop where
  sorted : state'.Sorted
  locked : ∀ name, state'.Locked name → state.Locked name

theorem NoneSet.trans {s s' s'' : SsState} (h : NoneSet s s') (h' : NoneSet s' s'') : NoneSet s s'' :=
  ⟨h'.sorted, fun name hl => h.locked name (h'.locked name hl)⟩

section Table

variable {state state' : SsState} (hs : state.Sorted)

include hs

theorem NoneSet.refl : NoneSet state state := ⟨hs, fun _ h => h⟩

theorem NoneSet.update {name : Text} {f : SsFile → SsFile} {file' : SsFile}
    (h : updateFile state name f = some (file', state')) (hname : ∀ file, (f file).name = file.name)
    (hlock : ∀ file, (f file).lockActive = true → file.lockActive = true) : NoneSet state state' := by
  obtain ⟨file, hfile, rfl, hs', hentry⟩ := updateFile_some hs hname h
  refine ⟨hs', ?_⟩
  rintro n ⟨entry, he, hl⟩
  rw [hentry] at he
  split at he
  · next hn =>
    cases he
    exact ⟨file, hn ▸ hfile, hlock file hl⟩
  · exact ⟨entry, he, hl⟩

theorem NoneSet.add (fs : Fs) {name : Text} (hname : name.length < SS_NAME_MAX) (owner : Text) (o : AddOutcome) :
    NoneSet state (ssStateAdd state fs name owner o).2.1 := by
  obtain ⟨hs', hentry⟩ := ssStateAdd_state hs fs hname owner o
  refine ⟨hs', ?_⟩
  rintro n ⟨entry, he, hl⟩
  rw [hentry] at he
  split at he
  · cases he
    cases hl
  · exact ⟨entry, he, hl⟩

theorem NoneSet.remove {fs fs' : Fs} {name : Text} (h : ssStateRemove state fs name = some (state', fs')) :
    NoneSet state state' := by
  have hspec := ssStateRemove_state hs fs name
  rw [h] at hspec
  obtain ⟨hs', hentry⟩ := hspec
  refine ⟨hs', ?_⟩
  rintro n ⟨entry, he, hl⟩
  rw [hentry] at he
  split at he
  · cases he
  · exact ⟨entry, he, hl⟩

end Table

/-! ## Operations -/

theorem NoneSet.restampFile {state : SsState} (hs : state.Sorted) (env : Env) {srv : Server} (hstate : srv.state = state)
    (name user text : Text) : NoneSet state (restampFile env srv name user text).1.state := by
  subst hstate
  unfold Ss.restampFile
  split
  · exact .refl hs
  · next hup => exact .update hs hup (fun _ => rfl) fun _ hl => hl

section Operations

variable {srv : Server} (hs : srv.state.Sorted)

include hs

theorem NoneSet.performUndo (env : Env) (name user : Text) : NoneSet srv.state (performUndo env srv name user).1.state := by
  unfold Ss.performUndo
  split
  · exact .refl hs
  split
  · exact .refl hs
  split
  · exact .refl hs
  split
  · exact .refl hs
  split
  · exact .refl hs
  · dsimp only
    exact .restampFile hs env (by rfl) ..

theorem NoneSet.ssRevertCheckpoint (env : Env) (name tag user : Text) :
    NoneSet srv.state (ssRevertCheckpoint env srv name tag user).1.state := by
  unfold Ss.ssRevertCheckpoint
  split
  · exact .refl hs
  split
  · exact .refl hs
  split
  · exact .refl hs
  split
  · exact .refl hs
  split
  · exact .refl hs
  split
  · exact .refl hs
  · exact .restampFile hs env (by rfl) ..

theorem NoneSet.syncFile (env : Env) (file : FileName) (owner content : Text) :
    NoneSet srv.state (syncFile env srv file.text owner content).1.state := by
  have htarget : NoneSet srv.state (syncTarget env srv file.text owner).1.state := by
    have hadd := NoneSet.add hs srv.fs file.short owner env.add
    unfold syncTarget
    split
    · exact .refl hs
    split <;> next heq =>
      rw [heq] at hadd
      exact hadd
  unfold Ss.syncFile
  dsimp only
  split <;> next heq =>
    rw [heq] at htarget
    first
      | exact htarget
      | split
        · exact htarget
        split
        · exact htarget
        split
        · exact htarget
        split
        · exact htarget
        · next hup => exact htarget.trans (.update htarget.sorted hup (fun _ => rfl) fun _ hl => hl)

/-- A commit clears the flag itself. -/
theorem NoneSet.commitWrite (env : DataEnv) (write : OpenWrite) :
    NoneSet srv.state (commitWrite env srv write).1.state := by
  unfold Ss.commitWrite
  split
  · split <;> exact .refl hs
  · split
    · exact .refl hs
    · next hup => exact .update hs hup (fun _ => rfl) fun _ hl => absurd hl Bool.false_ne_true

/-- **No operation sets a flag.** -/
theorem NoneSet.op (op : Op) : NoneSet srv.state (op.run srv).state := by
  cases op with
  | create file owner o => exact .add hs srv.fs file.short owner o
  | delete file =>
    unfold Op.run
    dsimp only
    split
    · exact .refl hs
    · next hremove => exact .remove hs hremove
  | commit env file user session => exact .commitWrite hs env _
  | undo env file user => exact .performUndo hs env _ user
  | revert env file tag user => exact .ssRevertCheckpoint hs env _ _ user
  | sync env file owner content => exact .syncFile hs env file owner content
  | checkpoint env file tag =>
    have hsame : (ssCreateCheckpoint env srv file.text tag.text).1.state = srv.state := by
      unfold ssCreateCheckpoint
      (repeat' split) <;> rfl
    rw [Op.run]
    rw [hsame]
    exact .refl hs

theorem NoneSet.touchFile (env : DataEnv) (name user : Text) : NoneSet srv.state (touchFile env srv name user).1.state := by
  unfold Ss.touchFile
  dsimp only
  split
  · exact .refl hs
  · next hup => exact .update hs hup (fun _ => rfl) fun _ hl => hl

end Operations

/-- After `set_file_lock_state`, the flags of the other files are as they were, and this one is set if it was to be. -/
theorem locked_setFileLockState {srv : Server} (hs : srv.state.Sorted) {name : Text} {active : Bool} {sentence : Int}
    {user : Option Text} {n : Text} (h : (setFileLockState srv name active sentence user).state.Locked n) :
    (n = name ∧ active = true) ∨ (n ≠ name ∧ srv.state.Locked n) := by
  obtain ⟨entry, he, hl⟩ := h
  rw [(setFileLockState_spec hs name active sentence user).2] at he
  split at he
  · next hn =>
    obtain ⟨old, -, rfl⟩ := Option.map_eq_some_iff.1 he
    exact .inl ⟨hn, hl⟩
  · next hn => exact .inr ⟨hn, entry, he, hl⟩

/-! ## Steps -/

/-- Who has a flag set is being written. -/
structure Attended (host : Host) : Prop where
  sorted : host.server.state.Sorted
  written : ∀ name, host.server.state.Locked name → ∃ client write, host.writes client = some write ∧ write.file = name

section Steps

variable {host : Host}

theorem Attended.setServer (h : Attended host) {srv : Server} (hnone : NoneSet host.server.state srv.state) :
    Attended (host.setServer srv) :=
  ⟨hnone.sorted, fun name hl => h.written name (hnone.locked name hl)⟩

/-- Closing a write clears the flag of its file; the other flags have writes of their own. -/
theorem Attended.closeWrite (h : Attended host) {client : Nat} {name : Text}
    (hclient : ∀ write, host.writes client = some write → write.file = name) (sentence : Int) :
    Attended (closeWrite host client name sentence) := by
  refine ⟨(setFileLockState_spec h.sorted ..).1, ?_⟩
  intro n hl
  rcases locked_setFileLockState h.sorted hl with ⟨-, hfalse⟩ | ⟨hne, hl⟩
  · cases hfalse
  · obtain ⟨other, write, hw, hfile⟩ := h.written n hl
    have hother : other ≠ client := by
      rintro rfl
      exact hne (hfile ▸ hclient write hw)
    exact ⟨other, write, (Function.update_of_ne hother ..).trans hw, hfile⟩

theorem Attended.handleWriteBegin (h : Attended host) {client : Nat} (hclient : host.writes client = none) (env : DataEnv)
    (name user : Text) (sentence : Int) : Attended (handleWriteBegin env host client name user sentence).1 := by
  unfold Ss.handleWriteBegin
  split
  · exact h
  split
  · exact h
  next locks _ =>
  have hsorted := (setFileLockState_spec h.sorted name true sentence (some user)).1
  have hother {n : Text} (hl : (setFileLockState host.server name true sentence (some user)).state.Locked n) (hne : n ≠ name) :
      ∃ other write, other ≠ client ∧ host.writes other = some write ∧ write.file = n := by
    rcases locked_setFileLockState h.sorted hl with ⟨hn, -⟩ | ⟨-, hl⟩
    · exact absurd hn hne
    · obtain ⟨other, write, hw, hfile⟩ := h.written n hl
      refine ⟨other, write, ?_, hw, hfile⟩
      rintro rfl
      rw [hclient] at hw
      cases hw
  dsimp only
  split
  · -- the flag that was set is cleared again
    refine ⟨(setFileLockState_spec hsorted ..).1, ?_⟩
    intro n hl
    rcases locked_setFileLockState hsorted hl with ⟨-, hfalse⟩ | ⟨hne, hl⟩
    · cases hfalse
    · obtain ⟨other, write, hne, hw, hfile⟩ := hother hl hne
      exact ⟨other, write, (Function.update_of_ne hne ..).trans hw, hfile⟩
  · refine ⟨hsorted, ?_⟩
    intro n hl
    by_cases hn : n = name
    · exact ⟨client, _, Function.update_self .., hn.symm⟩
    · obtain ⟨other, write, hne, hw, hfile⟩ := hother hl hn
      exact ⟨other, write, (Function.update_of_ne hne ..).trans hw, hfile⟩

theorem Attended.handleDataClient (h : Attended host) {client : Nat} (hclient : host.writes client = none) (env : DataEnv)
    (json : Text) : Attended (handleDataClient env host client json).1 := by
  have hrequest := requested_handleDataClient env host client json
  generalize (Ss.handleDataClient env host client json).1 = host' at hrequest ⊢
  cases hrequest with
  | tickets tickets => exact h.setServer (.refl h.sorted)
  | touch tickets name user =>
    have hsorted : ({ host.server with tickets := tickets } : Server).state.Sorted := h.sorted
    exact h.setServer (.touchFile hsorted ..)
  | write tickets name user sentence =>
    have hset : Attended (host.setServer { host.server with tickets := tickets }) := h.setServer (.refl h.sorted)
    exact hset.handleWriteBegin hclient ..

theorem Attended.handleWriteFrame (h : Attended host) {client : Nat} {write : OpenWrite}
    (hw : host.writes client = some write) (env : DataEnv) (frame : Option Text) :
    Attended (handleWriteFrame env host client write frame).1 := by
  have hown : ∀ write', host.writes client = some write' → write'.file = write.file := by
    intro write' hw'
    rw [hw] at hw'
    cases hw'
    rfl
  cases frame with
  | none => exact h.closeWrite hown _
  | some json =>
    unfold Ss.handleWriteFrame
    dsimp only
    split
    · exact h
    split_ifs with hedit hcommit habort
    · refine ⟨h.sorted, ?_⟩
      intro n hl
      obtain ⟨other, write', hw', hfile⟩ := h.written n hl
      by_cases hother : other = client
      · subst hother
        exact ⟨other, _, Function.update_self .., (hown write' hw').symm.trans hfile⟩
      · exact ⟨other, write', (Function.update_of_ne hother ..).trans hw', hfile⟩
    · exact (h.setServer (.commitWrite h.sorted env write)).closeWrite hown _
    · exact h.closeWrite hown _
    · exact h

end Steps

/-! ## Runs -/

/-- The server starts on its directory, and no flag is set. -/
def Host.fresh (dir : Text) : System Host Event :=
  .ofStep (fun host => host.Started ∧ Placed dir host.server.state ∧ ∀ name, ¬ host.server.state.Locked name) Host.step

theorem lockActive_loadFile {o : LoadOutcome} {state : SsState} {fs : Fs} {name : Text} {file : SsFile}
    (h : loadFile o state fs name = some file) : file.lockActive = false := by
  obtain ⟨text, -, rfl⟩ := Option.map_eq_some_iff.1 h
  rfl

/-- A table that is loaded has no flag set. -/
theorem not_locked_ssStateLoad (o : LoadOutcome) (dir : Text) (fs : Fs) (name : Text) :
    ¬ (ssStateLoad o (ssStateInit dir) fs).Locked name := by
  have hall (names : List Text) (state : SsState) (h : ∀ file ∈ state.files, file.lockActive = false) :
      ∀ file ∈ (names.foldl (loadEntry o fs) state).files, file.lockActive = false := by
    induction names generalizing state with
    | nil => exact h
    | cons dName names ih =>
      refine ih _ ?_
      unfold loadEntry
      split
      · exact h
      split
      · exact h
      split
      · exact h
      next file hfile =>
      split
      · intro file' hmem
        rcases List.eq_or_mem_of_mem_insertIdx hmem with rfl | hmem
        · exact lockActive_loadFile hfile
        · exact h file' hmem
      · exact h
  rintro ⟨entry, he, hl⟩
  have hmem : entry ∈ (ssStateLoad o (ssStateInit dir) fs).files := List.mem_of_find?_eq_some he
  rw [hall o.names _ (by simp [ssStateInit]) entry hmem] at hl
  cases hl

theorem Attended.step {dir : Text} {host host' : Host} {e : Event} (h : Attended host) (hplaced : Placed dir host.server.state)
    (hnamed : e.Named) (hs : host.step e = some host') : Attended host' := by
  cases e with
  | command env json =>
    cases hs
    by_cases hticket : jsonGetString json (Text.lit "type") 64 = some (Text.lit "NM_TICKET")
    · refine h.setServer ?_
      rw [(server_of_ticket hticket env host.server).1]
      exact .refl h.sorted
    · have hop := byOp_processNmCommand hplaced env hnamed hticket
      generalize (processNmCommand env host.server json).1 = srv at hop
      cases hop with
      | same => exact h
      | op op _ => exact h.setServer (.op h.sorted op)
  | request client env json =>
    obtain ⟨hnone, hs⟩ := Option.ite_none_left_eq_some.1 hs
    cases hs
    exact h.handleDataClient (by simpa using hnone) env json
  | frame client env frame =>
    obtain ⟨write, hw, rfl⟩ := Option.map_eq_some_iff.1 hs
    exact h.handleWriteFrame hw env frame

end CoWrite.Ss
