import Mathlib.Data.List.DropRight
import Mathlib.Logic.Function.Basic
import CoWrite.Nm.Persist

/-!
# Saving the state when writes fail

`nm_state_save` call by call. The lines go to a temporary file that is renamed over the state file; `write_line` and
the calls that flush, sync and close the file report their failures, and nothing looks at the reports.

* `writeLines_eq_iff`: the temporary file gets all of its lines exactly when every call that prints one succeeds.
* `saved_whole_iff`: the state file is the old one or the whole new one unless the rename follows a failure.
-/

namespace CoWrite.Nm

/-! ## The stream -/

/-- What a call that writes to the stream answers. One that fails has lost the end of what was waiting. -/
inductive Put where
  | done
  | failed (lost : Nat)
deriving DecidableEq, Repr

/-- `vfprintf`, `fputc`: whether the call succeeds, and what the file will hold. -/
def put (content text : Text) : Put → Bool × Text
  | .done => (true, content ++ text)
  | .failed lost => (false, (content ++ text).rdrop (lost + 1))

/-- `write_line`: there is no newline behind a line that could not be printed. -/
def writeLine (content line : Text) (print newline : Put) : Bool × Text :=
  match put content line print with
  | (false, content) => (false, content)
  | (true, content) => put content ['\n'] newline

/-- What the calls of `nm_state_save` answer. -/
structure SaveOutcome where
  /-- `fopen` of the temporary file. -/
  opened : Bool
  /-- The two calls of the `n`-th `write_line`. -/
  lines : Nat → Put × Put
  /-- How many characters at the end were not stored, when `fflush`, `fsync` and `fclose` were done. -/
  flush : Nat
  sync : Nat
  close : Nat
  renamed : Bool

/-- The calls of `write_line` from the `n`-th on. -/
def writeLines (o : SaveOutcome) (content : Text) : Nat → List Text → Text
  | _, [] => content
  | n, line :: rest => writeLines o (writeLine content line (o.lines n).1 (o.lines n).2).2 (n + 1) rest

/-- The contents of the files by path. -/
abbrev Files := Text → Option Text

/-- `nm_state_save`: what it returns, and the files it leaves. -/
def nmStateSaveFile (files : Files) (persistPath : Text) (state : NmState) (o : SaveOutcome) : Int × Files :=
  if persistPath = [] then (0, files)
  else
    let tmpPath := Text.copyTo 512 (persistPath ++ Text.lit ".tmp")
    if !o.opened then (-1, files)
    else
      let content := (((writeLines o [] 0 (saveLines state)).rdrop o.flush).rdrop o.sync).rdrop o.close
      let files := Function.update files tmpPath (some content)
      if !o.renamed then (-1, Function.update files tmpPath none)
      else (0, Function.update (Function.update files persistPath (files tmpPath)) tmpPath none)

/-- The path of a state file, in its buffer. -/
structure StatePath where
  text : Text
  set : text ≠ []
  short : text.length < 256

/-- The state file is what it was or the whole new one, and `0` says that it is the new one. -/
structure SavedWhole (files : Files) (path : StatePath) (state : NmState) (r : Int × Files) : Prop where
  file : r.2 path.text = files path.text ∨ r.2 path.text = some (nmStateSave state)
  result : r.1 = 0 → r.2 path.text = some (nmStateSave state)

/-- All calls between opening and renaming succeed. -/
structure SaveOutcome.Whole (o : SaveOutcome) (state : NmState) : Prop where
  lines : ∀ n < (saveLines state).length, o.lines n = (.done, .done)
  flush : o.flush = 0
  sync : o.sync = 0
  close : o.close = 0

/-! ## The lines -/

/-- A line is written whole, or something is missing for good. -/
theorem length_writeLine (content line : Text) (print newline : Put) :
    (writeLine content line print newline).2.length ≤ content.length + (line.length + 1) ∧
      ((writeLine content line print newline).2.length = content.length + (line.length + 1) →
        print = .done ∧ newline = .done) := by
  cases print with
  | failed lost =>
    simp [writeLine, put, List.rdrop]
    omega
  | done =>
    cases newline with
    | failed lost =>
      simp [writeLine, put, List.rdrop]
      omega
    | done => simp [writeLine, put]

theorem writeLines_done {o : SaveOutcome} {lines : List Text} (content : Text) (n : Nat)
    (h : ∀ k < lines.length, o.lines (n + k) = (.done, .done)) :
    writeLines o content n lines = content ++ lines.flatMap (· ++ ['\n']) := by
  induction lines generalizing content n with
  | nil => simp [writeLines]
  | cons line rest ih =>
    have hfirst : o.lines n = (.done, .done) := h 0 (Nat.succ_pos _)
    have hrest : ∀ k < rest.length, o.lines (n + 1 + k) = (.done, .done) := by
      intro k hk
      rw [Nat.add_assoc, Nat.add_comm 1 k]
      exact h (k + 1) (Nat.succ_lt_succ hk)
    rw [writeLines, ih _ _ hrest, hfirst]
    simp [writeLine, put]

/-- What one line lacks, the whole lacks: nothing is written twice. -/
theorem length_writeLines (o : SaveOutcome) (content : Text) (n : Nat) (lines : List Text) :
    (writeLines o content n lines).length ≤ content.length + (lines.flatMap (· ++ ['\n'])).length ∧
      ((writeLines o content n lines).length = content.length + (lines.flatMap (· ++ ['\n'])).length →
        ∀ k < lines.length, o.lines (n + k) = (.done, .done)) := by
  induction lines generalizing content n with
  | nil => simp [writeLines]
  | cons line rest ih =>
    obtain ⟨hle, heq⟩ := length_writeLine content line (o.lines n).1 (o.lines n).2
    obtain ⟨hle', heq'⟩ := ih (writeLine content line (o.lines n).1 (o.lines n).2).2 (n + 1)
    rw [writeLines, List.flatMap_cons, List.length_append, List.length_append, List.length_singleton]
    refine ⟨by omega, ?_⟩
    intro hfull k hk
    cases k with
    | zero =>
      obtain ⟨hprint, hnewline⟩ := heq (by omega)
      exact Prod.ext hprint hnewline
    | succ k =>
      have hnext := heq' (by omega) k (Nat.lt_of_succ_lt_succ hk)
      rwa [Nat.add_assoc, Nat.add_comm 1 k] at hnext

/-- **All of the lines are in the file exactly when every call that prints one succeeds.** -/
theorem writeLines_eq_iff (o : SaveOutcome) (lines : List Text) :
    writeLines o [] 0 lines = lines.flatMap (· ++ ['\n']) ↔ ∀ n < lines.length, o.lines n = (.done, .done) := by
  constructor
  · intro h n hn
    have hlen := (length_writeLines o [] 0 lines).2 (by rw [h, List.length_nil, Nat.zero_add]) n hn
    rwa [Nat.zero_add] at hlen
  · intro h
    refine writeLines_done [] 0 ?_
    intro n hn
    rw [Nat.zero_add]
    exact h n hn

theorem content_eq_iff (o : SaveOutcome) (state : NmState) :
    (((writeLines o [] 0 (saveLines state)).rdrop o.flush).rdrop o.sync).rdrop o.close = nmStateSave state ↔
      o.Whole state := by
  constructor
  · intro h
    have hle := (length_writeLines o [] 0 (saveLines state)).1
    -- the first line alone makes the file non-empty, so a character that is not stored is missed
    have hpos : 0 < (nmStateSave state).length := by
      rw [nmStateSave, saveLines, List.flatMap_cons, List.length_append, List.length_append, List.length_singleton]
      omega
    have hlen := congrArg List.length h
    rw [List.rdrop, List.rdrop, List.rdrop, List.length_take, List.length_take, List.length_take] at hlen
    have hfull : ((saveLines state).flatMap (· ++ ['\n'])).length = (nmStateSave state).length := rfl
    rw [List.length_nil, hfull] at hle
    have hflush : o.flush = 0 := by omega
    have hsync : o.sync = 0 := by omega
    have hclose : o.close = 0 := by omega
    rw [hflush, hsync, hclose, List.rdrop_zero, List.rdrop_zero, List.rdrop_zero] at h
    exact ⟨(writeLines_eq_iff o _).1 h, hflush, hsync, hclose⟩
  · rintro ⟨hlines, hflush, hsync, hclose⟩
    rw [hflush, hsync, hclose, List.rdrop_zero, List.rdrop_zero, List.rdrop_zero]
    exact (writeLines_eq_iff o _).2 hlines

/-! ## The result -/

theorem StatePath.tmp (path : StatePath) :
    Text.copyTo 512 (path.text ++ Text.lit ".tmp") = path.text ++ Text.lit ".tmp" ∧
      path.text ≠ path.text ++ Text.lit ".tmp" := by
  have hshort := path.short
  have hlen : (Text.lit ".tmp").length = 4 := rfl
  refine ⟨Text.copyTo_eq_self (by rw [List.length_append]; omega), ?_⟩
  intro h
  have := congrArg List.length h
  rw [List.length_append] at this
  omega

/-- **A save is whole** exactly when the temporary file cannot be opened or renamed, or every call between the two
succeeds. -/
theorem saved_whole_iff (files : Files) (path : StatePath) (state : NmState) (o : SaveOutcome) :
    SavedWhole files path state (nmStateSaveFile files path.text state o) ↔
      o.opened = false ∨ o.renamed = false ∨ o.Whole state := by
  obtain ⟨htmp, hne⟩ := path.tmp
  unfold nmStateSaveFile
  rw [if_neg path.set, htmp]
  cases hopened : o.opened with
  | false =>
    refine iff_of_true ⟨.inl rfl, ?_⟩ (.inl rfl)
    intro h
    cases h
  | true =>
    cases hrenamed : o.renamed with
    | false =>
      refine iff_of_true ⟨.inl ?_, ?_⟩ (.inr (.inl rfl))
      · simp [hne]
      · intro h
        cases h
    | true =>
      rw [← content_eq_iff]
      constructor
      · intro h
        have hfile := h.result rfl
        simp [hne] at hfile
        exact .inr (.inr hfile)
      · rintro (h | h | h)
        · cases h
        · cases h
        · refine ⟨.inr ?_, fun _ => ?_⟩
          · simp [hne, h]
          · simp [hne, h]

/-- One line of the two cannot be printed; the other one is renamed over the file, and `0` returned. -/
theorem save_loses_line : ∃ path : StatePath, path.text = Text.lit "nm_state.db" ∧
    let files : Files := fun _ => some (Text.lit "VERSION 1\nUSER bob 0\nEND\n")
    let saved := nmStateSaveFile files path.text .clear
      ⟨true, fun n => if n = 0 then (.failed 8, .done) else (.done, .done), 0, 0, 0, true⟩
    saved.1 = 0 ∧ saved.2 path.text = some (Text.lit "END\n") ∧ ¬ SavedWhole files path .clear saved := by
  refine ⟨⟨Text.lit "nm_state.db", by decide, by decide⟩, rfl, ?_⟩
  intro files saved
  refine ⟨rfl, by decide +kernel, ?_⟩
  intro h
  exact absurd (h.result rfl) (by decide +kernel)

end CoWrite.Nm
