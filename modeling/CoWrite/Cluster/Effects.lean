import CoWrite.Cluster.Orphans
import CoWrite.Cluster.Updates

/-!
# What a command leaves

The text and the entry that a server has of a file after a create, a sync or a change, when it answers that it has
carried it out: `create_of_succeeds`, `syncFile_spec`, `replaces_of_stampedAt`.
-/

namespace CoWrite.Cluster

open CoWrite.Lib
open CoWrite.Nm
open CoWrite.Ss (Server Env Op Placed Replaces dataPath)

/-- The time that the operation gives to the text it stores. -/
def stampedAt : Op → Option Int
  | .commit env _ _ _ => some env.now
  | .undo env _ _ | .revert env _ _ _ => some env.now
  | _ => none

section Server

variable {dir : Text} {f : FileName} {srv : Server} (h : Placed dir srv.state)

include h

theorem find_of_hasFile {name : Text} (hhas : HasFile srv name) :
    ∃ view, (Ss.ssStateFind srv.state name).1 = some view := by
  obtain ⟨view, hview⟩ := Option.isSome_iff_exists.1 hhas
  exact ⟨view, (Ss.ssStateFind_eq h.sorted name).trans hview⟩

/-- A file that is there is left alone by a create. -/
theorem create_of_hasFile (hhas : HasFile srv f.text) (owner : Text) (o : Ss.AddOutcome) :
    (Op.create f owner o).run srv = srv := by
  obtain ⟨view, hview⟩ := Option.isSome_iff_exists.1 hhas
  have hadd := Ss.ssStateAdd_exists (h.seated f.text) hview owner o
  simp only [Op.run, hadd]

/-- A create that is answered makes an empty file. -/
theorem create_of_succeeds {owner : Text} {o : Ss.AddOutcome} (hadd : succeeds srv (.create f owner o) = true) :
    HasFile ((Op.create f owner o).run srv) f.text ∧
      ((Op.create f owner o).run srv).fs (dataPath dir f.text) = some [] := by
  have hentry := (Ss.ssStateAdd_state h.sorted srv.fs f.short owner o).2 f.text
  rw [if_pos ⟨hadd, rfl⟩] at hentry
  refine ⟨Option.isSome_iff_exists.2 ⟨_, hentry⟩, ?_⟩
  have hpaths := (h.seated f.text).hasPaths_newFile owner o.now
  have hapart := Ss.fivePaths dir f
  replace hadd : (Ss.ssStateAdd srv.state srv.fs f.text owner o).1 = true := hadd
  simp only [Op.run]
  unfold Ss.ssStateAdd at hadd ⊢
  generalize Ss.ssStateFind srv.state f.text = found at hadd ⊢
  obtain ⟨found, i⟩ := found
  cases found with
  | some view => cases hadd
  | none =>
    dsimp only at hadd ⊢
    split_ifs at hadd ⊢
    simp only [Ss.ssStateSaveMeta, if_true, Ss.Fs.write, hpaths.metaEq, hpaths.dataEq]
    rw [Function.update_of_ne hapart.meta_data.symm, Function.update_self]

theorem hasFile_syncTarget (hhas : HasFile srv f.text) (env : Env) (owner : Text) :
    HasFile (Ss.syncTarget env srv f.text owner).1 f.text := by
  obtain ⟨view, hfind⟩ := find_of_hasFile h hhas
  unfold Ss.syncTarget
  rw [hfind]
  exact hhas

/-- A sync keeps the file, and when it is answered with `OK`, it has stored the text. -/
theorem syncFile_spec (env : Env) (owner content : Text) :
    (HasFile srv f.text → HasFile (Ss.syncFile env srv f.text owner content).1 f.text) ∧
      ((Ss.syncFile env srv f.text owner content).2 = Ss.sendOk (Ss.opField "SYNC") →
        HasFile (Ss.syncFile env srv f.text owner content).1 f.text ∧
          (Ss.syncFile env srv f.text owner content).1.fs (dataPath dir f.text) = some content) := by
  have hfailed : Ss.sendErrorResponse .INTERNAL (Text.lit "sync failed") ≠ Ss.sendOk (Ss.opField "SYNC") := by
    decide +kernel
  have hhas : HasFile srv f.text → HasFile (Ss.syncTarget env srv f.text owner).1 f.text := fun hhas =>
    hasFile_syncTarget h hhas env owner
  have htarget := Ss.Changes.syncTarget h env f owner
  unfold Ss.syncFile
  dsimp only
  generalize Ss.syncTarget env srv f.text owner = result at hhas htarget ⊢
  obtain ⟨srv', found⟩ := result
  obtain ⟨⟨hplaced, -, -⟩, hpaths⟩ := htarget
  dsimp only at hhas hplaced hpaths
  cases found with
  | none => exact ⟨hhas, fun heq => absurd heq hfailed⟩
  | some view =>
    dsimp only
    split
    · exact ⟨hhas, fun heq => absurd heq hfailed⟩
    split
    · exact ⟨hhas, fun heq => absurd heq hfailed⟩
    split
    · exact ⟨hhas, fun heq => absurd heq hfailed⟩
    · next fs hstore =>
      split
      · exact ⟨hhas, fun heq => absurd heq hfailed⟩
      · next file state hup =>
        have hkeep : Ss.KeepsPaths (Ss.recount content) := fun _ => ⟨rfl, rfl, rfl, rfl⟩
        obtain ⟨old, -, -, hsome⟩ := @Ss.entry_updateFile _ _ srv' hplaced _ hkeep _ _ hup
        have hnow : HasFile { srv' with state := state, fs := Ss.ssStateSaveMeta fs file env.metaOpened } f.text :=
          Option.isSome_iff_exists.2 ⟨_, hsome⟩
        refine ⟨fun _ => hnow, fun _ => ⟨hnow, ?_⟩⟩
        have hmeta := @Ss.data_updateFile _ _ srv' hplaced _ hkeep _ _ hup fs env.metaOpened
        refine hmeta.trans ?_
        have hdone := (Ss.storeTextAtomic_fst _ _ _ _).1 (congrArg Prod.fst hstore)
        rw [hdone, (hpaths view rfl).dataEq] at hstore
        obtain ⟨fs', hfs', hdata, -⟩ := Ss.storeTextAtomic_done _ (dataPath dir f.text) content
        rw [hfs'] at hstore
        cases hstore
        exact hdata

/-- A change of the text is stored and told, or nothing happens. -/
theorem replaces_of_stampedAt {op : Op} {now : Int} (hnow : stampedAt op = some now)
    (hhas : ∀ env file user session, op = .commit env file user session → HasFile srv file.text) :
    ∃ user, Replaces dir op.file.text user now srv (op.run srv) (Ss.CountEvent.notices op.file srv (.op op)) := by
  cases op with
  | commit env file user session =>
    cases hnow
    obtain ⟨view, hview⟩ := Option.isSome_iff_exists.1 (hhas env file user session rfl)
    have hcommit (write : Ss.OpenWrite) (hfile : write.file = file.text)
        (hpaths : Ss.HasPaths dir file.text write.view) : Replaces dir file.text write.user env.now srv
          (Ss.commitWrite env srv write).1 (Ss.commitWrite env srv write).2.nm :=
      Ss.replaces_commitWrite h hview env hfile hpaths
    exact ⟨user, hcommit ⟨file.text, user, session.sentenceIndex, Ss.writeView srv.state file, session⟩ rfl
      (h.fillPaths _)⟩
  | undo env file user =>
    cases hnow
    exact ⟨user, Ss.replaces_performUndo h env user⟩
  | revert env file tag user =>
    cases hnow
    exact ⟨user, Ss.replaces_ssRevertCheckpoint h env tag.text user⟩
  | _ => cases hnow

omit h in
theorem sized_of_replaces {user : Text} {now : Int} (hnow : IsTime now) {srv' : Server} {frames : List Text}
    (hr : Replaces dir f.text user now srv srv' frames)
    (hsized : ∀ view, srv.state.entry f.text = some view → Sized view) :
    ∀ view, srv'.state.entry f.text = some view → Sized view := by
  intro view hview
  cases hr with
  | nothing entry data silent =>
    rw [entry] at hview
    exact hsized view hview
  | text text file after before restamped entry data told =>
    rw [entry] at hview
    cases hview
    exact sized_of_restamped hnow (hsized file before) restamped

end Server

end CoWrite.Cluster
