import CoWrite.Ss.Copy
import CoWrite.Ss.Server

/-!
# One step back

A commit, a revert and a sync keep the text they replace, an undo puts it back and uses it up. `Doc` is what
that comes to, a text and at most one text before it; the server stores them as two files, and four functions
write these.

* `undo_refines`: the runs of the server on one file, with writes of any clients open meanwhile, are runs of
  `Doc`, as long as no write is open at an undo or a revert.
-/

namespace CoWrite.Ss

open CoWrite.Lib

/-! ## The model -/

/-- A document, and the text that an undo brings back. -/
structure Doc where
  text : Text
  previous : Option Text

/-- What is seen of the operations on a document. -/
inductive DocEvent where
  | commit (session : WriteSession) (result : Except Errno Text)
  | revert (checkpoint : Option Text) (result : Except Errno Unit)
  | sync (content : Text) (reply : List Text)
  | undo (result : Except Errno Text)
  | other

namespace Doc

inductive Step : Doc → DocEvent → Doc → Prop
  | commit {d : Doc} {session : WriteSession} {merged : List Text}
      (h : writeSessionMerge session d.text = .ok merged) :
      Step d (.commit session (.ok (joinSentences merged))) ⟨joinSentences merged, some d.text⟩
  | conflict {d : Doc} {session : WriteSession} {e : Errno} (h : writeSessionMerge session d.text = .error e) :
      Step d (.commit session (.error e)) d
  | revert {d : Doc} {text : Text} : Step d (.revert (some text) (.ok ())) ⟨text, some d.text⟩
  | noCheckpoint {d : Doc} {e : Errno} : Step d (.revert none (.error e)) d
  | sync {d : Doc} {content : Text} : Step d (.sync content (sendOk (opField "SYNC"))) ⟨content, some d.text⟩
  | undo {text previous : Text} : Step ⟨text, some previous⟩ (.undo (.ok previous)) ⟨previous, none⟩
  | noUndo {text : Text} : Step ⟨text, none⟩ (.undo (.error .ENOENT)) ⟨text, none⟩
  | other {d : Doc} : Step d .other d

def system : System Doc DocEvent where
  init _ := True
  step := Step

end Doc

/-! ## The server on one file -/

/-- A write that begins or goes on, or a command. -/
inductive FileEvent where
  | beginWrite (env : DataEnv) (client : Nat) (user : Text) (sentence : Int)
  | frame (env : DataEnv) (client : Nat) (json : Option Text)
  | undo (env : Env) (user : Text)
  | revert (env : Env) (tag : FileName) (user : Text)
  | sync (env : Env) (owner content : Text)

namespace FileEvent

def step (file : FileName) (host : Host) : FileEvent → Option Host
  | beginWrite env client user sentence =>
    if (host.writes client).isSome then none
    else some (handleWriteBegin env host client file.text user sentence).1
  | frame env client json =>
    (host.writes client).map fun write => (handleWriteFrame env host client write json).1
  | undo env user => some (host.setServer (performUndo env host.server file.text user).1)
  | revert env tag user => some (host.setServer (ssRevertCheckpoint env host.server file.text tag.text user).1)
  | sync env owner content => some (host.setServer (syncFile env host.server file.text owner content).1)

def observe (file : FileName) (host : Host) : FileEvent → DocEvent
  | beginWrite _ _ _ _ => .other
  | frame env client json =>
    match host.writes client, json.bind fun json => jsonGetString json (Text.lit "type") 64 with
    | some write, some type =>
      if type = Text.lit "WRITE_COMMIT" then
        .commit write.session (writeSessionCommit env host.server.fs write.session write.view).2
      else .other
    | _, _ => .other
  | undo env user => .undo (performUndo env host.server file.text user).2.2
  | revert env tag user =>
    .revert (ssReadCheckpoint env host.server file.text tag.text).toOption
      (ssRevertCheckpoint env host.server file.text tag.text user).2.2
  | sync env owner content => .sync content (syncFile env host.server file.text owner content).2

/-- The calls of the operation succeed. -/
def Smooth : FileEvent → Prop
  | beginWrite _ _ _ _ => True
  | frame env _ _ => env.Smooth ∧ env.allocated = true
  | undo env _ | revert env _ _ | sync env _ _ => env.Smooth

/-- No write is open at an undo or a revert. -/
def Alone (host : Host) : FileEvent → Prop
  | undo _ _ | revert _ _ _ => ∀ client, host.writes client = none
  | _ => True

end FileEvent

/-- The file is in the table, and no write on it is open. -/
structure FileStarted (dir : Text) (file : FileName) (host : Host) : Prop where
  seated : Seated dir file.text host.server.state
  entry : ∃ view, host.server.state.entry file.text = some view ∧ view.lockActive = false
  writes : ∀ client, host.writes client = none

def fileSystem (dir : Text) (file : FileName) : System Host FileEvent :=
  .ofStep (FileStarted dir file) (FileEvent.step file)

def Copy.doc (c : Copy) : Doc := ⟨c.text, c.undo⟩

/-- The document that the server stores. -/
def Host.doc (dir : Text) (file : FileName) (host : Host) : Doc := (host.server.copy dir file.text).doc

/-! ## The invariant -/

/-- Every open write is on the file, and the lock flag is set only while one is open. -/
structure FileInv (dir : Text) (file : FileName) (host : Host) : Prop where
  seated : Seated dir file.text host.server.state
  entry : ∃ view, host.server.state.entry file.text = some view
  writes : ∀ client write, host.writes client = some write →
    write.file = file.text ∧ HasPaths dir file.text write.view
  flag : ∀ view, host.server.state.entry file.text = some view → view.lockActive = true →
    ∃ client, (host.writes client).isSome

section Invariant

variable {dir : Text} {file : FileName} {host : Host}

theorem fileInv_started (h : FileStarted dir file host) : FileInv dir file host where
  seated := h.seated
  entry := h.entry.imp fun _ hview => hview.1
  writes client write hwrite := by
    rw [h.writes client] at hwrite
    cases hwrite
  flag view hview hlock := by
    obtain ⟨view', hview', hfree⟩ := h.entry
    obtain rfl : view = view' := Option.some.inj (hview.symm.trans hview')
    rw [hfree] at hlock
    cases hlock

/-- The copy was changed by a command; the lock flag is as it was. -/
theorem FileInv.setServer (h : FileInv dir file host) {srv : Server} {c : Copy} (hc : Holds dir file.text srv c)
    (hentry : ∃ view, c.entry = some view)
    (hflag : ∀ view, c.entry = some view → view.lockActive = true → ∃ client, (host.writes client).isSome) :
    FileInv dir file (host.setServer srv) := by
  have hsame : srv.state.entry file.text = c.entry := congrArg Copy.entry hc.copy
  refine ⟨hc.seated, ?_, h.writes, ?_⟩
  · show ∃ view, srv.state.entry file.text = some view
    rw [hsame]
    exact hentry
  · intro view hview hlock
    exact hflag view (hsame ▸ hview) hlock

/-- A write ends: the flag is cleared, and the document is as it was. -/
theorem FileInv.closeWrite (hseated : Seated dir file.text host.server.state)
    (hentry : ∃ view, host.server.state.entry file.text = some view) {client : Nat}
    (hwrites : ∀ other, other ≠ client → ∀ write, host.writes other = some write →
      write.file = file.text ∧ HasPaths dir file.text write.view) (sentence : Int) :
    FileInv dir file (Ss.closeWrite host client file.text sentence) ∧
      (Ss.closeWrite host client file.text sentence).doc dir file = host.doc dir file := by
  have hholds := holds_setFileLockState hseated false (-1) none
  have hsame : (setFileLockState host.server file.text false (-1) none).state.entry file.text =
      (host.server.state.entry file.text).map (lockFields false (-1) none) := congrArg Copy.entry hholds.copy
  obtain ⟨view, hview⟩ := hentry
  refine ⟨⟨hholds.seated, ?_, ?_, ?_⟩, ?_⟩
  · exact ⟨_, hsame.trans (by rw [hview, Option.map_some])⟩
  · intro other write hwrite
    by_cases ho : other = client
    · subst ho
      simp only [Ss.closeWrite, Function.update_self] at hwrite
      cases hwrite
    · simp only [Ss.closeWrite, Function.update_of_ne ho] at hwrite
      exact hwrites other ho write hwrite
  · intro view' hview' hlock
    have hview' := hsame.symm.trans hview'
    rw [hview, Option.map_some, Option.some.injEq] at hview'
    subst hview'
    cases hlock
  · show ((setFileLockState host.server file.text false (-1) none).copy dir file.text).doc = _
    rw [hholds.copy]
    rfl

end Invariant

/-! ## Steps -/

section Steps

variable {dir : Text} {file : FileName} {host : Host} (h : FileInv dir file host)

include h

/-- A `WRITE_BEGIN` takes locks and leaves the files alone. -/
theorem FileInv.handleWriteBegin (env : DataEnv) (client : Nat) (hfree : host.writes client = none) (user : Text)
    (sentence : Int) :
    FileInv dir file (handleWriteBegin env host client file.text user sentence).1 ∧
      (handleWriteBegin env host client file.text user sentence).1.doc dir file = host.doc dir file := by
  obtain ⟨view, hview⟩ := h.entry
  have hfind : (ssStateFind host.server.state file.text).1 = some view := h.seated.find.trans hview
  unfold Ss.handleWriteBegin
  rw [hfind]
  dsimp only
  split
  · exact ⟨h, rfl⟩
  · next locks _ =>
    have hholds := holds_setFileLockState h.seated true sentence (some user)
    have hentry : ∃ view, (setFileLockState host.server file.text true sentence (some user)).state.entry file.text =
        some view := by
      refine ⟨lockFields true sentence (some user) view, ?_⟩
      have hsame := congrArg Copy.entry hholds.copy
      simp only [Server.copy, hview, Option.map_some] at hsame
      exact hsame
    have hdoc : ((setFileLockState host.server file.text true sentence (some user)).copy dir file.text).doc =
        host.doc dir file := by
      rw [hholds.copy]
      rfl
    split
    · -- the begin fails, and the write is closed
      let begun : Host := ⟨setFileLockState host.server file.text true sentence (some user), locks, host.writes⟩
      have hseated : Seated dir file.text begun.server.state := hholds.seated
      have hopen (other : Nat) (_ : other ≠ client) (write : OpenWrite) (hwrite : begun.writes other = some write) :
          write.file = file.text ∧ HasPaths dir file.text write.view := h.writes other write hwrite
      have hclose := FileInv.closeWrite hseated hentry hopen sentence
      exact ⟨hclose.1, hclose.2.trans hdoc⟩
    · next session _ _ =>
      refine ⟨⟨hholds.seated, hentry, ?_, ?_⟩, hdoc⟩
      · intro other write hwrite
        by_cases ho : other = client
        · subst ho
          simp only [Host.setWrite, Function.update_self, Option.some.injEq] at hwrite
          subst hwrite
          exact ⟨rfl, h.seated.hasPaths view hview⟩
        · simp only [Host.setWrite, Function.update_of_ne ho] at hwrite
          exact h.writes other write hwrite
      · intro view' _ _
        exact ⟨client, by simp [Host.setWrite]⟩

/-- A commit stores its merge, or finds its sentence gone and stores nothing. -/
theorem FileInv.commitWrite {env : DataEnv} (henv : env.Smooth) (hallocated : env.allocated = true) {client : Nat}
    {write : OpenWrite} (hwrite : host.writes client = some write) :
    Holds dir file.text (commitWrite env host.server write).1
        ((commitWrite env host.server write).1.copy dir file.text) ∧
      (∃ view, (commitWrite env host.server write).1.state.entry file.text = some view) ∧
      Doc.Step (host.doc dir file)
        (.commit write.session (writeSessionCommit env host.server.fs write.session write.view).2)
        ((commitWrite env host.server write).1.copy dir file.text).doc := by
  obtain ⟨hfile, hpaths⟩ := h.writes client write hwrite
  obtain ⟨view, hview⟩ := h.entry
  cases hmerge : writeSessionMerge write.session (host.server.copy dir file.text).text with
  | error e =>
    obtain ⟨hsame, hresult⟩ := commitWrite_conflict henv hallocated hpaths hmerge
    rw [hsame, hresult]
    exact ⟨h.seated.holds, h.entry, .conflict hmerge⟩
  | ok merged =>
    obtain ⟨hholds, hresult, -⟩ := copy_commitWrite h.seated henv hallocated hfile hpaths hmerge
    rw [hresult]
    refine ⟨hholds.seated.holds, ?_, ?_⟩
    · have hentry := congrArg Copy.entry hholds.copy
      simp only [Server.copy, Copy.update, Copy.replace, Copy.store, hview] at hentry
      exact ⟨_, hentry⟩
    · have hdoc : ((Ss.commitWrite env host.server write).1.copy dir file.text).doc =
          ⟨joinSentences merged, some (host.server.copy dir file.text).text⟩ := by
        rw [hholds.copy]
        simp only [Copy.update, Copy.replace, Copy.store, Server.copy, hview, Copy.doc, Copy.text, Option.getD_some]
      rw [hdoc]
      exact .commit hmerge

/-- The next frame of a write. -/
theorem FileInv.handleWriteFrame {env : DataEnv} (henv : env.Smooth) (hallocated : env.allocated = true)
    {client : Nat} {write : OpenWrite} (hwrite : host.writes client = some write) (json : Option Text) :
    FileInv dir file (handleWriteFrame env host client write json).1 ∧
      Doc.Step (host.doc dir file) (FileEvent.observe file host (.frame env client json))
        ((handleWriteFrame env host client write json).1.doc dir file) := by
  have hfile := (h.writes client write hwrite).1
  have hclose : FileInv dir file (Ss.closeWrite host client file.text write.sentence) ∧
      (Ss.closeWrite host client file.text write.sentence).doc dir file = host.doc dir file :=
    FileInv.closeWrite h.seated h.entry (fun other _ write hwrite => h.writes other write hwrite) _
  cases json with
  | none =>
    simp only [Ss.handleWriteFrame, FileEvent.observe, hwrite, Option.bind_none, hfile, hclose.2]
    exact ⟨hclose.1, .other⟩
  | some json =>
    simp only [Ss.handleWriteFrame, FileEvent.observe, hwrite, Option.bind_some]
    cases htype : jsonGetString json (Text.lit "type") 64 with
    | none => exact ⟨h, .other⟩
    | some type =>
      dsimp only
      by_cases hedit : isEdit type = true
      · have hne : type ≠ Text.lit "WRITE_COMMIT" := by
          rintro rfl
          exact absurd hedit (by decide)
        rw [if_pos hedit, if_neg hne]
        refine ⟨⟨h.seated, h.entry, ?_, ?_⟩, .other⟩
        · intro other write' hwrite'
          by_cases ho : other = client
          · subst ho
            simp only [Host.setWrite, Function.update_self, Option.some.injEq] at hwrite'
            subst hwrite'
            exact h.writes other write hwrite
          · simp only [Host.setWrite, Function.update_of_ne ho] at hwrite'
            exact h.writes other write' hwrite'
        · intro view hview hlock
          exact ⟨client, by simp [Host.setWrite]⟩
      rw [if_neg hedit]
      by_cases hcommit : type = Text.lit "WRITE_COMMIT"
      · rw [if_pos hcommit, if_pos hcommit, hfile]
        obtain ⟨hholds, hentry, hstep⟩ := h.commitWrite henv hallocated hwrite
        let committed : Host := host.setServer (Ss.commitWrite env host.server write).1
        have hseated : Seated dir file.text committed.server.state := hholds.seated
        have hopen (other : Nat) (_ : other ≠ client) (write : OpenWrite) (hwrite : committed.writes other = some write) :
            write.file = file.text ∧ HasPaths dir file.text write.view := h.writes other write hwrite
        have hcloseCommit := FileInv.closeWrite hseated hentry hopen write.sentence
        refine ⟨hcloseCommit.1, ?_⟩
        rw [hcloseCommit.2]
        exact hstep
      rw [if_neg hcommit, if_neg hcommit]
      by_cases habort : type = Text.lit "WRITE_ABORT"
      · rw [if_pos habort, hfile, hclose.2]
        exact ⟨hclose.1, .other⟩
      · rw [if_neg habort]
        exact ⟨h, .other⟩

/-- The lock flag is clear where no write is open. -/
theorem FileInv.unlocked (halone : ∀ client, host.writes client = none) {view : SsFile}
    (hview : host.server.state.entry file.text = some view) : view.lockActive = false := by
  apply Bool.eq_false_iff.2
  intro hlock
  obtain ⟨client, hclient⟩ := h.flag view hview hlock
  rw [halone client] at hclient
  cases hclient

theorem FileInv.performUndo {env : Env} (henv : env.Smooth) (user : Text)
    (halone : ∀ client, host.writes client = none) :
    FileInv dir file (host.setServer (performUndo env host.server file.text user).1) ∧
      Doc.Step (host.doc dir file) (.undo (performUndo env host.server file.text user).2.2)
        ((host.setServer (performUndo env host.server file.text user).1).doc dir file) := by
  obtain ⟨view, hview⟩ := h.entry
  have hlock := h.unlocked halone hview
  cases hundo : (host.server.copy dir file.text).undo with
  | none =>
    rw [performUndo_none h.seated henv hview user hlock hundo]
    refine ⟨h, ?_⟩
    have hdoc : host.doc dir file = ⟨(host.server.copy dir file.text).text, none⟩ := by
      rw [Host.doc, Copy.doc, hundo]
    show Doc.Step (host.doc dir file) _ (host.doc dir file)
    rw [hdoc]
    exact .noUndo
  | some text =>
    obtain ⟨hholds, hresult⟩ := copy_performUndo h.seated henv hview user hlock hundo
    rw [hresult]
    have hcopy : (((host.server.copy dir file.text).store text none).update (restamp text user env.now)).entry =
        some (restamp text user env.now view) := by
      simp only [Copy.update, Copy.store, Server.copy, hview]
    refine ⟨h.setServer hholds ⟨_, hcopy⟩ ?_, ?_⟩
    · intro view' hview' hlock'
      rw [hcopy, Option.some.injEq] at hview'
      subst hview'
      rw [show (restamp text user env.now view).lockActive = view.lockActive from rfl, hlock] at hlock'
      cases hlock'
    · have hdoc : host.doc dir file = ⟨(host.server.copy dir file.text).text, some text⟩ := by
        rw [Host.doc, Copy.doc, hundo]
      show Doc.Step (host.doc dir file) _ ((Ss.performUndo env host.server file.text user).1.copy dir file.text).doc
      rw [hdoc, hholds.copy]
      simp only [Copy.update, Copy.store, Server.copy, hview]
      exact .undo

theorem FileInv.ssRevertCheckpoint {env : Env} (henv : env.Smooth) (tag user : Text)
    (halone : ∀ client, host.writes client = none) :
    FileInv dir file (host.setServer (ssRevertCheckpoint env host.server file.text tag user).1) ∧
      Doc.Step (host.doc dir file)
        (.revert (ssReadCheckpoint env host.server file.text tag).toOption
          (ssRevertCheckpoint env host.server file.text tag user).2.2)
        ((host.setServer (ssRevertCheckpoint env host.server file.text tag user).1).doc dir file) := by
  obtain ⟨view, hview⟩ := h.entry
  have hlock := h.unlocked halone hview
  cases hread : ssReadCheckpoint env host.server file.text tag with
  | error e =>
    have heq : Ss.ssRevertCheckpoint env host.server file.text tag user = (host.server, [], .error e) := by
      simp only [Ss.ssRevertCheckpoint, hread]
    rw [heq]
    exact ⟨h, .noCheckpoint⟩
  | ok checkpoint =>
    obtain ⟨hholds, hresult⟩ := copy_ssRevertCheckpoint h.seated henv hview hread user hlock
    rw [hresult]
    have hcopy : (((host.server.copy dir file.text).replace checkpoint).update
        (restamp checkpoint user env.now)).entry = some (restamp checkpoint user env.now view) := by
      simp only [Copy.update, Copy.replace, Copy.store, Server.copy, hview]
    refine ⟨h.setServer hholds ⟨_, hcopy⟩ ?_, ?_⟩
    · intro view' hview' hlock'
      rw [hcopy, Option.some.injEq] at hview'
      subst hview'
      rw [show (restamp checkpoint user env.now view).lockActive = view.lockActive from rfl, hlock] at hlock'
      cases hlock'
    · show Doc.Step (host.doc dir file) _
        ((Ss.ssRevertCheckpoint env host.server file.text tag user).1.copy dir file.text).doc
      rw [hholds.copy]
      simp only [Copy.update, Copy.replace, Copy.store, Server.copy, hview]
      exact .revert

theorem FileInv.syncFile {env : Env} (henv : env.Smooth) (owner content : Text) :
    FileInv dir file (host.setServer (syncFile env host.server file.text owner content).1) ∧
      Doc.Step (host.doc dir file) (.sync content (syncFile env host.server file.text owner content).2)
        ((host.setServer (syncFile env host.server file.text owner content).1).doc dir file) := by
  obtain ⟨view, hview⟩ := h.entry
  obtain ⟨hholds, hresult⟩ := copy_syncFile h.seated henv owner content
  have hsome : (host.server.copy dir file.text).entry.isSome = true := Option.isSome_iff_exists.2 ⟨view, hview⟩
  rw [if_pos hsome] at hholds
  have hcopy : (((host.server.copy dir file.text).replace content).update (recount content)).entry =
      some (recount content view) := by
    simp only [Copy.update, Copy.replace, Copy.store, Server.copy, hview]
  rw [hresult]
  refine ⟨h.setServer hholds ⟨_, hcopy⟩ ?_, ?_⟩
  · intro view' hview' hlock
    rw [hcopy, Option.some.injEq] at hview'
    subst hview'
    exact h.flag view hview hlock
  · show Doc.Step (host.doc dir file) _ ((Ss.syncFile env host.server file.text owner content).1.copy dir file.text).doc
    rw [hholds.copy]
    simp only [Copy.update, Copy.replace, Copy.store, Server.copy, hview]
    exact .sync

theorem FileInv.step {e : FileEvent} {host' : Host} (hsmooth : e.Smooth) (halone : e.Alone host)
    (hstep : e.step file host = some host') :
    FileInv dir file host' ∧ Doc.Step (host.doc dir file) (e.observe file host) (host'.doc dir file) := by
  cases e with
  | beginWrite env client user sentence =>
    simp only [FileEvent.step] at hstep
    split at hstep
    · cases hstep
    · next hfree =>
      cases hstep
      obtain ⟨hinv, hdoc⟩ := h.handleWriteBegin env client (by simpa using hfree) user sentence
      rw [hdoc]
      exact ⟨hinv, .other⟩
  | frame env client json =>
    obtain ⟨write, hwrite, rfl⟩ := Option.map_eq_some_iff.1 hstep
    exact h.handleWriteFrame hsmooth.1 hsmooth.2 hwrite json
  | undo env user =>
    cases hstep
    exact h.performUndo hsmooth user halone
  | revert env tag user =>
    cases hstep
    exact h.ssRevertCheckpoint hsmooth tag.text user halone
  | sync env owner content =>
    cases hstep
    exact h.syncFile hsmooth owner content

end Steps

/-! ## The result -/

/-- **What the server stores of a file is a text with one step back.** -/
theorem undo_refines {dir : Text} {file : FileName} {tr : List (Host × FileEvent)} {host : Host}
    (h : (fileSystem dir file).Run tr host)
    (hG : System.Meets (fun host e => FileEvent.Smooth e ∧ FileEvent.Alone host e) tr) :
    Doc.system.Run (tr.map fun p => (p.1.doc dir file, p.2.observe file p.1)) (host.doc dir file) := by
  apply h.image (Host.doc dir file) (fun host e => FileEvent.observe file host e) (I := FileInv dir file) ?_ ?_ hG
  · intro host hstarted
    exact ⟨fileInv_started hstarted, trivial⟩
  · intro host e host' hI hg hstep
    exact hI.step hg.1 hg.2 hstep

/-- A text is taken over and undone, and there is nothing left to undo. -/
theorem undo_refines_twice : ∃ tr d, Doc.system.Run tr d ∧ tr.length = 3 ∧ d.text = Text.lit "A." ∧ d.previous = none := by
  let file : FileName := ⟨Text.lit "f", by decide, by decide⟩
  have hempty : Seated (Text.lit "/s") file.text
      (⟨ssStateInit (Text.lit "/s"), fun _ => none, []⟩ : Server).state := (Placed.init _).seated _
  have hsucceeds : AddOutcome.inserted ⟨0, true, true, true⟩ = true ∧
      AddOutcome.dataOpened ⟨0, true, true, true⟩ = true ∧ AddOutcome.metaOpened ⟨0, true, true, true⟩ = true :=
    ⟨rfl, rfl, rfl⟩
  have hcreated : Seated (Text.lit "/s") file.text (Host.withFile (Text.lit "A.")).server.state :=
    (copy_create hempty hsucceeds rfl (Text.lit "u")).2.seated
  have hstarted : FileStarted (Text.lit "/s") file (Host.withFile (Text.lit "A.")) :=
    ⟨hcreated, ⟨_, rfl, rfl⟩, fun _ => rfl⟩
  have hrun := (((System.Run.start (S := fileSystem (Text.lit "/s") file) hstarted).step
    (e := FileEvent.sync (.allOk 0) (Text.lit "u") (Text.lit "B.")) rfl).step
    (e := FileEvent.undo (.allOk 0) (Text.lit "u")) rfl).step (e := FileEvent.undo (.allOk 0) (Text.lit "u")) rfl
  have hsmooth : (Env.allOk 0).Smooth := Env.smooth_allOk 0
  refine ⟨_, _, undo_refines hrun ?_, rfl, ?_, ?_⟩
  · simp only [System.meets_cons]
    exact ⟨⟨hsmooth, fun _ => rfl⟩, ⟨hsmooth, fun _ => rfl⟩, ⟨hsmooth, trivial⟩, by simp [System.Meets]⟩
  · decide +kernel
  · decide +kernel

end CoWrite.Ss
