import CoWrite.Cluster.Tickets
import CoWrite.Nm.Placement
import CoWrite.Ss.Reading

/-!
# Checkpoints that are acknowledged

`handle_client_checkpoint` looks the tag up, has the storage server store the text under it, and registers
it, in three sections. The command of the second overwrites what is stored, so two requests that both came
through the first can have one text acknowledged and the other one stored.

* `checkpointRpc_spec`: what the command does to the server, and what its reply says.
* `checkpoints_of_run`: what is acknowledged stays stored, in every run in which no command overwrites the
  checkpoint of a request that is under way or acknowledged; none does where no two requests for one checkpoint
  are under way at once.
-/

namespace CoWrite.Cluster

open CoWrite.Lib
open CoWrite.Nm
open CoWrite.Ss (Server Env Op Placed replies processNmCommand checkpointPath dataPath tmpPath ssStateInit)

/-- The first section of `handle_client_checkpoint`: the file and the tag. -/
def checkpointBegin (state : NmState) (user json : Text) : Except Response (Text × Text) :=
  match jsonFile json, jsonGetString json (Text.lit "tag") NM_MAX_NAME with
  | some name, some tag =>
    if !validCheckpointTag tag then .error (.error .BADREQ (Text.lit "invalid tag"))
    else
      match nmFindFile state name with
      | none => .error (.error .NOTFOUND (Text.lit "file not found"))
      | some file =>
        if !fileHasAccess file user NM_PERM_WRITE then .error (.error .NOAUTH (Text.lit "no write access"))
        else if (nmFileFindCheckpoint file tag).isSome then
          .error (.error .EXISTS (Text.lit "checkpoint exists"))
        else .ok (name, tag)
  | _, _ => .error (.error .BADREQ (Text.lit "missing fields"))

/-- How far a request is; from its command on it has the text that the file had then. -/
inductive CheckpointPhase where
  | checked
  | stored (text : Text)
  | acked (text : Text)
  | refused
deriving DecidableEq, Repr

structure CheckpointRequest where
  user : Client
  file : FileName
  tag : FileName
  phase : CheckpointPhase

def CheckpointRequest.command (r : CheckpointRequest) : NmCommand :=
  .checkpointCreate r.file r.tag ⟨r.user.text, r.user.short⟩

/-- Where the checkpoint of the request is stored. -/
def CheckpointRequest.path (dir : Text) (r : CheckpointRequest) : Text := checkpointPath dir r.file.text r.tag.text

/-- The name manager, its storage server, and the requests that came through their first section. -/
structure Checkpointing where
  nm : NmState
  srv : Server
  requests : List CheckpointRequest

namespace Checkpointing

inductive Event where
  | request (user : Client) (json : Text)
  /-- The command of a request. Without `env` it does not reach the server; `arrives` is whether the reply does. -/
  | rpc (i : Nat) (env : Option Env) (arrives : Bool)
  | register (i : Nat) (now : Int)
  /-- What else the server does: a file is written, undone, reverted, synced or created. -/
  | op (op : Op)

def setPhase (s : Checkpointing) (i : Nat) (r : CheckpointRequest) (phase : CheckpointPhase) : Checkpointing :=
  { s with requests := s.requests.set i { r with phase := phase } }

/-- The text that the server has for a file. -/
def text (dir : Text) (s : Checkpointing) (file : FileName) : Text := (s.srv.copy dir file.text).text

/-- The second section on a command that the server receives. -/
def receive (dir : Text) (s : Checkpointing) (i : Nat) (r : CheckpointRequest) (env : Env) (arrives : Bool)
    (payload : Text) : Checkpointing :=
  let (srv, frames) := processNmCommand env s.srv payload
  { s with srv := srv }.setPhase i r
    (if (replies frames).head?.any isOk && arrives then .stored (s.text dir r.file) else .refused)

def step (dir : Text) (s : Checkpointing) : Event → Option Checkpointing
  | .request user json =>
    match checkpointBegin s.nm user.text json with
    | .error _ => some s
    | .ok (name, tag) =>
      (FileName.ofText name).bind fun file =>
        (FileName.ofText tag).map fun tag => { s with requests := s.requests ++ [⟨user, file, tag, .checked⟩] }
  | .rpc i env arrives =>
    (s.requests[i]?).bind fun r =>
      if r.phase = .checked then
        match env, r.command.payload with
        | some env, some payload => some (s.receive dir i r env arrives payload)
        | _, _ => some (s.setPhase i r .refused)
      else none
  | .register i now =>
    (s.requests[i]?).bind fun r =>
      match r.phase with
      | .stored text =>
        match checkpointEnd s.nm r.user.text r.file.text r.tag.text now with
        | (.ok _, nm) => some ({ s with nm := nm }.setPhase i r (.acked text))
        | (.error _ _, nm) => some ({ s with nm := nm }.setPhase i r .refused)
      | _ => none
  | .op op =>
    match op with
    | .delete _ | .checkpoint _ _ _ => none
    | op => some { s with srv := op.run s.srv }

def system (dir : Text) : System Checkpointing Event :=
  .ofStep (fun s => Placed dir s.srv.state ∧ s.requests = []) (step dir)

/-- What was acknowledged is what is stored. -/
def Kept (dir : Text) (s : Checkpointing) : Prop :=
  ∀ r ∈ s.requests, ∀ text, r.phase = .acked text → s.srv.fs (r.path dir) = some text

/-- The request has its text stored, and has not failed. -/
def CheckpointPhase.HasStored (text : Text) (phase : CheckpointPhase) : Prop := phase = .stored text ∨ phase = .acked text

/-- The command reads the text of the file. It stores over no other checkpoint that has been stored for a request,
but for one of the same name with the same text, and its temporary is none. -/
def Clear (dir : Text) (s : Checkpointing) (e : Event) : Prop :=
  ∀ i env arrives r, e = .rpc i (some env) arrives → s.requests[i]? = some r → r.phase = .checked →
    env.dataLoad = true ∧ ∀ r' ∈ s.requests, ∀ text, CheckpointPhase.HasStored text r'.phase →
      r'.path dir ≠ tmpPath (r.path dir) ∧
      ((r'.file.text, r'.tag.text) = (r.file.text, r.tag.text) → text = s.text dir r.file)

/-- No two requests for one checkpoint are under way at once, and the rest of `Clear`. -/
def Serial (dir : Text) (s : Checkpointing) : Event → Prop
  | .request user json => ∀ name tag, checkpointBegin s.nm user.text json = .ok (name, tag) →
      ∀ r ∈ s.requests, (r.file.text, r.tag.text) = (name, tag) → r.phase = .refused ∨ ∃ text, r.phase = .acked text
  | .rpc i env _ => ∀ e, env = some e → e.dataLoad = true ∧ ∀ r ∈ s.requests[i]?, ∀ r' ∈ s.requests,
      r'.path dir ≠ tmpPath (r.path dir)
  | _ => True

end Checkpointing

/-! ## The command -/

section Command

variable {dir : Text} {srv : Server} (h : Placed dir srv.state) (env : Env) (file tag : FileName)

include h

/-- **`ss_create_checkpoint` fails and changes nothing, or stores the text**, which may fail. -/
theorem ssCreateCheckpoint_cases :
    ((Ss.ssCreateCheckpoint env srv file.text tag.text).1 = srv ∧
        (Ss.ssCreateCheckpoint env srv file.text tag.text).2 ≠ .ok ()) ∨
      ∃ content, Ss.currentText env srv.fs (dataPath dir file.text) = some content ∧
        (Ss.ssCreateCheckpoint env srv file.text tag.text).1 =
          { srv with fs := (Ss.storeTextAtomic srv.fs (checkpointPath dir file.text tag.text) content env.checkpointStore).2 } ∧
        ((Ss.ssCreateCheckpoint env srv file.text tag.text).2 = .ok () ↔ env.checkpointStore = .done) := by
  have hdirs : srv.state.checkpointsDir = (ssStateInit dir).checkpointsDir := by rw [← h.dirs]
  unfold Ss.ssCreateCheckpoint
  split
  · exact .inl ⟨rfl, by simp⟩
  split
  · exact .inl ⟨rfl, by simp⟩
  · next view hview =>
    rw [Ss.ssStateFind_eq h.sorted] at hview
    rw [(h.hasPaths _ _ hview).dataEq]
    split
    · exact .inl ⟨rfl, by simp⟩
    · next content hcontent =>
      split
      · exact .inl ⟨rfl, by simp⟩
      · next path hpath =>
        have hpath : path = checkpointPath dir file.text tag.text := by
          unfold Ss.buildCheckpointPath at hpath
          dsimp only at hpath
          split_ifs at hpath
          cases hpath
          rw [hdirs]
          rfl
        subst hpath
        have hdone := Ss.storeTextAtomic_fst srv.fs (checkpointPath dir file.text tag.text) content env.checkpointStore
        refine .inr ⟨content, hcontent, ?_⟩
        split
        · next hstore =>
          rw [hstore] at hdone ⊢
          exact ⟨rfl, by simpa using hdone⟩
        · next hstore =>
          rw [hstore] at hdone ⊢
          exact ⟨rfl, by simpa using hdone⟩

/-- A command that succeeds leaves the text of the file at its path, and one that fails leaves what was there. All
other paths but that of the temporary are as they were. -/
theorem ssCreateCheckpoint_spec (hload : env.dataLoad = true) :
    let path := checkpointPath dir file.text tag.text
    let result := Ss.ssCreateCheckpoint env srv file.text tag.text
    (result.2 = .ok () → result.1.fs path = some (srv.copy dir file.text).text) ∧
      ∀ p, p ≠ tmpPath path → (p = path → result.2 ≠ .ok ()) → result.1.fs p = srv.fs p := by
  intro path result
  rcases ssCreateCheckpoint_cases h env file tag with ⟨hsrv, hfail⟩ | ⟨content, hcontent, hsrv, hok⟩
  · refine ⟨fun hok => absurd hok hfail, ?_⟩
    intro p _ _
    rw [hsrv]
  · have hcontent : content = (srv.copy dir file.text).text := by
      rw [Ss.currentText, Ss.loadText, hload, if_pos rfl] at hcontent
      cases hdata : srv.fs (dataPath dir file.text) with
      | none =>
        rw [hdata] at hcontent
        dsimp only at hcontent
        split at hcontent
        · cases hcontent
          simp [Server.copy, Ss.Copy.text, hdata]
        · cases hcontent
      | some text =>
        rw [hdata] at hcontent
        cases hcontent
        simp [Server.copy, Ss.Copy.text, hdata]
    obtain ⟨fs, hfs, hstored, hother⟩ := Ss.storeTextAtomic_done srv.fs path content
    constructor
    · intro hdone
      rw [hsrv, hok.1 hdone, hfs, ← hcontent]
      exact hstored
    · intro p htmp hpath
      rw [hsrv]
      cases hstore : env.checkpointStore with
      | done =>
        rw [hfs]
        refine hother p ?_ htmp
        intro heq
        exact hpath heq (hok.2 hstore)
      | openFailed => rfl
      | failed left => exact Function.update_of_ne htmp ..

omit h in
/-- **The server does what the command asks, and its reply says whether it succeeded.** -/
theorem checkpointRpc_spec (user : UserName) : ∃ payload, (NmCommand.checkpointCreate file tag user).payload = some payload ∧
    (processNmCommand env srv payload).1 = (Ss.ssCreateCheckpoint env srv file.text tag.text).1 ∧
    ((replies (processNmCommand env srv payload).2).head?.any isOk = true →
      (Ss.ssCreateCheckpoint env srv file.text tag.text).2 = .ok ()) := by
  obtain ⟨payload, hpayload, hread⟩ := NmCommand.read_of_plain (c := .checkpointCreate file tag user) trivial
  simp only [ReadAsMeant, NmCommand.strings, checkpointStrings, readType, readFile, readTag, readUser,
    List.forall_mem_cons] at hread
  obtain ⟨htype, hfile, htag, huser, -⟩ := hread
  have hprocess : processNmCommand env srv payload = Ss.handleNmCheckpointCreate env srv payload := by
    unfold processNmCommand
    rw [htype]
    dsimp only
    rw [if_neg (by decide), if_neg (by decide), if_neg (by decide), if_neg (by decide), if_pos rfl]
  have hargs : Ss.checkpointArgs payload = some (file.text, tag.text, user.text) := by
    rw [Ss.checkpointArgs, hfile, htag, huser]
    rfl
  have hvalid : Ss.validFilename tag.text = true := tag.valid
  refine ⟨payload, hpayload, ?_⟩
  rw [hprocess, Ss.handleNmCheckpointCreate, hargs]
  dsimp only
  rw [hvalid, Bool.not_true, if_neg Bool.false_ne_true]
  cases hcreate : Ss.ssCreateCheckpoint env srv file.text tag.text with
  | mk srv' result =>
    cases result with
    | ok => exact ⟨rfl, fun _ => rfl⟩
    | error e =>
      have hfail : (replies (Ss.respondCheckpointError e (Text.lit "checkpoint create failed"))).head?.any isOk = false := by
        cases e <;> decide
      refine ⟨rfl, ?_⟩
      intro hok
      dsimp only at hok
      rw [hfail] at hok
      cases hok

end Command

/-- The other operations store nothing where checkpoints are. -/
theorem checkpointPath_not_mem_op {op : Op} (hop : ∀ env file tag, op ≠ .checkpoint env file tag) (dir : Text)
    (f tag : FileName) : checkpointPath dir f.text tag.text ∉ op.paths dir := by
  have hreplaced (file : FileName) : checkpointPath dir f.text tag.text ∉ Ss.replacedPaths dir file.text := by
    obtain ⟨hd, hm, hu, hdt, hut⟩ := Ss.paths_eq dir file
    have hmem : checkpointPath dir f.text tag.text ∈ [checkpointPath dir f.text tag.text,
      tmpPath (checkpointPath dir f.text tag.text)] := List.mem_cons_self
    have hslash (e : Text) (he : '/' ∉ e) : '/' ∉ file.text ++ e := by simp [Ss.slash_not_mem file, he]
    have hfive : Ss.replacedPaths dir file.text = [dataPath dir file.text, tmpPath (dataPath dir file.text),
        Ss.undoPath dir file.text, tmpPath (Ss.undoPath dir file.text), Ss.metaPath dir file.text] := rfl
    rw [hfive, hdt, hut, hd, hm, hu]
    simp only [List.mem_cons, List.not_mem_nil, or_false, not_or]
    exact ⟨(Ss.checkpointPaths_ne hmem (Ss.slash_not_mem file)).1, (Ss.checkpointPaths_ne hmem (hslash _ (by decide))).1,
      (Ss.checkpointPaths_ne hmem (hslash _ (by decide))).2.2, (Ss.checkpointPaths_ne hmem (hslash _ (by decide))).2.2,
      (Ss.checkpointPaths_ne hmem (hslash _ (by decide))).2.1⟩
  cases op with
  | create file owner o =>
    intro hmem
    apply hreplaced file
    simp only [Op.paths, List.mem_cons, List.not_mem_nil, or_false] at hmem
    rcases hmem with hmem | hmem <;> simp [Ss.replacedPaths, hmem]
  | delete file =>
    intro hmem
    apply hreplaced file
    simp only [Op.paths, List.mem_cons, List.not_mem_nil, or_false] at hmem
    rcases hmem with hmem | hmem | hmem <;> simp [Ss.replacedPaths, hmem]
  | undo env file user =>
    intro hmem
    apply hreplaced file
    simp only [Op.paths, List.mem_cons, List.not_mem_nil, or_false] at hmem
    rcases hmem with hmem | hmem | hmem | hmem <;> simp [Ss.replacedPaths, hmem]
  | commit env file user session => exact hreplaced file
  | revert env file tag user => exact hreplaced file
  | sync env file owner content => exact hreplaced file
  | checkpoint env file tag => exact absurd rfl (hop env file tag)

/-- Checkpoints at one path have one name. -/
theorem checkpointPath_inj {dir : Text} {f t g u : FileName}
    (h : checkpointPath dir f.text t.text = checkpointPath dir g.text u.text) : (f.text, t.text) = (g.text, u.text) := by
  have htag : t.text = u.text := Ss.append_slash_right_inj (Ss.slash_not_mem t) (Ss.slash_not_mem u) h
  have hfile : (ssStateInit dir).checkpointsDir ++ '/' :: f.text = (ssStateInit dir).checkpointsDir ++ '/' :: g.text := by
    have h : ((ssStateInit dir).checkpointsDir ++ '/' :: f.text) ++ '/' :: t.text =
        ((ssStateInit dir).checkpointsDir ++ '/' :: g.text) ++ '/' :: u.text := h
    rw [htag] at h
    exact List.append_cancel_right h
  have hfile := List.append_cancel_left hfile
  rw [htag, (List.cons.inj hfile).2]

namespace Checkpointing

/-! ## What is stored stays stored -/

structure Inv (dir : Text) (s : Checkpointing) : Prop where
  placed : Placed dir s.srv.state
  stored : ∀ r ∈ s.requests, ∀ text, CheckpointPhase.HasStored text r.phase → s.srv.fs (r.path dir) = some text

theorem Inv.kept {dir : Text} {s : Checkpointing} (h : Inv dir s) : Kept dir s := by
  intro r hr text hphase
  exact h.stored r hr text (.inr hphase)

/-- A request is one of those that were there, or the one whose phase was set. -/
theorem mem_setPhase {s : Checkpointing} {i : Nat} {r r' : CheckpointRequest} {phase : CheckpointPhase}
    (h : r' ∈ (s.setPhase i r phase).requests) : r' ∈ s.requests ∨ r' = { r with phase := phase } :=
  List.mem_or_eq_of_mem_set h

theorem not_hasStored_refused {text : Text} : ¬ CheckpointPhase.HasStored text .refused := by
  rintro (h | h) <;> cases h

section Steps

variable {dir : Text} {s : Checkpointing} (h : Inv dir s)

include h

/-- A request is refused, or goes on with the text that is stored. -/
theorem Inv.setPhase {i : Nat} {r : CheckpointRequest} {phase : CheckpointPhase} (nm : NmState)
    (hphase : ∀ text, CheckpointPhase.HasStored text phase → s.srv.fs (r.path dir) = some text) :
    Inv dir ({ s with nm := nm }.setPhase i r phase) := by
  refine ⟨h.placed, ?_⟩
  intro r' hr' text htext
  rcases mem_setPhase hr' with hr' | rfl
  · exact h.stored r' hr' text htext
  · exact hphase text htext

theorem Inv.receive {i : Nat} {r : CheckpointRequest} {env : Env} {arrives : Bool} {payload : Text}
    (hpayload : r.command.payload = some payload) (hload : env.dataLoad = true)
    (hclear : ∀ r' ∈ s.requests, ∀ text, CheckpointPhase.HasStored text r'.phase → r'.path dir ≠ tmpPath (r.path dir) ∧
      ((r'.file.text, r'.tag.text) = (r.file.text, r.tag.text) → text = s.text dir r.file)) :
    Inv dir (s.receive dir i r env arrives payload) := by
  obtain ⟨payload', hpayload', hsrv, hreply⟩ := checkpointRpc_spec env r.file r.tag ⟨r.user.text, r.user.short⟩
  have hsame : payload' = payload := by
    rw [← Option.some.injEq, ← hpayload', ← hpayload]
    rfl
  subst hsame
  obtain ⟨hstored, hother⟩ := ssCreateCheckpoint_spec h.placed env r.file r.tag hload
  have hplaced := (Ss.Changes.ssCreateCheckpoint h.placed env r.tag.text : Ss.Changes dir r.file.text _ s.srv _).placed
  unfold Checkpointing.receive
  generalize processNmCommand env s.srv payload' = result at hsrv hreply ⊢
  obtain ⟨srv, frames⟩ := result
  dsimp only at hsrv hreply ⊢
  subst hsrv
  refine ⟨hplaced, ?_⟩
  intro r' hr' text htext
  rcases mem_setPhase hr' with hr' | rfl
  · -- another request
    obtain ⟨htmp, hnames⟩ := hclear r' hr' text htext
    have hold := h.stored r' hr' text htext
    show (Ss.ssCreateCheckpoint env s.srv r.file.text r.tag.text).1.fs (r'.path dir) = some text
    by_cases hpath : r'.path dir = r.path dir
    · by_cases hok : (Ss.ssCreateCheckpoint env s.srv r.file.text r.tag.text).2 = .ok ()
      · rw [hpath, hnames (checkpointPath_inj hpath)]
        exact hstored hok
      · rw [hother _ htmp fun _ => hok]
        exact hold
    · rw [hother _ htmp fun heq => absurd heq hpath]
      exact hold
  · -- the request itself, if it succeeded
    dsimp only at htext
    split at htext
    · next hok =>
      rw [Bool.and_eq_true] at hok
      obtain htext | htext := htext <;> cases htext
      exact hstored (hreply hok.1)
    · exact absurd htext not_hasStored_refused

theorem Inv.op {op : Op} (hop : ∀ env file tag, op ≠ .checkpoint env file tag) : Inv dir { s with srv := op.run s.srv } := by
  have hchanges := Op.changes h.placed op
  refine ⟨hchanges.placed, ?_⟩
  intro r hr text htext
  rw [← h.stored r hr text htext]
  exact hchanges.writes _ (checkpointPath_not_mem_op hop dir r.file r.tag)

theorem Inv.step {s' : Checkpointing} {e : Event} (hG : Clear dir s e) (hs : step dir s e = some s') : Inv dir s' := by
  cases e with
  | request user json =>
    simp only [Checkpointing.step] at hs
    split at hs
    · cases hs
      exact h
    · obtain ⟨file, -, hs⟩ := Option.bind_eq_some_iff.1 hs
      obtain ⟨tag, -, rfl⟩ := Option.map_eq_some_iff.1 hs
      refine ⟨h.placed, ?_⟩
      intro r hr text htext
      rcases List.mem_append.1 hr with hr | hr
      · exact h.stored r hr text htext
      · rw [List.mem_singleton.1 hr] at htext
        rcases htext with htext | htext <;> cases htext
  | rpc i env arrives =>
    obtain ⟨r, hr, hs⟩ := Option.bind_eq_some_iff.1 hs
    split at hs
    · next hphase =>
      split at hs
      · next env payload hpayload hs =>
        cases hs
        obtain ⟨hload, hclear⟩ := hG i env arrives r rfl hr hphase
        exact h.receive hpayload hload hclear
      · cases hs
        exact h.setPhase s.nm fun text htext => absurd htext not_hasStored_refused
    · cases hs
  | register i now =>
    obtain ⟨r, hr, hs⟩ := Option.bind_eq_some_iff.1 hs
    have hmem := List.mem_of_getElem? hr
    split at hs
    · next text hphase =>
      split at hs
      · next nm _ =>
        cases hs
        apply h.setPhase nm
        rintro text' (htext | htext) <;> cases htext
        exact h.stored r hmem text (.inl hphase)
      · next nm _ =>
        cases hs
        exact h.setPhase nm fun text htext => absurd htext not_hasStored_refused
    · cases hs
  | op op =>
    simp only [Checkpointing.step] at hs
    split at hs
    · cases hs
    · cases hs
    · next hdelete hcheckpoint =>
      cases hs
      exact h.op hcheckpoint

end Steps

/-! ## What becomes of a request -/

/-- What a step does to the phase of request `i`, which is `r`. -/
inductive Advance (dir : Text) (s : Checkpointing) (e : Event) (i : Nat) (r : CheckpointRequest) : CheckpointPhase → Prop
  | same (he : ∀ env arrives, e ≠ .rpc i env arrives) : Advance dir s e i r r.phase
  | refused (hphase : ∀ text, r.phase ≠ .acked text) : Advance dir s e i r .refused
  | stored {env : Env} {arrives : Bool} (he : e = .rpc i (some env) arrives) (hphase : r.phase = .checked) :
      Advance dir s e i r (.stored (s.text dir r.file))
  | acked {text : Text} (he : ∀ env arrives, e ≠ .rpc i env arrives) (hphase : r.phase = .stored text) :
      Advance dir s e i r (.acked text)

/-- A command is received with its reply, or the request fails. -/
theorem receive_eq (dir : Text) (s : Checkpointing) (i : Nat) (r : CheckpointRequest) (env : Env) (arrives : Bool)
    (payload : Text) : ∃ srv phase, s.receive dir i r env arrives payload = { s with srv := srv }.setPhase i r phase ∧
      (phase = .stored (s.text dir r.file) ∨ phase = .refused) := by
  unfold Checkpointing.receive
  generalize processNmCommand env s.srv payload = result
  obtain ⟨srv, frames⟩ := result
  dsimp only
  refine ⟨srv, _, rfl, ?_⟩
  split
  · exact .inl rfl
  · exact .inr rfl

theorem getElem?_setPhase {s : Checkpointing} {i j : Nat} {r r' : CheckpointRequest} {phase : CheckpointPhase}
    (hr : s.requests[i]? = some r) (hr' : s.requests[j]? = some r') :
    (s.setPhase j r' phase).requests[i]? = some { r with phase := if i = j then phase else r.phase } := by
  show (s.requests.set j _)[i]? = _
  by_cases hij : i = j
  · subst hij
    cases hr.symm.trans hr'
    rw [List.getElem?_set_self (List.getElem?_eq_some_iff.1 hr).1, if_pos rfl]
  · rw [List.getElem?_set_ne (Ne.symm hij), hr, if_neg hij]

theorem requests_step {dir : Text} {s t : Checkpointing} {e : Event} (hs : step dir s e = some t) {i : Nat}
    {r : CheckpointRequest} (hr : s.requests[i]? = some r) :
    ∃ phase, t.requests[i]? = some { r with phase := phase } ∧ Advance dir s e i r phase := by
  cases e with
  | request user json =>
    refine ⟨r.phase, ?_, .same fun _ _ heq => by cases heq⟩
    simp only [Checkpointing.step] at hs
    split at hs
    · cases hs
      exact hr
    · obtain ⟨file, -, hs⟩ := Option.bind_eq_some_iff.1 hs
      obtain ⟨tag, -, rfl⟩ := Option.map_eq_some_iff.1 hs
      rw [List.getElem?_append_left (List.getElem?_eq_some_iff.1 hr).1]
      exact hr
  | rpc j env arrives =>
    obtain ⟨r', hr', hs⟩ := Option.bind_eq_some_iff.1 hs
    have hother (hij : ¬ i = j) : ∀ env' arrives', Event.rpc j env arrives ≠ .rpc i env' arrives' := by
      rintro env' arrives' heq
      cases heq
      exact hij rfl
    split at hs
    · next hphase =>
      split at hs
      · next env payload hpayload hs =>
        cases hs
        obtain ⟨srv, phase, hreceive, hnew⟩ := receive_eq dir s j r' env arrives payload
        rw [hreceive]
        refine ⟨_, getElem?_setPhase hr hr', ?_⟩
        by_cases hij : i = j
        · subst hij
          cases hr.symm.trans hr'
          rw [if_pos rfl]
          rcases hnew with rfl | rfl
          · exact .stored rfl hphase
          · exact .refused (by simp [hphase])
        · rw [if_neg hij]
          exact .same (hother hij)
      · cases hs
        refine ⟨_, getElem?_setPhase hr hr', ?_⟩
        by_cases hij : i = j
        · subst hij
          cases hr.symm.trans hr'
          rw [if_pos rfl]
          exact .refused (by simp [hphase])
        · rw [if_neg hij]
          exact .same (hother hij)
    · cases hs
  | register j now =>
    obtain ⟨r', hr', hs⟩ := Option.bind_eq_some_iff.1 hs
    split at hs
    · next text hphase =>
      split at hs
      · cases hs
        refine ⟨_, getElem?_setPhase hr hr', ?_⟩
        by_cases hij : i = j
        · subst hij
          cases hr.symm.trans hr'
          rw [if_pos rfl]
          exact .acked (fun _ _ heq => by cases heq) hphase
        · rw [if_neg hij]
          exact .same fun _ _ heq => by cases heq
      · cases hs
        refine ⟨_, getElem?_setPhase hr hr', ?_⟩
        by_cases hij : i = j
        · subst hij
          cases hr.symm.trans hr'
          rw [if_pos rfl]
          exact .refused (by simp [hphase])
        · rw [if_neg hij]
          exact .same fun _ _ heq => by cases heq
    · cases hs
  | op op =>
    refine ⟨r.phase, ?_, .same fun _ _ heq => by cases heq⟩
    simp only [Checkpointing.step] at hs
    split at hs
    · cases hs
    · cases hs
    · cases hs
      exact hr

/-- A request that is acknowledged stays as it is. -/
theorem acked_step {dir : Text} {s t : Checkpointing} {e : Event} (hs : step dir s e = some t) {i : Nat}
    {r : CheckpointRequest} {text : Text} (hr : s.requests[i]? = some r ∧ r.phase = .acked text) :
    t.requests[i]? = some r ∧ r.phase = .acked text := by
  obtain ⟨hr, hacked⟩ := hr
  obtain ⟨phase, ht, hphase⟩ := requests_step hs hr
  refine ⟨?_, hacked⟩
  cases hphase with
  | same _ => exact ht
  | refused hnot => exact absurd hacked (hnot text)
  | stored _ hchecked => cases hacked.symm.trans hchecked
  | acked _ hstored => cases hacked.symm.trans hstored

/-- From its command on a request has the text that the file had then, unless it is refused. -/
theorem follows {dir : Text} {tr : List (Checkpointing × Event)} {s : Checkpointing} (h : (system dir).Run tr s)
    {q : Checkpointing} {i : Nat} {env : Option Env} {arrives : Bool} (hp : (q, Event.rpc i env arrives) ∈ tr) :
    ∃ (r : CheckpointRequest) (phase : CheckpointPhase), s.requests[i]? = some { r with phase := phase } ∧
      (phase = .refused ∨ CheckpointPhase.HasStored (q.text dir r.file) phase) := by
  induction h with
  | start _ => cases hp
  | step h hs ih =>
    rcases List.mem_cons.1 hp with heq | hp
    · cases heq
      obtain ⟨r, hr, -⟩ := Option.bind_eq_some_iff.1 hs
      obtain ⟨phase, ht, hphase⟩ := requests_step hs hr
      refine ⟨r, phase, ht, ?_⟩
      cases hphase with
      | same he => exact absurd rfl (he env arrives)
      | refused _ => exact .inl rfl
      | stored _ _ => exact .inr (.inl rfl)
      | acked he _ => exact absurd rfl (he env arrives)
    · obtain ⟨r, phase, hs', hphase⟩ := ih hp
      obtain ⟨phase', ht, hphase'⟩ := requests_step hs hs'
      refine ⟨r, phase', ht, ?_⟩
      cases hphase' with
      | same _ => exact hphase
      | refused _ => exact .inl rfl
      | stored _ hchecked =>
        rcases hphase with hrefused | hstored | hacked
        · cases hrefused.symm.trans hchecked
        · cases hstored.symm.trans hchecked
        · cases hacked.symm.trans hchecked
      | acked _ hstored' =>
        rcases hphase with hrefused | hstored | hacked
        · cases hrefused.symm.trans hstored'
        · cases hstored.symm.trans hstored'
          exact .inr (.inr rfl)
        · cases hacked.symm.trans hstored'

/-! ## One request at a time -/

/-- The checkpoint is in the list of the file. -/
def Listed (nm : NmState) (name tag : Text) : Prop :=
  ∃ file, nmFindFile nm name = some file ∧ (nmFileFindCheckpoint file tag).isSome = true

/-- What comes through the first section is not listed. -/
theorem not_listed_of_begin {nm : NmState} {user json name tag : Text}
    (h : checkpointBegin nm user json = .ok (name, tag)) : ¬ Listed nm name tag := by
  rintro ⟨file, hfind, hlisted⟩
  unfold checkpointBegin at h
  split at h
  · split at h
    · cases h
    · split at h
      · cases h
      · next file' hfind' =>
        split at h
        · cases h
        split at h
        · cases h
        · next hnone =>
          cases h
          cases hfind.symm.trans hfind'
          exact hnone hlisted
  · cases h

theorem Listed.modifyFile {nm : NmState} {name n t : Text} (h : Listed nm n t) {f : FileEntry → FileEntry}
    (hname : ∀ file, (f file).name = file.name)
    (hf : ∀ file t, (nmFileFindCheckpoint file t).isSome = true → (nmFileFindCheckpoint (f file) t).isSome = true) :
    Listed (nm.modifyFile name f) n t := by
  obtain ⟨file, hfind, hlisted⟩ := h
  have hfound := nmFindFile_modifyFile_map nm name n hname
  rw [hfind, Option.map_some] at hfound
  refine ⟨_, hfound, ?_⟩
  split
  · exact hf file t hlisted
  · exact hlisted

/-- The last section lists the checkpoint, and those that were listed stay so. -/
theorem listed_checkpointEnd {nm nm' : NmState} {user text : Text} {file tag : FileName} {now : Int}
    (h : checkpointEnd nm user file.text tag.text now = (.ok text, nm')) :
    Listed nm' file.text tag.text ∧ ∀ n t, Listed nm n t → Listed nm' n t := by
  unfold checkpointEnd at h
  split at h
  · cases h
  · next entry hfind =>
    split at h
    · cases h
    split at h
    · cases h
    · next nm'' hadd =>
      cases h
      rw [nmFileAddCheckpoint, hfind, Option.bind_some, Option.ite_none_left_eq_some,
        Option.ite_none_left_eq_some] at hadd
      obtain ⟨-, -, hadd⟩ := hadd
      cases hadd
      constructor
      · refine ⟨_, nmFindFile_modifyFile hfind rfl, ?_⟩
        rw [nmFileFindCheckpoint, Text.copyTo_eq_self tag.short]
        simp
      · intro n t hlisted
        refine hlisted.modifyFile (fun _ => rfl) ?_
        intro entry t ht
        rw [nmFileFindCheckpoint] at ht
        rw [nmFileFindCheckpoint, List.find?_append, Option.isSome_or, ht, Bool.true_or]

theorem checkpointEnd_error {nm nm' : NmState} {user name tag text : Text} {now : Int} {code : ErrorCode}
    (h : checkpointEnd nm user name tag now = (.error code text, nm')) : nm' = nm := by
  unfold checkpointEnd at h
  split at h
  · cases h
    rfl
  · split at h
    · cases h
      rfl
    split at h
    · cases h
      rfl
    · cases h

/-- Of two requests for one checkpoint one is refused, and what is acknowledged is listed. -/
structure Turns (s : Checkpointing) : Prop where
  others : ∀ (i j : Nat) (r r' : CheckpointRequest), s.requests[i]? = some r → s.requests[j]? = some r' → i ≠ j →
    (r'.file.text, r'.tag.text) = (r.file.text, r.tag.text) → r.phase = .refused ∨ r'.phase = .refused
  listed : ∀ r ∈ s.requests, ∀ text, r.phase = .acked text → Listed s.nm r.file.text r.tag.text

section Turns

variable {dir : Text} {s : Checkpointing} (h : Turns s)

include h

theorem Turns.setPhase {i : Nat} {r : CheckpointRequest} (hr : s.requests[i]? = some r) (hphase : r.phase ≠ .refused)
    {phase : CheckpointPhase} {nm : NmState} (srv : Server) (hnm : ∀ n t, Listed s.nm n t → Listed nm n t)
    (hacked : ∀ text, phase = .acked text → Listed nm r.file.text r.tag.text) :
    Turns ({ s with nm := nm, srv := srv }.setPhase i r phase) := by
  have hi : i < s.requests.length := (List.getElem?_eq_some_iff.1 hr).1
  -- every request is there with its names, and refused if it was
  have hold (j : Nat) (r' : CheckpointRequest) (hr' : (s.requests.set i { r with phase := phase })[j]? = some r') :
      ∃ r₀, s.requests[j]? = some r₀ ∧ (r'.file.text, r'.tag.text) = (r₀.file.text, r₀.tag.text) ∧
        (r₀.phase = .refused → r'.phase = .refused) := by
    by_cases hij : i = j
    · subst hij
      rw [List.getElem?_set_self hi] at hr'
      cases hr'
      exact ⟨r, hr, rfl, fun hrefused => absurd hrefused hphase⟩
    · rw [List.getElem?_set_ne hij] at hr'
      exact ⟨r', hr', rfl, id⟩
  constructor
  · intro j k r₁ r₂ hr₁ hr₂ hjk hnames
    obtain ⟨r₁', hold₁, hnames₁, hrefused₁⟩ := hold j r₁ hr₁
    obtain ⟨r₂', hold₂, hnames₂, hrefused₂⟩ := hold k r₂ hr₂
    rcases h.others j k r₁' r₂' hold₁ hold₂ hjk (by rw [← hnames₂, hnames, hnames₁]) with hrefused | hrefused
    · exact .inl (hrefused₁ hrefused)
    · exact .inr (hrefused₂ hrefused)
  · intro r' hr' text htext
    rcases List.mem_or_eq_of_mem_set hr' with hr' | rfl
    · exact hnm _ _ (h.listed r' hr' text htext)
    · exact hacked text htext

theorem Turns.step {s' : Checkpointing} {e : Event} (hG : Serial dir s e) (hs : step dir s e = some s') : Turns s' := by
  cases e with
  | request user json =>
    simp only [Checkpointing.step] at hs
    split at hs
    · cases hs
      exact h
    · next name tag hbegin =>
      obtain ⟨file, hfile, hs⟩ := Option.bind_eq_some_iff.1 hs
      obtain ⟨tag', htag, rfl⟩ := Option.map_eq_some_iff.1 hs
      have hfile := FileName.text_of_ofText hfile
      have htag := FileName.text_of_ofText htag
      -- the others of the same name are refused, for what is acknowledged is listed
      have hrefused : ∀ r ∈ s.requests, (r.file.text, r.tag.text) = (name, tag) → r.phase = .refused := by
        intro r hr hnames
        rcases hG name tag hbegin r hr hnames with hrefused | ⟨text, hacked⟩
        · exact hrefused
        · have hlisted := h.listed r hr text hacked
          cases hnames
          exact absurd hlisted (not_listed_of_begin hbegin)
      constructor
      · intro i j r r' hr hr' hij hnames
        rcases System.getElem?_concat_cases hr with hold | ⟨hi, rfl⟩
        · rcases System.getElem?_concat_cases hr' with hold' | ⟨-, rfl⟩
          · exact h.others i j r r' hold hold' hij hnames
          · exact .inl (hrefused r (List.mem_of_getElem? hold) (by rw [← hnames, hfile, htag]))
        · rcases System.getElem?_concat_cases hr' with hold' | ⟨hj, -⟩
          · exact .inr (hrefused r' (List.mem_of_getElem? hold') (by rw [hnames, hfile, htag]))
          · exact absurd (hi.trans hj.symm) hij
      · intro r hr text htext
        rcases List.mem_append.1 hr with hr | hr
        · exact h.listed r hr text htext
        · rw [List.mem_singleton.1 hr] at htext
          cases htext
  | rpc i env arrives =>
    obtain ⟨r, hr, hs⟩ := Option.bind_eq_some_iff.1 hs
    split at hs
    · next hphase =>
      have hphase : r.phase ≠ .refused := by
        rw [hphase]
        nofun
      split at hs
      · next env payload hpayload hs =>
        cases hs
        obtain ⟨srv, phase, hreceive, hnew⟩ := receive_eq dir s i r env arrives payload
        rw [hreceive]
        refine h.setPhase hr hphase srv (fun _ _ => id) ?_
        rintro text rfl
        rcases hnew with hnew | hnew <;> cases hnew
      · cases hs
        exact h.setPhase hr hphase s.srv (fun _ _ => id) nofun
    · cases hs
  | register i now =>
    obtain ⟨r, hr, hs⟩ := Option.bind_eq_some_iff.1 hs
    split at hs
    · next text hphase =>
      have hphase : r.phase ≠ .refused := by
        rw [hphase]
        nofun
      split at hs
      · next nm hend =>
        cases hs
        obtain ⟨hlisted, hkept⟩ := listed_checkpointEnd hend
        exact h.setPhase hr hphase s.srv hkept fun _ _ => hlisted
      · next nm hend =>
        cases hs
        rw [checkpointEnd_error hend]
        exact h.setPhase hr hphase s.srv (fun _ _ => id) nofun
    · cases hs
  | op op =>
    simp only [Checkpointing.step] at hs
    split at hs
    · cases hs
    · cases hs
    · cases hs
      exact ⟨h.others, h.listed⟩

end Turns

/-- One request at a time is enough. -/
theorem Turns.clear {dir : Text} {s : Checkpointing} {e : Event} (h : Turns s) (hG : Serial dir s e) : Clear dir s e := by
  rintro i env arrives r rfl hr hphase
  obtain ⟨hload, htmp⟩ := hG env rfl
  refine ⟨hload, ?_⟩
  intro r' hr' text hstored
  refine ⟨htmp r hr r' hr', ?_⟩
  intro hnames
  obtain ⟨j, hj⟩ := List.getElem?_of_mem hr'
  by_cases hij : i = j
  · -- the request itself has nothing stored yet
    subst hij
    cases hr.symm.trans hj
    rcases hstored with hstored | hstored <;> cases hphase.symm.trans hstored
  · rcases h.others i j r r' hr hj hij hnames with hrefused | hrefused
    · cases hphase.symm.trans hrefused
    · rw [hrefused] at hstored
      exact absurd hstored not_hasStored_refused

/-- Alice has made the empty file. -/
def aliceHas (file : FileName) : Checkpointing :=
  ⟨(createEnd .clear alice.text file.text 0 (-1) 0).2, Ss.readableServer file, []⟩

def aliceRequests (file : FileName) : Event :=
  .request alice (printMessage [(Text.lit "file", .string file.text), (Text.lit "tag", .string (Text.lit "t"))])

theorem aliceHas_init (file : FileName) : (system (Text.lit "/s")).init (aliceHas file) :=
  ⟨(Op.changes (Placed.init (Text.lit "/s")) (.create file (Text.lit "u") ⟨0, true, true, true⟩)).placed, rfl⟩

end Checkpointing

end CoWrite.Cluster
