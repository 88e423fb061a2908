import CoWrite.Cluster.Handlers
import CoWrite.Cluster.Orphans

/-!
# A CREATE that is refused at its end

`handle_client_create` has the file made on a server, and on a backup, and enters it in the table last, where it may
find the table full. The handler runs alone; every server answers its commands, as its own calls let it.

* `processNmCommand_create`: a server has a new file exactly when it answers `OK` and has read the name as it was meant.
* `create_restores_iff`: a refused CREATE leaves no new file on a server unless the table was full.
-/

namespace CoWrite.Cluster.Handlers

open CoWrite.Lib
open CoWrite.Nm
open CoWrite.Ss (Server Env replies processNmCommand)

/-! ## The run -/

/-- The storage servers, and what the calls of the next commands answer. -/
structure Nodes where
  servers : Nat → Server
  calls : Nat → Env

/-- A command is carried out and answered; `handle_client_create` asks for nothing else. -/
def Nodes.answer (n : Nodes) : Question → Option Text × Nodes
  | .forward server payload =>
    let (srv, frames) := processNmCommand (n.calls 0) (n.servers server.toNat) payload
    ((replies frames).head?, ⟨Function.update n.servers server.toNat srv, fun i => n.calls (i + 1)⟩)
  | _ => (none, n)

/-- The tables of the name manager and the storage servers, with their tables sorted. -/
structure World where
  nm : NmState
  servers : Nat → Server
  sorted : ∀ k, (servers k).state.Sorted

/-- `handle_client_create` on the world. -/
def World.create (w : World) (calls : Nat → Env) (user json : Text) (now : Int) :
    Except Response Text × NmState × Nodes :=
  (handleClientCreate user json now).exec Nodes.answer w.nm ⟨w.servers, calls⟩

/-- When the request is refused, the table is as it was and no server has the file that did not have it before. -/
structure Restores (json : Text) (w : World) (r : Except Response Text × NmState × Nodes) : Prop where
  table : ∀ e, r.1 = .error e → r.2.1.files = w.nm.files
  servers : ∀ e, r.1 = .error e → ∀ name, jsonFile json = some name → ∀ k,
    HasFile (r.2.2.servers k) name → HasFile (w.servers k) name

/-- The request passes the checks, and a server is asked for the file. -/
structure Asked (w : World) (user json name : Text) (i : Nat) (payload : Text) : Prop where
  file : jsonFile json = some name
  valid : validFilename name = true
  named : user ≠ []
  free : nmFindFile w.nm name = none
  picked : (nmPickServer w.nm).1 = some i
  online : (nmGetServer (nmPickServer w.nm).2 i).all (fun ss => decide (ss.ctrlFd < 0)) = false
  payload : format 512 (createFields name user) = some payload

/-- The server that is asked answers `OK`. -/
def World.makes (w : World) (calls : Nat → Env) (i : Nat) (payload : Text) : Bool :=
  (replies (processNmCommand (calls 0) (w.servers i) payload).2).head?.any isOk

/-- The server makes the file under its name, and the table is full. -/
structure Abandoned (w : World) (calls : Nat → Env) (user json name : Text) (i : Nat) (payload : Text) : Prop where
  asked : Asked w user json name i payload
  made : w.makes calls i payload = true
  read : '"' ∉ name
  full : NM_MAX_FILES ≤ w.nm.files.length

/-! ## What a server does -/

theorem isOk_create : (replies (Ss.sendOk (Ss.opField "CREATE"))).head?.any isOk = true := by decide

/-- How a server has a name after a command that answered `ok`. -/
structure Made (name : Text) (srv srv' : Server) (ok : Bool) : Prop where
  sorted : srv'.state.Sorted
  kept : HasFile srv name → HasFile srv' name
  new : HasFile srv' name → HasFile srv name ∨ (ok = true ∧ '"' ∉ name)
  made : ok = true → '"' ∉ name → HasFile srv' name ∧ ¬ HasFile srv name

theorem Made.refused {name : Text} {srv : Server} (hs : srv.state.Sorted) : Made name srv srv false where
  sorted := hs
  kept h := h
  new := .inl
  made h := by cases h

/-- The command is read as a create, and of its file exactly when the name has no quote. -/
theorem read_createFields {name user : Text} (hvalid : validFilename name = true) (hshort : name.length < NM_MAX_NAME) :
    jsonGetString (printMessage (createFields name user)) (Text.lit "type") 64 = some (Text.lit "NM_CREATE") ∧
      (jsonGetString (printMessage (createFields name user)) (Text.lit "file") Ss.SS_NAME_MAX = some name ↔ '"' ∉ name) := by
  let file : FileName := ⟨name, hvalid, hshort⟩
  have hkeys : Readable [readType "NM_CREATE", readFile false file] := by
    refine ⟨?_, ?_, ?_⟩
    · simp [readType, readFile, IsKey, Text.lit]
    · simp [readType, readFile, Text.lit]
    · simp [readType, readFile, Text.lit, file.short]
  have hread := readAsMeant_iff hkeys [(Text.lit "owner", .string user)]
  have htype : jsonGetString (printMessage (createFields name user)) (Text.lit "type") 64 = some (Text.lit "NM_CREATE") := by
    have hone : Readable [readType "NM_CREATE"] := ⟨by simp [readType, IsKey, Text.lit], by simp, by simp [readType, Text.lit]⟩
    have hplain : ∀ s ∈ [readType "NM_CREATE"], s.escaped = true ∨ Plain s.value := by
      intro s hs
      rw [List.mem_singleton.1 hs]
      exact .inr (by decide)
    exact (readAsMeant_iff hone [(Text.lit "file", .string name), (Text.lit "owner", .string user)]).2 hplain _
      List.mem_cons_self
  refine ⟨htype, ?_⟩
  have hplain : Plain name ↔ '"' ∉ name := ⟨And.left, fun h => ⟨h, fun hm => (validName.chars hvalid _ hm).2.1 rfl⟩⟩
  rw [← hplain]
  constructor
  · intro hfile
    have hboth : ReadAsMeant (printMessage ([readType "NM_CREATE", readFile false file].map ReadString.field ++
        [(Text.lit "owner", .string user)])) [readType "NM_CREATE", readFile false file] := by
      simp only [ReadAsMeant, List.forall_mem_cons, List.not_mem_nil, false_imp_iff, implies_true, and_true]
      exact ⟨htype, hfile⟩
    exact (hread.1 hboth _ (List.mem_cons_of_mem _ List.mem_cons_self)).resolve_left Bool.false_ne_true
  · intro hname
    refine hread.2 ?_ _ (List.mem_cons_of_mem _ List.mem_cons_self)
    simp only [List.forall_mem_cons, List.not_mem_nil, false_imp_iff, implies_true, and_true]
    exact ⟨.inr (by decide), .inr hname⟩

/-- **A server that is asked to make the file.** -/
theorem processNmCommand_create {env : Env} {srv : Server} {name user payload : Text} (hs : srv.state.Sorted)
    (hvalid : validFilename name = true) (hshort : name.length < NM_MAX_NAME)
    (hpayload : format 512 (createFields name user) = some payload) :
    Made name srv (processNmCommand env srv payload).1
      ((replies (processNmCommand env srv payload).2).head?.any isOk) := by
  obtain ⟨htype, hfile⟩ := @read_createFields name user hvalid hshort
  have hprinted : payload = printMessage (createFields name user) := by
    unfold format at hpayload
    split at hpayload
    · cases hpayload
    · exact (Option.some.inj hpayload).symm
  have hprocess : processNmCommand env srv payload = Ss.handleNmCreate env srv payload := by
    rw [processNmCommand, hprinted, htype]
    rfl
  rw [hprocess]
  rw [← hprinted] at hfile
  unfold Ss.handleNmCreate
  cases hread : jsonGetString payload (Text.lit "file") Ss.SS_NAME_MAX with
  | none =>
    dsimp only
    rw [replies_error]
    exact .refused hs
  | some read =>
    cases howner : jsonGetString payload (Text.lit "owner") Ss.SS_USER_MAX with
    | none =>
      dsimp only
      rw [replies_error]
      exact .refused hs
    | some owner =>
      dsimp only
      split
      · rw [replies_error]
        exact .refused hs
      have hshort' : read.length < Ss.SS_NAME_MAX := length_jsonGetString_lt hread
      obtain ⟨hsorted, hentries⟩ := Ss.ssStateAdd_state hs srv.fs hshort' owner env.add
      rw [hread] at hfile
      have hsame : read = name ↔ '"' ∉ name := by rw [← hfile, Option.some.injEq]
      have hfree := @Ss.entry_of_ssStateAdd srv.state hs read srv.fs owner env.add
      cases hadd : Ss.ssStateAdd srv.state srv.fs read owner env.add with
      | mk added rest =>
        obtain ⟨state, fs⟩ := rest
        rw [hadd] at hsorted hentries hfree
        cases added with
        | false =>
          dsimp only
          rw [replies_error]
          have hhas : HasFile ⟨state, fs, srv.tickets⟩ name ↔ HasFile srv name := by
            rw [HasFile, HasFile, hentries name]
            simp
          exact ⟨hsorted, hhas.2, fun h => .inl (hhas.1 h), fun h => by cases h⟩
        | true =>
          dsimp only
          rw [isOk_create]
          have hhas : HasFile ⟨state, fs, srv.tickets⟩ name ↔ HasFile srv name ∨ name = read := by
            rw [HasFile, HasFile, hentries name]
            by_cases hname : name = read
            · simp [hname]
            · simp [hname]
          refine ⟨hsorted, fun h => hhas.2 (.inl h), ?_, ?_⟩
          · intro h
            exact (hhas.1 h).imp_right fun hname => ⟨rfl, hsame.1 hname.symm⟩
          · intro _ hplain
            obtain rfl := hsame.2 hplain
            refine ⟨hhas.2 (.inr rfl), ?_⟩
            unfold HasFile
            rw [hfree rfl]
            exact Bool.false_ne_true

/-! ## The commands of the handler -/

section Commands

variable {P : (Nat → Server) → Prop} {payload : Text}

/-- The offers leave the tables of the name manager as they are. -/
theorem exec_offerBackup_state (primary : Nat) (indices : List Nat) (nm : NmState) (n : Nodes) :
    ((offerBackup primary payload indices).exec Nodes.answer nm n).2.1 = nm := by
  induction indices generalizing n with
  | nil => rfl
  | cons i rest ih =>
    unfold offerBackup
    split
    · exact ih n
    · simp only [Prog.exec]
      split
      · exact ih n
      · simp only [Prog.exec]
        cases (Nodes.answer n (.forward i payload)).1 with
        | none => exact ih _
        | some reply =>
          dsimp only
          split
          · rfl
          · exact ih _

/-- What every command keeps the offers keep. -/
theorem exec_offerBackup_servers (hstep : ∀ servers k env, P servers →
      P (Function.update servers k (processNmCommand env (servers k) payload).1))
    (primary : Nat) (indices : List Nat) (nm : NmState) {n : Nodes} (h : P n.servers) :
    P ((offerBackup primary payload indices).exec Nodes.answer nm n).2.2.servers := by
  induction indices generalizing n with
  | nil => exact h
  | cons i rest ih =>
    unfold offerBackup
    split
    · exact ih h
    · simp only [Prog.exec]
      split
      · exact ih h
      · have hasked : P (Nodes.answer n (.forward i payload)).2.servers := hstep _ _ _ h
        simp only [Prog.exec]
        cases (Nodes.answer n (.forward i payload)).1 with
        | none => exact ih hasked
        | some reply =>
          dsimp only
          split
          · exact hasked
          · exact ih hasked

theorem exec_addFile_servers (user name : Text) (now : Int) (primary : Nat) (backup : Int) (nm : NmState) (n : Nodes) :
    ((addFile user name now primary backup).exec Nodes.answer nm n).2.2 = n := by
  simp only [addFile, Prog.exec]
  cases nmAddFile nm name user primary backup now <;> rfl

end Commands

section Requests

variable (w : World) (calls : Nat → Env) (user json : Text) (now : Int)

/-- Before a server is asked nothing has changed. -/
theorem create_early (h : ∀ name i payload, ¬ Asked w user json name i payload) :
    (∃ e, (w.create calls user json now).1 = .error e) ∧ (w.create calls user json now).2.1.files = w.nm.files ∧
      (w.create calls user json now).2.2.servers = w.servers := by
  have hpicked := nmPickServer_files w.nm
  unfold World.create handleClientCreate
  cases hfile : jsonFile json with
  | none => exact ⟨⟨_, rfl⟩, rfl, rfl⟩
  | some name =>
    dsimp only
    split
    · exact ⟨⟨_, rfl⟩, rfl, rfl⟩
    next hvalid =>
    split
    · exact ⟨⟨_, rfl⟩, rfl, rfl⟩
    next huser =>
    simp only [Prog.exec]
    split
    · exact ⟨⟨_, rfl⟩, rfl, rfl⟩
    next hfree =>
    have hfree : nmFindFile w.nm name = none := by simpa using hfree
    cases hpick : nmPickServer w.nm with
    | mk r nm =>
      rw [hpick] at hpicked
      cases r with
      | none => exact ⟨⟨_, rfl⟩, hpicked, rfl⟩
      | some i =>
        simp only [Prog.exec]
        split
        · exact ⟨⟨_, rfl⟩, hpicked, rfl⟩
        next honline =>
        simp only [Prog.exec]
        rw [if_neg honline]
        cases hpayload : format 512 (createFields name user) with
        | none => exact ⟨⟨_, rfl⟩, hpicked, rfl⟩
        | some payload =>
          refine absurd ⟨hfile, by simpa using hvalid, huser, hfree, ?_, ?_, hpayload⟩ (h name i payload)
          · rw [hpick]
          · rw [hpick]
            exact Bool.eq_false_iff.2 honline

/-- `handle_client_create` from the reply of the first server on. -/
def createReplied (name payload : Text) (i : Nat) : Option Text → Handler (Except Response Text)
  | none => markDown i <| refuse .UNAVAILABLE "server unreachable"
  | some reply =>
    if !isOk reply then refuse .INTERNAL "create failed"
    else
      .lock <| .read fun state => .unlock <|
        (offerBackup i payload (List.range state.servers.length)).bind (addFile user name now i)

variable {w calls user json} {name payload : Text} {i : Nat} (h : Asked w user json name i payload)

include h

theorem create_eq : w.create calls user json now =
    (createReplied user now name payload i
        (replies (processNmCommand (calls 0) (w.servers i) payload).2).head?).exec Nodes.answer (nmPickServer w.nm).2
      ⟨Function.update w.servers i (processNmCommand (calls 0) (w.servers i) payload).1, fun n => calls (n + 1)⟩ := by
  have hpicked := h.picked
  have honline := h.online
  unfold World.create handleClientCreate
  rw [h.file]
  dsimp only
  rw [h.valid, Bool.not_true, if_neg Bool.false_ne_true, if_neg h.named]
  simp only [Prog.exec]
  rw [h.free, Option.isSome_none, if_neg Bool.false_ne_true]
  cases hpick : nmPickServer w.nm with
  | mk r nm =>
    rw [hpick] at hpicked honline
    obtain rfl : r = some i := hpicked
    dsimp only at honline
    simp only [Prog.exec, honline, Bool.false_eq_true, if_false]
    rw [h.payload]
    simp only [Prog.exec, Nodes.answer, Int.toNat_natCast]
    cases (replies (processNmCommand (calls 0) (w.servers i) payload).2).head? <;> rfl

/-- The server does not make the file. -/
theorem create_refused (hmade : w.makes calls i payload = false) :
    (w.create calls user json now).2.1.files = w.nm.files ∧
      (w.create calls user json now).2.2.servers =
        Function.update w.servers i (processNmCommand (calls 0) (w.servers i) payload).1 := by
  rw [create_eq now h]
  unfold World.makes at hmade
  cases hreply : (replies (processNmCommand (calls 0) (w.servers i) payload).2).head? with
  | none => exact ⟨(nmMarkServerDown_files _ _).trans (nmPickServer_files w.nm), rfl⟩
  | some reply =>
    rw [hreply, Option.any_some] at hmade
    simp only [createReplied, hmade, Bool.not_false, if_true]
    exact ⟨nmPickServer_files w.nm, rfl⟩

/-- The server makes the file: the backups are asked, and the file is entered. -/
theorem create_eq_made (hmade : w.makes calls i payload = true) : w.create calls user json now =
    ((offerBackup i payload (List.range (nmPickServer w.nm).2.servers.length)).bind (addFile user name now i)).exec
      Nodes.answer (nmPickServer w.nm).2
      ⟨Function.update w.servers i (processNmCommand (calls 0) (w.servers i) payload).1, fun n => calls (n + 1)⟩ := by
  rw [create_eq now h]
  unfold World.makes at hmade
  cases hreply : (replies (processNmCommand (calls 0) (w.servers i) payload).2).head? with
  | none =>
    rw [hreply] at hmade
    cases hmade
  | some reply =>
    rw [hreply, Option.any_some] at hmade
    simp only [createReplied, hmade, Bool.not_true, Bool.false_eq_true, if_false, Prog.exec]

/-- What every command keeps holds at the end. -/
theorem create_made_servers (hmade : w.makes calls i payload = true) {P : (Nat → Server) → Prop}
    (hstep : ∀ servers k env, P servers → P (Function.update servers k (processNmCommand env (servers k) payload).1))
    (hfirst : P w.servers) : P (w.create calls user json now).2.2.servers := by
  rw [create_eq_made now h hmade, Prog.exec_bind, exec_addFile_servers]
  exact exec_offerBackup_servers hstep _ _ _ (hstep _ _ _ hfirst)

/-- The table decides on the reply. -/
theorem create_made_reply (hmade : w.makes calls i payload = true) :
    (NM_MAX_FILES ≤ w.nm.files.length → (∃ e, (w.create calls user json now).1 = .error e) ∧
        (w.create calls user json now).2.1.files = w.nm.files) ∧
      (w.nm.files.length < NM_MAX_FILES → ∃ extra, (w.create calls user json now).1 = .ok extra) := by
  have hfiles := nmPickServer_files w.nm
  have hfree : findFileIndex (nmPickServer w.nm).2 name = none := by
    have hnone := h.free
    unfold nmFindFile at hnone
    unfold findFileIndex
    rw [hfiles, List.findIdx?_eq_none_iff]
    rw [List.find?_eq_none] at hnone
    intro file hfile
    exact Bool.eq_false_iff.2 (hnone file hfile)
  rw [create_eq_made now h hmade, Prog.exec_bind, exec_offerBackup_state]
  simp only [addFile, Prog.exec]
  constructor
  · intro hfull
    rw [nmAddFile, hfiles, if_pos hfull]
    exact ⟨⟨_, rfl⟩, hfiles⟩
  · intro hroom
    rw [nmAddFile, hfiles, if_neg (Nat.not_le.2 hroom), hfree, Option.isSome_none, if_neg Bool.false_ne_true]
    exact ⟨_, rfl⟩

/-- After the command of a create every server has what it had, and its table is sorted. -/
theorem made_step (servers : Nat → Server) (k : Nat) (env : Env) (hs : ∀ k, (servers k).state.Sorted) :
    Made name (servers k) (processNmCommand env (servers k) payload).1
      ((replies (processNmCommand env (servers k) payload).2).head?.any isOk) :=
  processNmCommand_create (hs k) h.valid (length_jsonGetString_lt h.file) h.payload

theorem sorted_step (servers : Nat → Server) (k : Nat) (env : Env) (hs : ∀ k, (servers k).state.Sorted) :
    ∀ j, (Function.update servers k (processNmCommand env (servers k) payload).1 j).state.Sorted :=
  (Function.forall_update_iff servers fun _ srv => srv.state.Sorted).2
    ⟨(made_step h servers k env hs).sorted, fun j _ => hs j⟩

/-- The file stays on a server that has it. -/
theorem has_step {servers : Nat → Server} {k j : Nat} {env : Env}
    (hP : (∀ k, (servers k).state.Sorted) ∧ HasFile (servers j) name) :
    (∀ j, (Function.update servers k (processNmCommand env (servers k) payload).1 j).state.Sorted) ∧
      HasFile (Function.update servers k (processNmCommand env (servers k) payload).1 j) name := by
  refine ⟨sorted_step h servers k env hP.1, ?_⟩
  rcases eq_or_ne j k with rfl | hj
  · rw [Function.update_self]
    exact (made_step h servers j env hP.1).kept hP.2
  · rw [Function.update_of_ne hj]
    exact hP.2

/-- A file whose name has a quote is made on no server. -/
theorem quoted_step (hread : '"' ∈ name) {servers : Nat → Server} {k : Nat} {env : Env}
    (hP : (∀ k, (servers k).state.Sorted) ∧ ∀ k, HasFile (servers k) name → HasFile (w.servers k) name) :
    (∀ j, (Function.update servers k (processNmCommand env (servers k) payload).1 j).state.Sorted) ∧
      ∀ j, HasFile (Function.update servers k (processNmCommand env (servers k) payload).1 j) name →
        HasFile (w.servers j) name := by
  refine ⟨sorted_step h servers k env hP.1, ?_⟩
  refine (Function.forall_update_iff servers fun j srv => HasFile srv name → HasFile (w.servers j) name).2
    ⟨?_, fun j _ => hP.2 j⟩
  intro hk
  rcases (made_step h servers k env hP.1).new hk with hhad | ⟨-, hplain⟩
  · exact hP.2 k hhad
  · exact absurd hread hplain

end Requests

/-! ## The result -/

/-- The copy on the first server is left behind. -/
theorem Abandoned.not_restores {w : World} {calls : Nat → Env} {user json name payload : Text} {i : Nat} (now : Int)
    (h : Abandoned w calls user json name i payload) : ¬ Restores json w (w.create calls user json now) := by
  intro hrestores
  obtain ⟨hasked, hmade, hread, hfull⟩ := h
  obtain ⟨hhas, hnew⟩ := (made_step hasked w.servers i (calls 0) w.sorted).made hmade hread
  -- the copy on the first server stays
  have hfirst : HasFile (Function.update w.servers i (processNmCommand (calls 0) (w.servers i) payload).1 i) name := by
    rw [Function.update_self]
    exact hhas
  have hleft : HasFile ((w.create calls user json now).2.2.servers i) name := by
    rw [create_eq_made now hasked hmade, Prog.exec_bind, exec_addFile_servers]
    exact (exec_offerBackup_servers (P := fun servers => (∀ k, (servers k).state.Sorted) ∧ HasFile (servers i) name)
      (fun _ _ _ hP => has_step hasked hP) _ _ _ ⟨sorted_step hasked w.servers i (calls 0) w.sorted, hfirst⟩).2
  obtain ⟨⟨e, he⟩, -⟩ := (create_made_reply now hasked hmade).1 hfull
  exact hnew (hrestores.servers e he name hasked.file i hleft)

/-- **A refused CREATE leaves nothing behind**, unless the table was full when the server had made the file. -/
theorem create_restores_iff (w : World) (calls : Nat → Env) (user json : Text) (now : Int) :
    Restores json w (w.create calls user json now) ↔
      ∀ name i payload, ¬ Abandoned w calls user json name i payload := by
  constructor
  · intro hrestores name i payload h
    exact h.not_restores now hrestores
  · intro hnone
    by_cases hasked : ∃ name i payload, Asked w user json name i payload
    · obtain ⟨name, i, payload, hasked⟩ := hasked
      have hname {name' : Text} (hname' : jsonFile json = some name') : name' = name :=
        Option.some.inj (hname'.symm.trans hasked.file)
      cases hmade : w.makes calls i payload with
      | false =>
        obtain ⟨hfiles, hservers⟩ := create_refused now hasked hmade
        refine ⟨fun _ _ => hfiles, ?_⟩
        intro e _ name' hname' k hk
        obtain rfl := hname hname'
        rw [hservers] at hk
        rcases eq_or_ne k i with rfl | hki
        · rw [Function.update_self] at hk
          rcases (made_step hasked w.servers k (calls 0) w.sorted).new hk with hhad | ⟨hok, -⟩
          · exact hhad
          · exact absurd (hmade.symm.trans hok) Bool.false_ne_true
        · rwa [Function.update_of_ne hki] at hk
      | true =>
        obtain ⟨hrefused, hok⟩ := create_made_reply now hasked hmade
        rcases Nat.lt_or_ge w.nm.files.length NM_MAX_FILES with hroom | hfull
        · -- the file is entered, so the request is not refused
          obtain ⟨extra, hextra⟩ := hok hroom
          exact ⟨fun e he => absurd (hextra.symm.trans he) (by simp), fun e he => absurd (hextra.symm.trans he) (by simp)⟩
        · -- the servers have read another name
          have hread : '"' ∈ name := by
            by_contra hplain
            exact hnone name i payload ⟨hasked, hmade, hplain, hfull⟩
          obtain ⟨-, hhad⟩ := create_made_servers now hasked hmade
            (P := fun servers => (∀ k, (servers k).state.Sorted) ∧ ∀ k, HasFile (servers k) name → HasFile (w.servers k) name)
            (fun _ _ _ hP => quoted_step hasked hread hP) ⟨w.sorted, fun _ hk => hk⟩
          refine ⟨fun _ _ => (hrefused hfull).2, ?_⟩
          intro e _ name' hname' k hk
          obtain rfl := hname hname'
          exact hhad k hk
    · have hearly := create_early w calls user json now fun name i payload h => hasked ⟨name, i, payload, h⟩
      refine ⟨fun _ _ => hearly.2.1, ?_⟩
      intro e _ name _ k hk
      rwa [hearly.2.2] at hk

/-- Files that are named by numbers. -/
@[irreducible] def numberedFiles (count : Nat) : List FileEntry :=
  (List.range count).map fun n => newFileEntry (printNat n) (Text.lit "u") 0 (-1) 0

theorem length_numberedFiles (count : Nat) : (numberedFiles count).length = count := by
  rw [numberedFiles, List.length_map, List.length_range]

theorem name_numberedFiles {count : Nat} {file : FileEntry} (h : file ∈ numberedFiles count) :
    ∀ c ∈ file.name, c.isDigit = true := by
  rw [numberedFiles] at h
  obtain ⟨n, -, rfl⟩ := List.mem_map.1 h
  intro c hc
  exact isDigit_of_mem_printNat (List.mem_of_mem_take hc)

/-- A name manager whose table is full of other files, and a server without a file. -/
def fullWorld : World where
  nm := ⟨[⟨Text.lit "s", Text.lit "h", Text.lit "1", Text.lit "2", 5, true⟩], 0, 0,
    numberedFiles NM_MAX_FILES, [], [], []⟩
  servers _ := ⟨Ss.ssStateInit (Text.lit "/s"), fun _ => none, []⟩
  sorted _ := Ss.sorted_ssStateInit _

/-- A request for the file `f`. -/
def createRequest : Text := printMessage [(Text.lit "type", .string (Text.lit "CREATE")), (Text.lit "file", .string (Text.lit "f"))]

theorem abandoned_full : Abandoned fullWorld (fun _ => .allOk 0) (Text.lit "u") createRequest (Text.lit "f") 0
    (printMessage (createFields (Text.lit "f") (Text.lit "u"))) := by
  have hfiles : fullWorld.nm.files = numberedFiles NM_MAX_FILES := rfl
  have hfree : nmFindFile fullWorld.nm (Text.lit "f") = none := by
    unfold nmFindFile
    rw [hfiles, List.find?_eq_none]
    intro file hfile
    have hdigit := name_numberedFiles hfile
    intro heq
    rw [beq_iff_eq] at heq
    rw [heq] at hdigit
    exact absurd (hdigit 'f' List.mem_cons_self) (by decide)
  have hfull : NM_MAX_FILES ≤ fullWorld.nm.files.length := by
    rw [hfiles, length_numberedFiles]
  exact ⟨⟨by decide, by decide, by decide, hfree, rfl, rfl, by decide⟩, by decide +kernel, by decide, hfull⟩

/-- The server has the file `f`, and the client an error. -/
theorem full_table_leaves_file : jsonFile createRequest = some (Text.lit "f") ∧
    (∃ e, (fullWorld.create (fun _ => .allOk 0) (Text.lit "u") createRequest 0).1 = .error e) ∧
    ¬ Restores createRequest fullWorld (fullWorld.create (fun _ => .allOk 0) (Text.lit "u") createRequest 0) := by
  have h := abandoned_full
  exact ⟨h.asked.file, ((create_made_reply 0 h.asked h.made).1 h.full).1, h.not_restores 0⟩

end CoWrite.Cluster.Handlers
