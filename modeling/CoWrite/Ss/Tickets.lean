import CoWrite.Lib.Stock
import CoWrite.Ss.Server

/-!
# Tickets are used once

The name manager's `NM_TICKET` commands put entries into the ticket table and requests take them out.
`stock` reads a run of the server: the entries at hand with the times of their commands, and which
request took which. `tickets_of_run` says that it is the table, and what follows: every request let
through has an entry of its own, put in before for the same token, user, file and operation and not
expired when it was taken, and an entry goes in no other way before it has expired.
-/

namespace CoWrite.Ss

open CoWrite.Lib

/-! ## Commands and requests -/

/-- The entry that `handle_nm_ticket_command` decodes. -/
def decodedTicket (json : Text) : Option AuthTicket :=
  match jsonGetString json (Text.lit "token") MAX_TOKEN_LEN,
    jsonGetString json (Text.lit "file") SS_NAME_MAX,
    jsonGetString json (Text.lit "user") SS_USER_MAX,
    jsonGetString json (Text.lit "op") 16, jsonGetInt json (Text.lit "expiry") with
  | some token, some file, some user, some op, some expiry => some ⟨token, file, user, op, expiry⟩
  | _, _, _, _, _ => none

/-- The entry that the event puts into the table. -/
def installs : Event → Option AuthTicket
  | .command env json =>
    if jsonGetString json (Text.lit "type") 64 = some (Text.lit "NM_TICKET") ∧ env.ticketPushed = true then
      decodedTicket json
    else none
  | _ => none

/-- What a request needs a ticket for. -/
structure TicketUse where
  token : Text
  user : Text
  file : Text
  op : Text
deriving DecidableEq, Repr

def TicketUse.fits (use : TicketUse) (t : AuthTicket) : Bool :=
  t.token == use.token && t.user == use.user && t.file == use.file && t.op == use.op

/-- The arguments with which `handle_data_client` calls `validate_ticket`. -/
def ticketUse (json : Text) : Option TicketUse :=
  (requestArgs json).bind fun (type, file, user, token) =>
    if type = Text.lit "READ" then some ⟨token, user, file, Text.lit "READ"⟩
    else if type = Text.lit "STREAM" then some ⟨token, user, file, Text.lit "STREAM"⟩
    else if type = Text.lit "WRITE_BEGIN" then
      (jsonGetInt json (Text.lit "sentence")).map fun _ => ⟨token, user, file, Text.lit "WRITE"⟩
    else none

/-- The ticket with which the request passes `validate_ticket`. -/
def admitted (host : Host) : Event → Option AuthTicket
  | .request _ env json =>
    (ticketUse json).bind fun use =>
      (validateTicket env host.server use.token use.user use.file use.op).1
  | _ => none

/-- The table's history: entries go in with commands, and out when a request comes, those that have
expired first. -/
def stock : List (Host × Event) → Stock AuthTicket
  | [] => .empty
  | (_, e) :: tr =>
    match e with
    | .command .. =>
      match installs e with
      | some ticket => (stock tr).put tr.length ticket
      | none => stock tr
    | .request _ env json =>
      match ticketUse json with
      | some use =>
        let live := (stock tr).sortOut (·.expired env.now)
        if env.ticketCopied then live.take tr.length use.fits else live
      | none => stock tr
    | .frame .. => stock tr

/-! ## The table after a step -/

section Commands

variable (env : Env) (srv : Server) (json : Text)

theorem restampFile_tickets (fileName user text : Text) :
    (restampFile env srv fileName user text).1.tickets = srv.tickets := by
  unfold restampFile
  split <;> rfl

theorem performUndo_tickets (fileName user : Text) : (performUndo env srv fileName user).1.tickets = srv.tickets := by
  unfold performUndo
  repeat' split
  all_goals first | rfl | exact restampFile_tickets ..

theorem ssCreateCheckpoint_tickets (fileName tag : Text) :
    (ssCreateCheckpoint env srv fileName tag).1.tickets = srv.tickets := by
  unfold ssCreateCheckpoint
  repeat' split
  all_goals rfl

theorem ssRevertCheckpoint_tickets (fileName tag user : Text) :
    (ssRevertCheckpoint env srv fileName tag user).1.tickets = srv.tickets := by
  unfold ssRevertCheckpoint
  repeat' split
  all_goals first | rfl | exact restampFile_tickets ..

theorem syncTarget_tickets (fileName owner : Text) : (syncTarget env srv fileName owner).1.tickets = srv.tickets := by
  unfold syncTarget
  repeat' split
  all_goals rfl

theorem syncFile_tickets (fileName owner content : Text) :
    (syncFile env srv fileName owner content).1.tickets = srv.tickets := by
  have h := syncTarget_tickets env srv fileName owner
  unfold syncFile
  dsimp only
  split
  · next heq =>
    rw [heq] at h
    exact h
  · next heq =>
    rw [heq] at h
    repeat' split
    all_goals exact h

theorem handleNmCreate_tickets : (handleNmCreate env srv json).1.tickets = srv.tickets := by
  unfold handleNmCreate
  repeat' split
  all_goals rfl

theorem handleNmDelete_tickets : (handleNmDelete srv json).1.tickets = srv.tickets := by
  unfold handleNmDelete
  repeat' split
  all_goals rfl

theorem handleNmUndo_tickets : (handleNmUndo env srv json).1.tickets = srv.tickets := by
  unfold handleNmUndo
  split
  · next fileName user _ _ =>
    have h := performUndo_tickets env srv fileName user
    split
    all_goals
      next heq =>
        rw [heq] at h
        repeat' split
        all_goals exact h
  · rfl

theorem handleNmCheckpointCreate_tickets : (handleNmCheckpointCreate env srv json).1.tickets = srv.tickets := by
  unfold handleNmCheckpointCreate
  split
  · rfl
  · next fileName tag user _ =>
    have h := ssCreateCheckpoint_tickets env srv fileName tag
    split
    · rfl
    · split
      all_goals
        next heq =>
          rw [heq] at h
          exact h

theorem handleNmCheckpointView_tickets : (handleNmCheckpointView env srv json).1.tickets = srv.tickets := by
  unfold handleNmCheckpointView
  repeat' split
  all_goals rfl

theorem handleNmCheckpointRevert_tickets : (handleNmCheckpointRevert env srv json).1.tickets = srv.tickets := by
  unfold handleNmCheckpointRevert
  split
  · rfl
  · next fileName tag user _ =>
    have h := ssRevertCheckpoint_tickets env srv fileName tag user
    split
    · rfl
    · split
      all_goals
        next heq =>
          rw [heq] at h
          repeat' split
          all_goals exact h

theorem handleNmSync_tickets : (handleNmSync env srv json).1.tickets = srv.tickets := by
  unfold handleNmSync
  repeat' split
  all_goals first | rfl | exact syncFile_tickets ..

theorem handleNmTicketCommand_tickets :
    (handleNmTicketCommand env srv json).1.tickets =
      srv.tickets ++ (if env.ticketPushed = true then decodedTicket json else none).toList := by
  unfold handleNmTicketCommand
  split
  · next htoken hfile huser hop hexpiry =>
    simp only [decodedTicket, htoken, hfile, huser, hop, hexpiry]
    cases env.ticketPushed <;> simp
  · next hmissing =>
    have hnone : decodedTicket json = none := by
      unfold decodedTicket
      split
      · next htoken hfile huser hop hexpiry => exact (hmissing _ _ _ _ _ htoken hfile huser hop hexpiry).elim
      · rfl
    simp [hnone]

/-- A command puts in what `installs` says, and takes nothing out. -/
theorem processNmCommand_tickets :
    (processNmCommand env srv json).1.tickets = srv.tickets ++ (installs (.command env json)).toList := by
  have hnone (htype : jsonGetString json (Text.lit "type") 64 ≠ some (Text.lit "NM_TICKET")) :
      srv.tickets ++ (installs (.command env json)).toList = srv.tickets := by
    simp [installs, htype]
  unfold processNmCommand
  split
  · next heq => rw [hnone (by simp [heq])]
  · next type heq =>
    by_cases hticket : type = Text.lit "NM_TICKET"
    · subst hticket
      rw [if_neg (by decide), if_neg (by decide), if_pos rfl, handleNmTicketCommand_tickets, installs]
      simp only [heq, true_and]
    · rw [hnone (by rw [heq]; simpa using hticket), if_neg hticket]
      split
      · exact handleNmCreate_tickets ..
      split
      · exact handleNmDelete_tickets ..
      split
      · exact handleNmUndo_tickets ..
      split
      · exact handleNmCheckpointCreate_tickets ..
      split
      · exact handleNmCheckpointView_tickets ..
      split
      · exact handleNmCheckpointRevert_tickets ..
      split
      · exact handleNmSync_tickets ..
      split <;> rfl

end Commands

section Requests

variable (env : DataEnv) (host : Host) (client : Nat)

theorem touchFile_tickets (srv : Server) (fileName user : Text) :
    (touchFile env srv fileName user).1.tickets = srv.tickets := by
  unfold touchFile
  dsimp only
  split <;> rfl

theorem handleRead_tickets (srv : Server) (fileName user : Text) :
    (handleRead env srv fileName user).1.tickets = srv.tickets := by
  have h := touchFile_tickets env srv fileName user
  unfold handleRead
  repeat' split
  all_goals first | rfl | skip
  next heq =>
    rw [heq] at h
    dsimp only
    split <;> exact h

theorem handleStream_tickets (srv : Server) (fileName user : Text) :
    (handleStream env srv fileName user).1.tickets = srv.tickets := by
  have h := touchFile_tickets env srv fileName user
  unfold handleStream
  split
  · rfl
  · split
    · rfl
    · dsimp only
      split_ifs
      · rfl
      · rfl
      · rfl
      · exact h

theorem setFileLockState_tickets (srv : Server) (fileName : Text) (active : Bool) (sentence : Int)
    (user : Option Text) : (setFileLockState srv fileName active sentence user).tickets = srv.tickets := by
  unfold setFileLockState
  split <;> rfl

theorem closeWrite_tickets (fileName : Text) (sentence : Int) :
    (closeWrite host client fileName sentence).server.tickets = host.server.tickets :=
  setFileLockState_tickets ..

theorem handleWriteBegin_tickets (fileName user : Text) (sentence : Int) :
    (handleWriteBegin env host client fileName user sentence).1.server.tickets = host.server.tickets := by
  unfold handleWriteBegin
  split
  · rfl
  · split
    · rfl
    · dsimp only
      have hlock := setFileLockState_tickets host.server fileName true sentence (some user)
      split
      · rw [closeWrite_tickets]
        exact hlock
      · exact hlock

theorem commitWrite_tickets (srv : Server) (write : OpenWrite) :
    (commitWrite env srv write).1.tickets = srv.tickets := by
  unfold commitWrite
  repeat' split
  all_goals rfl

theorem handleWriteFrame_tickets (write : OpenWrite) (frame : Option Text) :
    (handleWriteFrame env host client write frame).1.server.tickets = host.server.tickets := by
  have hcommit := commitWrite_tickets env host.server write
  unfold handleWriteFrame
  repeat' split
  all_goals first | rfl | exact closeWrite_tickets .. | skip
  next heq =>
    rw [heq] at hcommit
    rw [closeWrite_tickets]
    exact hcommit

/-- A request takes out what it uses, and what has expired. -/
theorem handleDataClient_tickets (json : Text) :
    (handleDataClient env host client json).1.server.tickets =
      match ticketUse json with
      | some use => (ticketTableTake env host.server.tickets use.token use.user use.file use.op).2
      | none => host.server.tickets := by
  have htake {ticket : Option AuthTicket} {srv : Server} {token user file op : Text}
      (h : validateTicket env host.server token user file op = (ticket, srv)) :
      srv.tickets = (ticketTableTake env host.server.tickets token user file op).2 := by
    have hsrv := congrArg (fun r => r.2.tickets) h
    exact hsrv.symm
  unfold handleDataClient ticketUse
  cases requestArgs json with
  | none => rfl
  | some args =>
    obtain ⟨type, fileName, user, token⟩ := args
    dsimp only [Option.bind_some]
    by_cases hread : type = Text.lit "READ"
    · rw [if_pos hread, if_pos hread]
      split
      · next heq => exact htake heq
      · next heq => exact (handleRead_tickets ..).trans (htake heq)
    · rw [if_neg hread, if_neg hread]
      by_cases hstream : type = Text.lit "STREAM"
      · rw [if_pos hstream, if_pos hstream]
        split
        · next heq => exact htake heq
        · next heq => exact (handleStream_tickets ..).trans (htake heq)
      · rw [if_neg hstream, if_neg hstream]
        by_cases hbegin : type = Text.lit "WRITE_BEGIN"
        · rw [if_pos hbegin, if_pos hbegin]
          cases jsonGetInt json (Text.lit "sentence") with
          | none => rfl
          | some sentence =>
            dsimp only [Option.map_some]
            split
            · next heq => exact htake heq
            · next heq => exact (handleWriteBegin_tickets ..).trans (htake heq)
        · rw [if_neg hbegin, if_neg hbegin]

end Requests

/-! ## Runs -/

section Take

variable {env : DataEnv} {tickets : List AuthTicket} {use : TicketUse}

/-- The loop of `ticket_table_prune` ends with what `ticketTablePrune` says. -/
theorem pruneLoop_eq (tickets : List AuthTicket) (now : Int) {fuel : Nat} (hf : tickets.length < fuel) :
    Stock.removeLoop (·.expired now) fuel 0 tickets = some (ticketTablePrune tickets now) :=
  Stock.removeLoop_eq (·.expired now) [] tickets hf

theorem ticketTableTake_snd :
    (ticketTableTake env tickets use.token use.user use.file use.op).2 =
      if env.ticketCopied then (ticketTablePrune tickets env.now).eraseP use.fits
      else ticketTablePrune tickets env.now := by
  unfold ticketTableTake
  dsimp only
  split
  · split <;> rfl
  · next hnone =>
    split
    · exact (List.eraseP_of_forall_not fun t ht => List.find?_eq_none.1 hnone t ht).symm
    · rfl

theorem ticketTableTake_fst :
    (ticketTableTake env tickets use.token use.user use.file use.op).1 =
      if env.ticketCopied then (ticketTablePrune tickets env.now).find? use.fits else none := by
  unfold ticketTableTake
  dsimp only
  split
  · next hfind =>
    split
    · exact hfind.symm
    · rfl
  · next hnone =>
    split
    · exact hnone.symm
    · rfl

end Take

/-- What an admitted request has used. -/
theorem admitted_spec {host : Host} {e : Event} {ticket : AuthTicket} (h : admitted host e = some ticket) :
    ∃ client env json use, e = .request client env json ∧ ticketUse json = some use ∧ use.fits ticket = true ∧
      ticket.expired env.now = false ∧ env.ticketCopied = true ∧
      (ticketTablePrune host.server.tickets env.now).find? use.fits = some ticket := by
  cases e with
  | command env json => cases h
  | frame client env json => cases h
  | request client env json =>
    obtain ⟨use, huse, h⟩ := Option.bind_eq_some_iff.1 h
    have hfst : (ticketTableTake env host.server.tickets use.token use.user use.file use.op).1 = some ticket := h
    rw [ticketTableTake_fst] at hfst
    split at hfst
    · next hcopied =>
      refine ⟨client, env, json, use, rfl, huse, List.find?_some hfst, ?_, hcopied, hfst⟩
      have hmem := List.mem_of_find?_eq_some hfst
      simpa using (List.mem_filter.1 hmem).2
    · cases hfst

/-- The stock of a run is the table, and its entries come from the commands and go to the requests of the
run. -/
structure Accounted (tr : List (Host × Event)) (host : Host) : Prop where
  table : (stock tr).values = host.server.tickets
  sound : (stock tr).Sound tr.length
  /-- Each entry was put in by the command at its time. -/
  came : ∀ e ∈ (stock tr).entries, ∃ p, System.stepAt tr e.1 = some p ∧ installs p.2 = some e.2
  /-- Each entry taken was put in by the command and admitted the request at its times. -/
  used : ∀ t ∈ (stock tr).taken, (∃ p, System.stepAt tr t.2.1 = some p ∧ installs p.2 = some t.2.2) ∧
    ∃ q, System.stepAt tr t.1 = some q ∧ admitted q.1 q.2 = some t.2.2
  /-- Each request that was admitted has taken its entry. -/
  admits : ∀ n p ticket, System.stepAt tr n = some p → admitted p.1 p.2 = some ticket →
    ∃ i, (n, i, ticket) ∈ (stock tr).taken
  /-- What was put in is at hand, or was taken, or had expired when a request came. -/
  leaves : ∀ i p ticket, System.stepAt tr i = some p → installs p.2 = some ticket →
    (i, ticket) ∈ (stock tr).entries ∨ (∃ n, (n, i, ticket) ∈ (stock tr).taken) ∨
    ∃ n s client env json, i < n ∧ System.stepAt tr n = some (s, .request client env json) ∧
      ticket.expired env.now = true

theorem accounted_start {host : Host} (h : host.Started) : Accounted [] host where
  table := h.2.1.symm
  sound := Stock.sound_empty
  came e he := by cases he
  used t ht := by cases ht
  admits n p ticket h := by cases h
  leaves i p ticket h := by cases h

/-- What a step has to do with the stock to keep it accounted for. -/
structure Books (tr : List (Host × Event)) (s : Host) (e : Event) : Prop where
  sound : (stock ((s, e) :: tr)).Sound (tr.length + 1)
  entries : ∀ x ∈ (stock ((s, e) :: tr)).entries,
    x ∈ (stock tr).entries ∨ (x.1 = tr.length ∧ installs e = some x.2)
  taken : ∀ x ∈ (stock ((s, e) :: tr)).taken, x ∈ (stock tr).taken ∨
    (x.1 = tr.length ∧ x.2 ∈ (stock tr).entries ∧ admitted s e = some x.2.2)
  keeps : ∀ x ∈ (stock tr).taken, x ∈ (stock ((s, e) :: tr)).taken
  installs : ∀ ticket, installs e = some ticket → (tr.length, ticket) ∈ (stock ((s, e) :: tr)).entries
  admits : ∀ ticket, admitted s e = some ticket → ∃ i, (tr.length, i, ticket) ∈ (stock ((s, e) :: tr)).taken
  leaves : ∀ x ∈ (stock tr).entries, x ∈ (stock ((s, e) :: tr)).entries ∨
    (tr.length, x) ∈ (stock ((s, e) :: tr)).taken ∨
    ∃ client env json, e = .request client env json ∧ x.2.expired env.now = true

theorem Accounted.step {tr : List (Host × Event)} {s t : Host} {e : Event} (h : Accounted tr s) (hb : Books tr s e)
    (htable : (stock ((s, e) :: tr)).values = t.server.tickets) : Accounted ((s, e) :: tr) t where
  table := htable
  sound := hb.sound
  came x hx := by
    rcases hb.entries x hx with hx | ⟨htime, hi⟩
    · obtain ⟨p, hp, hi⟩ := h.came x hx
      exact ⟨p, System.stepAt_cons hp _, hi⟩
    · rw [htime]
      exact ⟨(s, e), System.stepAt_last _ _, hi⟩
  used x hx := by
    rcases hb.taken x hx with hx | ⟨htime, hentry, ha⟩
    · obtain ⟨⟨p, hp, hi⟩, q, hq, ha⟩ := h.used x hx
      exact ⟨⟨p, System.stepAt_cons hp _, hi⟩, q, System.stepAt_cons hq _, ha⟩
    · obtain ⟨p, hp, hi⟩ := h.came x.2 hentry
      refine ⟨⟨p, System.stepAt_cons hp _, hi⟩, (s, e), ?_, ha⟩
      rw [htime]
      exact System.stepAt_last _ _
  admits n p ticket hp ha := by
    rcases System.stepAt_cons_cases hp with ⟨rfl, rfl⟩ | hp
    · exact hb.admits ticket ha
    · obtain ⟨i, hi⟩ := h.admits n p ticket hp ha
      exact ⟨i, hb.keeps _ hi⟩
  leaves i p ticket hp hi := by
    rcases System.stepAt_cons_cases hp with ⟨rfl, rfl⟩ | hbefore
    · exact .inl (hb.installs ticket hi)
    · rcases h.leaves i p ticket hbefore hi with he | ⟨n, ht⟩ | ⟨n, s', client, env, json, hlt, hn, hexp⟩
      · rcases hb.leaves _ he with he | ht | ⟨client, env, json, rfl, hexp⟩
        · exact .inl he
        · exact .inr (.inl ⟨_, ht⟩)
        · exact .inr (.inr ⟨tr.length, s, client, env, json, System.lt_of_stepAt hbefore, System.stepAt_last _ _, hexp⟩)
      · exact .inr (.inl ⟨n, hb.keeps _ ht⟩)
      · exact .inr (.inr ⟨n, s', client, env, json, hlt, System.stepAt_cons hn _, hexp⟩)

section Step

variable {tr : List (Host × Event)} {s : Host} (h : Accounted tr s)

include h

/-- A step that puts nothing in and takes nothing out. -/
theorem books_idle {e : Event} (hstock : stock ((s, e) :: tr) = stock tr) (hinstalls : installs e = none)
    (hadmitted : admitted s e = none) : Books tr s e where
  sound := by
    rw [hstock]
    exact h.sound.mono
  entries x hx := by
    rw [hstock] at hx
    exact .inl hx
  taken x hx := by
    rw [hstock] at hx
    exact .inl hx
  keeps x hx := by rwa [hstock]
  installs ticket hi := by
    rw [hinstalls] at hi
    cases hi
  admits ticket ha := by
    rw [hadmitted] at ha
    cases ha
  leaves x hx := by
    rw [hstock]
    exact .inl hx

/-- A request that only sorts out what has expired. -/
theorem books_sorted {client : Nat} {env : DataEnv} {json : Text}
    (hstock : stock ((s, .request client env json) :: tr) = (stock tr).sortOut (·.expired env.now))
    (hadmitted : admitted s (.request client env json) = none)
    (hgone : ∀ x ∈ (stock tr).entries, x ∈ ((stock tr).sortOut (·.expired env.now)).entries ∨
      x.2.expired env.now = true) : Books tr s (.request client env json) where
  sound := by
    rw [hstock]
    exact (h.sound.sortOut _).mono
  entries x hx := by
    rw [hstock] at hx
    exact .inl (List.mem_of_mem_filter hx)
  taken x hx := by
    rw [hstock] at hx
    exact .inl hx
  keeps x hx := by rwa [hstock]
  installs ticket hi := by cases hi
  admits ticket ha := by
    rw [hadmitted] at ha
    cases ha
  leaves x hx := by
    rw [hstock]
    rcases hgone x hx with hlive | hexp
    · exact .inl hlive
    · exact .inr (.inr ⟨client, env, json, rfl, hexp⟩)

theorem books_command (env : Env) (json : Text) : Books tr s (.command env json) := by
  cases hi : installs (.command env json) with
  | none => exact books_idle h (by simp only [stock, hi]) hi rfl
  | some ticket =>
    have hstock : stock ((s, .command env json) :: tr) = (stock tr).put tr.length ticket := by simp only [stock, hi]
    refine ⟨?_, fun x hx => ?_, fun x hx => ?_, fun x hx => ?_, fun t ht => ?_, fun t ht => ?_, fun x hx => ?_⟩
    · rw [hstock]
      exact h.sound.put ticket
    · rw [hstock] at hx
      rcases List.mem_append.1 hx with hx | hx
      · exact .inl hx
      · rw [List.mem_singleton.1 hx]
        exact .inr ⟨rfl, hi⟩
    · rw [hstock] at hx
      exact .inl hx
    · rwa [hstock]
    · rw [hi] at ht
      cases ht
      rw [hstock]
      exact List.mem_append_right _ (List.mem_singleton.2 rfl)
    · cases ht
    · rw [hstock]
      exact .inl (List.mem_append_left _ hx)

theorem books_request (client : Nat) (env : DataEnv) (json : Text) : Books tr s (.request client env json) := by
  cases huse : ticketUse json with
  | none => exact books_idle h (by simp only [stock, huse]) rfl (by simp [admitted, huse])
  | some use =>
    have hgone (x : Nat × AuthTicket) (hx : x ∈ (stock tr).entries) :
        x ∈ ((stock tr).sortOut (·.expired env.now)).entries ∨ x.2.expired env.now = true := by
      cases hexp : x.2.expired env.now with
      | true => exact .inr rfl
      | false => exact .inl (List.mem_filter.2 ⟨hx, by simp [hexp]⟩)
    have hvalues : ((stock tr).sortOut (·.expired env.now)).values = ticketTablePrune s.server.tickets env.now := by
      rw [Stock.values_sortOut, h.table]
      rfl
    have hadmitted : admitted s (.request client env json) = if env.ticketCopied then
        (((stock tr).sortOut (·.expired env.now)).entries.find? fun e => use.fits e.2).map Prod.snd else none := by
      rw [← Stock.find?_values, hvalues, ← ticketTableTake_fst, admitted, huse]
      rfl
    cases hcopied : env.ticketCopied with
    | false =>
      have hstock : stock ((s, .request client env json) :: tr) = (stock tr).sortOut (·.expired env.now) := by
        simp only [stock, huse, hcopied, if_neg Bool.false_ne_true]
      rw [hcopied, if_neg Bool.false_ne_true] at hadmitted
      exact books_sorted h hstock hadmitted hgone
    | true =>
      have hstock : stock ((s, .request client env json) :: tr) =
          ((stock tr).sortOut (·.expired env.now)).take tr.length use.fits := by
        simp only [stock, huse, hcopied, if_true]
      rw [hcopied, if_pos rfl] at hadmitted
      cases hfind : ((stock tr).sortOut (·.expired env.now)).entries.find? fun e => use.fits e.2 with
      | none =>
        rw [hfind] at hadmitted
        rw [Stock.take, hfind] at hstock
        exact books_sorted h hstock hadmitted hgone
      | some e =>
        obtain ⟨pre, post, hentries, -, htake⟩ := Stock.take_eq hfind tr.length
        rw [hfind, Option.map_some] at hadmitted
        rw [htake] at hstock
        have hsub : ∀ x ∈ pre ++ e :: post, x ∈ (stock tr).entries := by
          rw [← hentries]
          exact fun x hx => List.mem_of_mem_filter hx
        refine ⟨?_, fun x hx => ?_, fun x hx => ?_, fun x hx => ?_, fun t ht => ?_, fun t ht => ?_, fun x hx => ?_⟩
        · rw [hstock, ← htake]
          exact (h.sound.sortOut _).take _
        · rw [hstock] at hx
          refine .inl (hsub x ?_)
          rcases List.mem_append.1 hx with hx | hx
          · exact List.mem_append_left _ hx
          · exact List.mem_append_right _ (List.mem_cons_of_mem _ hx)
        · rw [hstock] at hx
          rcases List.mem_cons.1 hx with rfl | hx
          · exact .inr ⟨rfl, hsub e (by simp), hadmitted⟩
          · exact .inl hx
        · rw [hstock]
          exact List.mem_cons_of_mem _ hx
        · cases ht
        · rw [hadmitted] at ht
          cases ht
          rw [hstock]
          exact ⟨e.1, List.mem_cons_self⟩
        · rcases hgone x hx with hlive | hexp
          · rw [hentries] at hlive
            rw [hstock]
            rcases List.mem_append.1 hlive with hx | hx
            · exact .inl (List.mem_append_left _ hx)
            · rcases List.mem_cons.1 hx with rfl | hx
              · exact .inr (.inl List.mem_cons_self)
              · exact .inl (List.mem_append_right _ hx)
          · exact .inr (.inr ⟨client, env, json, rfl, hexp⟩)

end Step

/-- The table after a step is that of the stock. -/
theorem stock_table {tr : List (Host × Event)} {s t : Host} {e : Event} (h : Accounted tr s)
    (hs : Host.step s e = some t) : (stock ((s, e) :: tr)).values = t.server.tickets := by
  cases e with
  | command env json =>
    cases hs
    change _ = (processNmCommand env s.server json).1.tickets
    rw [processNmCommand_tickets, ← h.table]
    cases hi : installs (.command env json) with
    | none => simp [stock, hi]
    | some ticket => simp [stock, hi]
  | request client env json =>
    simp only [Host.step] at hs
    split at hs
    · cases hs
    · cases hs
      rw [handleDataClient_tickets]
      cases huse : ticketUse json with
      | none => simp [stock, huse, h.table]
      | some use =>
        dsimp only
        rw [ticketTableTake_snd, ticketTablePrune, ← h.table]
        simp only [stock, huse]
        split <;> simp
  | frame client env json =>
    obtain ⟨write, -, rfl⟩ := Option.map_eq_some_iff.1 hs
    rw [handleWriteFrame_tickets]
    exact h.table

theorem accounted_of_run {tr : List (Host × Event)} {host : Host} (h : Host.system.Run tr host) :
    Accounted tr host := by
  induction h with
  | start h => exact accounted_start h
  | @step tr s t e hrun hs ih =>
    refine ih.step ?_ (stock_table ih hs)
    cases e with
    | command env json => exact books_command ih env json
    | request client env json => exact books_request ih client env json
    | frame client env json => exact books_idle ih rfl rfl rfl

/-- **Tickets.** In every run the stock is the ticket table. A request that passes `validate_ticket` took
an entry that an earlier command put in for its token, user, file and operation and that had not
expired; no entry was taken by two requests; and an entry that was put in is still at hand, or was
taken, or had expired when a later request came. -/
theorem tickets_of_run {tr : List (Host × Event)} {host : Host} (h : Host.system.Run tr host) :
    (stock tr).values = host.server.tickets ∧
    (∀ n s e ticket, System.stepAt tr n = some (s, e) → admitted s e = some ticket →
      ∃ i s' e' client env json use, i < n ∧ (n, i, ticket) ∈ (stock tr).taken ∧
        System.stepAt tr i = some (s', e') ∧ installs e' = some ticket ∧
        e = .request client env json ∧ ticketUse json = some use ∧ ticket.token = use.token ∧
        ticket.user = use.user ∧ ticket.file = use.file ∧ ticket.op = use.op ∧
        (ticket.expiry = 0 ∨ env.now ≤ ticket.expiry)) ∧
    (∀ t ∈ (stock tr).taken, ∀ t' ∈ (stock tr).taken, t.2.1 = t'.2.1 → t = t') ∧
    (∀ i s e ticket, System.stepAt tr i = some (s, e) → installs e = some ticket →
      (i, ticket) ∈ (stock tr).entries ∨ (∃ n, (n, i, ticket) ∈ (stock tr).taken) ∨
      ∃ n s' client env json, i < n ∧ System.stepAt tr n = some (s', .request client env json) ∧
        ticket.expiry ≠ 0 ∧ ticket.expiry < env.now) := by
  have hacc := accounted_of_run h
  refine ⟨hacc.table, fun n s e ticket hn ha => ?_, fun t ht t' ht' heq => ?_, fun i s e ticket hi hput => ?_⟩
  · obtain ⟨i, hi⟩ := hacc.admits n (s, e) ticket hn ha
    obtain ⟨⟨p, hp, hinstalls⟩, -⟩ := hacc.used _ hi
    obtain ⟨client, env, json, use, rfl, huse, hfits, hexp, -, -⟩ := admitted_spec ha
    simp only [TicketUse.fits, Bool.and_eq_true, beq_iff_eq] at hfits
    obtain ⟨⟨⟨htoken, huser⟩, hfile⟩, hop⟩ := hfits
    refine ⟨i, p.1, p.2, client, env, json, use, (hacc.sound.order _ hi).1, hi, hp, hinstalls, rfl, huse, htoken,
      huser, hfile, hop, ?_⟩
    simp only [AuthTicket.expired, Bool.and_eq_false_iff, bne_eq_false_iff_eq, decide_eq_false_iff_not] at hexp
    omega
  · exact List.inj_on_of_nodup_map (List.nodup_append.1 hacc.sound.cameOnce).2.1 ht ht' heq
  · rcases hacc.leaves i (s, e) ticket hi hput with he | ht | ⟨n, s', client, env, json, hlt, hn, hexp⟩
    · exact .inl he
    · exact .inr (.inl ht)
    · refine .inr (.inr ⟨n, s', client, env, json, hlt, hn, ?_⟩)
      simpa [AuthTicket.expired] using hexp

/-- Two equal tickets admit two requests, the first one that came first. -/
theorem tickets_twice : ∃ tr host, Host.system.Run tr host ∧
    (stock tr).taken.map (fun t => (t.1, t.2.1)) = [(3, 1), (2, 0)] ∧ (stock tr).values = host.server.tickets := by
  have hex : (System.exec Host.step [] (Host.withFile (Text.lit "A. B."))
      [ticketCommand ['t'], ticketCommand ['t'], beginRequest 0 ['t'] 0, beginRequest 1 ['t'] 1]).map
        (fun r => (stock r.1).taken.map fun t => (t.1, t.2.1)) = some [(3, 1), (2, 0)] := by decide +kernel
  obtain ⟨⟨tr, host⟩, hexec, htaken⟩ := Option.map_eq_some_iff.1 hex
  have hrun : Host.system.Run tr host := System.Run.exec (.start (Host.started_withFile _)) hexec
  exact ⟨tr, host, hrun, htaken, (tickets_of_run hrun).1⟩

end CoWrite.Ss
