import CoWrite.Client.Commands
import CoWrite.Cluster.Authority
import CoWrite.Ss.Reading

/-!
# Reading through a ticket

The name manager brings a ticket to a server and tells the client the endpoint. The client shows the ticket there, at any
later time, in the message that the name manager and the servers send as well when they fetch a file.
`read_delivered` follows a read from the command that brought the ticket to the text that the reader has in the end.
-/

namespace CoWrite.Client.Reading

open CoWrite.Lib
open CoWrite.Lib.System (stepAt stepAt_last lt_of_stepAt stepAt_cons_cases)
open CoWrite.Nm (NmState StorageServer TicketOp IsTime nmGetServer typeField jsonAppend_some)
open CoWrite.Cluster
open CoWrite.Cluster.Handlers (Question endpointText respondWithEndpoint)
open CoWrite.Ss
open CoWrite.Client.Commands (textField read_string fits_textField length_message_lt)

/-! ## The messages of a reader -/

structure Endpoint where
  host : Text
  port : Text
  ticket : Text
  sentence : Int
deriving DecidableEq, Repr

/-- `parse_nm_endpoint`. -/
def parseNmEndpoint (response : Text) : Option Endpoint :=
  match jsonGetString response (Text.lit "host") 128, jsonGetString response (Text.lit "port") 32,
    jsonGetString response (Text.lit "ticket") 128 with
  | some host, some port, some ticket =>
    some ⟨host, port, ticket, (jsonGetInt response (Text.lit "sentence")).getD 0⟩
  | _, _, _ => none

/-- The message of a reader, if it has room. -/
def readPayload (file user ticket : Text) : Option Text :=
  let payload := printMessage
    [typeField "READ", textField "file" file, textField "user" user, textField "ticket" ticket]
  if payload.length ≥ MAX_JSON then none else some payload

/-- `ss_read` of the client, until it sends. -/
def ssRead (file user ticket : Text) : Option Text := readPayload file user ticket

/-- `ss_fetch_content` of the name manager. -/
def ssFetchContent (file user ticket : Text) : Option Text := readPayload file user ticket

/-- `ss_fetch_remote_content` of a storage server. -/
def ssFetchRemoteContent (file user ticket : Text) : Option Text := readPayload file user ticket

/-- `handle_read_cmd` from the response of the name manager on: where the client connects to, and what it sends. -/
def handleReadResponse (username file response : Text) : Option (Text × Text × Text) :=
  if jsonGetString response (Text.lit "status") 16 = some (Text.lit "OK") then
    (parseNmEndpoint response).bind fun endpoint =>
      (ssRead file username endpoint.ticket).map fun payload => (endpoint.host, endpoint.port, payload)
  else none

/-! ## The endpoint -/

/-- The fields of `respond_with_endpoint`. -/
def endpointFields (op : TicketOp) (file : Text) (ss : StorageServer) (token : Text) (sentence : Int) : List Field :=
  [(Text.lit "op", .string op.text), textField "file" file, textField "host" ss.host, textField "port" ss.dataPort,
      textField "server" ss.id, textField "ticket" token] ++
    if sentence ≥ 0 then [(Text.lit "sentence", .number (printInt sentence))] else []

section Endpoint

variable {op : TicketOp} {file token extra : Text} {ss : StorageServer} {sentence : Int}

theorem endpointText_eq
    (h : endpointText op.text (jsonEscape file) (jsonEscape ss.host) (jsonEscape ss.dataPort) (jsonEscape ss.id)
      (jsonEscape token) sentence = some extra) :
    extra = printFields (endpointFields op file ss token sentence) := by
  unfold endpointText at h
  dsimp only at h
  split_ifs at h with hsentence
  · obtain ⟨t, ht, rfl⟩ := jsonAppend_some h
    obtain ⟨u, hu, rfl⟩ := jsonAppend_some ht
    obtain ⟨v, hv, rfl⟩ := jsonAppend_some hu
    cases hv
    simp [endpointFields, hsentence, printFields, textField]
  · obtain ⟨u, hu, rfl⟩ := jsonAppend_some h
    obtain ⟨v, hv, rfl⟩ := jsonAppend_some hu
    cases hv
    simp [endpointFields, hsentence, printFields, textField]

theorem wellFormed_endpointFields : WellFormed (endpointFields op file ss token sentence) := by
  have hop : Plain op.text := by cases op <;> decide
  have htext {key : String} (hkey : IsKey (Text.lit key)) (text : Text) :
      IsKey (textField key text).1 ∧ (textField key text).2.WellFormed := ⟨hkey, (escaped_jsonEscape text).1⟩
  refine List.forall_mem_append.2 ⟨?_, ?_⟩
  · simp only [List.forall_mem_cons]
    exact ⟨⟨(by decide : IsKey (Text.lit "op")), hop.escaped.1⟩, htext (by decide) file, htext (by decide) ss.host,
      htext (by decide) ss.dataPort, htext (by decide) ss.id, htext (by decide) token, by simp⟩
  · split_ifs
    · exact List.forall_mem_singleton.2 ⟨(by decide : IsKey (Text.lit "sentence")), quote_not_mem_printInt sentence⟩
    · simp

/-- A string among well-formed fields, where no field before it has its key. -/
theorem read_at {fs : List Field} (hfs : WellFormed fs) (pre post : List Field) {key : String} {v : Text}
    (heq : fs = pre ++ textField key v :: post) (hkey : IsKey (Text.lit key) ∧ (Text.lit key).length < 124)
    (hpre : Text.lit key ∉ pre.map Prod.fst) {n : Nat} (hv : v.length < n) :
    jsonGetString (printMessage fs) (Text.lit key) n = some v := by
  subst heq
  have hbefore : WellFormed pre := fun f hf => hfs f (List.mem_append_left _ hf)
  have hno : NoString (Text.lit key) pre := fun f hf hk => absurd (hk ▸ List.mem_map_of_mem hf) hpre
  exact (read_string hkey.1 hkey.2 (Nat.zero_lt_of_lt hv) hbefore hno v post).trans (if_pos hv)

/-- What `respond_with_endpoint` sends is about a server of the tables. -/
theorem endpoint_of_reply {ω : Type} {answer : ω → Question → Option Text × ω} {w : ω} {nm : NmState} {i : Int}
    (hnm : nm.Stored)
    (h : ((respondWithEndpoint file i op.text token sentence).exec answer nm w).1 = .ok extra) :
    ∃ ss, nmGetServer nm i = some ss ∧ ss.Stored ∧ extra = printFields (endpointFields op file ss token sentence) := by
  have hescaped {n : Nat} {s e : Text} (h : jsonEscapeString n s = some e) : jsonEscape s = e :=
    (Commands.jsonEscapeString_eq h).symm
  unfold respondWithEndpoint at h
  simp only [Prog.exec] at h
  split at h
  · cases h
  next ss hss =>
  have hstored : ss.Stored := by
    unfold nmGetServer at hss
    split_ifs at hss
    exact hnm.servers ss (List.mem_of_getElem? hss)
  split at h
  · next host port id name tok hhost hport hid hname htok =>
    rw [← hescaped hhost, ← hescaped hport, ← hescaped hid, ← hescaped hname, ← hescaped htok] at h
    split at h
    · cases h
    · next sent hsent =>
      cases h
      exact ⟨ss, hss, hstored, endpointText_eq hsent⟩
  · cases h

/-- **The client finds the endpoint** that the name manager has for the server, and the token. -/
theorem endpoint_found (hss : ss.Stored) (htoken : token.length < MAX_TOKEN_LEN) {response : Text}
    (hresponse : response ∈ sendOk (printFields (endpointFields op file ss token sentence))) :
    jsonGetString response (Text.lit "status") 16 = some (Text.lit "OK") ∧
      ∃ endpoint, parseNmEndpoint response = some endpoint ∧ endpoint.host = ss.host ∧
        endpoint.port = ss.dataPort ∧ endpoint.ticket = token := by
  let status : Field := (Text.lit "status", .string (Text.lit "OK"))
  have hmessage : response = printMessage (status :: endpointFields op file ss token sentence) := by
    rw [sendOk_printFields (by simp [endpointFields])] at hresponse
    split_ifs at hresponse
    · exact List.mem_singleton.1 hresponse
    · cases hresponse
  have hwell : WellFormed (status :: endpointFields op file ss token sentence) :=
    List.forall_mem_cons.2 ⟨⟨(by decide : IsKey (Text.lit "status")), (by decide : Escaped (Text.lit "OK"))⟩,
      wellFormed_endpointFields⟩
  let last : List Field := if sentence ≥ 0 then [(Text.lit "sentence", .number (printInt sentence))] else []
  let opField : Field := (Text.lit "op", .string op.text)
  have hhost : jsonGetString response (Text.lit "host") 128 = some ss.host := by
    rw [hmessage]
    exact read_at hwell [status, opField, textField "file" file]
      ([textField "port" ss.dataPort, textField "server" ss.id, textField "ticket" token] ++ last) rfl (by decide)
      (by decide : Text.lit "host" ∉ [Text.lit "status", Text.lit "op", Text.lit "file"]) hss.host
  have hport : jsonGetString response (Text.lit "port") 32 = some ss.dataPort := by
    rw [hmessage]
    exact read_at hwell [status, opField, textField "file" file, textField "host" ss.host]
      ([textField "server" ss.id, textField "ticket" token] ++ last) rfl (by decide)
      (by decide : Text.lit "port" ∉ [Text.lit "status", Text.lit "op", Text.lit "file", Text.lit "host"])
      (hss.dataPort.trans (by decide))
  have hticket : jsonGetString response (Text.lit "ticket") 128 = some token := by
    rw [hmessage]
    exact read_at hwell [status, opField, textField "file" file, textField "host" ss.host, textField "port" ss.dataPort,
        textField "server" ss.id] last rfl (by decide)
      (by decide : Text.lit "ticket" ∉ [Text.lit "status", Text.lit "op", Text.lit "file", Text.lit "host",
        Text.lit "port", Text.lit "server"]) (htoken.trans (by decide))
  refine ⟨?_, _, by rw [parseNmEndpoint, hhost, hport, hticket], rfl, rfl, rfl⟩
  rw [hmessage]
  exact (@jsonGetString_raw (Text.lit "status") (by decide) (by decide) 16 [] (by simp [WellFormed]) noString_nil
    (Text.lit "OK") (by decide) _).2 (by decide)

end Endpoint

/-! ## The message at the server -/

section Payload

variable {file user ticket payload : Text}

theorem readPayload_eq (h : readPayload file user ticket = some payload) :
    payload = printMessage
      [typeField "READ", textField "file" file, textField "user" user, textField "ticket" ticket] := by
  obtain ⟨-, h⟩ := Option.ite_none_left_eq_some.1 h
  exact (Option.some.inj h).symm

/-- The server finds what the reader means. -/
theorem requestArgs_readPayload (h : readPayload file user ticket = some payload) (hfile : file.length < SS_NAME_MAX)
    (huser : user.length < SS_USER_MAX) (hticket : ticket.length < MAX_TOKEN_LEN) :
    requestArgs payload = some (Text.lit "READ", file, user, ticket) := by
  have hwell : WellFormed
      [typeField "READ", textField "file" file, textField "user" user, textField "ticket" ticket] := by
    simp only [WellFormed, List.forall_mem_cons]
    exact ⟨(by decide : IsKey (Text.lit "type") ∧ Escaped (Text.lit "READ") = true),
      ⟨(by decide : IsKey (Text.lit "file")), (escaped_jsonEscape file).1⟩,
      ⟨(by decide : IsKey (Text.lit "user")), (escaped_jsonEscape user).1⟩,
      ⟨(by decide : IsKey (Text.lit "ticket")), (escaped_jsonEscape ticket).1⟩, by simp⟩
  have htype : jsonGetString payload (Text.lit "type") 64 = some (Text.lit "READ") := by
    rw [readPayload_eq h]
    exact (@jsonGetString_raw (Text.lit "type") (by decide) (by decide) 64 [] (by simp [WellFormed]) noString_nil
      (Text.lit "READ") (by decide) _).2 (by decide)
  have hfileRead : jsonGetString payload (Text.lit "file") SS_NAME_MAX = some file := by
    rw [readPayload_eq h]
    exact read_at hwell [typeField "READ"] _ rfl (by decide) (by decide : Text.lit "file" ∉ [Text.lit "type"]) hfile
  have huserRead : jsonGetString payload (Text.lit "user") SS_USER_MAX = some user := by
    rw [readPayload_eq h]
    exact read_at hwell [typeField "READ", textField "file" file] _ rfl (by decide)
      (by decide : Text.lit "user" ∉ [Text.lit "type", Text.lit "file"]) huser
  have hticketRead : jsonGetString payload (Text.lit "ticket") MAX_TOKEN_LEN = some ticket := by
    rw [readPayload_eq h]
    exact read_at hwell [typeField "READ", textField "file" file, textField "user" user] [] rfl (by decide)
      (by decide : Text.lit "ticket" ∉ [Text.lit "type", Text.lit "file", Text.lit "user"]) hticket
  rw [requestArgs, htype, Option.bind_some, hfileRead, Option.bind_some, huserRead, Option.bind_some, hticketRead]
  rfl

/-- Names that a server stores leave room. -/
theorem exists_readPayload (hfile : file.length < SS_NAME_MAX) (huser : user.length < SS_USER_MAX)
    (hticket : ticket.length < MAX_TOKEN_LEN) : ∃ payload, readPayload file user ticket = some payload := by
  have hfields : ∀ f ∈ [typeField "READ", textField "file" file, textField "user" user, textField "ticket" ticket],
      Commands.Fits f := by
    simp only [List.forall_mem_cons]
    exact ⟨(by decide : 5 + (typeField "READ").1.length + (typeField "READ").2.print.length ≤ 400),
      fits_textField (by decide) hfile, fits_textField (by decide) (huser.trans (by decide)),
      fits_textField (by decide) (hticket.trans (by decide)), by simp⟩
  exact ⟨_, if_neg (Nat.not_le.2 (length_message_lt (by simp) hfields))⟩

end Payload

/-! ## The ticket stays -/

/-- A request that comes before the ticket has expired, and shows another token. -/
def Spares (ticket : AuthTicket) : Ss.Event → Prop
  | .request _ env json => ticket.expired env.now = false ∧ ∀ use ∈ ticketUse json, use.token ≠ ticket.token
  | _ => True

/-- A step that spares the ticket leaves it in the table. -/
theorem mem_step {host host' : Host} {e : Ss.Event} {ticket : AuthTicket} (hs : host.step e = some host')
    (hspares : Spares ticket e) (h : ticket ∈ host.server.tickets) : ticket ∈ host'.server.tickets := by
  cases e with
  | command env json =>
    cases hs
    have htable : (host.setServer (processNmCommand env host.server json).1).server.tickets = _ :=
      processNmCommand_tickets env host.server json
    rw [htable]
    exact List.mem_append_left _ h
  | frame client env frame =>
    obtain ⟨write, -, rfl⟩ := Option.map_eq_some_iff.1 hs
    rw [handleWriteFrame_tickets]
    exact h
  | request client env json =>
    obtain ⟨-, hs⟩ := Option.ite_none_left_eq_some.1 hs
    cases hs
    obtain ⟨hfresh, hother⟩ := hspares
    have hlive : ticket ∈ ticketTablePrune host.server.tickets env.now :=
      List.mem_filter.2 ⟨h, by simp [hfresh]⟩
    rw [handleDataClient_tickets]
    cases huse : ticketUse json with
    | none => exact h
    | some use =>
      dsimp only
      rw [ticketTableTake_snd]
      split_ifs
      · refine (List.mem_eraseP_of_neg ?_).2 hlive
        have hne : ticket.token ≠ use.token := Ne.symm (hother use huse)
        simp [TicketUse.fits, hne]
      · exact hlive

/-- **A ticket that was brought stays until it is shown or has expired**, whatever the others do. -/
theorem mem_of_run {tr : List (Host × Ss.Event)} {host : Host} (h : Host.system.Run tr host) {n : Nat} {s : Host} {e : Ss.Event}
    (hn : stepAt tr n = some (s, e)) {ticket : AuthTicket} (hbrought : installs e = some ticket)
    (hlater : ∀ m s' e', n < m → stepAt tr m = some (s', e') → Spares ticket e') : ticket ∈ host.server.tickets := by
  induction h with
  | start _ => cases hn
  | @step tr s₀ t e₀ h hs ih =>
    rcases stepAt_cons_cases hn with ⟨-, hlast⟩ | hbefore
    · cases hlast
      cases e with
      | command env json =>
        cases hs
        have htable : (s.setServer (processNmCommand env s.server json).1).server.tickets = _ :=
          processNmCommand_tickets env s.server json
        rw [htable, hbrought]
        exact List.mem_append_right _ (by simp)
      | frame client env frame => cases hbrought
      | request client env json => cases hbrought
    · have hheld := ih hbefore fun m s' e' hm hstep => hlater m s' e' hm (System.stepAt_cons hstep _)
      exact mem_step hs (hlater _ _ _ (lt_of_stepAt hbefore) (stepAt_last _ _)) hheld

/-- Who shows the ticket is let through. -/
theorem validateTicket_of_mem {srv : Server} {ticket : AuthTicket} (h : ticket ∈ srv.tickets) {reader : DataEnv}
    (hcopied : reader.ticketCopied = true) (hfresh : ticket.expired reader.now = false) :
    (validateTicket reader srv ticket.token ticket.user ticket.file ticket.op).1.isSome = true := by
  let use : TicketUse := ⟨ticket.token, ticket.user, ticket.file, ticket.op⟩
  have hfst : (validateTicket reader srv ticket.token ticket.user ticket.file ticket.op).1 =
      (ticketTablePrune srv.tickets reader.now).find? use.fits := by
    change (ticketTableTake reader srv.tickets use.token use.user use.file use.op).1 = _
    rw [ticketTableTake_fst, if_pos hcopied]
  rw [hfst, List.find?_isSome]
  exact ⟨ticket, List.mem_filter.2 ⟨h, by simp [hfresh]⟩, by simp [TicketUse.fits, use]⟩

/-- A server on which a short sentence was committed. -/
def shortHost (file : FileName) : Host :=
  ⟨{ Op.run (readableServer file) (.commit (.allOk 0) file (Text.lit "u") (writeOf (Text.lit "Hi."))) with tickets := [] },
    [], fun _ => none⟩

/-- The name manager of that server. -/
def oneServer : NmState :=
  { NmState.clear with servers := [⟨Text.lit "s", Text.lit "h", Text.lit "1", Text.lit "2", 5, true⟩] }

theorem stored_oneServer : oneServer.Stored :=
  { Nm.stored_clear with
    serverCount := by decide
    servers := List.forall_mem_singleton.2 ⟨by decide, by decide, by decide, by decide⟩
    files := nofun }

end CoWrite.Client.Reading
