import CoWrite.Nm.Availability
import CoWrite.Nm.Payload
import CoWrite.Ss.Tickets

/-!
# Requests that may take a server down

`handle_client_create`, `handle_client_delete` and `handle_client_undo` take the server down that did not
answer, and `obtain_ticket_for_file` takes the one down that did not take a ticket. `Manager` is the name
manager with the calls under way, each between the section that chose its server and the one that reads the
reply. `stays_available_iff` follows a server whose connection stays open and which answers every command:
it stays available as long as no call finds its peer unfinished and every ticket for it can be read.
-/

namespace CoWrite.Cluster

open CoWrite.Lib
open CoWrite.Ss (Server Env replies processNmCommand handleNmTicketCommand decodedTicket)
open CoWrite.Nm

/-! ## Tickets that can be read -/

/-- The frame of a ticket from the value of its file on. -/
def ticketTail (file user op : Text) (expiry : Int) : Text :=
  (Value.string file).print ++ ',' :: printFields
    [(Text.lit "user", .string user), (Text.lit "op", .string op),
      (Text.lit "expiry", .number (printInt expiry))] ++ ['}']

/-- From the file on, the first user and the first operation are strings that fit their buffers, and the first
expiry is a number. -/
def NamesRead (file user op : Text) (expiry : Int) : Prop :=
  (jsonGetString (ticketTail file user op expiry) (Text.lit "user") Ss.SS_USER_MAX).isSome = true ∧
    (jsonGetString (ticketTail file user op expiry) (Text.lit "op") 16).isSome = true ∧
    (jsonGetInt (ticketTail file user op expiry) (Text.lit "expiry")).isSome = true

instance (file user op : Text) (expiry : Int) : Decidable (NamesRead file user op expiry) :=
  inferInstanceAs (Decidable (_ ∧ _ ∧ _))

theorem eq_of_format {n : Nat} {fields : List Field} {payload : Text} (h : format n fields = some payload) :
    payload = printMessage fields := by
  unfold format at h
  split_ifs at h
  cases h
  rfl

/-- A token that could be drawn. -/
def someToken : Nm.Token where
  text := List.replicate 63 'a'
  length := List.length_replicate
  alphanum := by
    intro c hc
    rw [List.eq_of_mem_replicate hc]
    decide

section Frame

variable (token : Nm.Token) (file : FileName) (user : UserName) (op : TicketOp) (expiry : Int)

def ticketFrame : Text := printMessage (ticketFields token.text file.text user.text op.text expiry)

theorem wellFormed_ticketHead : WellFormed [typeField "NM_TICKET", (Text.lit "token", .string token.text)] := by
  intro f hf
  simp only [List.mem_cons, List.not_mem_nil, or_false] at hf
  rcases hf with rfl | rfl
  · decide
  · exact ⟨(by decide : IsKey (Text.lit "token")), (plain_of_alphanum token.alphanum).escaped.1⟩

theorem wellFormed_ticketNames (hfile : Plain file.text) (huser : Plain user.text) :
    WellFormed [typeField "NM_TICKET", (Text.lit "token", .string token.text), (Text.lit "file", .string file.text),
      (Text.lit "user", .string user.text), (Text.lit "op", .string op.text)] := by
  have hop : Plain op.text := by cases op <;> decide
  intro f hf
  simp only [List.mem_cons, List.not_mem_nil, or_false] at hf
  rcases hf with rfl | rfl | rfl | rfl | rfl
  · decide
  · exact ⟨(by decide : IsKey (Text.lit "token")), (plain_of_alphanum token.alphanum).escaped.1⟩
  · exact ⟨(by decide : IsKey (Text.lit "file")), hfile.escaped.1⟩
  · exact ⟨(by decide : IsKey (Text.lit "user")), huser.escaped.1⟩
  · exact ⟨(by decide : IsKey (Text.lit "op")), hop.escaped.1⟩

/-- A search for a key other than those of the first three fields starts at the value of the file. -/
theorem strstr_ticketFrame {key : Text} (hkey : IsKey key)
    (hne : key ∉ [Text.lit "type", Text.lit "token", Text.lit "file"]) (t : Text) :
    strstr (keyColon key ++ t) (ticketFrame token file user op expiry) =
      strstr (keyColon key ++ t) (ticketTail file.text user.text op.text expiry) := by
  have hframe : ticketFrame token file user op expiry =
      '{' :: (([typeField "NM_TICKET", (Text.lit "token", .string token.text)] : List Field).flatMap
        (fun f => printField f ++ [',']) ++ '"' :: (Text.lit "file" ++ '"' :: ':' ::
          ticketTail file.text user.text op.text expiry)) := by
    rw [ticketFrame, ticketFields_eq]
    simp [printMessage, printFields_cons_cons, printField, ticketTail]
  simp only [List.mem_cons, List.not_mem_nil, or_false, not_or] at hne
  rw [hframe]
  refine (strstr_cons_of_ne (by decide) ..).trans ?_
  refine (strstr_skip_fields hkey (wellFormed_ticketHead token) ?_ t _).trans ?_
  · intro f hf
    simp only [List.mem_cons, List.not_mem_nil, or_false] at hf
    rcases hf with rfl | rfl
    · exact Ne.symm hne.1
    · exact Ne.symm hne.2.1
  · exact strstr_printField hkey.plain (by decide) t _ (hkey.not_isPrefix (by decide) _ _)
      fun h => hne.2.2 h.1.symm

/-- Without backslashes, a string that fits is read up to its first quote. -/
theorem exists_scanString {v : Text} (hv : '\\' ∉ v) {room : Nat} (h : v.length ≤ room) (rest : Text) :
    ∃ w, scanString room (v ++ '"' :: rest) = some w := by
  induction v generalizing room with
  | nil => exact ⟨[], by simp [scanString]⟩
  | cons c v ih =>
    rw [List.mem_cons, not_or] at hv
    by_cases hc : c = '"'
    · subst hc
      exact ⟨[], by simp [scanString]⟩
    · rw [List.length_cons] at h
      obtain ⟨w, hw⟩ := @ih hv.2 (room - 1) (by omega)
      rw [List.cons_append, scanString_cons hc (Ne.symm hv.1), if_neg (by omega), hw]
      exact ⟨c :: w, rfl⟩

theorem jsonGetString_ticketFrame {key : Text} (hkey : IsKey key) (hlen : key.length < 124)
    (hne : key ∉ [Text.lit "type", Text.lit "token", Text.lit "file"]) (n : Nat) :
    jsonGetString (ticketFrame token file user op expiry) key n =
      jsonGetString (ticketTail file.text user.text op.text expiry) key n := by
  unfold jsonGetString
  rw [keyPattern_eq hlen _ (by decide), Option.bind_some, Option.bind_some, strstr_ticketFrame _ _ _ _ _ hkey hne]

theorem jsonGetInt_ticketFrame {key : Text} (hkey : IsKey key) (hlen : key.length < 124)
    (hne : key ∉ [Text.lit "type", Text.lit "token", Text.lit "file"]) :
    jsonGetInt (ticketFrame token file user op expiry) key =
      jsonGetInt (ticketTail file.text user.text op.text expiry) key := by
  unfold jsonGetInt
  rw [keyPattern_eq hlen _ (by decide), Option.bind_some, Option.bind_some, strstr_ticketFrame _ _ _ _ _ hkey hne]

/-- The server can always read the token and the file: the ticket is read if the rest is. -/
theorem isSome_decodedTicket_iff : (decodedTicket (ticketFrame token file user op expiry)).isSome = true ↔
    NamesRead file.text user.text op.text expiry := by
  have hhead := wellFormed_ticketHead token
  have htoken : jsonGetString (ticketFrame token file user op expiry) (Text.lit "token") Ss.MAX_TOKEN_LEN =
      some token.text := by
    rw [ticketFrame, ticketFields_eq]
    refine (@jsonGetString_raw (Text.lit "token") (by decide) (by decide) Ss.MAX_TOKEN_LEN [typeField "NM_TICKET"]
      ?_ ?_ token.text ?_ _).2 (plain_of_alphanum token.alphanum)
    · intro f hf
      exact hhead f (List.mem_cons.2 (.inl (List.mem_singleton.1 hf)))
    · intro f hf hkey
      rw [List.mem_singleton.1 hf] at hkey
      exact absurd hkey (by decide)
    · rw [token.length]
      decide
  obtain ⟨name, hfile⟩ : ∃ name, jsonGetString (ticketFrame token file user op expiry) (Text.lit "file")
      Ss.SS_NAME_MAX = some name := by
    have hno : NoString (Text.lit "file") [typeField "NM_TICKET", (Text.lit "token", .string token.text)] := by
      intro f hf hkey
      simp only [List.mem_cons, List.not_mem_nil, or_false] at hf
      rcases hf with rfl | rfl
      · exact absurd hkey (by decide)
      · have hne : Text.lit "token" ≠ Text.lit "file" := by decide
        exact absurd hkey hne
    obtain ⟨rest, hrest⟩ := @exists_jsonGetString (Text.lit "file") (by decide) (by decide) Ss.SS_NAME_MAX
      (by decide) [typeField "NM_TICKET", (Text.lit "token", .string token.text)] hhead hno file.text
      [(Text.lit "user", .string user.text), (Text.lit "op", .string op.text),
        (Text.lit "expiry", .number (printInt expiry))]
    obtain ⟨w, hw⟩ := @exists_scanString file.text (fun h => (validName.chars file.valid _ h).2.1 rfl)
      (Ss.SS_NAME_MAX - 1) (Nat.le_sub_one_of_lt file.short) rest
    refine ⟨w, ?_⟩
    rw [ticketFrame, ticketFields_eq]
    exact hrest.trans hw
  unfold decodedTicket NamesRead
  rw [htoken, hfile, jsonGetString_ticketFrame token file user op expiry (by decide) (by decide) (by decide),
    jsonGetString_ticketFrame token file user op expiry (by decide) (by decide) (by decide),
    jsonGetInt_ticketFrame token file user op expiry (by decide) (by decide) (by decide)]
  cases jsonGetString (ticketTail file.text user.text op.text expiry) (Text.lit "user") Ss.SS_USER_MAX with
  | none => simp
  | some u =>
    cases jsonGetString (ticketTail file.text user.text op.text expiry) (Text.lit "op") 16 with
    | none => simp
    | some o =>
      cases jsonGetInt (ticketTail file.text user.text op.text expiry) (Text.lit "expiry") with
      | none => simp
      | some e => simp

/-- Names without quotes and backslashes are read. -/
theorem namesRead_of_plain (hfile : Plain file.text) (huser : Plain user.text)
    (hexpiry : LONG_MIN ≤ expiry ∧ expiry ≤ LONG_MAX) : NamesRead file.text user.text op.text expiry := by
  have hop : Plain op.text := by cases op <;> decide
  obtain ⟨frame, hframe, hread⟩ := NmCommand.read_of_plain (c := .ticket someToken file user op expiry hexpiry)
    ⟨hfile, huser⟩
  have heq : frame = ticketFrame someToken file user op expiry := eq_of_format hframe
  rw [heq] at hread
  refine ⟨?_, ?_, ?_⟩
  · have huserRead := hread (readUser false "user" user) (by simp [NmCommand.strings])
    rw [← jsonGetString_ticketFrame someToken file user op expiry (by decide) (by decide) (by decide)]
    exact Option.isSome_iff_exists.2 ⟨_, huserRead⟩
  · have hopRead := hread ⟨Text.lit "op", 16, op.text, false⟩ (by simp [NmCommand.strings])
    rw [← jsonGetString_ticketFrame someToken file user op expiry (by decide) (by decide) (by decide)]
    exact Option.isSome_iff_exists.2 ⟨_, hopRead⟩
  · rw [← jsonGetInt_ticketFrame someToken file user op expiry (by decide) (by decide) (by decide), ticketFrame,
      ticketFields_eq]
    have hpre := wellFormed_ticketNames someToken file user op hfile huser
    have hkeys : ∀ f ∈ ([typeField "NM_TICKET", (Text.lit "token", .string someToken.text),
        (Text.lit "file", .string file.text), (Text.lit "user", .string user.text),
        (Text.lit "op", .string op.text)] : List Field), f.1 ≠ Text.lit "expiry" := by
      simp only [typeField, List.forall_mem_cons]
      decide
    exact Option.isSome_iff_exists.2 ⟨_, jsonGetInt_last (by decide) (by decide) hpre hkeys hexpiry⟩

end Frame

/-! ## The manager and its calls -/

/-- The requests whose handlers send a command and take its server down when that fails; `handle_client_read`,
`handle_client_stream`, `handle_client_write` and `handle_client_exec` obtain a ticket. -/
inductive Request where
  | create
  | delete
  | undo
  | ticket (op : TicketOp)
deriving DecidableEq, Repr

/-- What a ticket for the operation requires. -/
def ticketPerm : TicketOp → BitVec 32
  | .WRITE => NM_PERM_WRITE
  | _ => NM_PERM_READ

/-- A request whose server was chosen. -/
structure Call where
  request : Request
  user : Client
  json : Text
  file : FileName
  server : Int
  /-- `obtain_ticket_for_file` is in its second attempt. -/
  again : Bool

structure Manager where
  nm : NmState
  /-- The descriptors of the peers that are servers. -/
  serverFds : List Int
  calls : List Call

/-- What a handler finds outside when its command was sent. -/
structure Outcome where
  token : Nm.Token
  expiry : Time
  now : Time
  /-- What the server runs the command with, if the command reaches it. -/
  answer : Option (Env × Server)
  /-- `array_push` of the ticket. -/
  pushed : Bool
  /-- The backup that a new file was made on. -/
  backup : Int

/-- The section of the request that chooses its server. -/
def beginRequest (nm : NmState) (request : Request) (user : Client) (json : Text) :
    Except Response (Text × Int) × NmState :=
  match request with
  | .create =>
    match createBegin nm user.text json with
    | (.ok (file, i), nm) => (.ok (file, i), nm)
    | (.error response, nm) => (.error response, nm)
  | .delete => deleteBegin nm user.text json
  | .undo => undoBegin nm user.text json
  | .ticket op => ticketBegin nm user.text json (ticketPerm op)

def Call.command (c : Call) (o : Outcome) : NmCommand :=
  let user : UserName := ⟨c.user.text, c.user.short⟩
  match c.request with
  | .create => .create c.file user
  | .delete => .delete c.file
  | .undo => .undo c.file user
  | .ticket op => .ticket o.token c.file user op o.expiry.val ⟨o.expiry.lower, o.expiry.upper⟩

/-- A ticket of the call has names that the server can read, and there is room for it at both ends. -/
def Call.Issuable (c : Call) (o : Outcome) : Prop :=
  ∀ op, c.request = .ticket op → NamesRead c.file.text c.user.text op.text o.expiry.val ∧ o.pushed = true ∧
    ∀ env srv, o.answer = some (env, srv) → env.ticketPushed = true

/-- The reply of the server, if it gives one. -/
def Outcome.reply (o : Outcome) (payload : Text) : Option Text :=
  o.answer.bind fun (env, srv) => (replies (processNmCommand env srv payload).2).head?

/-- The test of the handlers on a reply. -/
def isOk (reply : Text) : Bool := jsonGetString reply (Text.lit "status") 16 == some (Text.lit "OK")

/-- The status is the first field. -/
theorem jsonGetString_status (status : Text) (h : jsonEscape status = status) (hlen : status.length < 16)
    (post : List Field) :
    jsonGetString (printMessage ((Text.lit "status", .string status) :: post)) (Text.lit "status") 16 = some status := by
  have hread : jsonGetString (printMessage ([] ++ (Text.lit "status", .string (jsonEscape status)) :: post))
      (Text.lit "status") 16 = some status :=
    jsonGetString_escaped (by decide) (by decide) (by simp [WellFormed]) noString_nil hlen post
  rwa [h, List.nil_append] at hread

/-- A refusal is not taken for an `OK`. -/
theorem isOk_error (code : ErrorCode) (message : Text) : isOk (printMessage (Ss.errorFields code message)) = false := by
  have hstatus := jsonGetString_status (Text.lit "ERR") (by decide) (by decide)
    [(Text.lit "code", .string (errorCodeName code)), (Text.lit "message", .string message)]
  unfold isOk
  rw [Ss.errorFields, hstatus]
  rfl

theorem replies_error (code : ErrorCode) (message : Text) :
    (replies (Ss.sendErrorResponse code message)).head?.any isOk = false := by
  unfold Ss.sendErrorResponse
  dsimp only
  split
  · rfl
  · rw [replies, List.filter_cons]
    split
    · exact isOk_error code message
    · rfl

namespace Manager

/-- `find_server_peer` on the descriptor of the server. -/
def findServerPeer (s : Manager) (server : Int) : Bool :=
  (nmGetServer s.nm server).any fun ss => decide (ss.ctrlFd ≥ 0) && s.serverFds.contains ss.ctrlFd

/-- `forward_command`. -/
def forwardCommand (s : Manager) (server : Int) (payload : Text) (o : Outcome) : Option Text :=
  if s.findServerPeer server then o.reply payload else none

/-- `issue_ticket` on the frame of the ticket. -/
def issueTicket (s : Manager) (c : Call) (o : Outcome) : Bool :=
  match (c.command o).payload with
  | none => false
  | some payload =>
    match s.forwardCommand c.server payload o with
    | none => false
    | some reply => isOk reply && o.pushed

def markDown (s : Manager) (server : Int) : Manager := { s with nm := nmMarkServerDown s.nm server }

/-- A request up to its call, or to the end that it comes to before. The names that are found in the tables are
valid. -/
def start (s : Manager) (request : Request) (user : Client) (json : Text) (again : Bool) : Option Manager :=
  match beginRequest s.nm request user json with
  | (.error _, nm) => some { s with nm := nm }
  | (.ok (name, i), nm) =>
    (FileName.ofText name).map fun file =>
      { s with nm := nm, calls := s.calls ++ [⟨request, user, json, file, i, again⟩] }

/-- The last section of a request that the server has granted. -/
def complete (s : Manager) (c : Call) (o : Outcome) : Manager :=
  match c.request with
  | .create => { s with nm := (createEnd s.nm c.user.text c.file.text c.server o.backup o.now.val).2 }
  | .delete => { s with nm := (deleteEnd s.nm c.file.text).2 }
  | .undo => s
  | .ticket _ => { s with nm := nmCachePut s.nm c.file.text c.server o.now.val }

/-- The handler of the call from its command on. -/
def finish (s : Manager) (c : Call) (o : Outcome) : Option Manager :=
  match c.request with
  | .ticket op =>
    if s.issueTicket c o then some (s.complete c o)
    else if c.again then some (s.markDown c.server)
    else (s.markDown c.server).start (.ticket op) c.user c.json true
  | _ =>
    match (c.command o).payload with
    | none => some s
    | some payload =>
      match s.forwardCommand c.server payload o with
      | none => some (s.markDown c.server)
      | some reply => if isOk reply then some (s.complete c o) else some s

/-- What happens at the name manager. -/
inductive Event where
  | request (request : Request) (user : Client) (json : Text)
  | answered (call : Nat) (o : Outcome)
  /-- `nm_register_server` of a peer. -/
  | register (json : Text) (fd : Nat)
  /-- The peer that registered becomes a server. -/
  | becomesServer (fd : Nat)
  | disconnect (fd server : Nat)
  /-- Another section. -/
  | other (e : Nm.Event)

/-- The sections of other requests, of updates and of the replication. -/
def isOther : Nm.Event → Bool
  | .hello .. | .checkpointEnd .. | .addaccess .. | .removeaccess .. | .reqaccess .. | .handlereq ..
  | .fileUpdate .. | .assignBackup .. | .syncFailed .. => true
  | _ => false

def step (s : Manager) : Event → Option Manager
  | .request request user json => s.start request user json false
  | .answered i o => (s.calls[i]?).bind fun c => { s with calls := s.calls.eraseIdx i }.finish c o
  | .register json fd => some { s with nm := (handleSsRegister s.nm json fd).2 }
  | .becomesServer fd => some { s with serverFds := (fd : Int) :: s.serverFds }
  | .disconnect fd server =>
    some { s with nm := (handleServerDisconnect s.nm server).1, serverFds := s.serverFds.erase fd }
  | .other e => if isOther e then (tablesStep s.nm e).map fun nm => { s with nm := nm } else none

/-- The connection of server `k` stays open, and it answers the commands it gets. -/
def Responds (k : Int) (s : Manager) : Event → Prop
  | .disconnect _ server => (server : Int) ≠ k
  | .answered i o => ∀ c ∈ s.calls[i]?, c.server = k →
      ((c.command o).payload.all fun payload => (o.reply payload).isSome) = true
  | _ => True

instance (k : Int) (s : Manager) (e : Event) : Decidable (s.Responds k e) :=
  match e with
  | .disconnect _ server => inferInstanceAs (Decidable ((server : Int) ≠ k))
  | .answered _ _ => inferInstanceAs (Decidable (∀ c ∈ _, _ → _))
  | .request .. | .register .. | .becomesServer _ | .other _ => .isTrue trivial

/-- The runs in which server `k` is available at the start, its connection stays open and it answers. -/
def system (k : Int) : System Manager Event :=
  .ofStep (fun s => s.nm.available k = true) fun s e => if s.Responds k e then s.step e else none

/-- A command for server `k` finds its peer, and a ticket for it can be issued. -/
def Ready (k : Int) (s : Manager) : Event → Prop
  | .answered i o => ∀ c ∈ s.calls[i]?, c.server = k → s.findServerPeer k = true ∧ c.Issuable o
  | _ => True

/-! ## What a call does to the servers -/

/-- The handler takes its server down. -/
def takesDown (s : Manager) (c : Call) (o : Outcome) : Bool :=
  match c.request with
  | .ticket _ => !s.issueTicket c o
  | _ => (c.command o).payload.any fun payload => (s.forwardCommand c.server payload o).isNone

theorem beginRequest_servers (nm : NmState) (request : Request) (user : Client) (json : Text) :
    (beginRequest nm request user json).2.servers = nm.servers := by
  cases request with
  | create =>
    have hcreate := apart_servers.createBegin_eq nm user.text json
    unfold beginRequest
    dsimp only
    split
    · next heq => rwa [heq] at hcreate
    · next heq => rwa [heq] at hcreate
  | delete => exact beside_servers.deleteBegin_eq ..
  | undo => exact beside_servers.selectForRequest_eq ..
  | ticket op => exact beside_servers.selectForRequest_eq ..

theorem start_servers {s t : Manager} {request : Request} {user : Client} {json : Text} {again : Bool}
    (h : s.start request user json again = some t) : t.nm.servers = s.nm.servers := by
  have hbegin := beginRequest_servers s.nm request user json
  unfold start at h
  split at h
  · next heq =>
    rw [heq] at hbegin
    cases h
    exact hbegin
  · next heq =>
    rw [heq] at hbegin
    obtain ⟨file, -, rfl⟩ := Option.map_eq_some_iff.1 h
    exact hbegin

theorem complete_servers (s : Manager) (c : Call) (o : Outcome) : (s.complete c o).nm.servers = s.nm.servers := by
  unfold complete
  split
  · exact beside_servers.createEnd_eq ..
  · exact beside_servers.deleteEnd_eq ..
  · rfl
  · exact beside_servers.nmCachePut_eq ..

/-- A handler changes the servers only by taking its own down. -/
theorem finish_servers {s t : Manager} {c : Call} {o : Outcome} (h : s.finish c o = some t) :
    t.nm.servers = if s.takesDown c o then (s.markDown c.server).nm.servers else s.nm.servers := by
  -- the requests other than tickets end alike
  have hend (h : (match (c.command o).payload with
      | none => some s
      | some payload =>
        match s.forwardCommand c.server payload o with
        | none => some (s.markDown c.server)
        | some reply => if isOk reply then some (s.complete c o) else some s) = some t) :
      t.nm.servers = if (c.command o).payload.any fun payload => (s.forwardCommand c.server payload o).isNone
        then (s.markDown c.server).nm.servers else s.nm.servers := by
    cases hpayload : (c.command o).payload with
    | none =>
      rw [hpayload] at h
      cases h
      rfl
    | some payload =>
      rw [hpayload] at h
      rw [Option.any_some]
      cases hforward : s.forwardCommand c.server payload o with
      | none =>
        simp only [hforward] at h
        cases h
        rfl
      | some reply =>
        simp only [hforward] at h
        by_cases hok : isOk reply = true
        · rw [if_pos hok] at h
          cases h
          exact complete_servers ..
        · rw [if_neg hok] at h
          cases h
          rfl
  unfold finish at h
  unfold takesDown
  cases hrequest : c.request with
  | create =>
    rw [hrequest] at h
    exact hend h
  | delete =>
    rw [hrequest] at h
    exact hend h
  | undo =>
    rw [hrequest] at h
    exact hend h
  | ticket op =>
    simp only [hrequest] at h
    by_cases hissue : s.issueTicket c o = true
    · rw [if_pos hissue] at h
      cases h
      rw [hissue]
      exact complete_servers ..
    · rw [if_neg hissue] at h
      rw [Bool.eq_false_of_not_eq_true hissue]
      by_cases hagain : c.again = true
      · rw [if_pos hagain] at h
        cases h
        rfl
      · rw [if_neg hagain] at h
        exact start_servers h

/-! ## Which calls take their server down -/

theorem processNmCommand_ticket (env : Env) (srv : Server) {json : Text}
    (h : jsonGetString json (Text.lit "type") 64 = some (Text.lit "NM_TICKET")) :
    processNmCommand env srv json = handleNmTicketCommand env srv json := by
  unfold processNmCommand
  rw [h]
  dsimp only
  rw [if_neg (by decide), if_neg (by decide), if_pos rfl]

theorem isOk_sendOk : (replies (Ss.sendOk (Ss.opField "TICKET"))).head?.any isOk = true := by decide

theorem isOk_ticketFailed :
    (replies (Ss.sendErrorResponse .INTERNAL (Text.lit "ticket failed"))).head?.any isOk = false := by decide

theorem isOk_invalidTicket :
    (replies (Ss.sendErrorResponse .BADREQ (Text.lit "invalid ticket"))).head?.any isOk = false := by decide

/-- The server grants a ticket that it can read and has room for, and refuses any other. -/
theorem isOk_ticket (env : Env) (srv : Server) (json : Text) :
    (replies (handleNmTicketCommand env srv json).2).head?.any isOk =
      ((decodedTicket json).isSome && env.ticketPushed) := by
  unfold handleNmTicketCommand
  split
  · next htoken hfile huser hop hexpiry =>
    have hdecoded : (decodedTicket json).isSome = true := by
      unfold decodedTicket
      rw [htoken, hfile, huser, hop, hexpiry]
      rfl
    rw [hdecoded, Bool.true_and]
    cases env.ticketPushed with
    | true => exact isOk_sendOk
    | false => exact isOk_ticketFailed
  · next hmissing =>
    have hdecoded : (decodedTicket json).isSome = false := by
      unfold decodedTicket
      split
      · next htoken hfile huser hop hexpiry => exact (hmissing _ _ _ _ _ htoken hfile huser hop hexpiry).elim
      · rfl
    rw [hdecoded, Bool.false_and]
    exact isOk_invalidTicket

/-- The command of a ticket, and what is asked of its answer. -/
theorem issueTicket_iff {s : Manager} {c : Call} {o : Outcome} {op : TicketOp} (hrequest : c.request = .ticket op)
    (hanswer : ((c.command o).payload.all fun payload => (o.reply payload).isSome) = true) :
    s.issueTicket c o = true ↔ s.findServerPeer c.server = true ∧
      NamesRead c.file.text c.user.text op.text o.expiry.val ∧ o.pushed = true ∧
        ∀ env srv, o.answer = some (env, srv) → env.ticketPushed = true := by
  have hcommand : c.command o = .ticket o.token c.file ⟨c.user.text, c.user.short⟩ op o.expiry.val
      ⟨o.expiry.lower, o.expiry.upper⟩ := by
    unfold Call.command
    rw [hrequest]
  obtain ⟨post, hpayload⟩ := (c.command o).exists_payload
  have hframe : (c.command o).payload =
      some (ticketFrame o.token c.file ⟨c.user.text, c.user.short⟩ op o.expiry.val) := by
    rw [hpayload]
    rw [hcommand] at hpayload ⊢
    exact congrArg some (eq_of_format hpayload)
  rw [hframe, Option.all_some] at hanswer
  obtain ⟨reply, hreply⟩ := Option.isSome_iff_exists.1 hanswer
  obtain ⟨⟨env, srv⟩, hsent, hhead⟩ := Option.bind_eq_some_iff.1 hreply
  dsimp only at hhead
  -- the server reads the type of the frame before any name
  have htype : jsonGetString (ticketFrame o.token c.file ⟨c.user.text, c.user.short⟩ op o.expiry.val)
      (Text.lit "type") 64 = some (Text.lit "NM_TICKET") := by
    unfold ticketFrame ticketFields
    exact (@jsonGetString_raw (Text.lit "type") (by decide) (by decide) 64 [] (by simp [WellFormed]) noString_nil
      (Text.lit "NM_TICKET") (by decide) _).2 (by decide)
  have hok : isOk reply = true ↔
      NamesRead c.file.text c.user.text op.text o.expiry.val ∧ env.ticketPushed = true := by
    have := isOk_ticket env srv (ticketFrame o.token c.file ⟨c.user.text, c.user.short⟩ op o.expiry.val)
    rw [← processNmCommand_ticket env srv htype, hhead, Option.any_some] at this
    rw [this, Bool.and_eq_true, isSome_decodedTicket_iff]
  unfold issueTicket forwardCommand
  rw [hframe]
  by_cases hpeer : s.findServerPeer c.server = true
  · simp only [if_pos hpeer, hreply, Bool.and_eq_true, hok, hsent]
    constructor
    · rintro ⟨⟨hnames, hgrow⟩, hpushed⟩
      refine ⟨hpeer, hnames, hpushed, ?_⟩
      intro env' srv' heq
      cases heq
      exact hgrow
    · rintro ⟨-, hnames, hpushed, hgrow⟩
      exact ⟨⟨hnames, hgrow env srv rfl⟩, hpushed⟩
  · simp only [if_neg hpeer]
    constructor
    · intro h
      cases h
    · intro h
      exact absurd h.1 hpeer

/-- A call whose server answers takes it down if and only if it is not ready. -/
theorem takesDown_eq_false_iff {s : Manager} {c : Call} {o : Outcome}
    (hanswer : ((c.command o).payload.all fun payload => (o.reply payload).isSome) = true) :
    s.takesDown c o = false ↔ s.findServerPeer c.server = true ∧ c.Issuable o := by
  obtain ⟨post, hpayload⟩ := (c.command o).exists_payload
  have hother (hno : ∀ op, c.request ≠ .ticket op) :
      ((c.command o).payload.any fun payload => (s.forwardCommand c.server payload o).isNone) = false ↔
        s.findServerPeer c.server = true ∧ c.Issuable o := by
    rw [hpayload, Option.all_some] at hanswer
    obtain ⟨reply, hreply⟩ := Option.isSome_iff_exists.1 hanswer
    rw [hpayload, Option.any_some, forwardCommand, hreply]
    by_cases hpeer : s.findServerPeer c.server = true
    · rw [if_pos hpeer]
      refine ⟨fun _ => ⟨hpeer, ?_⟩, fun _ => rfl⟩
      intro op hop
      exact absurd hop (hno op)
    · rw [if_neg hpeer]
      constructor
      · intro h
        cases h
      · intro h
        exact absurd h.1 hpeer
  unfold takesDown
  split
  · next op hrequest =>
    rw [Bool.not_eq_false', issueTicket_iff hrequest hanswer]
    constructor
    · rintro ⟨hpeer, hissuable⟩
      refine ⟨hpeer, ?_⟩
      intro op' hop
      rw [hrequest] at hop
      cases hop
      exact hissuable
    · rintro ⟨hpeer, hissuable⟩
      exact ⟨hpeer, hissuable op hrequest⟩
  · next hno => exact hother hno

/-! ## Steps and runs -/

section Step

variable {k : Int} {s t : Manager} {e : Event}

/-- What a step does to server `k`: a call takes it down if it is one of its own and fails. -/
theorem step_answered {i : Nat} {o : Outcome} (hs : s.step (.answered i o) = some t) :
    ∃ c, s.calls[i]? = some c ∧
      t.nm.servers = if s.takesDown c o then (s.markDown c.server).nm.servers else s.nm.servers := by
  obtain ⟨c, hc, hs⟩ := Option.bind_eq_some_iff.1 hs
  have hservers := finish_servers hs
  exact ⟨c, hc, hservers⟩

theorem available_step (h : s.nm.available k = true) (hr : s.Responds k e) (hready : s.Ready k e)
    (hs : s.step e = some t) : t.nm.available k = true := by
  cases e with
  | request request user json => exact (available_congr (start_servers hs) k).trans h
  | answered i o =>
    obtain ⟨c, hc, hservers⟩ := step_answered hs
    by_cases hdown : s.takesDown c o = true
    · rw [if_pos hdown] at hservers
      have hne : c.server ≠ k := by
        intro hk
        subst hk
        have hup := (takesDown_eq_false_iff (hr c hc rfl)).2 (hready c hc rfl)
        rw [hdown] at hup
        cases hup
      rw [available_congr hservers]
      exact (available_nmMarkServerDown hne).trans h
    · rw [if_neg hdown] at hservers
      exact (available_congr hservers k).trans h
  | register json fd =>
    cases hs
    exact available_handleSsRegister h json fd
  | becomesServer fd =>
    cases hs
    exact h
  | disconnect fd server =>
    cases hs
    exact (available_handleServerDisconnect hr).trans h
  | other e =>
    obtain ⟨hother, hs⟩ := Option.ite_none_right_eq_some.1 hs
    obtain ⟨nm, hnm, rfl⟩ := Option.map_eq_some_iff.1 hs
    have habout : e.isAboutServers = false := by cases e <;> first | rfl | cases hother
    exact (available_congr (servers_frame hnm habout) k).trans h

/-- A call of server `k` that is not ready takes it down. -/
theorem not_available_step (hr : s.Responds k e) (hready : ¬ s.Ready k e) (hs : s.step e = some t) :
    t.nm.available k = false := by
  cases e with
  | answered i o =>
    obtain ⟨c, hc, hservers⟩ := step_answered hs
    obtain ⟨hk, hfails⟩ : c.server = k ∧ ¬ (s.findServerPeer k = true ∧ c.Issuable o) := by
      by_contra hno
      refine hready ?_
      intro c' hc' hk
      cases hc.symm.trans hc'
      by_contra hfails
      exact hno ⟨hk, hfails⟩
    subst hk
    have hdown : s.takesDown c o = true := by
      by_contra hup
      exact hfails ((takesDown_eq_false_iff (hr c hc rfl)).1 (Bool.eq_false_of_not_eq_true hup))
    rw [if_pos hdown] at hservers
    exact (available_congr hservers c.server).trans (not_available_nmMarkServerDown ..)
  | request request user json => exact absurd trivial hready
  | register json fd => exact absurd trivial hready
  | becomesServer fd => exact absurd trivial hready
  | disconnect fd server => exact absurd trivial hready
  | other e => exact absurd trivial hready

end Step

/-- **A server whose connection stays open and which answers every command stays available exactly as long as
each of its calls is ready**: its peer is a server by then, and a ticket for it has names that it can read. -/
theorem stays_available_iff {k : Int} {tr : List (Manager × Event)} {s : Manager} (h : (system k).Run tr s) :
    System.Throughout (fun s => s.nm.available k = true) tr s ↔ System.Meets (Ready k) tr := by
  refine h.holds_iff (I := fun s => s.nm.available k = true) ?_ ?_ ?_ ?_
  · intro s hs
    exact hs
  · intro s e t hI hready hs
    obtain ⟨hr, hs⟩ := Option.ite_none_right_eq_some.1 hs
    exact available_step hI hr hready hs
  · intro s hI
    exact hI
  · intro s e t hI hready hs
    obtain ⟨hr, hs⟩ := Option.ite_none_right_eq_some.1 hs
    rw [not_available_step hr hready hs]
    exact Bool.false_ne_true

/-- The only server, registered and with its peer. -/
def lonely : Manager :=
  let ss : StorageServer := ⟨Text.lit "ss1", Text.lit "127.0.0.1", Text.lit "0", Text.lit "9001", 4, true⟩
  ⟨{ NmState.clear with servers := [ss] }, [4], []⟩

theorem lonely_available : lonely.nm.available 0 = true := by decide

theorem isTime_someTime : LONG_MIN ≤ 1700003600 ∧ 1700003600 ≤ LONG_MAX := by decide

/-- Alice makes a file and reads it, on a server where everything succeeds. -/
def createAndRead (file : Text) : List Event :=
  let json := printMessage [(Text.lit "file", .string (jsonEscape file))]
  let now : Time := ⟨1700003600, isTime_someTime.1, isTime_someTime.2⟩
  let o : Outcome :=
    { token := someToken
      expiry := now
      now := now
      answer := some (.allOk 0, ⟨Ss.ssStateInit (Text.lit "/s"), fun _ => none, []⟩)
      pushed := true
      backup := -1 }
  [.request .create alice json, .answered 0 o, .request (.ticket .READ) alice json, .answered 0 o]

/-- Reading a file with a plain name leaves the server up. -/
theorem stays_available_notes : ∃ tr s, (system 0).Run tr s ∧ tr.length = 4 ∧ System.Meets (Ready 0) tr := by
  have hexec : (System.exec (fun s e => if Responds 0 s e then s.step e else none) [] lonely
      (createAndRead (Text.lit "notes"))).map
      (fun r => decide (r.1.length = 4) && r.2.nm.available 0 && r.1.all fun p => p.1.nm.available 0) =
        some true := by decide +kernel
  obtain ⟨⟨tr, s⟩, hexec, hcheck⟩ := Option.map_eq_some_iff.1 hexec
  have hrun : (system 0).Run tr s := System.Run.exec (.start lonely_available) hexec
  simp only [Bool.and_eq_true, decide_eq_true_eq, List.all_eq_true] at hcheck
  obtain ⟨⟨hlength, hlast⟩, hall⟩ := hcheck
  exact ⟨tr, s, hrun, hlength, (stays_available_iff hrun).1 ⟨hlast, hall⟩⟩

/-- A file name with a key in it makes the ticket unreadable, and the server goes down. -/
theorem down_after_read : ∃ tr s, (system 0).Run tr s ∧ s.nm.available 0 = false := by
  have hexec : (System.exec (fun s e => if Responds 0 s e then s.step e else none) [] lonely
      (createAndRead (Text.lit "a\",\"expiry\":b"))).map (fun r => r.2.nm.available 0) = some false := by
    decide +kernel
  obtain ⟨⟨tr, s⟩, hexec, hcheck⟩ := Option.map_eq_some_iff.1 hexec
  exact ⟨tr, s, System.Run.exec (.start lonely_available) hexec, hcheck⟩

end Manager

end CoWrite.Cluster
