import CoWrite.Cluster.Numbers
import CoWrite.Ss.Integrity

/-!
# Who may read and write

A storage server asks for no more than a ticket. The name manager issues one after it has checked the access of the
user, brings it to the server in a command, and the client shows it later, when the access may be gone. `Domain` is the
name manager and its servers, with the tickets that it is about to bring. `authority_of_run` looks back from what a server
does for a client to the check. The names of a ticket must survive the command that brings it: `reader_writes` is a user
with a quoted name.
-/

namespace CoWrite.Cluster

open CoWrite.Lib
open CoWrite.Lib.System (Meets stepAt stepAt_of_suffix lt_of_stepAt)
open CoWrite.Nm
open CoWrite.Ss (Host Env DataEnv AuthTicket OpenWrite admitted processNmCommand handleDataClient)

/-- What a ticket is for. -/
structure Right where
  user : Text
  file : Text
  op : Text
deriving DecidableEq, Repr

def ticketRight (ticket : AuthTicket) : Right := ⟨ticket.user, ticket.file, ticket.op⟩

/-- A ticket that is decided on, for the server chosen. -/
structure Grant where
  op : TicketOp
  user : UserName
  file : FileName
  server : Int

def Grant.right (g : Grant) : Right := ⟨g.user.text, g.file.text, g.op.text⟩

structure Domain where
  nm : NmState
  grants : List Grant
  hosts : Nat → Host

namespace Domain

inductive Event where
  /-- The section of `obtain_ticket_for_file` that checks the access and chooses the server. -/
  | ask (op : TicketOp) (user : Client) (json : Text)
  /-- The section of `replication_worker` that reads the owner of a file, for whom the backup will read. -/
  | replicate (file : Text)
  /-- Any other section of the name manager. -/
  | section (e : Nm.Event)
  /-- `issue_ticket`, at the server. -/
  | bring (grant : Nat) (server : Nat) (env : Env) (token : Nm.Token) (expiry : Time)
  /-- A command that brings no ticket. -/
  | command (server : Nat) (env : Env) (json : Text)
  /-- A client of the server. -/
  | client (server : Nat) (e : Ss.Event)

/-- The owner as `replication_worker` copies it. -/
def copiedOwner (file : FileEntry) : UserName :=
  ⟨Text.copyTo NM_MAX_USER file.owner, Text.length_copyTo_lt _ (by decide)⟩

def setHost (s : Domain) (k : Nat) (host : Host) : Domain := { s with hosts := Function.update s.hosts k host }

/-- The command runs at the server. -/
def process (s : Domain) (k : Nat) (env : Env) (json : Text) : Domain :=
  s.setHost k ((s.hosts k).setServer (processNmCommand env (s.hosts k).server json).1)

def step (s : Domain) : Event → Option Domain
  | .ask op user json =>
    match ticketBegin s.nm user.text json (ticketPerm op) with
    | (.error _, nm) => some { s with nm := nm }
    | (.ok (name, i), nm) =>
      (FileName.ofText name).map fun file =>
        { s with nm := nm, grants := s.grants ++ [⟨op, ⟨user.text, user.short⟩, file, i⟩] }
  | .replicate name =>
    (nmFindFile s.nm name).bind fun entry =>
      (FileName.ofText name).map fun file =>
        { s with grants := s.grants ++ [⟨.READ, copiedOwner entry, file, entry.ssIndex⟩] }
  | .section e => (tablesStep s.nm e).map fun nm => { s with nm := nm }
  | .bring i k env token expiry =>
    (s.grants[i]?).bind fun g =>
      if (k : Int) = g.server then some (s.process k env (ticketFrame token g.file g.user g.op expiry.val)) else none
  | .command k env json =>
    if jsonGetString json (Text.lit "type") 64 = some (Text.lit "NM_TICKET") then none else some (s.process k env json)
  | .client k e => if e.client.isNone then none else ((s.hosts k).step e).map (s.setHost k)

/-- No ticket yet, and nobody connected. -/
def Started (s : Domain) : Prop := s.grants = [] ∧ ∀ k, (s.hosts k).Started

def system : System Domain Event := .ofStep Started step

/-- The names of a ticket that is brought need no escaping. -/
def PlainNames (s : Domain) : Event → Prop
  | .bring i _ _ _ _ => ∀ g ∈ s.grants[i]?, Plain g.file.text ∧ Plain g.user.text
  | _ => True

instance (s : Domain) : DecidablePred s.PlainNames
  | .bring i _ _ _ _ => inferInstanceAs (Decidable (∀ g ∈ s.grants[i]?, Plain g.file.text ∧ Plain g.user.text))
  | .ask .. | .replicate .. | .section .. | .command .. | .client .. => inferInstanceAs (Decidable True)

/-- The check of the step finds the right: the user has the access that the operation needs, or is the owner, for whom a
copy is read. -/
def checks (s : Domain) : Event → Set Right
  | .ask op user _ => {r | r.user = user.text ∧ r.op = op.text ∧
      ∃ entry, nmFindFile s.nm r.file = some entry ∧ fileHasAccess entry r.user (ticketPerm op) = true}
  | .replicate name => {r | r.file = name ∧ r.op = TicketOp.READ.text ∧
      ∃ entry, nmFindFile s.nm name = some entry ∧ r.user = (copiedOwner entry).text}
  | _ => ∅

/-! ## Where rights come from -/

/-- The rights in the tables of a server and in its open writes. -/
def hostRights (host : Host) : Set Right :=
  {r | (∃ ticket ∈ host.server.tickets, ticketRight ticket = r) ∨
    ∃ client write, host.writes client = some write ∧ r = ⟨write.user, write.file, TicketOp.WRITE.text⟩}

/-- All the rights that somebody holds. -/
def rights (s : Domain) : Set Right :=
  {r | (∃ g ∈ s.grants, g.right = r) ∨ ∃ k, r ∈ hostRights (s.hosts k)}

/-- Who is let through shows a ticket of the table. -/
theorem right_of_admitted {host : Host} {e : Ss.Event} {ticket : AuthTicket} (h : admitted host e = some ticket) :
    ticketRight ticket ∈ hostRights host := by
  obtain ⟨_, _, _, _, -, -, -, -, -, hfind⟩ := Ss.admitted_spec h
  exact .inl ⟨ticket, (List.mem_filter.1 (List.mem_of_find?_eq_some hfind)).1, rfl⟩

/-- Clients bring no rights. -/
theorem hostRights_step {host host' : Host} {e : Ss.Event} (hs : host.step e = some host')
    (he : ∀ env json, e ≠ .command env json) : hostRights host' ⊆ hostRights host := by
  cases e with
  | command env json => exact absurd rfl (he env json)
  | request client env json =>
    obtain ⟨-, hs⟩ := Option.ite_none_left_eq_some.1 hs
    cases hs
    rintro r (⟨ticket, hticket, rfl⟩ | ⟨other, write, hwrite, rfl⟩)
    · refine .inl ⟨ticket, ?_, rfl⟩
      rw [Ss.handleDataClient_tickets] at hticket
      split at hticket
      · rw [Ss.ticketTableTake_snd] at hticket
        split at hticket
        · exact (List.mem_filter.1 (List.mem_of_mem_eraseP hticket)).1
        · exact (List.mem_filter.1 hticket).1
      · exact hticket
    · rcases Ss.opened_of_request hwrite with hopen | ⟨⟨ticket, hadmitted, huser, hfile, hop⟩, -⟩
      · exact .inr ⟨other, write, hopen, rfl⟩
      · have hright := right_of_admitted hadmitted
        rw [ticketRight, huser, hfile, hop] at hright
        exact hright
  | frame client env frame =>
    obtain ⟨write, hopen, rfl⟩ := Option.map_eq_some_iff.1 hs
    rintro r (⟨ticket, hticket, rfl⟩ | ⟨other, write', hwrite', rfl⟩)
    · rw [Ss.handleWriteFrame_tickets] at hticket
      exact .inl ⟨ticket, hticket, rfl⟩
    · obtain ⟨before, hbefore, huser, hfile, -⟩ := Ss.open_before_frame hopen hwrite'
      exact .inr ⟨other, before, hbefore, by rw [huser, hfile]⟩

/-- A command brings the right of its ticket, if it has one. -/
theorem hostRights_process (host : Host) (env : Env) (json : Text) :
    hostRights (host.setServer (processNmCommand env host.server json).1) ⊆
      hostRights host ∪ {r | ∃ ticket, Ss.installs (.command env json) = some ticket ∧ ticketRight ticket = r} := by
  rintro r (⟨ticket, hticket, rfl⟩ | hwrite)
  · have htable : (host.setServer (processNmCommand env host.server json).1).server.tickets = _ :=
      Ss.processNmCommand_tickets env host.server json
    rw [htable] at hticket
    rcases List.mem_append.1 hticket with hold | hnew
    · exact .inl (.inl ⟨ticket, hold, rfl⟩)
    · exact .inr ⟨ticket, by simpa using hnew, rfl⟩
  · exact .inl (.inr hwrite)

theorem rights_setHost {s : Domain} {k : Nat} {host : Host} {extra : Set Right}
    (h : hostRights host ⊆ hostRights (s.hosts k) ∪ extra) : (s.setHost k host).rights ⊆ s.rights ∪ extra := by
  rintro r (hgrant | ⟨k', hr⟩)
  · exact .inl (.inl hgrant)
  · by_cases hk : k' = k
    · subst hk
      change r ∈ hostRights (Function.update s.hosts k' host k') at hr
      rw [Function.update_self] at hr
      exact (h hr).imp (fun hr => .inr ⟨k', hr⟩) id
    · change r ∈ hostRights (Function.update s.hosts k host k') at hr
      rw [Function.update_of_ne hk] at hr
      exact .inl (.inr ⟨k', hr⟩)

theorem rights_grant (s : Domain) (nm : NmState) (g : Grant) :
    ({ s with nm := nm, grants := s.grants ++ [g] } : Domain).rights ⊆ s.rights ∪ {g.right} := by
  rintro r (⟨g', hg', rfl⟩ | hhost)
  · rcases List.mem_append.1 hg' with hg' | hg'
    · exact .inl (.inl ⟨g', hg', rfl⟩)
    · rw [List.mem_singleton.1 hg']
      exact .inr rfl
  · exact .inl (.inr hhost)

/-- The section of a ticket that is decided on has found the entry, and the access. -/
theorem access_of_ticketBegin {nm nm' : NmState} {user json name : Text} {perm : BitVec 32} {i : Int}
    (h : ticketBegin nm user json perm = (.ok (name, i), nm')) :
    ∃ entry, nmFindFile nm name = some entry ∧ fileHasAccess entry user perm = true := by
  unfold ticketBegin selectForRequest at h
  split at h
  · cases h
  split at h
  · cases h
  next entry hentry =>
  split_ifs at h with haccess
  · cases h
  split at h
  · cases h
  · cases h
    exact ⟨entry, hentry, by simpa using haccess⟩

/-- **No right comes from anywhere but a check.** -/
theorem rights_step {s t : Domain} {e : Event} (hplain : s.PlainNames e) (hs : s.step e = some t) :
    t.rights ⊆ s.rights ∪ s.checks e := by
  cases e with
  | ask op user json =>
    simp only [step] at hs
    split at hs
    · cases hs
      exact Set.subset_union_left
    · next name i nm hbegin =>
      obtain ⟨file, hfile, rfl⟩ := Option.map_eq_some_iff.1 hs
      obtain ⟨entry, hentry, haccess⟩ := access_of_ticketBegin hbegin
      refine (rights_grant s nm _).trans (Set.union_subset_union_right _ ?_)
      rintro r rfl
      refine ⟨rfl, rfl, entry, ?_, haccess⟩
      rw [Grant.right, FileName.text_of_ofText hfile]
      exact hentry
  | replicate name =>
    obtain ⟨entry, hentry, hs⟩ := Option.bind_eq_some_iff.1 hs
    obtain ⟨file, hfile, rfl⟩ := Option.map_eq_some_iff.1 hs
    refine (rights_grant s s.nm _).trans (Set.union_subset_union_right _ ?_)
    rintro r rfl
    exact ⟨FileName.text_of_ofText hfile, rfl, entry, hentry, rfl⟩
  | «section» e =>
    obtain ⟨nm, -, rfl⟩ := Option.map_eq_some_iff.1 hs
    exact Set.subset_union_left
  | bring i k env token expiry =>
    obtain ⟨g, hg, hs⟩ := Option.bind_eq_some_iff.1 hs
    obtain ⟨-, hs⟩ := Option.ite_none_right_eq_some.1 hs
    cases hs
    obtain ⟨hfile, huser⟩ := hplain g hg
    refine (rights_setHost (hostRights_process ..)).trans (Set.union_subset Set.subset_union_left ?_)
    rintro r ⟨ticket, hinstalls, rfl⟩
    -- the ticket that is stored is the one decided on
    refine .inl (.inl ⟨g, List.mem_of_getElem? hg, ?_⟩)
    rw [Ss.installs] at hinstalls
    obtain ⟨-, hdecoded⟩ := Option.ite_none_right_eq_some.1 hinstalls
    rw [decodedTicket_ticketFrame token g.op expiry.isTime hfile huser] at hdecoded
    cases hdecoded
    rfl
  | command k env json =>
    obtain ⟨htype, hs⟩ := Option.ite_none_left_eq_some.1 hs
    cases hs
    refine (rights_setHost (hostRights_process ..)).trans (Set.union_subset Set.subset_union_left ?_)
    rintro r ⟨ticket, hinstalls, rfl⟩
    rw [Ss.installs] at hinstalls
    exact absurd (Option.ite_none_right_eq_some.1 hinstalls).1.1 htype
  | client k e =>
    obtain ⟨hclient, hs⟩ := Option.ite_none_left_eq_some.1 hs
    obtain ⟨host, hhost, rfl⟩ := Option.map_eq_some_iff.1 hs
    refine rights_setHost ((hostRights_step hhost ?_).trans Set.subset_union_left)
    rintro env json rfl
    exact hclient rfl

theorem rights_started {s : Domain} (h : s.Started) : s.rights = ∅ := by
  obtain ⟨hgrants, hhosts⟩ := h
  refine Set.eq_empty_of_forall_notMem ?_
  rintro r (⟨g, hg, -⟩ | ⟨k, hticket | ⟨client, write, hwrite, -⟩⟩)
  · rw [hgrants] at hg
    cases hg
  · obtain ⟨ticket, hticket, -⟩ := hticket
    rw [(hhosts k).2.1] at hticket
    cases hticket
  · rw [(hhosts k).2.2.2 client] at hwrite
    cases hwrite

/-- The rights that the step of a client takes: of the ticket that lets it through, and of the write that the frame is of. -/
def uses (s : Domain) : Event → List Right
  | .client k e =>
    ((admitted (s.hosts k) e).map ticketRight).toList ++
      match e with
      | .frame client _ _ =>
        (((s.hosts k).writes client).map fun write => ⟨write.user, write.file, TicketOp.WRITE.text⟩).toList
      | _ => []
  | _ => []

theorem rights_of_uses {s : Domain} {e : Event} {r : Right} (h : r ∈ s.uses e) : r ∈ s.rights := by
  cases e with
  | client k e =>
    rcases List.mem_append.1 h with h | h
    · obtain ⟨ticket, hadmitted, rfl⟩ := Option.map_eq_some_iff.1 (Option.mem_toList.1 h)
      exact .inr ⟨k, right_of_admitted hadmitted⟩
    · cases e with
      | frame client env frame =>
        obtain ⟨write, hwrite, rfl⟩ := Option.map_eq_some_iff.1 (Option.mem_toList.1 h)
        exact .inr ⟨k, .inr ⟨client, write, hwrite, rfl⟩⟩
      | command env json => cases h
      | request client env json => cases h
  | _ => cases h

/-- A right that is held before a step was checked in an earlier one. -/
theorem checked_before {tr : List (Domain × Event)} {s : Domain} (h : system.Run tr s) (hplain : Meets PlainNames tr)
    {n : Nat} {t : Domain} {e : Event} (hn : stepAt tr n = some (t, e)) {r : Right} (hr : r ∈ t.rights) :
    ∃ m u e', m < n ∧ stepAt tr m = some (u, e') ∧ r ∈ u.checks e' := by
  obtain ⟨tr', hsuffix, rfl, h'⟩ := h.before hn
  have hplain' : Meets PlainNames tr' := fun p hp => hplain p (hsuffix.subset hp)
  have hstep : ∀ s e t, PlainNames s e → system.step s e t → t.rights ⊆ s.rights ∪ s.checks e := fun s e t => rights_step
  obtain ⟨m, ⟨u, e'⟩, hm, hchecks⟩ := h'.origin (fun s hs => rights_started hs) hstep hplain' r hr
  exact ⟨m, u, e', lt_of_stepAt hm, stepAt_of_suffix hsuffix hm, hchecks⟩

/-- **Whatever a server lets a client do, the name manager has checked before**: reading, streaming, opening a write and
every frame of it. -/
theorem authority_of_run {tr : List (Domain × Event)} {s : Domain} (h : system.Run tr s) (hplain : Meets PlainNames tr)
    {n : Nat} {t : Domain} {e : Event} (hn : stepAt tr n = some (t, e)) {r : Right} (hr : r ∈ t.uses e) :
    ∃ m u e', m < n ∧ stepAt tr m = some (u, e') ∧ r ∈ u.checks e' :=
  checked_before h hplain hn (rights_of_uses hr)

/-- A file of Alice's, which the user may read, and its server. -/
def shared (user : Client) : Domain :=
  let file : FileEntry := newFileEntry (Text.lit "f") (Text.lit "alice") 0 (-1) 0
  let ss : StorageServer := ⟨Text.lit "ss1", Text.lit "127.0.0.1", Text.lit "0", Text.lit "9001", 4, true⟩
  let host : Host := ⟨⟨Ss.ssStateInit (Text.lit "/s"), fun _ => none, []⟩, [], fun _ => none⟩
  ⟨{ NmState.clear with servers := [ss], files := [{ file with acl := [⟨user.text, NM_PERM_READ⟩] }] }, [], fun _ => host⟩

theorem started_shared (user : Client) : (shared user).Started :=
  ⟨rfl, fun _ => ⟨List.Pairwise.nil, rfl, rfl, fun _ => rfl⟩⟩

/-- The user asks to read, the ticket is brought, and a client shows it under a name, for what it likes. -/
def asks (user : Client) (shown type : Text) : List Event :=
  let request := printMessage [(Text.lit "type", .string type), (Text.lit "file", .string (Text.lit "f")),
    (Text.lit "user", .string shown), (Text.lit "ticket", .string someToken.text),
    (Text.lit "sentence", .number (Text.lit "0"))]
  [.ask .READ user (printMessage [(Text.lit "file", .string (Text.lit "f"))]),
    .bring 0 0 (.allOk 0) someToken ⟨30, by decide, by decide⟩,
    .client 0 (.request 0 (.allOk 0) request)]

def frank : Client := ⟨Text.lit "frank", by decide, by decide⟩

/-- Frank's reading was checked before. -/
theorem authority_of_frank : let r : Right := ⟨frank.text, Text.lit "f", Text.lit "READ"⟩
    ∃ tr s t e, system.Run tr s ∧ stepAt tr 2 = some (t, e) ∧ r ∈ t.uses e ∧
      ∃ m u e', m < 2 ∧ stepAt tr m = some (u, e') ∧ r ∈ u.checks e' := by
  intro r
  have hexec : (System.exec step [] (shared frank) (asks frank frank.text r.op)).map (fun p =>
      (p.1.all fun p => decide (p.1.PlainNames p.2)) && (stepAt p.1 2).any fun p => decide (r ∈ p.1.uses p.2)) =
        some true := by decide +kernel
  obtain ⟨⟨tr, s⟩, hexec, hcheck⟩ := Option.map_eq_some_iff.1 hexec
  have hrun : system.Run tr s := System.Run.exec (.start (started_shared frank)) hexec
  simp only [Bool.and_eq_true, List.all_eq_true, decide_eq_true_eq, Option.any_eq_true] at hcheck
  obtain ⟨hplain, ⟨t, e⟩, hn, hr⟩ := hcheck
  exact ⟨tr, s, t, e, hrun, hn, hr, authority_of_run hrun hplain hn hr⟩

/-- No check is for more than reading. -/
def AsksToRead : Event → Bool
  | .ask op .. => op = .READ
  | _ => true

theorem notMem_checks {s : Domain} {e : Event} {r : Right} (he : AsksToRead e = true) (hop : r.op ≠ TicketOp.READ.text) :
    r ∉ s.checks e := by
  cases e with
  | ask op user json =>
    rintro ⟨-, hr, -⟩
    rw [of_decide_eq_true he] at hr
    exact hop hr
  | replicate name =>
    rintro ⟨-, hr, -⟩
    exact hop hr
  | _ => exact Set.notMem_empty r

/-- With a name that ends the field of the user, and is followed by one of the operation, a reader gets to write, for
somebody else. -/
theorem reader_writes : let r : Right := ⟨frank.text, Text.lit "f", Text.lit "WRITE"⟩
    ∃ tr s t e, system.Run tr s ∧ stepAt tr 2 = some (t, e) ∧ r ∈ t.uses e ∧ ∀ p ∈ tr, r ∉ p.1.checks p.2 := by
  intro r
  let quoted : Client := ⟨Text.lit "frank\",\"op\":\"WRITE", by decide, by decide⟩
  have hexec : (System.exec step [] (shared quoted) (asks quoted frank.text (Text.lit "WRITE_BEGIN"))).map (fun p =>
      (p.1.all fun p => AsksToRead p.2) && (stepAt p.1 2).any fun p => decide (r ∈ p.1.uses p.2)) = some true := by
    decide +kernel
  obtain ⟨⟨tr, s⟩, hexec, hcheck⟩ := Option.map_eq_some_iff.1 hexec
  have hrun : system.Run tr s := System.Run.exec (.start (started_shared quoted)) hexec
  simp only [Bool.and_eq_true, List.all_eq_true, Option.any_eq_true, decide_eq_true_eq] at hcheck
  obtain ⟨hread, ⟨t, e⟩, hn, hr⟩ := hcheck
  refine ⟨tr, s, t, e, hrun, hn, hr, ?_⟩
  intro p hp
  exact notMem_checks (hread p hp) (by decide)

/-! ## Who changes a document -/

/-- The servers start on their directories, with any files. -/
def housed (dirs : Nat → Text) : System Domain Event :=
  .ofStep (fun s => s.Started ∧ ∀ k, Ss.Placed (dirs k) (s.hosts k).server.state) step

/-- The names of tickets need no escaping, and what is fetched is for a file that may be in a table. -/
def SoundNames (s : Domain) : Event → Prop
  | .command _ _ json => Ss.SyncNamed json
  | e => s.PlainNames e

instance (s : Domain) : DecidablePred s.SoundNames
  | .command _ _ json => inferInstanceAs (Decidable (Ss.SyncNamed json))
  | .bring i k env token expiry => inferInstanceAs (Decidable (s.PlainNames (.bring i k env token expiry)))
  | .ask .. | .replicate .. | .section .. | .client .. => inferInstanceAs (Decidable True)

theorem SoundNames.plain {s : Domain} {e : Event} (h : s.SoundNames e) : s.PlainNames e := by
  cases e with
  | command k env json => trivial
  | _ => exact h

/-- What the event is at the server. -/
def atServer (s : Domain) (k : Nat) : Event → Option Ss.Event
  | .bring i k' env token expiry =>
    if k' = k then (s.grants[i]?).map fun g => .command env (ticketFrame token g.file g.user g.op expiry.val) else none
  | .command k' env json => if k' = k then some (.command env json) else none
  | .client k' e => if k' = k then some e else none
  | _ => none

theorem hosts_setHost (s : Domain) (k' : Nat) (host : Host) (k : Nat) :
    (s.setHost k' host).hosts k = if k' = k then host else s.hosts k := by
  change Function.update s.hosts k' host k = _
  rw [Function.update_apply]
  exact if_congr eq_comm rfl rfl

/-- A server takes the step that the event is there, if it is one. -/
theorem step_hosts {s t : Domain} {e : Event} (hs : s.step e = some t) (k : Nat) :
    (s.atServer k e = none ∧ t.hosts k = s.hosts k) ∨
      ∃ e', s.atServer k e = some e' ∧ (s.hosts k).step e' = some (t.hosts k) := by
  cases e with
  | ask op user json =>
    refine .inl ⟨rfl, ?_⟩
    simp only [step] at hs
    split at hs
    · cases hs
      rfl
    · obtain ⟨file, -, rfl⟩ := Option.map_eq_some_iff.1 hs
      rfl
  | replicate name =>
    obtain ⟨entry, -, hs⟩ := Option.bind_eq_some_iff.1 hs
    obtain ⟨file, -, rfl⟩ := Option.map_eq_some_iff.1 hs
    exact .inl ⟨rfl, rfl⟩
  | «section» e =>
    obtain ⟨nm, -, rfl⟩ := Option.map_eq_some_iff.1 hs
    exact .inl ⟨rfl, rfl⟩
  | bring i k' env token expiry =>
    obtain ⟨g, hg, hs⟩ := Option.bind_eq_some_iff.1 hs
    obtain ⟨-, hs⟩ := Option.ite_none_right_eq_some.1 hs
    cases hs
    rw [process, hosts_setHost]
    by_cases hk : k' = k
    · subst hk
      exact .inr ⟨_, by rw [atServer, if_pos rfl, hg, Option.map_some], by rw [if_pos rfl]; rfl⟩
    · exact .inl ⟨if_neg hk, if_neg hk⟩
  | command k' env json =>
    obtain ⟨-, hs⟩ := Option.ite_none_left_eq_some.1 hs
    cases hs
    rw [process, hosts_setHost]
    by_cases hk : k' = k
    · subst hk
      exact .inr ⟨_, if_pos rfl, by rw [if_pos rfl]; rfl⟩
    · exact .inl ⟨if_neg hk, if_neg hk⟩
  | client k' e =>
    obtain ⟨-, hs⟩ := Option.ite_none_left_eq_some.1 hs
    obtain ⟨host, hhost, rfl⟩ := Option.map_eq_some_iff.1 hs
    rw [hosts_setHost]
    by_cases hk : k' = k
    · subst hk
      exact .inr ⟨e, if_pos rfl, by rw [if_pos rfl, hhost]⟩
    · exact .inl ⟨if_neg hk, if_neg hk⟩

/-- The type of a ticket's frame comes before any name. -/
theorem type_ticketFrame (token : Nm.Token) (file : FileName) (user : UserName) (op : TicketOp) (expiry : Int) :
    jsonGetString (ticketFrame token file user op expiry) (Text.lit "type") 64 = some (Text.lit "NM_TICKET") := by
  unfold ticketFrame ticketFields
  exact (@jsonGetString_raw (Text.lit "type") (by decide) (by decide) 64 [] (by simp [WellFormed]) noString_nil
    (Text.lit "NM_TICKET") (by decide) _).2 (by decide)

theorem named_atServer {s : Domain} {e : Event} (hsound : s.SoundNames e) {k : Nat} {e' : Ss.Event}
    (h : s.atServer k e = some e') (hcommand : ∀ env json, e ≠ .client k (.command env json)) : e'.Named := by
  cases e with
  | bring i k' env token expiry =>
    obtain ⟨-, h⟩ := Option.ite_none_right_eq_some.1 h
    obtain ⟨g, -, rfl⟩ := Option.map_eq_some_iff.1 h
    intro hsync
    rw [type_ticketFrame] at hsync
    exact absurd hsync (by decide)
  | command k' env json =>
    obtain ⟨-, h⟩ := Option.ite_none_right_eq_some.1 h
    cases h
    exact hsound
  | client k' e =>
    obtain ⟨hk, h⟩ := Option.ite_none_right_eq_some.1 h
    cases h
    cases e' with
    | command env json => exact absurd (hk ▸ rfl) (hcommand env json)
    | request client env json => trivial
    | frame client env frame => trivial
  | _ => cases h

section Documents

variable {dirs : Nat → Text} (hdirs : ∀ k, (dirs k).length ≤ 239)

include hdirs

/-- What a step does at a server keeps its paths, and changes a text in one of the ways there are. -/
theorem host_step {s t : Domain} {e : Event} (h : ∀ k, Ss.Housed (dirs k) (s.hosts k)) (hsound : s.SoundNames e)
    (hs : s.step e = some t) (k : Nat) : Ss.Housed (dirs k) (t.hosts k) ∧ ∀ g : FileName,
      (t.hosts k).server.fs (Ss.dataPath (dirs k) g.text) ≠ (s.hosts k).server.fs (Ss.dataPath (dirs k) g.text) →
      ∃ e', s.atServer k e = some e' ∧ Ss.TextChange (dirs k) (s.hosts k) e' (t.hosts k) g := by
  rcases step_hosts hs k with ⟨-, hsame⟩ | ⟨e', he', hhost⟩
  · rw [hsame]
    exact ⟨h k, fun g hne => absurd rfl hne⟩
  · have hclient : ∀ env json, e ≠ .client k (.command env json) := by
      rintro env json rfl
      cases hs
    obtain ⟨hhoused, hchange⟩ := (h k).step (hdirs k) (named_atServer hsound he' hclient) hhost
    exact ⟨hhoused, fun g hne => ⟨e', he', hchange g hne⟩⟩

end Documents

/-- Alice's first word. -/
def writes : List Event :=
  let frame (fields : List Field) : Event := .client 0 (.frame 0 (.allOk 0) (some (printMessage fields)))
  [.command 0 (.allOk 0) (printMessage [(Text.lit "type", .string (Text.lit "NM_CREATE")),
      (Text.lit "file", .string (Text.lit "f")), (Text.lit "owner", .string alice.text)]),
    .ask .WRITE alice (printMessage [(Text.lit "file", .string (Text.lit "f"))]),
    .bring 0 0 (.allOk 0) someToken ⟨30, by decide, by decide⟩,
    .client 0 (.request 0 (.allOk 0) (printMessage [(Text.lit "type", .string (Text.lit "WRITE_BEGIN")),
      (Text.lit "file", .string (Text.lit "f")), (Text.lit "user", .string alice.text),
      (Text.lit "ticket", .string someToken.text), (Text.lit "sentence", .number (Text.lit "0"))])),
    frame [(Text.lit "type", .string (Text.lit "WRITE_INSERT")), (Text.lit "index", .number (Text.lit "0")),
      (Text.lit "content", .string (Text.lit "Hi."))],
    frame [(Text.lit "type", .string (Text.lit "WRITE_COMMIT"))]]

end Domain

end CoWrite.Cluster
