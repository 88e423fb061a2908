import CoWrite.Lib.Runs
import CoWrite.Ss.Command

/-!
# A server that registers

The name manager makes a server known in three steps: its entry gets the descriptor of the connection
(from there on it can be selected), the peer becomes a server (from there on `forward_command` finds it),
and the acknowledgement is sent. Until it has read the acknowledgement, the server reads the frames in a
loop of its own, which handles tickets and drops everything else.

`Link` is the connection with both ends. `answered_iff` says which runs answer every command: those where
only tickets are forwarded before the acknowledgement, and where no reply is too long for its buffer.
-/

namespace CoWrite.Cluster

open CoWrite.Lib
open CoWrite.Ss (Server Env Answered ReplyLost sendOk processNmCommand handleNmTicketCommand)

/-- A frame of the name manager. -/
inductive Frame where
  | response (json : Text)
  | command (json : Text)
deriving DecidableEq, Repr

def Frame.text : Frame → Text
  | .response json => json
  | .command json => json

def Frame.payload : Frame → Option Text
  | .response _ => none
  | .command json => some json

/-- Which loop of `main` the server is in. -/
inductive Loop where
  | registering
  | serving
  | exited
deriving DecidableEq, Repr

structure Link where
  /-- The descriptor of the connection at the name manager. -/
  fd : Int
  /-- `ctrl_fd` of the entry of the server. -/
  ctrlFd : Int
  /-- The peer is a `PEER_SERVER`. -/
  isServer : Bool
  acknowledged : Bool
  rpcWaiting : Bool
  toServer : List Frame
  toNm : List Text
  loop : Loop
  server : Server
  /-- The commands sent, latest first. -/
  sent : List Text
  /-- The commands the server has read, latest first, each with the frames it sent for it. -/
  read : List (Text × List Text)

/-- `find_server_peer` on the descriptor of the entry. -/
def Link.findServerPeer (s : Link) : Bool := s.isServer && s.fd == s.ctrlFd && decide (s.fd ≥ 0)

/-- The acknowledgement. -/
def ackFrame : Text :=
  printMessage [(Text.lit "status", .string (Text.lit "OK")), (Text.lit "role", .string (Text.lit "SS"))]

/-- One turn of the registration loop of `main`: the loop after it and what it sends. -/
def registerTurn (env : Env) (srv : Server) (json : Text) : Loop × Server × List Text :=
  match jsonGetString json (Text.lit "status") 16 with
  | some status => (if status = Text.lit "OK" then .serving else .exited, srv, [])
  | none =>
    match jsonGetString json (Text.lit "type") 64 with
    | some type =>
      if type = Text.lit "NM_TICKET" then
        let (srv, frames) := handleNmTicketCommand env srv json
        (if frames = [] then .exited else .registering, srv, frames)
      else (.registering, srv, [])
    | none => (.registering, srv, [])

/-- One turn of the loop that the server is in. -/
def turn (env : Env) (loop : Loop) (srv : Server) (json : Text) : Loop × Server × List Text :=
  match loop with
  | .registering => registerTurn env srv json
  | .serving =>
    let (srv, frames) := processNmCommand env srv json
    (.serving, srv, frames)
  | .exited => (.exited, srv, [])

inductive Event where
  /-- `nm_register_server`. -/
  | register
  /-- The peer becomes a server. -/
  | mark
  | acknowledge
  /-- Another thread of the name manager sends a command. -/
  | forward (json : Text)
  /-- The peer's thread reads a frame of the server. -/
  | deliver
  /-- The server reads a frame. -/
  | read (env : Env)
  /-- Clients change the files of the server. -/
  | change (server : Server)

namespace Link

def step (s : Link) : Event → Option Link
  | .register => if s.ctrlFd ≠ s.fd ∧ s.isServer = false then some { s with ctrlFd := s.fd } else none
  | .mark => if s.ctrlFd = s.fd ∧ s.isServer = false then some { s with isServer := true } else none
  | .acknowledge =>
    if s.isServer = true ∧ s.acknowledged = false then
      some { s with acknowledged := true, toServer := s.toServer ++ [.response ackFrame] }
    else none
  | .forward json =>
    if s.findServerPeer = true ∧ s.rpcWaiting = false then
      some { s with rpcWaiting := true, toServer := s.toServer ++ [.command json], sent := json :: s.sent }
    else none
  | .deliver =>
    match s.acknowledged, s.toNm with
    | true, frame :: rest =>
      some { s with toNm := rest, rpcWaiting := if Ss.isReply frame then false else s.rpcWaiting }
    | _, _ => none
  | .read env =>
    if s.loop = .exited then none
    else
      match s.toServer with
      | [] => none
      | frame :: rest =>
        let (loop, server, frames) := turn env s.loop s.server frame.text
        some { s with
          toServer := rest
          toNm := s.toNm ++ frames
          loop := loop
          server := server
          read := frame.payload.toList.map (fun json => (json, frames)) ++ s.read }
  | .change server => some { s with server := server }

def Started (s : Link) : Prop :=
  0 ≤ s.fd ∧ s.ctrlFd ≠ s.fd ∧ s.isServer = false ∧ s.acknowledged = false ∧ s.rpcWaiting = false ∧
    s.toServer = [] ∧ s.toNm = [] ∧ s.loop = .registering ∧ s.sent = [] ∧ s.read = []

def system : System Link Event := .ofStep Started step

/-- A ticket for the registration loop: a string `status` it takes for the acknowledgement. -/
def TicketOnly (json : Text) : Prop :=
  jsonGetString json (Text.lit "status") 16 = none ∧
    jsonGetString json (Text.lit "type") 64 = some (Text.lit "NM_TICKET")

instance (json : Text) : Decidable (TicketOnly json) := inferInstanceAs (Decidable (_ ∧ _))

/-- A command that is forwarded before the acknowledgement is a ticket, and the reply to a command that is
read after it is not lost. -/
def Ready (s : Link) : Event → Prop
  | .forward json => s.acknowledged = true ∨ TicketOnly json
  | .read env => s.loop = .serving → ∀ json rest, s.toServer = .command json :: rest → ¬ ReplyLost env s.server json
  | _ => True

/-- The server has read every frame, or it has exited. -/
def Settled (s : Link) : Prop := s.toServer = [] ∨ s.loop = .exited

/-- Every command that was sent has been read and answered by one reply. -/
def AllAnswered (s : Link) : Prop := s.read.map Prod.fst = s.sent ∧ ∀ r ∈ s.read, Answered r.2

/-! ## One turn of the server -/

theorem registerTurn_ticket {json : Text} (h : TicketOnly json) (env : Env) (srv : Server) :
    (registerTurn env srv json).1 = .registering ∧ Answered (registerTurn env srv json).2.2 := by
  have hanswered := Ss.answered_ticket env srv json
  have hne : (handleNmTicketCommand env srv json).2 ≠ [] := by
    intro hnil
    rw [hnil] at hanswered
    cases hanswered
  simp only [registerTurn, h.1, h.2, if_true, if_neg hne]
  exact ⟨trivial, hanswered⟩

/-- Any other frame is dropped. -/
theorem registerTurn_other {json : Text} (h : ¬ TicketOnly json) (env : Env) (srv : Server) :
    (registerTurn env srv json).2.2 = [] := by
  unfold registerTurn
  split
  · rfl
  · next hstatus =>
    split
    · next type htype =>
      split
      · next hticket => exact absurd ⟨hstatus, hticket ▸ htype⟩ h
      · rfl
    · rfl

theorem registerTurn_ack (env : Env) (srv : Server) : (registerTurn env srv ackFrame).1 = .serving := by
  have hstatus : jsonGetString ackFrame (Text.lit "status") 16 = some (Text.lit "OK") := by decide
  simp only [registerTurn, hstatus, if_true]

theorem not_answered_nil : ¬ Answered [] := by
  intro h
  cases h

/-! ## Runs that answer every command -/

/-- The frames on the way to the server, by what both ends have done. -/
inductive Flow (s : Link) : Prop where
  | early (hloop : s.loop = .registering) (hack : s.acknowledged = false) (tickets : List Text)
      (htickets : ∀ json ∈ tickets, TicketOnly json) (hframes : s.toServer = tickets.map .command)
  | between (hloop : s.loop = .registering) (hack : s.acknowledged = true) (tickets commands : List Text)
      (htickets : ∀ json ∈ tickets, TicketOnly json)
      (hframes : s.toServer = tickets.map .command ++ .response ackFrame :: commands.map .command)
  | late (hloop : s.loop = .serving) (hack : s.acknowledged = true) (commands : List Text)
      (hframes : s.toServer = commands.map .command)

structure Healthy (s : Link) : Prop where
  flow : s.Flow
  sent : (s.toServer.filterMap Frame.payload).reverse ++ s.read.map Prod.fst = s.sent
  answered : ∀ r ∈ s.read, Answered r.2

/-- A command is lost: it was read without one reply, or the registration loop will drop it. -/
inductive Doomed (s : Link) : Prop where
  | lost (r : Text × List Text) (hr : r ∈ s.read) (hanswered : ¬ Answered r.2)
  | waits (hloop : s.loop = .registering) (before : List Text) (json : Text) (after : List Frame)
      (hjson : ¬ TicketOnly json) (hframes : s.toServer = before.map .command ++ .command json :: after)

theorem healthy_started {s : Link} (h : s.Started) : s.Healthy := by
  obtain ⟨-, -, -, hack, -, hto, -, hloop, hsent, hread⟩ := h
  refine ⟨.early hloop hack [] (by simp) (by rw [hto]; rfl), ?_, ?_⟩
  · rw [hto, hread, hsent]
    rfl
  · intro r hr
    rw [hread] at hr
    cases hr

section Step

variable {s t : Link}

/-- What a read does, on the next frame. -/
theorem step_read {env : Env} (h : s.step (.read env) = some t) :
    ∃ frame rest, s.toServer = frame :: rest ∧ s.loop ≠ .exited ∧
      t = { s with
        toServer := rest
        toNm := s.toNm ++ (turn env s.loop s.server frame.text).2.2
        loop := (turn env s.loop s.server frame.text).1
        server := (turn env s.loop s.server frame.text).2.1
        read := frame.payload.toList.map (fun json => (json, (turn env s.loop s.server frame.text).2.2)) ++ s.read } := by
  simp only [step] at h
  split at h
  · cases h
  · next hloop =>
    split at h
    · cases h
    · next frame rest hframes => exact ⟨frame, rest, hframes, hloop, (Option.some.inj h).symm⟩

/-- The other steps leave the server's loop alone; they may send it more frames. -/
theorem step_other {e : Event} (h : s.step e = some t) (he : ∀ env, e ≠ .read env) :
    t.read = s.read ∧ t.loop = s.loop ∧ ∃ more, t.toServer = s.toServer ++ more := by
  cases e with
  | read env => exact absurd rfl (he env)
  | register =>
    obtain ⟨-, h⟩ := Option.ite_none_right_eq_some.1 h
    cases h
    exact ⟨rfl, rfl, [], (List.append_nil _).symm⟩
  | mark =>
    obtain ⟨-, h⟩ := Option.ite_none_right_eq_some.1 h
    cases h
    exact ⟨rfl, rfl, [], (List.append_nil _).symm⟩
  | acknowledge =>
    obtain ⟨-, h⟩ := Option.ite_none_right_eq_some.1 h
    cases h
    exact ⟨rfl, rfl, _, rfl⟩
  | forward json =>
    obtain ⟨-, h⟩ := Option.ite_none_right_eq_some.1 h
    cases h
    exact ⟨rfl, rfl, _, rfl⟩
  | deliver =>
    simp only [step] at h
    split at h
    · cases h
      exact ⟨rfl, rfl, [], (List.append_nil _).symm⟩
    · cases h
  | change server =>
    cases h
    exact ⟨rfl, rfl, [], (List.append_nil _).symm⟩

/-- The registration loop reads a command that is no ticket, and drops it. -/
theorem doomed_of_read {env : Env} (hs : s.step (.read env) = some t) (hloop : s.loop = .registering) {json : Text}
    {rest : List Frame} (hframes : s.toServer = .command json :: rest) (hjson : ¬ TicketOnly json) : t.Doomed := by
  obtain ⟨frame, rest', hframes', -, rfl⟩ := step_read hs
  rw [hframes] at hframes'
  cases hframes'
  have hdrop : (turn env s.loop s.server json).2.2 = [] := by
    rw [hloop]
    exact registerTurn_other hjson env s.server
  refine .lost (json, []) ?_ not_answered_nil
  simp only [Frame.text, hdrop]
  exact List.mem_cons_self

theorem Doomed.step (h : s.Doomed) {e : Event} (hs : s.step e = some t) : t.Doomed := by
  by_cases he : ∃ env, e = .read env
  · obtain ⟨env, rfl⟩ := he
    cases h with
    | lost r hr hanswered =>
      obtain ⟨frame, rest, -, -, rfl⟩ := step_read hs
      exact .lost r (List.mem_append_right _ hr) hanswered
    | waits hloop before json after hjson hframes =>
      cases before with
      | nil => exact doomed_of_read hs hloop hframes hjson
      | cons first before =>
        by_cases hfirst : TicketOnly first
        · obtain ⟨frame, rest, hframes', -, rfl⟩ := step_read hs
          rw [hframes] at hframes'
          cases hframes'
          refine .waits ?_ before json after hjson rfl
          rw [hloop]
          exact (registerTurn_ticket hfirst env s.server).1
        · exact doomed_of_read hs hloop hframes hfirst
  · obtain ⟨hread, hloop', more, hmore⟩ := step_other hs fun env henv => he ⟨env, henv⟩
    cases h with
    | lost r hr hanswered => exact .lost r (hread ▸ hr) hanswered
    | waits hloop before json after hjson hframes =>
      refine .waits (hloop'.trans hloop) before json (after ++ more) hjson ?_
      rw [hmore, hframes, List.append_assoc, List.cons_append]

/-- What a frame read in turn leaves to be read. -/
theorem Healthy.read (h : s.Healthy) {env : Env} (hg : s.Ready (.read env)) (hs : s.step (.read env) = some t) :
    t.Healthy := by
  obtain ⟨frame, rest, hframes, hexited, rfl⟩ := step_read hs
  have hsent := h.sent
  rw [hframes] at hsent
  -- the books of the commands, once the turn is known to answer its frame
  have hbooks (hanswer : ∀ json, frame = .command json → Answered (turn env s.loop s.server frame.text).2.2)
      (hflow : Flow { s with
        toServer := rest
        toNm := s.toNm ++ (turn env s.loop s.server frame.text).2.2
        loop := (turn env s.loop s.server frame.text).1
        server := (turn env s.loop s.server frame.text).2.1
        read := frame.payload.toList.map (fun json => (json, (turn env s.loop s.server frame.text).2.2)) ++ s.read }) :
      Healthy { s with
        toServer := rest
        toNm := s.toNm ++ (turn env s.loop s.server frame.text).2.2
        loop := (turn env s.loop s.server frame.text).1
        server := (turn env s.loop s.server frame.text).2.1
        read := frame.payload.toList.map (fun json => (json, (turn env s.loop s.server frame.text).2.2)) ++ s.read } := by
    refine ⟨hflow, ?_, ?_⟩
    · rw [← hsent]
      cases frame with
      | response json => rfl
      | command json => simp [Frame.payload]
    · intro r hr
      rcases List.mem_append.1 hr with hr | hr
      · cases frame with
        | response json => simp [Frame.payload] at hr
        | command json =>
          simp only [Frame.payload, Option.toList_some, List.map_singleton, List.mem_singleton] at hr
          subst hr
          exact hanswer json rfl
      · exact h.answered r hr
  cases h.flow with
  | early hloop hack tickets htickets hto =>
    cases tickets with
    | nil =>
      rw [hframes] at hto
      cases hto
    | cons json tickets =>
      rw [hframes] at hto
      cases hto
      have hturn := registerTurn_ticket (htickets json List.mem_cons_self) env s.server
      rw [hloop] at hbooks ⊢
      refine hbooks (fun _ _ => hturn.2) (.early hturn.1 hack tickets ?_ rfl)
      intro json' hjson'
      exact htickets json' (List.mem_cons_of_mem _ hjson')
  | between hloop hack tickets commands htickets hto =>
    cases tickets with
    | nil =>
      rw [hframes] at hto
      cases hto
      rw [hloop] at hbooks ⊢
      refine hbooks ?_ (.late (registerTurn_ack env s.server) hack commands rfl)
      intro json hjson
      cases hjson
    | cons json tickets =>
      rw [hframes] at hto
      cases hto
      have hturn := registerTurn_ticket (htickets json List.mem_cons_self) env s.server
      rw [hloop] at hbooks ⊢
      refine hbooks (fun _ _ => hturn.2) (.between hturn.1 hack tickets commands ?_ rfl)
      intro json' hjson'
      exact htickets json' (List.mem_cons_of_mem _ hjson')
  | late hloop hack commands hto =>
    cases commands with
    | nil =>
      rw [hframes] at hto
      cases hto
    | cons json commands =>
      rw [hframes] at hto
      cases hto
      have hanswered : Answered (turn env s.loop s.server json).2.2 := by
        rw [hloop]
        exact (Ss.answered_processNmCommand_iff env s.server json).2 (hg hloop json _ hframes)
      refine hbooks (fun _ _ => hanswered) (.late ?_ hack commands rfl)
      rw [hloop]
      rfl

theorem Flow.command (hf : s.Flow) {json : Text} (hg : s.Ready (.forward json)) {u : Link} (hloop : u.loop = s.loop)
    (hack : u.acknowledged = s.acknowledged) (hto : u.toServer = s.toServer ++ [.command json]) : u.Flow := by
  cases hf with
  | early hloop' hack' tickets htickets hframes =>
    have hjson : TicketOnly json := by
      rcases hg with h | h
      · rw [hack'] at h
        cases h
      · exact h
    refine .early (hloop.trans hloop') (hack.trans hack') (tickets ++ [json]) ?_ ?_
    · intro json' hjson'
      rcases List.mem_append.1 hjson' with hmem | hmem
      · exact htickets json' hmem
      · exact List.mem_singleton.1 hmem ▸ hjson
    · rw [hto, hframes, List.map_append, List.map_singleton]
  | between hloop' hack' tickets commands htickets hframes =>
    refine .between (hloop.trans hloop') (hack.trans hack') tickets (commands ++ [json]) htickets ?_
    rw [hto, hframes, List.map_append, List.map_singleton, List.append_assoc, List.cons_append]
  | late hloop' hack' commands hframes =>
    refine .late (hloop.trans hloop') (hack.trans hack') (commands ++ [json]) ?_
    rw [hto, hframes, List.map_append, List.map_singleton]

theorem Healthy.step (h : s.Healthy) {e : Event} (hg : s.Ready e) (hs : s.step e = some t) : t.Healthy := by
  -- a step that touches neither the frames nor the loop
  have hidle {u : Link} (hack : u.acknowledged = s.acknowledged) (hloop : u.loop = s.loop) (hto : u.toServer = s.toServer)
      (hread : u.read = s.read) (hsent : u.sent = s.sent) : u.Healthy := by
    refine ⟨?_, ?_, ?_⟩
    · cases h.flow with
      | early hloop' hack' tickets htickets hframes =>
        exact .early (hloop.trans hloop') (hack.trans hack') tickets htickets (hto.trans hframes)
      | between hloop' hack' tickets commands htickets hframes =>
        exact .between (hloop.trans hloop') (hack.trans hack') tickets commands htickets (hto.trans hframes)
      | late hloop' hack' commands hframes =>
        exact .late (hloop.trans hloop') (hack.trans hack') commands (hto.trans hframes)
    · rw [hto, hread, hsent]
      exact h.sent
    · rw [hread]
      exact h.answered
  cases e with
  | register =>
    obtain ⟨-, hs⟩ := Option.ite_none_right_eq_some.1 hs
    cases hs
    exact hidle rfl rfl rfl rfl rfl
  | mark =>
    obtain ⟨-, hs⟩ := Option.ite_none_right_eq_some.1 hs
    cases hs
    exact hidle rfl rfl rfl rfl rfl
  | acknowledge =>
    obtain ⟨⟨-, hnot⟩, hs⟩ := Option.ite_none_right_eq_some.1 hs
    cases hs
    refine ⟨?_, ?_, h.answered⟩
    · cases h.flow with
      | early hloop hack tickets htickets hframes =>
        refine .between hloop rfl tickets [] htickets ?_
        rw [hframes]
        rfl
      | between hloop hack tickets commands htickets hframes =>
        rw [hnot] at hack
        cases hack
      | late hloop hack commands hframes =>
        rw [hnot] at hack
        cases hack
    · have hsent := h.sent
      simp only [List.filterMap_append, List.filterMap_cons, Frame.payload, List.filterMap_nil, List.append_nil]
      exact hsent
  | forward json =>
    obtain ⟨-, hs⟩ := Option.ite_none_right_eq_some.1 hs
    cases hs
    refine ⟨h.flow.command hg rfl rfl rfl, ?_, h.answered⟩
    have hsent := h.sent
    simp only [List.filterMap_append, List.filterMap_cons, Frame.payload, List.filterMap_nil, List.reverse_append,
      List.reverse_cons, List.reverse_nil, List.nil_append, List.cons_append]
    rw [hsent]
  | deliver =>
    simp only [Link.step] at hs
    split at hs
    · cases hs
      exact hidle rfl rfl rfl rfl rfl
    · cases hs
  | read env => exact h.read hg hs
  | change server =>
    cases hs
    exact hidle rfl rfl rfl rfl rfl

/-- A step that is not ready loses a command. -/
theorem doomed_of_not_ready (h : s.Healthy) {e : Event} (hg : ¬ s.Ready e) (hs : s.step e = some t) : t.Doomed := by
  cases e with
  | register => exact absurd trivial hg
  | mark => exact absurd trivial hg
  | acknowledge => exact absurd trivial hg
  | deliver => exact absurd trivial hg
  | change server => exact absurd trivial hg
  | forward json =>
    obtain ⟨hack, hjson⟩ := not_or.1 hg
    obtain ⟨-, hs⟩ := Option.ite_none_right_eq_some.1 hs
    cases hs
    cases h.flow with
    | early hloop hack' tickets htickets hframes =>
      refine .waits hloop tickets json [] hjson ?_
      rw [hframes]
    | between hloop hack' tickets commands htickets hframes => exact absurd hack' hack
    | late hloop hack' commands hframes => exact absurd hack' hack
  | read env =>
    obtain ⟨hloop, json, rest, hframes, hlost⟩ : s.loop = .serving ∧ ∃ json rest,
        s.toServer = .command json :: rest ∧ ReplyLost env s.server json := by
      simp only [Ready, not_forall, not_not] at hg
      obtain ⟨hloop, json, rest, hframes, hlost⟩ := hg
      exact ⟨hloop, json, rest, hframes, hlost⟩
    obtain ⟨frame, rest', hframes', -, rfl⟩ := step_read hs
    rw [hframes] at hframes'
    cases hframes'
    refine .lost (json, (turn env s.loop s.server json).2.2) List.mem_cons_self ?_
    rw [hloop]
    exact fun hanswered => (Ss.answered_processNmCommand_iff env s.server json).1 hanswered hlost

/-- The commands in front of a frame that is none are tickets. -/
theorem ne_of_tickets {tickets before : List Text} {later after : List Frame} {json : Text} (hjson : ¬ TicketOnly json)
    (htickets : ∀ ticket ∈ tickets, TicketOnly ticket)
    (hlater : ∀ frame, later.head? = some frame → frame.payload = none) :
    tickets.map Frame.command ++ later ≠ before.map .command ++ .command json :: after := by
  intro heq
  induction tickets generalizing before with
  | nil =>
    cases before with
    | nil =>
      simp only [List.map_nil, List.nil_append] at heq
      cases hlater _ (by rw [heq, List.head?_cons])
    | cons first before =>
      rw [List.map_nil, List.nil_append, List.map_cons, List.cons_append] at heq
      cases hlater _ (by rw [heq, List.head?_cons])
  | cons ticket tickets ih =>
    cases before with
    | nil =>
      rw [List.map_cons, List.cons_append, List.map_nil, List.nil_append] at heq
      cases heq
      exact hjson (htickets json List.mem_cons_self)
    | cons first before =>
      rw [List.map_cons, List.cons_append, List.map_cons, List.cons_append] at heq
      injection heq with _ heq
      exact ih (fun ticket' ht => htickets ticket' (List.mem_cons_of_mem _ ht)) heq

theorem Healthy.not_doomed (h : s.Healthy) : ¬ s.Doomed := by
  intro hd
  cases hd with
  | lost r hr hanswered => exact hanswered (h.answered r hr)
  | waits hloop before json after hjson hframes =>
    cases h.flow with
    | early hloop' hack tickets htickets hto =>
      refine @ne_of_tickets tickets before [] after json hjson htickets ?_ ?_
      · intro frame hframe
        cases hframe
      · rw [List.append_nil, ← hto, hframes]
    | between hloop' hack tickets commands htickets hto =>
      refine ne_of_tickets hjson htickets ?_ (hto.symm.trans hframes)
      · intro frame hframe
        cases hframe
        rfl
    | late hloop' hack commands hto =>
      rw [hloop] at hloop'
      cases hloop'

end Step

/-! ## Runs -/

section Run

variable {tr : List (Link × Event)} {s : Link} (h : system.Run tr s)

include h

theorem throughout_not_doomed_iff : System.Throughout (fun s => ¬ s.Doomed) tr s ↔ System.Meets Ready tr := by
  refine h.holds_iff (I := Healthy) ?_ ?_ ?_ ?_
  · intro s hs
    exact healthy_started hs
  · intro s e t hI hg hs
    exact hI.step hg hs
  · intro s hI
    exact hI.not_doomed
  · intro s e t hI hg hs
    exact not_not.2 (doomed_of_not_ready hI hg hs)

theorem not_doomed_iff : ¬ s.Doomed ↔ System.Meets Ready tr := by
  rw [← throughout_not_doomed_iff h]
  constructor
  · refine h.throughout_of_last (P := fun s => ¬ s.Doomed) ?_
    intro s e t hs ht hd
    exact ht (hd.step hs)
  · intro hall
    exact hall.1

/-- **Every command is answered by exactly one reply, exactly when only tickets were forwarded before the
acknowledgement** and no reply was lost at the server, once the server has read all there is to read. -/
theorem answered_iff (hsettled : s.Settled) : s.AllAnswered ↔ System.Meets Ready tr := by
  constructor
  · intro hall
    refine (not_doomed_iff h).1 ?_
    intro hd
    cases hd with
    | lost r hr hanswered => exact hanswered (hall.2 r hr)
    | waits hloop before json after hjson hframes =>
      rcases hsettled with hnil | hexited
      · rw [hnil] at hframes
        simp at hframes
      · rw [hloop] at hexited
        cases hexited
  · intro hmeets
    have hhealthy : s.Healthy :=
      h.invariant (fun _ => healthy_started) (fun _ _ _ hI hg hs => hI.step hg hs) hmeets
    refine ⟨?_, hhealthy.answered⟩
    have hnil : s.toServer = [] := by
      rcases hsettled with hnil | hexited
      · exact hnil
      · cases hhealthy.flow with
        | early hloop _ _ _ _ =>
          rw [hexited] at hloop
          cases hloop
        | between hloop _ _ _ _ _ =>
          rw [hexited] at hloop
          cases hloop
        | late hloop _ _ _ =>
          rw [hexited] at hloop
          cases hloop
    have hsent := hhealthy.sent
    rwa [hnil] at hsent

end Run

/-- The connection of a server that is about to register. -/
def fresh : Link :=
  ⟨4, -1, false, false, false, [], [], .registering, ⟨Ss.ssStateInit (Text.lit "/s"), fun _ => none, []⟩, [], []⟩

theorem started_fresh : fresh.Started := ⟨by decide, by decide, rfl, rfl, rfl, rfl, rfl, rfl, rfl, rfl⟩

/-- A ticket reaches the server before the acknowledgement does. -/
theorem ticket_answered : ∃ tr s, system.Run tr s ∧ s.sent.length = 1 ∧ s.AllAnswered := by
  have hexec : (System.exec step [] fresh
      [.register, .mark, .forward (printMessage
        [(Text.lit "type", .string (Text.lit "NM_TICKET")), (Text.lit "token", .string ['t']),
          (Text.lit "file", .string ['f']), (Text.lit "user", .string ['u']),
          (Text.lit "op", .string (Text.lit "READ")), (Text.lit "expiry", .number ['9'])]),
        .read (.allOk 0), .acknowledge, .read (.allOk 0)]).map
      (fun r => decide (r.2.toServer = [] ∧ r.2.sent.length = 1) && r.1.all fun p => decide (p.1.loop = .registering) &&
        match p.2 with
        | .forward json => decide (TicketOnly json)
        | _ => true) = some true := by decide +kernel
  obtain ⟨⟨tr, s⟩, hexec, hcheck⟩ := Option.map_eq_some_iff.1 hexec
  have hrun : system.Run tr s := System.Run.exec (.start started_fresh) hexec
  obtain ⟨hlast, hall⟩ := Bool.and_eq_true_iff.1 hcheck
  obtain ⟨hnil, hlength⟩ := of_decide_eq_true hlast
  have hmeets : System.Meets Ready tr := by
    rintro ⟨s, e⟩ hp
    obtain ⟨hloop, hevent⟩ := Bool.and_eq_true_iff.1 (List.all_eq_true.1 hall (s, e) hp)
    have hregistering : s.loop = .registering := of_decide_eq_true hloop
    cases e with
    | forward json => exact .inr (of_decide_eq_true hevent)
    | read env =>
      intro hserving
      cases hregistering.symm.trans hserving
    | register => trivial
    | mark => trivial
    | acknowledge => trivial
    | deliver => trivial
    | change server => trivial
  exact ⟨tr, s, hrun, hlength, (answered_iff hrun (.inl hnil)).2 hmeets⟩

/-- The server is chosen for a new file before it has been acknowledged, and drops the command. -/
theorem create_dropped : ∃ tr s, system.Run tr s ∧ s.Settled ∧ s.loop = .serving ∧ ¬ s.AllAnswered := by
  have hexec : (System.exec step [] fresh
      [.register, .mark, .forward (printMessage
        [(Text.lit "type", .string (Text.lit "NM_CREATE")), (Text.lit "file", .string ['f']),
          (Text.lit "owner", .string ['u'])]),
        .acknowledge, .read (.allOk 0), .read (.allOk 0)]).map
      (fun r => decide (r.2.toServer = [] ∧ r.2.loop = .serving ∧ r.2.read.map Prod.snd = [[]])) = some true := by
    decide +kernel
  obtain ⟨⟨tr, s⟩, hexec, hcheck⟩ := Option.map_eq_some_iff.1 hexec
  obtain ⟨hnil, hserving, hread⟩ := of_decide_eq_true hcheck
  refine ⟨tr, s, System.Run.exec (.start started_fresh) hexec, .inl hnil, hserving, ?_⟩
  intro hall
  obtain ⟨r, hr, hframes⟩ : ∃ r ∈ s.read, r.2 = [] := List.mem_map.1 (by rw [hread]; exact List.mem_singleton_self _)
  have hanswered := hall.2 r hr
  rw [hframes] at hanswered
  exact not_answered_nil hanswered

end Link

end CoWrite.Cluster
