import CoWrite.Cluster.Handlers
import CoWrite.Cluster.Notices
import CoWrite.Cluster.Tickets
import CoWrite.Ss.Atomic

/-!
# Numbers in messages

Senders print a `long` or a `size_t`, and `json_get_int` casts what `strtol` reads to an `int`. The expiry of a ticket
arrives as it was sent exactly when an `int` holds it, unless a name has the key before it (`ticket_expiry_iff`), so a
fresh ticket is expired from 2038 on (`fresh_ticket_iff`). The name manager leaves out negative counts and times that
are zero (`notice_numbers_iff`).
-/

namespace CoWrite.Cluster

open CoWrite.Nm
open CoWrite.Ss (SsFile AuthTicket notifyNmFileUpdate handleNmTicketCommand)
open Handlers (TICKET_TTL)

/-! ## The cast -/

theorem toInt32_eq_iff {z : Int} : toInt32 z = z ↔ IsInt z := by
  constructor
  · intro h
    rw [← h]
    exact isInt_toInt32 z
  · exact toInt32_eq_self

theorem toInt32_eq_zero_iff {z : Int} : toInt32 z = 0 ↔ (2 ^ 32 : Int) ∣ z := by
  unfold toInt32
  rw [Int.bmod_def]
  omega

/-- A count arrives if an `int` holds it: a larger one is cut off, cast, and left out where that is negative. -/
theorem count_received_iff {n : Nat} : (toInt32 (clampLong n)).toNat = n ↔ n < 2 ^ 31 := by
  constructor
  · intro h
    have hint := isInt_toInt32 (clampLong n)
    unfold IsInt at hint
    omega
  · intro h
    rw [toInt32_clampLong_natCast h]
    rfl

/-- A time that is zero after its cast is not entered. -/
theorem time_received_iff {z old : Int} : (if toInt32 z ≠ 0 then toInt32 z else old) = z ↔
    (IsInt z ∧ z ≠ 0) ∨ ((2 ^ 32 : Int) ∣ z ∧ old = z) := by
  split
  · next hne =>
    rw [toInt32_eq_iff]
    constructor
    · intro hint
      refine .inl ⟨hint, fun hz => hne ?_⟩
      rw [hz]
      rfl
    · rintro (⟨hint, -⟩ | ⟨hdvd, -⟩)
      · exact hint
      · exact absurd (toInt32_eq_zero_iff.2 hdvd) hne
  · next hzero =>
    rw [ne_eq, not_not] at hzero
    constructor
    · intro h
      exact .inr ⟨toInt32_eq_zero_iff.1 hzero, h⟩
    · rintro (⟨hint, hne⟩ | ⟨-, h⟩)
      · rw [toInt32_eq_iff.2 hint] at hzero
        exact absurd hzero hne
      · exact h

/-! ## Up to a comma -/

/-- A number is read no further than a comma. -/
theorem scanInt_append_comma (x y : Text) :
    (scanInt (x ++ ',' :: y)).map Prod.fst = (scanInt x).map Prod.fst := by
  have hspace : (x ++ ',' :: y).dropWhile isSpace = x.dropWhile isSpace ++ ',' :: y := by
    rw [List.dropWhile_append]
    split
    · next hempty =>
      rw [List.isEmpty_iff.1 hempty]
      rfl
    · rfl
  have hsign (s : Text) : takeSign (s ++ ',' :: y) = ((takeSign s).1, (takeSign s).2 ++ ',' :: y) := by
    cases s with
    | nil => rfl
    | cons c s =>
      by_cases hminus : c = '-'
      · subst hminus
        rfl
      by_cases hplus : c = '+'
      · subst hplus
        rfl
      simp [takeSign, hminus, hplus]
  have hdigits (s : Text) : (s ++ ',' :: y).takeWhile Char.isDigit = s.takeWhile Char.isDigit := by
    rw [List.takeWhile_append]
    split
    · next hlen =>
      rw [List.takeWhile_cons_of_neg (by decide), List.append_nil]
      exact ((List.takeWhile_prefix _).eq_of_length hlen).symm
    · rfl
  unfold scanInt
  simp only [hspace, hsign, hdigits]
  split <;> rfl

theorem strtol_fst (s : Text) : (strtol s).map Prod.fst = ((scanInt s).map Prod.fst).map clampLong := by
  unfold strtol
  cases scanInt s <;> rfl

/-- The search of `json_get_int` ends before a comma, or starts behind it. -/
theorem jsonGetInt_append_comma {key : Text} (hkey : IsKey key) (hlen : key.length < 124) (x y : Text) :
    jsonGetInt (x ++ ',' :: y) key = if strstr (keyColon key) x = none then jsonGetInt y key else jsonGetInt x key := by
  have hcomma : ',' ∉ keyColon key := by
    simp [keyColon, hkey.ne (show (',' : Char).isAlpha = false by decide)]
  unfold jsonGetInt
  rw [keyPattern_eq hlen _ (by decide), List.append_nil]
  simp only [Option.bind_some]
  rw [Ss.strstr_append_comma hcomma (by simp [keyColon])]
  cases strstr (keyColon key) x with
  | none => rfl
  | some p =>
    have hread := congrArg (Option.map toInt32) (((strtol_fst _).trans
      (congrArg (Option.map clampLong) (scanInt_append_comma p y))).trans (strtol_fst p).symm)
    simp only [Option.map_map] at hread
    exact hread

/-! ## Tickets -/

section Ticket

variable (token : Nm.Token) (file : FileName) (user : UserName) (op : TicketOp) {expiry : Int}

/-- The fields of a ticket in front of its expiry. -/
def namedFields : List Field :=
  [typeField "NM_TICKET", (Text.lit "token", .string token.text), (Text.lit "file", .string file.text),
    (Text.lit "user", .string user.text), (Text.lit "op", .string op.text)]

/-- The frame of a ticket up to its expiry. -/
def beforeExpiry : Text := '{' :: printFields (namedFields token file user op)

/-- The key of the expiry stands in none of the names. -/
def KeyOnce : Prop := strstr (keyColon (Text.lit "expiry")) (beforeExpiry token file user op) = none

/-- The number behind the key in a name. -/
def readInName : Option Int := jsonGetInt (beforeExpiry token file user op) (Text.lit "expiry")

variable {token file user op}

theorem readInName_of_keyOnce (h : KeyOnce token file user op) : readInName token file user op = none := by
  unfold readInName jsonGetInt
  unfold KeyOnce at h
  rw [keyPattern_eq (by decide) _ (by decide), List.append_nil, Option.bind_some, h]
  rfl

/-- What `json_get_int` makes of the expiry. -/
theorem jsonGetInt_expiry (hexpiry : IsTime expiry) : jsonGetInt (ticketFrame token file user op expiry) (Text.lit "expiry") =
    if strstr (keyColon (Text.lit "expiry")) (beforeExpiry token file user op) = none then some (toInt32 expiry)
    else readInName token file user op := by
  have hframe : ticketFrame token file user op expiry = beforeExpiry token file user op ++
      ',' :: (keyColon (Text.lit "expiry") ++ (printInt expiry ++ ['}'])) := by
    rw [ticketFrame, ticketFields_eq]
    simp [beforeExpiry, namedFields, printMessage, printFields, printField, keyColon, Value.print]
  have hlast : jsonGetInt (keyColon (Text.lit "expiry") ++ (printInt expiry ++ ['}'])) (Text.lit "expiry") =
      some (toInt32 expiry) := by
    unfold jsonGetInt
    rw [keyPattern_eq (by decide) _ (by decide), List.append_nil, Option.bind_some, strstr_append, Option.bind_some,
      strtol_printed expiry (noDigitHead_cons (by decide)), clampLong_eq_self hexpiry]
    rfl
  rw [hframe, jsonGetInt_append_comma (by decide) (by decide), hlast]
  rfl

theorem decodedTicket_of_stored {env : Ss.Env} {srv : Ss.Server} {json : Text} {ticket : AuthTicket}
    (h : (handleNmTicketCommand env srv json).1.tickets = srv.tickets ++ [ticket]) : Ss.decodedTicket json = some ticket := by
  rw [Ss.handleNmTicketCommand_tickets, List.append_cancel_left_eq] at h
  split at h
  · exact Option.toList_eq_singleton_iff.1 h
  · cases h

/-- What is stored, if anything is. -/
theorem expiry_of_decodedTicket (hexpiry : IsTime expiry) {ticket : AuthTicket}
    (h : Ss.decodedTicket (ticketFrame token file user op expiry) = some ticket) :
    (KeyOnce token file user op ∧ ticket.expiry = toInt32 expiry) ∨
      readInName token file user op = some ticket.expiry := by
  have hread : jsonGetInt (ticketFrame token file user op expiry) (Text.lit "expiry") = some ticket.expiry := by
    unfold Ss.decodedTicket at h
    split at h
    · next heq =>
      cases h
      exact heq
    · cases h
  rw [jsonGetInt_expiry hexpiry] at hread
  split at hread
  · next honce => exact .inl ⟨honce, (Option.some.inj hread).symm⟩
  · exact .inr hread

/-- **The expiry of a ticket** is stored as it was sent exactly when an `int` holds it, but for a name with the key. -/
theorem ticket_expiry_iff (hexpiry : IsTime expiry) {ticket : AuthTicket}
    (h : Ss.decodedTicket (ticketFrame token file user op expiry) = some ticket) :
    ticket.expiry = expiry ↔ (KeyOnce token file user op ∧ IsInt expiry) ∨ readInName token file user op = some expiry := by
  rcases expiry_of_decodedTicket hexpiry h with ⟨honce, hstored⟩ | hname
  · rw [hstored, readInName_of_keyOnce honce, toInt32_eq_iff]
    simp [honce]
  · have hhides : ¬ KeyOnce token file user op := by
      intro honce
      rw [readInName_of_keyOnce honce] at hname
      cases hname
    rw [hname]
    simp [hhides]

/-- **A ticket that arrives in its lifetime** is not expired before 2038, or where its expiry comes out as zero, but for
a name with the key. -/
theorem fresh_ticket_iff {now arrival : Int} (hexpiry : IsTime (now + TICKET_TTL)) (hnow : now ≤ arrival)
    (harrival : arrival ≤ now + TICKET_TTL) {ticket : AuthTicket}
    (h : Ss.decodedTicket (ticketFrame token file user op (now + TICKET_TTL)) = some ticket) :
    ticket.expired arrival = false ↔
      (KeyOnce token file user op ∧ (now + TICKET_TTL < 2 ^ 31 ∨ (2 ^ 32 : Int) ∣ now + TICKET_TTL)) ∨
        ∃ z, readInName token file user op = some z ∧ (z = 0 ∨ arrival ≤ z) := by
  have hexpired : ticket.expired arrival = false ↔ ticket.expiry = 0 ∨ arrival ≤ ticket.expiry := by
    simp only [AuthTicket.expired, Bool.and_eq_false_iff, bne_eq_false_iff_eq, decide_eq_false_iff_not, Int.not_lt]
  rw [hexpired]
  rcases expiry_of_decodedTicket hexpiry h with ⟨honce, hstored⟩ | hname
  · rw [hstored, readInName_of_keyOnce honce, toInt32_eq_zero_iff, Or.comm]
    have hcast (hdvd : ¬ (2 ^ 32 : Int) ∣ now + TICKET_TTL) :
        arrival ≤ toInt32 (now + TICKET_TTL) ↔ now + TICKET_TTL < 2 ^ 31 := by
      unfold TICKET_TTL toInt32 at *
      rw [Int.bmod_def]
      omega
    rw [or_congr_left' hcast]
    simp [honce]
  · have hhides : ¬ KeyOnce token file user op := by
      intro honce
      rw [readInName_of_keyOnce honce] at hname
      cases hname
    rw [hname]
    simp [hhides]

variable (token op)

/-- Names without quotes and backslashes do not have the key. -/
theorem keyOnce_of_plain (hfile : Plain file.text) (huser : Plain user.text) : KeyOnce token file user op := by
  have hpre : WellFormed (namedFields token file user op) := wellFormed_ticketNames token file user op hfile huser
  have hne : ∀ f ∈ namedFields token file user op, f.1 ≠ Text.lit "expiry" := by
    simp only [namedFields, typeField, List.forall_mem_cons]
    decide
  -- the search passes all fields, up to a quote behind them
  have hskip := strstr_skip_fields (show IsKey (Text.lit "expiry") by decide) hpre hne [] []
  have hsplit : beforeExpiry token file user op ++ ',' :: ['"'] =
      '{' :: ((namedFields token file user op).flatMap (fun f => printField f ++ [',']) ++ ['"']) := by
    simp [beforeExpiry, namedFields, printFields]
  have hnone : strstr (keyColon (Text.lit "expiry")) (beforeExpiry token file user op ++ ',' :: ['"']) = none := by
    rw [hsplit]
    rw [List.append_nil] at hskip
    exact ((strstr_cons_of_ne (by decide) ..).trans hskip).trans (by decide)
  rw [Ss.strstr_append_comma (by decide) (by decide)] at hnone
  unfold KeyOnce
  cases hfound : strstr (keyColon (Text.lit "expiry")) (beforeExpiry token file user op) with
  | none => rfl
  | some p =>
    rw [hfound] at hnone
    cases hnone

/-- The ticket that is stored. -/
theorem decodedTicket_ticketFrame (hexpiry : IsTime expiry) (hfile : Plain file.text) (huser : Plain user.text) :
    Ss.decodedTicket (ticketFrame token file user op expiry) =
      some ⟨token.text, file.text, user.text, op.text, toInt32 expiry⟩ := by
  have hop : Plain op.text := by cases op <;> decide
  obtain ⟨frame, hframe, hread⟩ := NmCommand.read_of_plain (c := .ticket token file user op expiry hexpiry)
    ⟨hfile, huser⟩
  have heq : frame = ticketFrame token file user op expiry := eq_of_format hframe
  rw [heq] at hread
  have htoken := hread ⟨Text.lit "token", Ss.MAX_TOKEN_LEN, token.text, false⟩ (by simp [NmCommand.strings])
  have hfileRead := hread (readFile false file) (by simp [NmCommand.strings])
  have huserRead := hread (readUser false "user" user) (by simp [NmCommand.strings])
  have hopRead := hread ⟨Text.lit "op", 16, op.text, false⟩ (by simp [NmCommand.strings])
  have hexpiryRead := @jsonGetInt_expiry token file user op _ hexpiry
  have honce := keyOnce_of_plain token op hfile huser
  unfold KeyOnce at honce
  rw [if_pos honce] at hexpiryRead
  unfold Ss.decodedTicket
  simp only [readFile, readUser] at hfileRead huserRead
  rw [htoken, hfileRead, huserRead, hopRead, hexpiryRead]

theorem stored_of_plain (hexpiry : IsTime expiry) (hfile : Plain file.text) (huser : Plain user.text) {env : Ss.Env}
    (srv : Ss.Server) (hpushed : env.ticketPushed = true) :
    (handleNmTicketCommand env srv (ticketFrame token file user op expiry)).1.tickets =
      srv.tickets ++ [⟨token.text, file.text, user.text, op.text, toInt32 expiry⟩] := by
  rw [Ss.handleNmTicketCommand_tickets, if_pos hpushed, decodedTicket_ticketFrame token op hexpiry hfile huser]
  rfl

end Ticket

/-! ## Notices -/

/-- **The numbers of a notice**: a count is entered as it was sent exactly when an `int` holds it, and a time when an
`int` holds it and it is not zero, or it is entered already and comes out as zero. -/
theorem notice_numbers_iff {file : SsFile} (h : Sized file) (hwords : file.wordCount < 2 ^ 64)
    (hchars : file.charCount < 2 ^ 64) {nm : NmState} {entry : FileEntry} (hentry : nmFindFile nm file.name = some entry) :
    ∃ frame entry', notifyNmFileUpdate file = [frame] ∧
      nmFindFile (handleSsFileUpdate nm frame).1 file.name = some entry' ∧
      (entry'.wordCount = file.wordCount ↔ file.wordCount < 2 ^ 31) ∧
      (entry'.charCount = file.charCount ↔ file.charCount < 2 ^ 31) ∧
      (entry'.modified = file.modified ↔ (IsInt file.modified ∧ file.modified ≠ 0) ∨
        ((2 ^ 32 : Int) ∣ file.modified ∧ entry.modified = file.modified)) ∧
      (entry'.lastAccess = file.lastAccess ↔ (IsInt file.lastAccess ∧ file.lastAccess ≠ 0) ∨
        ((2 ^ 32 : Int) ∣ file.lastAccess ∧ entry.lastAccess = file.lastAccess)) := by
  have hread := readFileUpdate_notice h
  have hupdate : (handleSsFileUpdate nm (updateMessage file)).1 = fileUpdate nm
      ⟨file.name, (toInt32 (clampLong file.wordCount)).toNat, (toInt32 (clampLong file.charCount)).toNat,
        toInt32 file.modified, toInt32 file.lastAccess, file.lastAccessUser⟩ := by
    unfold handleSsFileUpdate
    simp only [hread, hentry]
  have hfind := (congrArg (nmFindFile · file.name) hupdate).trans (nmFindFile_modifyFile hentry rfl)
  exact ⟨_, _, notify_of_sizes h hwords hchars, hfind, count_received_iff, count_received_iff, time_received_iff,
    time_received_iff⟩

/-- **The numbers that arrive as they were sent**: those that an `int` holds, but for times that are zero and for a name
with the key of the expiry; and tickets with an expiry before 2038 are not expired on arrival. -/
theorem numbers_received_iff (token : Nm.Token) (op : TicketOp) (name : FileName) (user : UserName) (env : Ss.Env)
    (srv : Ss.Server) {file : SsFile} (hfile : Sized file) (hwords : file.wordCount < 2 ^ 64)
    (hchars : file.charCount < 2 ^ 64) {nm : NmState} {entry : FileEntry} (hentry : nmFindFile nm file.name = some entry) :
    (∀ (expiry : Int) (ticket : AuthTicket), IsTime expiry →
      (handleNmTicketCommand env srv (ticketFrame token name user op expiry)).1.tickets = srv.tickets ++ [ticket] →
      (ticket.expiry = expiry ↔
        (KeyOnce token name user op ∧ IsInt expiry) ∨ readInName token name user op = some expiry)) ∧
    (∀ (now arrival : Int) (ticket : AuthTicket), IsTime (now + TICKET_TTL) → now ≤ arrival → arrival ≤ now + TICKET_TTL →
      (handleNmTicketCommand env srv (ticketFrame token name user op (now + TICKET_TTL))).1.tickets =
        srv.tickets ++ [ticket] →
      (ticket.expired arrival = false ↔
        (KeyOnce token name user op ∧ (now + TICKET_TTL < 2 ^ 31 ∨ (2 ^ 32 : Int) ∣ now + TICKET_TTL)) ∨
          ∃ z, readInName token name user op = some z ∧ (z = 0 ∨ arrival ≤ z))) ∧
    (env.ticketPushed = true → Plain name.text → Plain user.text → KeyOnce token name user op ∧
      ∀ expiry : Int, IsTime expiry →
        ∃ ticket, (handleNmTicketCommand env srv (ticketFrame token name user op expiry)).1.tickets =
          srv.tickets ++ [ticket]) ∧
    ∃ frame entry', notifyNmFileUpdate file = [frame] ∧
      nmFindFile (handleSsFileUpdate nm frame).1 file.name = some entry' ∧
      (entry'.wordCount = file.wordCount ↔ file.wordCount < 2 ^ 31) ∧
      (entry'.charCount = file.charCount ↔ file.charCount < 2 ^ 31) ∧
      (entry'.modified = file.modified ↔ (IsInt file.modified ∧ file.modified ≠ 0) ∨
        ((2 ^ 32 : Int) ∣ file.modified ∧ entry.modified = file.modified)) ∧
      (entry'.lastAccess = file.lastAccess ↔ (IsInt file.lastAccess ∧ file.lastAccess ≠ 0) ∨
        ((2 ^ 32 : Int) ∣ file.lastAccess ∧ entry.lastAccess = file.lastAccess)) := by
  refine ⟨?_, ?_, ?_, notice_numbers_iff hfile hwords hchars hentry⟩
  · intro expiry ticket hexpiry hstored
    exact ticket_expiry_iff hexpiry (decodedTicket_of_stored hstored)
  · intro now arrival ticket hexpiry hnow harrival hstored
    exact fresh_ticket_iff hexpiry hnow harrival (decodedTicket_of_stored hstored)
  · intro hpushed hname huser
    refine ⟨keyOnce_of_plain token op hname huser, ?_⟩
    intro expiry hexpiry
    exact ⟨_, stored_of_plain token op hexpiry hname huser srv hpushed⟩

theorem short_alice : (Text.lit "alice").length < 64 := by decide

/-- A ticket of 2024 is stored with its expiry. -/
theorem numbers_received_2024 :
    let name : FileName := ⟨Text.lit "f", Ss.valid_f, Ss.short_f⟩
    let user : UserName := ⟨Text.lit "alice", short_alice⟩
    let srv : Ss.Server := ⟨Ss.ssStateInit (Text.lit "/s"), fun _ => none, []⟩
    ∃ ticket, (handleNmTicketCommand (.allOk 1700000000) srv (ticketFrame someToken name user .READ 1700000030)).1.tickets =
      [ticket] ∧ ticket.expiry = 1700000030 := by
  intro name user srv
  let file := Ss.newFile srv.state (Text.lit "f") (Text.lit "alice") 1700000000
  let nm : NmState :=
    { NmState.clear with files := [newFileEntry (Text.lit "f") (Text.lit "alice") 0 (-1) 1700000000] }
  have hfile : Sized file := ⟨by decide, by decide, by decide, by decide, by decide⟩
  have hentry : nmFindFile nm file.name = some (newFileEntry (Text.lit "f") (Text.lit "alice") 0 (-1) 1700000000) := by
    decide
  obtain ⟨hexpiry, -, hstored, -⟩ := numbers_received_iff someToken .READ name user (.allOk 1700000000) srv hfile
    (by decide) (by decide) hentry
  obtain ⟨honce, hstored⟩ := hstored rfl (by decide) (by decide)
  obtain ⟨ticket, hticket⟩ := hstored 1700000030 (by decide)
  exact ⟨ticket, hticket, (hexpiry 1700000030 ticket (by decide) hticket).2 (.inl ⟨honce, by decide, by decide⟩)⟩

/-- A ticket of thirty seconds that is issued thirty seconds before the end of the `int` times is expired at once. -/
theorem expired_on_arrival :
    let now : Int := 2 ^ 31 - 30
    let frame := ticketFrame someToken ⟨Text.lit "f", Ss.valid_f, Ss.short_f⟩ ⟨Text.lit "alice", short_alice⟩ .READ
      (now + TICKET_TTL)
    (Ss.decodedTicket frame).map AuthTicket.expiry = some (-2 ^ 31) ∧
      (Ss.decodedTicket frame).map (fun ticket => ticket.expired now) = some true := by
  intro now frame
  have hframe : Ss.decodedTicket frame = _ :=
    decodedTicket_ticketFrame someToken .READ (show IsTime (now + TICKET_TTL) by decide) (by decide) (by decide)
  rw [hframe]
  decide

end CoWrite.Cluster
