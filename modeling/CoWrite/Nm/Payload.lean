import CoWrite.Common.Message
import CoWrite.Nm.State
import CoWrite.Ss.Command

/-!
# Commands the name manager sends

The payloads that `nm_main.c` builds for a storage server: eight formats, of which `NM_CREATE`,
`NM_DELETE`, `NM_TICKET` and `NM_UNDO` print names as they are and the others escape them. What was
accepted always fits the buffers (`exists_payload`), and `strings_read_iff` says which commands the
storage server reads as they were meant.
-/

namespace CoWrite.Nm

open CoWrite.Ss (SS_NAME_MAX SS_USER_MAX MAX_TOKEN_LEN MAX_JSON)

/-- A token of `randutil_token`: 63 letters and digits. -/
structure Token where
  text : Text
  length : text.length = 63
  alphanum : ∀ c ∈ text, c.isAlphanum

/-- The operations tickets are issued for. -/
inductive TicketOp where
  | READ
  | STREAM
  | WRITE
deriving DecidableEq, Repr

def TicketOp.text : TicketOp → Text
  | .READ => Text.lit "READ"
  | .STREAM => Text.lit "STREAM"
  | .WRITE => Text.lit "WRITE"

/-- A registered storage server's address, in its buffers. -/
structure Address where
  host : Text
  dataPort : Text
  hostShort : host.length < 64
  portShort : dataPort.length < 16

/-- A command with what the name manager puts in: names that passed its checks, users that said
hello. -/
inductive NmCommand where
  | create (file : FileName) (owner : UserName)
  | delete (file : FileName)
  | ticket (token : Token) (file : FileName) (user : UserName) (op : TicketOp) (expiry : Int)
    (range : LONG_MIN ≤ expiry ∧ expiry ≤ LONG_MAX)
  | undo (file : FileName) (user : UserName)
  | sync (file : FileName) (owner : UserName) (source : Address) (token : Token)
  | checkpointCreate (file tag : FileName) (user : UserName)
  | checkpointView (file tag : FileName) (user : UserName)
  | checkpointRevert (file tag : FileName) (user : UserName)

/-! ## The payloads -/

/-- `snprintf` into a buffer of `n` bytes, refused when the message does not fit. -/
def format (n : Nat) (fields : List Field) : Option Text :=
  if (printMessage fields).length ≥ n then none else some (printMessage fields)

def typeField (type : String) : Field := (Text.lit "type", .string (Text.lit type))

/-- `handle_client_create`. -/
def createFields (file owner : Text) : List Field :=
  [typeField "NM_CREATE", (Text.lit "file", .string file), (Text.lit "owner", .string owner)]

/-- `handle_client_delete`. -/
def deleteFields (file : Text) : List Field :=
  [typeField "NM_DELETE", (Text.lit "file", .string file)]

/-- `issue_ticket`; the entry's copies of its arguments are what it prints. -/
def ticketFields (token file user op : Text) (expiry : Int) : List Field :=
  [typeField "NM_TICKET",
    (Text.lit "token", .string (Text.copyTo 64 token)),
    (Text.lit "file", .string (Text.copyTo NM_MAX_NAME file)),
    (Text.lit "user", .string (Text.copyTo NM_MAX_USER user)),
    (Text.lit "op", .string (Text.copyTo 16 op)),
    (Text.lit "expiry", .number (printInt expiry))]

/-- `handle_client_undo`. -/
def undoFields (file user : Text) : List Field :=
  [typeField "NM_UNDO", (Text.lit "file", .string file), (Text.lit "user", .string user)]

/-- `replicate_file_to_backup`, on escaped texts. -/
def syncFields (file owner host port ticket : Text) : List Field :=
  [typeField "NM_SYNC",
    (Text.lit "file", .string file),
    (Text.lit "owner", .string owner),
    (Text.lit "sourceHost", .string host),
    (Text.lit "sourcePort", .string port),
    (Text.lit "ticket", .string ticket)]

/-- The three checkpoint commands, on escaped texts. -/
def checkpointFields (type : String) (file tag user : Text) : List Field :=
  [typeField type, (Text.lit "file", .string file), (Text.lit "tag", .string tag),
    (Text.lit "user", .string user)]

/-- `handle_client_checkpoint`, `handle_client_viewcheckpoint`, `handle_client_revert`. -/
def checkpointPayload (type : String) (file tag user : Text) : Option Text :=
  (jsonEscapeString (NM_MAX_NAME * 2) file).bind fun file =>
    (jsonEscapeString (NM_MAX_NAME * 2) tag).bind fun tag =>
      (jsonEscapeString (NM_MAX_USER * 2) user).bind fun user =>
        format MAX_JSON (checkpointFields type file tag user)

/-- The frame of a command, where every buffer is large enough. -/
def NmCommand.payload : NmCommand → Option Text
  | .create file owner => format 512 (createFields file.text owner.text)
  | .delete file => format 256 (deleteFields file.text)
  | .ticket token file user op expiry _ =>
    format 512 (ticketFields token.text file.text user.text op.text expiry)
  | .undo file user => format 512 (undoFields file.text user.text)
  | .sync file owner source token =>
    (jsonEscapeString (NM_MAX_NAME * 2) file.text).bind fun file =>
      (jsonEscapeString (NM_MAX_USER * 2) owner.text).bind fun owner =>
        (jsonEscapeString 256 source.host).bind fun host =>
          (jsonEscapeString 64 source.dataPort).bind fun port =>
            (jsonEscapeString 64 token.text).bind fun ticket =>
              format MAX_JSON (syncFields file owner host port ticket)
  | .checkpointCreate file tag user =>
    checkpointPayload "NM_CHECKPOINT_CREATE" file.text tag.text user.text
  | .checkpointView file tag user =>
    checkpointPayload "NM_CHECKPOINT_VIEW" file.text tag.text user.text
  | .checkpointRevert file tag user =>
    checkpointPayload "NM_CHECKPOINT_REVERT" file.text tag.text user.text

/-! ## What the storage server reads -/

/-- A string that `process_nm_command` reads: its key and buffer, the value that was put in, and
whether it was escaped on the way. -/
structure ReadString where
  key : Text
  size : Nat
  value : Text
  escaped : Bool

def ReadString.field (s : ReadString) : Field :=
  (s.key, .string (if s.escaped then jsonEscape s.value else s.value))

def readType (type : String) : ReadString := ⟨Text.lit "type", 64, Text.lit type, false⟩
def readFile (escaped : Bool) (file : FileName) : ReadString :=
  ⟨Text.lit "file", SS_NAME_MAX, file.text, escaped⟩
def readTag (tag : FileName) : ReadString := ⟨Text.lit "tag", SS_NAME_MAX, tag.text, true⟩
def readUser (escaped : Bool) (key : String) (user : UserName) : ReadString :=
  ⟨Text.lit key, SS_USER_MAX, user.text, escaped⟩

def checkpointStrings (type : String) (file tag : FileName) (user : UserName) : List ReadString :=
  [readType type, readFile true file, readTag tag, readUser true "user" user]

/-- The strings that `process_nm_command` reads from the frame of a command, in the frame's order. -/
def NmCommand.strings : NmCommand → List ReadString
  | .create file owner =>
    [readType "NM_CREATE", readFile false file, readUser false "owner" owner]
  | .delete file => [readType "NM_DELETE", readFile false file]
  | .ticket token file user op _ _ =>
    [readType "NM_TICKET", ⟨Text.lit "token", MAX_TOKEN_LEN, token.text, false⟩,
      readFile false file, readUser false "user" user, ⟨Text.lit "op", 16, op.text, false⟩]
  | .undo file user => [readType "NM_UNDO", readFile false file, readUser false "user" user]
  | .sync file owner source token =>
    [readType "NM_SYNC", readFile true file, readUser true "owner" owner,
      ⟨Text.lit "sourceHost", 64, source.host, true⟩,
      ⟨Text.lit "sourcePort", 16, source.dataPort, true⟩,
      ⟨Text.lit "ticket", MAX_TOKEN_LEN, token.text, true⟩]
  | .checkpointCreate file tag user => checkpointStrings "NM_CHECKPOINT_CREATE" file tag user
  | .checkpointView file tag user => checkpointStrings "NM_CHECKPOINT_VIEW" file tag user
  | .checkpointRevert file tag user => checkpointStrings "NM_CHECKPOINT_REVERT" file tag user

/-- Every string comes out of the frame as it was put in. -/
def ReadAsMeant (frame : Text) (strings : List ReadString) : Prop :=
  ∀ s ∈ strings, jsonGetString frame s.key s.size = some s.value

/-- The names that the command prints without escaping need none. -/
def NmCommand.PrintsPlain : NmCommand → Prop
  | .create file owner => Plain file.text ∧ Plain owner.text
  | .delete file => Plain file.text
  | .ticket _ file user _ _ _ => Plain file.text ∧ Plain user.text
  | .undo file user => Plain file.text ∧ Plain user.text
  | _ => True

/-! ## What fits the buffers -/

theorem length_jsonEscape_le (s : Text) : (jsonEscape s).length ≤ 2 * s.length := by
  induction s with
  | nil => simp [jsonEscape]
  | cons c s ih =>
    have hc : (escapeChar c).length ≤ 2 := by unfold escapeChar; split <;> simp
    rw [jsonEscape_cons, List.length_append, List.length_cons]
    omega

/-- Twice the size is room enough for an escaped text. -/
theorem jsonEscapeString_of_length {n : Nat} {s : Text} (h : List.length s < n) :
    jsonEscapeString (n * 2) s = some (jsonEscape s) := by
  have := length_jsonEscape_le s
  exact if_pos (by omega)

theorem jsonEscape_of_alphanum {s : Text} (h : ∀ c ∈ s, c.isAlphanum) : jsonEscape s = s := by
  induction s with
  | nil => rfl
  | cons c s ih =>
    have hc : c ∉ ['"', '\\', '\n', '\r', '\t'] := by
      intro hc
      have := h c (by simp)
      simp only [List.mem_cons, List.not_mem_nil, or_false] at hc
      rcases hc with rfl | rfl | rfl | rfl | rfl <;> simp at this
    rw [jsonEscape_cons, escapeChar_of_ne hc, ih fun d hd => h d (List.mem_cons_of_mem _ hd)]
    rfl

theorem plain_of_alphanum {s : Text} (h : ∀ c ∈ s, c.isAlphanum) : Plain s :=
  ⟨fun hq => by simpa using h _ hq, fun hb => by simpa using h _ hb⟩

/-- A token fits its buffer because it is never made longer. -/
theorem Token.jsonEscapeString (token : Token) :
    jsonEscapeString 64 token.text = some (jsonEscape token.text) := by
  have h : (jsonEscape token.text).length < 64 := by
    rw [jsonEscape_of_alphanum token.alphanum, token.length]
    decide
  exact if_pos h

theorem length_printMessage_le (fs : List Field) :
    (printMessage fs).length ≤ 2 + (fs.map fun f => 5 + f.1.length + f.2.print.length).sum := by
  have hfield (f : Field) : (printField f).length = 3 + f.1.length + f.2.print.length := by
    simp [printField]
    omega
  have hfields : (printFields fs).length ≤
      (fs.map fun f => 5 + f.1.length + f.2.print.length).sum := by
    induction fs with
    | nil => simp [printFields]
    | cons f fs ih =>
      cases fs with
      | nil => simp [printFields, hfield]
      | cons g fs =>
        rw [printFields_cons_cons, List.length_append, List.length_cons, hfield, List.map_cons,
          List.sum_cons]
        omega
  simp only [printMessage, List.length_append, List.length_cons, List.length_nil]
  omega

/-- The message of the fields is refused only when it does not fit. -/
theorem format_eq {n : Nat} {fields : List Field}
    (h : 2 + (fields.map fun f => 5 + f.1.length + f.2.print.length).sum < n) :
    format n fields = some (printMessage fields) :=
  if_neg (Nat.not_le.2 (Nat.lt_of_le_of_lt (length_printMessage_le fields) h))

/-! ## The round trip -/

/-- What `readAsMeant_iff` asks of the strings: keys the readers can search for, each its own, and
values that fit the buffers they are read into. -/
structure Readable (strings : List ReadString) : Prop where
  keys : ∀ s ∈ strings, IsKey s.key ∧ s.key.length < 124
  nodup : (strings.map ReadString.key).Nodup
  short : ∀ s ∈ strings, s.value.length < s.size

theorem ReadString.field_wellFormed {s : ReadString} (hk : IsKey s.key)
    (h : s.escaped = true ∨ Plain s.value) : IsKey s.field.1 ∧ s.field.2.WellFormed := by
  refine ⟨hk, ?_⟩
  by_cases he : s.escaped = true
  · simpa [ReadString.field, he, Value.WellFormed] using (escaped_jsonEscape s.value).1
  · simpa [ReadString.field, he, Value.WellFormed] using (h.resolve_left he).escaped.1

/-- **The fields of a message are read as they were meant if those printed without escaping need
none, and only then**: the first one that does is read as something else. -/
theorem readAsMeant_iff {strings : List ReadString} (h : Readable strings) (post : List Field) :
    ReadAsMeant (printMessage (strings.map ReadString.field ++ post)) strings ↔
      ∀ s ∈ strings, s.escaped = true ∨ Plain s.value := by
  suffices key : ∀ before : List Field, WellFormed before →
      (∀ s ∈ strings, NoString s.key before) →
      (ReadAsMeant (printMessage (before ++ (strings.map ReadString.field ++ post))) strings ↔
        ∀ s ∈ strings, s.escaped = true ∨ Plain s.value) from
    key [] (by simp [WellFormed]) fun _ _ => noString_nil
  obtain ⟨keys, nodup, short⟩ := h
  induction strings with
  | nil => simp [ReadAsMeant]
  | cons s strings ih =>
    intro before hbefore hno
    rw [List.forall_mem_cons] at keys short hno ⊢
    rw [List.map_cons, List.nodup_cons] at nodup
    -- what the reader finds under the first key depends on the first field alone
    have hfirst : jsonGetString (printMessage
        (before ++ ((s :: strings).map ReadString.field ++ post))) s.key s.size = some s.value ↔
        s.escaped = true ∨ Plain s.value := by
      by_cases he : s.escaped = true
      · simpa [ReadString.field, he] using jsonGetString_escaped keys.1.1 keys.1.2 hbefore hno.1
          short.1 (strings.map ReadString.field ++ post)
      · simpa [ReadString.field, he] using jsonGetString_raw keys.1.1 keys.1.2 hbefore hno.1
          short.1 (strings.map ReadString.field ++ post)
    unfold ReadAsMeant at ih ⊢
    rw [List.forall_mem_cons, hfirst]
    refine and_congr_right fun hs => ?_
    have hrest := ih keys.2 nodup.2 short.2 (before ++ [s.field])
    simp only [List.append_assoc, List.singleton_append] at hrest
    refine hrest ?_ ?_
    · intro f hf
      rcases List.mem_append.1 hf with hf | hf
      · exact hbefore f hf
      · rw [List.mem_singleton.1 hf]
        exact s.field_wellFormed keys.1.1 hs
    · intro t ht f hf hft
      rcases List.mem_append.1 hf with hf | hf
      · exact hno.2 t ht f hf hft
      · rw [List.mem_singleton.1 hf] at hft
        exact absurd (List.mem_map.2 ⟨t, ht, hft.symm⟩) nodup.1

/-! ## The eight commands -/

theorem NmCommand.readable (c : NmCommand) : Readable c.strings := by
  have hop (op : TicketOp) : op.text.length < 16 := by cases op <;> decide
  have htoken (t : Token) : t.text.length < 64 := by rw [t.length]; decide
  constructor
  · cases c <;> simp [NmCommand.strings, checkpointStrings, readType, readFile, readTag, readUser,
      IsKey, Text.lit]
  · cases c <;> simp [NmCommand.strings, checkpointStrings, readType, readFile, readTag, readUser,
      Text.lit]
  · cases c <;> simp [NmCommand.strings, checkpointStrings, readType, readFile, readTag, readUser,
      Text.lit, FileName.short, UserName.short, Address.hostShort, Address.portShort, hop, htoken]

theorem checkpointPayload_eq {type : String} (ht : type.toList.length ≤ 32)
    (file tag : FileName) (user : UserName) :
    checkpointPayload type file.text tag.text user.text = some (printMessage
      ((checkpointStrings type file tag user).map ReadString.field)) := by
  rw [checkpointPayload, jsonEscapeString_of_length file.short, Option.bind_some,
    jsonEscapeString_of_length tag.short, Option.bind_some,
    jsonEscapeString_of_length user.short, Option.bind_some]
  refine format_eq ?_
  have := length_jsonEscape_le file.text
  have := length_jsonEscape_le tag.text
  have := length_jsonEscape_le user.text
  have := file.short
  have := tag.short
  have := user.short
  simp [checkpointFields, typeField, Value.print, Text.lit, MAX_JSON]
  omega

theorem ticketFields_eq (token : Token) (file : FileName) (user : UserName) (op : TicketOp)
    (expiry : Int) : ticketFields token.text file.text user.text op.text expiry =
      [typeField "NM_TICKET", (Text.lit "token", .string token.text),
        (Text.lit "file", .string file.text), (Text.lit "user", .string user.text),
        (Text.lit "op", .string op.text), (Text.lit "expiry", .number (printInt expiry))] := by
  have hop : op.text.length < 16 := by cases op <;> decide
  rw [ticketFields, Text.copyTo_eq_self (token.length ▸ by decide), Text.copyTo_eq_self file.short,
    Text.copyTo_eq_self user.short, Text.copyTo_eq_self hop]

/-- What was accepted fits the buffers, and the frame has the strings in its fields. -/
theorem NmCommand.exists_payload (c : NmCommand) : ∃ post,
    c.payload = some (printMessage (c.strings.map ReadString.field ++ post)) := by
  cases c with
  | create file owner =>
    refine ⟨[], format_eq ?_⟩
    have := file.short
    have := owner.short
    simp [createFields, typeField, Value.print, Text.lit]
    omega
  | delete file =>
    refine ⟨[], format_eq ?_⟩
    have := file.short
    simp [deleteFields, typeField, Value.print, Text.lit]
    omega
  | ticket token file user op expiry range =>
    refine ⟨[(Text.lit "expiry", .number (printInt expiry))], ?_⟩
    rw [NmCommand.payload, ticketFields_eq]
    refine format_eq ?_
    have hop : op.text.length ≤ 6 := by cases op <;> decide
    have := file.short
    have := user.short
    have := length_printInt_le range
    simp [typeField, Value.print, Text.lit, token.length]
    omega
  | undo file user =>
    refine ⟨[], format_eq ?_⟩
    have := file.short
    have := user.short
    simp [undoFields, typeField, Value.print, Text.lit]
    omega
  | sync file owner source token =>
    refine ⟨[], ?_⟩
    have hhost : source.host.length < 128 := Nat.lt_trans source.hostShort (by decide)
    have hport : source.dataPort.length < 32 := Nat.lt_trans source.portShort (by decide)
    rw [NmCommand.payload, jsonEscapeString_of_length file.short, Option.bind_some,
      jsonEscapeString_of_length owner.short, Option.bind_some,
      jsonEscapeString_of_length hhost, Option.bind_some,
      jsonEscapeString_of_length hport, Option.bind_some,
      token.jsonEscapeString, Option.bind_some]
    refine format_eq ?_
    have := length_jsonEscape_le file.text
    have := length_jsonEscape_le owner.text
    have := length_jsonEscape_le source.host
    have := length_jsonEscape_le source.dataPort
    have := length_jsonEscape_le token.text
    have := file.short
    have := owner.short
    have := token.length
    simp [syncFields, typeField, Value.print, Text.lit, MAX_JSON]
    omega
  | checkpointCreate file tag user =>
    exact ⟨[], by rw [List.append_nil]; exact checkpointPayload_eq (by decide) file tag user⟩
  | checkpointView file tag user =>
    exact ⟨[], by rw [List.append_nil]; exact checkpointPayload_eq (by decide) file tag user⟩
  | checkpointRevert file tag user =>
    exact ⟨[], by rw [List.append_nil]; exact checkpointPayload_eq (by decide) file tag user⟩

/-- The names of a command are all it prints that could need escaping. -/
theorem NmCommand.printsPlain_iff (c : NmCommand) :
    (∀ s ∈ c.strings, s.escaped = true ∨ Plain s.value) ↔ c.PrintsPlain := by
  have hlit : ∀ t ∈ ["NM_CREATE", "NM_DELETE", "NM_TICKET", "NM_UNDO", "NM_SYNC",
      "NM_CHECKPOINT_CREATE", "NM_CHECKPOINT_VIEW", "NM_CHECKPOINT_REVERT"],
      Plain (Text.lit t) := by decide
  have hop (op : TicketOp) : Plain op.text := by cases op <;> decide
  have htoken (t : Token) : Plain t.text := plain_of_alphanum t.alphanum
  simp only [List.forall_mem_cons] at hlit
  cases c <;> simp [NmCommand.strings, checkpointStrings, readType, readFile, readTag, readUser,
    NmCommand.PrintsPlain, hlit, hop, htoken]

/-- A command whose names need no escaping is read as it was meant. -/
theorem NmCommand.read_of_plain {c : NmCommand} (h : c.PrintsPlain) :
    ∃ frame, c.payload = some frame ∧ ReadAsMeant frame c.strings := by
  obtain ⟨post, hpayload⟩ := c.exists_payload
  exact ⟨_, hpayload, (readAsMeant_iff c.readable post).2 (c.printsPlain_iff.2 h)⟩

/-- **The storage server reads a command as it was meant if the names that the command prints
without escaping need none, and only then.** -/
theorem strings_read_iff (c : NmCommand) :
    ∃ frame, c.payload = some frame ∧ (ReadAsMeant frame c.strings ↔ c.PrintsPlain) := by
  obtain ⟨post, h⟩ := c.exists_payload
  exact ⟨_, h, (readAsMeant_iff c.readable post).trans c.printsPlain_iff⟩

/-- The name `a"b` passes the checks, and deleting it deletes `a`. -/
theorem delete_reads_other_file :
    let c := NmCommand.delete ⟨Text.lit "a\"b", by decide, by decide⟩
    ∃ frame, c.payload = some frame ∧ ¬ ReadAsMeant frame c.strings ∧
      jsonGetString frame (Text.lit "file") SS_NAME_MAX = some (Text.lit "a") := by
  refine ⟨printMessage (deleteFields (Text.lit "a\"b")), by decide, ?_, by decide⟩
  intro h
  have hfile := h ⟨Text.lit "file", SS_NAME_MAX, Text.lit "a\"b", false⟩
    (by simp [NmCommand.strings, readFile])
  exact absurd hfile (by decide)

end CoWrite.Nm
