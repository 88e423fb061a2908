import Mathlib.Algebra.Group.Action.Defs
import Mathlib.Algebra.Order.Ring.Nat
import Mathlib.Algebra.Order.BigOperators.Group.List
import CoWrite.Client.Cut
import CoWrite.Client.Writing

/-!
# Commands at the prompt

The loop of `main` in the client makes a command of a line, `nm_call` makes a message of the command, and
`handle_client_message` of the name manager looks the command up in the message. `prompt_found` is about every line: what
the name manager finds is the command that the prompt understood, or it refuses the message because a name is too long.
`prompt_typed` is about the commands that can be typed.
-/

namespace CoWrite.Client.Commands

open CoWrite.Lib
open CoWrite.Nm (NM_MAX_NAME NM_MAX_USER NM_PERM_READ NM_PERM_WRITE FileEntry typeField jsonFile equalsIgnoreCase
  validCheckpointTag modePerm length_jsonEscape_le jsonEscapeString_of_length)
open CoWrite.Cluster.Handlers
open CoWrite.Ss (MAX_JSON)
open CoWrite.Client.Writing (trimNewline)

/-! ## Commands -/

/-- The commands that name a file and nothing else. -/
inductive FileOp where
  | info | create | delete | read | stream | listcheckpoints | undo | exec
deriving DecidableEq, Repr

def FileOp.type : FileOp → String
  | .info => "INFO"
  | .create => "CREATE"
  | .delete => "DELETE"
  | .read => "READ"
  | .stream => "STREAM"
  | .listcheckpoints => "LISTCHECKPOINTS"
  | .undo => "UNDO"
  | .exec => "EXEC"

/-- The commands that name a file and a checkpoint of it. -/
inductive TagOp where
  | checkpoint | viewcheckpoint | revert
deriving DecidableEq, Repr

def TagOp.type : TagOp → String
  | .checkpoint => "CHECKPOINT"
  | .viewcheckpoint => "VIEWCHECKPOINT"
  | .revert => "REVERT"

inductive Command where
  | view (flags : Text)
  | list
  | file (op : FileOp) (name : Text)
  | tag (op : TagOp) (name tag : Text)
  | write (name : Text) (sentence : Int)
  | addaccess (name user : Text) (write : Bool)
  | remaccess (name user : Text)
  | reqaccess (name : Text) (write : Bool)
  | viewreqs (sent : Bool)
  | handlereq (name user : Text) (approve : Bool)
  | exit
deriving DecidableEq, Repr

def Command.type : Command → String
  | .view _ => "VIEW"
  | .list => "LIST"
  | .file op _ => op.type
  | .tag op _ _ => op.type
  | .write _ _ => "WRITE"
  | .addaccess _ _ _ => "ADDACCESS"
  | .remaccess _ _ => "REMACCESS"
  | .reqaccess _ _ => "REQACCESS"
  | .viewreqs _ => "VIEWREQS"
  | .handlereq _ _ _ => "HANDLEREQ"
  | .exit => "CLIENT_EXIT"

/-! ## The prompt -/

/-- `strtok_r(s, " ", &save)`, with what `save` points to. -/
def strtokR (s : Text) : Option (Text × Text) :=
  match s.dropWhile (· == ' ') with
  | [] => none
  | word => some (word.takeWhile (· != ' '), (word.dropWhile (· != ' ')).drop 1)

/-- `strtok_r(NULL, "", &save)`. -/
def strtokRest (s : Text) : Option Text := if s = [] then none else some s

/-- `trim_spaces` of the client. -/
def trimSpaces (s : Text) : Text := (s.dropWhile isSpace).rdropWhile isSpace

/-- One letter of an option of `VIEW`. -/
def addFlag (flags : Text) (c : Char) : Text :=
  if (c.toLower = 'a' ∨ c.toLower = 'l') ∧ c.toLower ∉ flags then flags ++ [c.toLower] else flags

/-- What `VIEW` makes of a token. -/
def addFlags (flags : Text) : Text → Text
  | '-' :: letters => letters.foldl addFlag flags
  | _ => flags

/-- What the loop of `main` does with a line: it calls the handler of a command, prints a text, or does nothing. -/
inductive Prompt where
  | ignored
  | help
  | told (message : Text)
  | command (c : Command)
deriving DecidableEq, Repr

def usage (args : String) : Prompt := .told (Text.lit "usage: " ++ Text.lit args)

/-- `<COMMAND> <file>`, where the rest of the line is the name. -/
def promptFile (op : FileOp) (args : Text) : Prompt :=
  match strtokRest args with
  | none => usage (op.type ++ " <file>")
  | some file => .command (.file op (file.dropWhile isSpace))

/-- `LISTCHECKPOINTS <file>`, which trims both sides and wants a name. -/
def promptListcheckpoints (args : Text) : Prompt :=
  match (strtokRest args).map trimSpaces with
  | none | some [] => usage "LISTCHECKPOINTS <file>"
  | some file => .command (.file .listcheckpoints file)

/-- `<COMMAND> <file> <tag>`. -/
def promptTag (op : TagOp) (args : Text) : Prompt :=
  match strtokR args with
  | none => usage (op.type ++ " <file> <tag>")
  | some (file, args) =>
    match strtokR args with
    | none => usage (op.type ++ " <file> <tag>")
    | some (tag, _) =>
      let file := trimSpaces file
      let tag := trimSpaces tag
      if file = [] ∨ tag = [] ∨ validCheckpointTag tag = false then usage (op.type ++ " <file> <tag>")
      else .command (.tag op file tag)

/-- `WRITE <file> [sentence]`. -/
def promptWrite (args : Text) : Prompt :=
  match strtokR args with
  | none => usage "WRITE <file> [sentence]"
  | some (file, args) =>
    match args.dropWhile isSpace with
    | [] => .command (.write file 0)
    | digits =>
      match strtol digits with
      | some (z, []) => .command (.write file (toInt32 z))
      | _ => .told (Text.lit "Invalid sentence index")

/-- `-R` or `-W`. -/
def modeOption (s : Text) : Option Bool :=
  match s with
  | ['-', c] => if c = 'W' ∨ c = 'w' then some true else if c = 'R' ∨ c = 'r' then some false else none
  | _ => none

/-- The mode behind the user in `ADDACCESS`. -/
def trailingMode (mode : Text) : Bool :=
  match mode with
  | [] => false
  | c :: _ =>
    if c = 'r' ∨ c = 'R' then decide ('w' ∈ mode ∨ 'W' ∈ mode)
    else decide (c = 'w' ∨ c = 'W')

/-- `ADDACCESS [-R|-W] <file> <user>`, or the mode behind them. -/
def promptAddaccess (args : Text) : Prompt :=
  match strtokR args with
  | none => usage "ADDACCESS [-R|-W] <file> <user>"
  | some (arg1, args) =>
    match strtokR args with
    | none => usage "ADDACCESS [-R|-W] <file> <user>"
    | some (arg2, args) =>
      let arg3 := (strtokRest args).map trimSpaces
      let (file, user, write) :=
        match modeOption arg1 with
        | some write => (arg2, arg3, write)
        | none => (arg1, some arg2, trailingMode (arg3.getD []))
      match user.map trimSpaces with
      | none | some [] => usage "ADDACCESS [-R|-W] <file> <user>"
      | some user => .command (.addaccess file user write)

/-- `REMACCESS <file> <user>`. -/
def promptRemaccess (args : Text) : Prompt :=
  match strtokR args with
  | none => usage "REMACCESS <file> <user>"
  | some (file, args) =>
    match strtokRest args with
    | none => usage "REMACCESS <file> <user>"
    | some user => .command (.remaccess file (user.dropWhile isSpace))

/-- `REQACCESS <file> <-R|-W>`. -/
def promptReqaccess (args : Text) : Prompt :=
  match strtokR args with
  | none => usage "REQACCESS <file> <-R|-W>"
  | some (file, args) =>
    match strtokR args with
    | none => usage "REQACCESS <file> <-R|-W>"
    | some (mode, _) =>
      match trimSpaces file, modeOption (trimSpaces mode) with
      | [], _ | _, none => usage "REQACCESS <file> <-R|-W>"
      | file, some write => .command (.reqaccess file write)

/-- `VIEWREQS <SENT/RECEIVED>`. -/
def promptViewreqs (args : Text) : Prompt :=
  match strtokR args with
  | none => usage "VIEWREQS <SENT/RECEIVED>"
  | some (direction, _) =>
    let direction := trimSpaces direction
    if equalsIgnoreCase direction (Text.lit "SENT") then .command (.viewreqs true)
    else if equalsIgnoreCase direction (Text.lit "RECEIVED") then .command (.viewreqs false)
    else usage "VIEWREQS <SENT/RECEIVED>"

/-- `HANDLEREQ <file> <user> <APPROVE/DENY>`. -/
def promptHandlereq (args : Text) : Prompt :=
  match strtokR args with
  | none => usage "HANDLEREQ <file> <user> <APPROVE/DENY>"
  | some (file, args) =>
    match strtokR args with
    | none => usage "HANDLEREQ <file> <user> <APPROVE/DENY>"
    | some (user, args) =>
      match strtokR args with
      | none => usage "HANDLEREQ <file> <user> <APPROVE/DENY>"
      | some (action, _) =>
        let file := trimSpaces file
        let user := trimSpaces user
        let action := trimSpaces action
        if file = [] ∨ user = [] then usage "HANDLEREQ <file> <user> <APPROVE/DENY>"
        else if equalsIgnoreCase action (Text.lit "APPROVE") then .command (.handlereq file user true)
        else if equalsIgnoreCase action (Text.lit "DENY") then .command (.handlereq file user false)
        else usage "HANDLEREQ <file> <user> <APPROVE/DENY>"

/-- What `main` does with the command word, in capitals, and the rest of the line. -/
def promptCommand (word args : Text) : Prompt :=
  if word = Text.lit "HELP" then .help
  else if word = Text.lit "VIEW" then .command (.view ((strtok args).foldl addFlags []))
  else if word = Text.lit "LIST" then .command .list
  else if word = Text.lit "INFO" then promptFile .info args
  else if word = Text.lit "CREATE" then promptFile .create args
  else if word = Text.lit "DELETE" then promptFile .delete args
  else if word = Text.lit "READ" then promptFile .read args
  else if word = Text.lit "STREAM" then promptFile .stream args
  else if word = Text.lit "CHECKPOINT" then promptTag .checkpoint args
  else if word = Text.lit "VIEWCHECKPOINT" then promptTag .viewcheckpoint args
  else if word = Text.lit "REVERT" then promptTag .revert args
  else if word = Text.lit "LISTCHECKPOINTS" then promptListcheckpoints args
  else if word = Text.lit "WRITE" then promptWrite args
  else if word = Text.lit "ADDACCESS" then promptAddaccess args
  else if word = Text.lit "REMACCESS" then promptRemaccess args
  else if word = Text.lit "REQACCESS" then promptReqaccess args
  else if word = Text.lit "VIEWREQS" then promptViewreqs args
  else if word = Text.lit "HANDLEREQ" then promptHandlereq args
  else if word = Text.lit "UNDO" then promptFile .undo args
  else if word = Text.lit "EXEC" then promptFile .exec args
  else if word = Text.lit "QUIT" ∨ word = Text.lit "EXIT" then .command .exit
  else .told (Text.lit "Unknown command. Type 'help'.")

/-- One round of the loop of `main` on the line that was read. -/
def prompt (line : Text) : Prompt :=
  match strtokR (trimNewline line) with
  | none => .ignored
  | some (word, args) => promptCommand (word.map Char.toUpper) args

/-! ## What is sent -/

/-- `nm_call`, until it sends. -/
def nmCall (type : String) (body : List Field) : Option Text :=
  if (printFields body).length ≥ MAX_JSON then none
  else
    let payload := printMessage (typeField type :: body)
    if payload.length ≥ MAX_JSON then none else some payload

def textField (key : String) (text : Text) : Field := (Text.lit key, .string (jsonEscape text))

/-- The handlers of the commands that name a file, with `json_escape_dup`. -/
def fileCmd (type : String) (file : Text) : Option Text := nmCall type [textField "file" file]

def handleInfoCmd (file : Text) : Option Text := fileCmd "INFO" file

def handleCreateCmd (file : Text) : Option Text := fileCmd "CREATE" file

def handleDeleteCmd (file : Text) : Option Text := fileCmd "DELETE" file

def handleReadCmd (file : Text) : Option Text := fileCmd "READ" file

def handleStreamCmd (file : Text) : Option Text := fileCmd "STREAM" file

def handleUndoCmd (file : Text) : Option Text := fileCmd "UNDO" file

def handleExecCmd (file : Text) : Option Text := fileCmd "EXEC" file

/-- `handle_listcheckpoints_cmd`, which escapes into a buffer. -/
def handleListcheckpointsCmd (file : Text) : Option Text := do
  let file ← jsonEscapeString 256 file
  nmCall "LISTCHECKPOINTS" [(Text.lit "file", .string file)]

/-- `handle_checkpoint_cmd`. -/
def handleCheckpointCmd (file tag : Text) : Option Text := do
  let file ← jsonEscapeString 256 file
  let tag ← jsonEscapeString 256 tag
  nmCall "CHECKPOINT" [(Text.lit "file", .string file), (Text.lit "tag", .string tag)]

/-- The handlers of a checkpoint that also send the name of the user. -/
def userTagCmd (type : String) (username file tag : Text) : Option Text := do
  let file ← jsonEscapeString 256 file
  let tag ← jsonEscapeString 256 tag
  let user ← jsonEscapeString 256 username
  nmCall type [(Text.lit "file", .string file), (Text.lit "tag", .string tag), (Text.lit "user", .string user)]

def handleViewcheckpointCmd (username file tag : Text) : Option Text := userTagCmd "VIEWCHECKPOINT" username file tag

def handleRevertCmd (username file tag : Text) : Option Text := userTagCmd "REVERT" username file tag

/-- `handle_view`. -/
def handleView (flags : Text) : Option Text :=
  nmCall "VIEW" (if flags = [] then [] else [(Text.lit "flags", .string flags)])

/-- `handle_list_users`. -/
def handleListUsers : Option Text := nmCall "LIST" []

/-- `handle_write_cmd`. -/
def handleWriteCmd (file : Text) (sentence : Int) : Option Text :=
  nmCall "WRITE" [textField "file" file, (Text.lit "sentence", .number (printInt sentence))]

/-- `handle_addaccess_cmd`. -/
def handleAddaccessCmd (file user : Text) (write : Bool) : Option Text :=
  nmCall "ADDACCESS"
    [textField "file" file, textField "user" user, (Text.lit "mode", .string (Text.lit (if write then "RW" else "R")))]

/-- `handle_remaccess_cmd`. -/
def handleRemaccessCmd (file user : Text) : Option Text :=
  nmCall "REMACCESS" [textField "file" file, textField "user" user]

/-- `handle_reqaccess_cmd`. -/
def handleReqaccessCmd (file : Text) (write : Bool) : Option Text :=
  nmCall "REQACCESS" [textField "file" file, (Text.lit "mode", .string (Text.lit (if write then "W" else "R")))]

/-- `handle_viewreqs_cmd`. -/
def handleViewreqsCmd (sent : Bool) : Option Text :=
  nmCall "VIEWREQS" [(Text.lit "direction", .string (Text.lit (if sent then "SENT" else "RECEIVED")))]

/-- `handle_handlereq_cmd`, with the action in capitals. -/
def handleHandlereqCmd (file user : Text) (approve : Bool) : Option Text :=
  nmCall "HANDLEREQ"
    [textField "file" file, textField "user" user,
      textField "action" (Text.lit (if approve then "APPROVE" else "DENY"))]

/-- `handle_exit_cmd`. -/
def handleExitCmd : Option Text := nmCall "CLIENT_EXIT" []

/-- The message that goes out for a command of the user, if one does. -/
def Command.sent (username : Text) : Command → Option Text
  | .view flags => handleView flags
  | .list => handleListUsers
  | .file .info name => handleInfoCmd name
  | .file .create name => handleCreateCmd name
  | .file .delete name => handleDeleteCmd name
  | .file .read name => handleReadCmd name
  | .file .stream name => handleStreamCmd name
  | .file .listcheckpoints name => handleListcheckpointsCmd name
  | .file .undo name => handleUndoCmd name
  | .file .exec name => handleExecCmd name
  | .tag .checkpoint name label => handleCheckpointCmd name label
  | .tag .viewcheckpoint name label => handleViewcheckpointCmd username name label
  | .tag .revert name label => handleRevertCmd username name label
  | .write name sentence => handleWriteCmd name sentence
  | .addaccess name user writing => handleAddaccessCmd name user writing
  | .remaccess name user => handleRemaccessCmd name user
  | .reqaccess name writing => handleReqaccessCmd name writing
  | .viewreqs mine => handleViewreqsCmd mine
  | .handlereq name user approve => handleHandlereqCmd name user approve
  | .exit => handleExitCmd

/-- The fields behind the type. -/
def Command.body (username : Text) : Command → List Field
  | .view flags => if flags = [] then [] else [(Text.lit "flags", .string flags)]
  | .list | .exit => []
  | .file _ name => [textField "file" name]
  | .tag .checkpoint name label => [textField "file" name, textField "tag" label]
  | .tag _ name label => [textField "file" name, textField "tag" label, textField "user" username]
  | .write name sentence => [textField "file" name, (Text.lit "sentence", .number (printInt sentence))]
  | .addaccess name user writing =>
    [textField "file" name, textField "user" user, textField "mode" (Text.lit (if writing then "RW" else "R"))]
  | .remaccess name user => [textField "file" name, textField "user" user]
  | .reqaccess name writing => [textField "file" name, textField "mode" (Text.lit (if writing then "W" else "R"))]
  | .viewreqs mine => [textField "direction" (Text.lit (if mine then "SENT" else "RECEIVED"))]
  | .handlereq name user approve =>
    [textField "file" name, textField "user" user,
      textField "action" (Text.lit (if approve then "APPROVE" else "DENY"))]

theorem nmCall_eq {type : String} {body : List Field} {payload : Text} (h : nmCall type body = some payload) :
    payload = printMessage (typeField type :: body) := by
  unfold nmCall at h
  dsimp only at h
  split_ifs at h
  exact (Option.some.inj h).symm

theorem jsonEscapeString_eq {n : Nat} {s e : Text} (h : jsonEscapeString n s = some e) : e = jsonEscape s := by
  unfold jsonEscapeString at h
  split_ifs at h
  exact (Option.some.inj h).symm

/-- Whatever checks a handler makes, a message that goes out has the fields of the command. -/
theorem sent_eq {username payload : Text} {c : Command} (h : c.sent username = some payload) :
    payload = printMessage (typeField c.type :: c.body username) := by
  have huserTag {type : String} {name tag : Text} (h : userTagCmd type username name tag = some payload) :
      payload =
        printMessage [typeField type, textField "file" name, textField "tag" tag, textField "user" username] := by
    obtain ⟨file, hfile, h⟩ := Option.bind_eq_some_iff.1 h
    obtain ⟨tag, htag, h⟩ := Option.bind_eq_some_iff.1 h
    obtain ⟨user, huser, h⟩ := Option.bind_eq_some_iff.1 h
    rw [nmCall_eq h, jsonEscapeString_eq hfile, jsonEscapeString_eq htag, jsonEscapeString_eq huser]
    rfl
  cases c with
  | file op name =>
    cases op with
    | listcheckpoints =>
      obtain ⟨file, hfile, h⟩ := Option.bind_eq_some_iff.1 h
      rw [nmCall_eq h, jsonEscapeString_eq hfile]
      rfl
    | _ => exact nmCall_eq h
  | tag op name tag =>
    cases op with
    | checkpoint =>
      obtain ⟨file, hfile, h⟩ := Option.bind_eq_some_iff.1 h
      obtain ⟨tag, htag, h⟩ := Option.bind_eq_some_iff.1 h
      rw [nmCall_eq h, jsonEscapeString_eq hfile, jsonEscapeString_eq htag]
      rfl
    | viewcheckpoint => exact huserTag h
    | revert => exact huserTag h
  | addaccess name user write =>
    rw [nmCall_eq h]
    cases write <;> rfl
  | reqaccess name write =>
    rw [nmCall_eq h]
    cases write <;> rfl
  | viewreqs sent =>
    rw [nmCall_eq h]
    cases sent <;> rfl
  | view flags => exact nmCall_eq h
  | list => exact nmCall_eq h
  | write name sentence => exact nmCall_eq h
  | remaccess name user => exact nmCall_eq h
  | handlereq name user approve => exact nmCall_eq h
  | exit => exact nmCall_eq h

/-! ## What the name manager finds -/

def readFile (op : FileOp) (json : Text) : Option Command := (jsonFile json).map (.file op)

def readTag (op : TagOp) (json : Text) : Option Command :=
  match jsonFile json, jsonGetString json (Text.lit "tag") NM_MAX_NAME with
  | some name, some tag => some (.tag op name tag)
  | _, _ => none

def readWrite (json : Text) : Option Command :=
  (jsonFile json).map fun name => .write name ((jsonGetInt json (Text.lit "sentence")).getD 0)

def readAddaccess (json : Text) : Option Command :=
  match jsonFile json, jsonGetString json (Text.lit "user") NM_MAX_USER, jsonGetString json (Text.lit "mode") 8 with
  | some name, some user, some mode => some (.addaccess name user (decide ('W' ∈ mode ∨ 'w' ∈ mode)))
  | _, _, _ => none

def readRemaccess (json : Text) : Option Command :=
  match jsonFile json, jsonGetString json (Text.lit "user") NM_MAX_USER with
  | some name, some user => some (.remaccess name user)
  | _, _ => none

def readReqaccess (json : Text) : Option Command :=
  match jsonFile json, jsonGetString json (Text.lit "mode") 8 with
  | some name, some mode =>
    if 'R' ∈ mode ∨ 'r' ∈ mode ∨ 'W' ∈ mode ∨ 'w' ∈ mode then
      some (.reqaccess name (decide ('W' ∈ mode ∨ 'w' ∈ mode)))
    else none
  | _, _ => none

def readViewreqs (json : Text) : Option Command :=
  match jsonGetString json (Text.lit "direction") 16 with
  | some direction =>
    if equalsIgnoreCase direction (Text.lit "SENT") then some (.viewreqs true)
    else if equalsIgnoreCase direction (Text.lit "RECEIVED") then some (.viewreqs false)
    else none
  | none => none

def readHandlereq (json : Text) : Option Command :=
  match jsonFile json, jsonGetString json (Text.lit "user") NM_MAX_USER, jsonGetString json (Text.lit "action") 16 with
  | some name, some user, some action =>
    if equalsIgnoreCase action (Text.lit "APPROVE") then some (.handlereq name user true)
    else if equalsIgnoreCase action (Text.lit "DENY") then some (.handlereq name user false)
    else none
  | _, _, _ => none

/-- The types that `handle_client_message` knows, with what their handlers look up. -/
def readers : List (String × (Text → Option Command)) :=
  [("VIEW", fun json => some (.view (viewFlags json))), ("LIST", fun _ => some .list), ("INFO", readFile .info),
    ("CREATE", readFile .create), ("DELETE", readFile .delete), ("READ", readFile .read), ("WRITE", readWrite),
    ("STREAM", readFile .stream), ("CHECKPOINT", readTag .checkpoint), ("VIEWCHECKPOINT", readTag .viewcheckpoint),
    ("REVERT", readTag .revert), ("LISTCHECKPOINTS", readFile .listcheckpoints), ("ADDACCESS", readAddaccess),
    ("REMACCESS", readRemaccess), ("REQACCESS", readReqaccess), ("VIEWREQS", readViewreqs),
    ("HANDLEREQ", readHandlereq), ("UNDO", readFile .undo), ("EXEC", readFile .exec),
    ("CLIENT_EXIT", fun _ => some .exit)]

def findReader (type : Text) : Option (String × (Text → Option Command)) :=
  readers.find? fun reader => Text.lit reader.1 = type

/-- The command that `handle_client_message` and the handler it calls find in a message. -/
def readCommand (json : Text) : Option Command :=
  (jsonGetString json (Text.lit "type") 64).bind fun type =>
    (findReader type).bind fun reader => reader.2 json

/-- The handler of the command finds its arguments. -/
def Finds (json : Text) : Command → Prop
  | .view flags => viewFlags json = flags
  | .list | .exit => True
  | .file _ name => jsonFile json = some name
  | .tag _ name tag => jsonFile json = some name ∧ jsonGetString json (Text.lit "tag") NM_MAX_NAME = some tag
  | .write name sentence => jsonFile json = some name ∧ (jsonGetInt json (Text.lit "sentence")).getD 0 = sentence
  | .addaccess name user write =>
    jsonFile json = some name ∧ jsonGetString json (Text.lit "user") NM_MAX_USER = some user ∧
      ∃ mode, jsonGetString json (Text.lit "mode") 8 = some mode ∧ (write = true ↔ 'W' ∈ mode ∨ 'w' ∈ mode)
  | .remaccess name user =>
    jsonFile json = some name ∧ jsonGetString json (Text.lit "user") NM_MAX_USER = some user
  | .reqaccess name write =>
    jsonFile json = some name ∧
      ∃ mode, jsonGetString json (Text.lit "mode") 8 = some mode ∧
        ('R' ∈ mode ∨ 'r' ∈ mode ∨ 'W' ∈ mode ∨ 'w' ∈ mode) ∧ (write = true ↔ 'W' ∈ mode ∨ 'w' ∈ mode)
  | .viewreqs sent =>
    ∃ direction, jsonGetString json (Text.lit "direction") 16 = some direction ∧
      equalsIgnoreCase direction (Text.lit "SENT") = sent ∧
      (sent = false → equalsIgnoreCase direction (Text.lit "RECEIVED") = true)
  | .handlereq name user approve =>
    jsonFile json = some name ∧ jsonGetString json (Text.lit "user") NM_MAX_USER = some user ∧
      ∃ action, jsonGetString json (Text.lit "action") 16 = some action ∧
        equalsIgnoreCase action (Text.lit "APPROVE") = approve ∧
        (approve = false → equalsIgnoreCase action (Text.lit "DENY") = true)

section Finds

variable {json : Text} {c : Command}

theorem finds_of_readFile {op : FileOp} (h : readFile op json = some c) : op.type = c.type ∧ Finds json c := by
  obtain ⟨name, hname, rfl⟩ := Option.map_eq_some_iff.1 h
  exact ⟨rfl, hname⟩

theorem finds_of_readTag {op : TagOp} (h : readTag op json = some c) : op.type = c.type ∧ Finds json c := by
  unfold readTag at h
  split at h
  · next name tag hname htag =>
    cases h
    exact ⟨rfl, hname, htag⟩
  · cases h

theorem finds_of_readAddaccess (h : readAddaccess json = some c) : "ADDACCESS" = c.type ∧ Finds json c := by
  unfold readAddaccess at h
  split at h
  · next name user mode hname huser hmode =>
    cases h
    exact ⟨rfl, hname, huser, mode, hmode, decide_eq_true_iff⟩
  · cases h

theorem finds_of_readRemaccess (h : readRemaccess json = some c) : "REMACCESS" = c.type ∧ Finds json c := by
  unfold readRemaccess at h
  split at h
  · next name user hname huser =>
    cases h
    exact ⟨rfl, hname, huser⟩
  · cases h

theorem finds_of_readReqaccess (h : readReqaccess json = some c) : "REQACCESS" = c.type ∧ Finds json c := by
  unfold readReqaccess at h
  split at h
  · next name mode hname hmode =>
    split_ifs at h with hvalid
    cases h
    exact ⟨rfl, hname, mode, hmode, hvalid, decide_eq_true_iff⟩
  · cases h

theorem finds_of_readViewreqs (h : readViewreqs json = some c) : "VIEWREQS" = c.type ∧ Finds json c := by
  unfold readViewreqs at h
  split at h
  · next direction hdirection =>
    split_ifs at h with hsent hreceived
    · cases h
      exact ⟨rfl, direction, hdirection, hsent, by simp⟩
    · cases h
      exact ⟨rfl, direction, hdirection, by simpa using hsent, fun _ => hreceived⟩
  · cases h

theorem finds_of_readHandlereq (h : readHandlereq json = some c) : "HANDLEREQ" = c.type ∧ Finds json c := by
  unfold readHandlereq at h
  split at h
  · next name user action hname huser haction =>
    split_ifs at h with happrove hdeny
    · cases h
      exact ⟨rfl, hname, huser, action, haction, happrove, by simp⟩
    · cases h
      exact ⟨rfl, hname, huser, action, haction, by simpa using happrove, fun _ => hdeny⟩
  · cases h

/-- A reader finds commands of its type only, and their arguments are there. -/
theorem finds_of_reader {reader : String × (Text → Option Command)} (hreader : reader ∈ readers)
    (h : reader.2 json = some c) : reader.1 = c.type ∧ Finds json c := by
  have hall : ∀ reader ∈ readers, reader.2 json = some c → reader.1 = c.type ∧ Finds json c := by
    simp only [readers, List.forall_mem_cons]
    refine ⟨?_, ?_, finds_of_readFile, finds_of_readFile, finds_of_readFile, finds_of_readFile, ?_, finds_of_readFile,
      finds_of_readTag, finds_of_readTag, finds_of_readTag, finds_of_readFile, finds_of_readAddaccess,
      finds_of_readRemaccess, finds_of_readReqaccess, finds_of_readViewreqs, finds_of_readHandlereq,
      finds_of_readFile, finds_of_readFile, ?_, by simp⟩
    · rintro ⟨⟩
      exact ⟨rfl, rfl⟩
    · rintro ⟨⟩
      exact ⟨rfl, trivial⟩
    · intro h
      obtain ⟨name, hname, rfl⟩ := Option.map_eq_some_iff.1 h
      exact ⟨rfl, hname, rfl⟩
    · rintro ⟨⟩
      exact ⟨rfl, trivial⟩
  exact hall reader hreader h

/-- A command found in a message is of the type of the message, and its arguments are there. -/
theorem finds_of_readCommand (h : readCommand json = some c) :
    jsonGetString json (Text.lit "type") 64 = some (Text.lit c.type) ∧ Finds json c := by
  obtain ⟨type, htype, h⟩ := Option.bind_eq_some_iff.1 h
  obtain ⟨reader, hreader, h⟩ := Option.bind_eq_some_iff.1 h
  obtain ⟨hname, hfinds⟩ := finds_of_reader (List.mem_of_find?_eq_some hreader) h
  have hfound : Text.lit reader.1 = type := by simpa using List.find?_some hreader
  exact ⟨by rw [htype, ← hfound, hname], hfinds⟩

/-- What is looked up for the type of the command. -/
def Command.reader : Command → Text → Option Command
  | .view _ => fun json => some (.view (viewFlags json))
  | .list => fun _ => some .list
  | .file op _ => readFile op
  | .tag op _ _ => readTag op
  | .write _ _ => readWrite
  | .addaccess _ _ _ => readAddaccess
  | .remaccess _ _ => readRemaccess
  | .reqaccess _ _ => readReqaccess
  | .viewreqs _ => readViewreqs
  | .handlereq _ _ _ => readHandlereq
  | .exit => fun _ => some .exit

theorem findReader_type (c : Command) : findReader (Text.lit c.type) = some (c.type, c.reader) := by
  cases c with
  | file op name =>
    cases op <;> dsimp only [Command.type, FileOp.type, Command.reader] <;> exact rfl
  | tag op name tag =>
    cases op <;> dsimp only [Command.type, TagOp.type, Command.reader] <;> exact rfl
  | _ =>
    dsimp only [Command.type, Command.reader]
    exact rfl

theorem readCommand_eq (htype : jsonGetString json (Text.lit "type") 64 = some (Text.lit c.type)) :
    readCommand json = c.reader json := by
  rw [readCommand, htype, Option.bind_some, findReader_type, Option.bind_some]

/-- A message of the type of a command in which the arguments of the command are found is read as the command. -/
theorem readCommand_of_finds (htype : jsonGetString json (Text.lit "type") 64 = some (Text.lit c.type))
    (h : Finds json c) : readCommand json = some c := by
  rw [readCommand_eq htype]
  cases c with
  | view flags => exact congrArg (fun flags => some (Command.view flags)) h
  | list => rfl
  | exit => rfl
  | file op name =>
    have hname : jsonFile json = some name := h
    rw [Command.reader, readFile, hname]
    rfl
  | tag op name tag =>
    obtain ⟨hname, htag⟩ := h
    rw [Command.reader, readTag, hname, htag]
  | write name sentence =>
    obtain ⟨hname, hsentence⟩ := h
    rw [Command.reader, readWrite, hname, hsentence]
    rfl
  | addaccess name user write =>
    obtain ⟨hname, huser, mode, hmode, hwrite⟩ := h
    rw [Command.reader, readAddaccess, hname, huser, hmode]
    simp [← hwrite]
  | remaccess name user =>
    obtain ⟨hname, huser⟩ := h
    rw [Command.reader, readRemaccess, hname, huser]
  | reqaccess name write =>
    obtain ⟨hname, mode, hmode, hvalid, hwrite⟩ := h
    rw [Command.reader, readReqaccess, hname, hmode]
    simp only [if_pos hvalid]
    simp only [← hwrite, Bool.decide_eq_true]
  | viewreqs sent =>
    obtain ⟨direction, hdirection, hsent, hreceived⟩ := h
    rw [Command.reader, readViewreqs, hdirection]
    cases sent with
    | true => simp [hsent]
    | false => simp [hsent, hreceived rfl]
  | handlereq name user approve =>
    obtain ⟨hname, huser, action, haction, happrove, hdeny⟩ := h
    rw [Command.reader, readHandlereq, hname, huser, haction]
    cases approve with
    | true => simp [happrove]
    | false => simp [happrove, hdeny rfl]

end Finds

/-! ## The name manager goes by what it finds -/

theorem modePerm_eq {mode : Text} {write : Bool} (h : write = true ↔ 'W' ∈ mode ∨ 'w' ∈ mode) :
    modePerm mode = if write then NM_PERM_READ ||| NM_PERM_WRITE else NM_PERM_READ := by
  unfold modePerm
  simp only [← h]

section Alike

variable {json json' name : Text} (user : Text)

theorem lookupCommon_alike (h : jsonFile json = some name) (h' : jsonFile json' = some name) (now : Int) (op : String)
    (perm : BitVec 32) : handleLookupCommon user json now op perm false = handleLookupCommon user json' now op perm false := by
  simp only [handleLookupCommon, h, h']
  rfl

theorem checkpointSection_alike {tag : Text} {op : TagOp} (h : Finds json (.tag op name tag))
    (h' : Finds json' (.tag op name tag)) (perm : BitVec 32) (denied : String)
    (check : FileEntry → Text → Option (ErrorCode × String)) (next : Text → Text → FileEntry → Handler Reply) :
    checkpointSection user json perm denied check next = checkpointSection user json' perm denied check next := by
  simp only [checkpointSection, h.1, h.2, h'.1, h'.2]

/-- The handler that `handle_client_message` calls. -/
def Command.handler (json : Text) (now : Int) : Command → Handler Reply
  | .view _ => handleClientView user json
  | .list => handleClientListUsers
  | .file .info _ => handleClientInfo user json
  | .file .create _ => handleClientCreate user json now
  | .file .delete _ => handleClientDelete user json
  | .file .read _ => handleClientRead user json now
  | .file .stream _ => handleClientStream user json now
  | .file .listcheckpoints _ => handleClientListcheckpoints user json
  | .file .undo _ => handleClientUndo user json
  | .file .exec _ => handleClientExec user json now
  | .tag .checkpoint _ _ => handleClientCheckpoint user json now
  | .tag .viewcheckpoint _ _ => handleClientViewcheckpoint user json
  | .tag .revert _ _ => handleClientRevert user json
  | .write _ _ => handleClientWrite user json now
  | .addaccess _ _ _ => handleClientAddaccess user json
  | .remaccess _ _ => handleClientRemoveaccess user json
  | .reqaccess _ _ => handleClientReqaccess user json
  | .viewreqs _ => handleClientViewreqs user json
  | .handlereq _ _ _ => handleClientHandlereq user json
  | .exit => accept (opField "EXIT")

theorem handleClientMessage_type {c : Command}
    (htype : jsonGetString json (Text.lit "type") 64 = some (Text.lit c.type)) (now : Int) :
    handleClientMessage user json now = c.handler user json now := by
  unfold handleClientMessage
  cases c with
  | file op name => cases op <;> dsimp only [Command.type, FileOp.type] at htype <;> rw [htype] <;> rfl
  | tag op name tag => cases op <;> dsimp only [Command.type, TagOp.type] at htype <;> rw [htype] <;> rfl
  | _ =>
    dsimp only [Command.type] at htype
    rw [htype]
    rfl

/-- Two messages in which one command is found are handled alike. -/
theorem handled_alike {c : Command} (h : readCommand json = some c) (h' : readCommand json' = some c) (now : Int) :
    handleClientMessage user json now = handleClientMessage user json' now := by
  obtain ⟨htype, h⟩ := finds_of_readCommand h
  obtain ⟨htype', h'⟩ := finds_of_readCommand h'
  rw [handleClientMessage_type user htype, handleClientMessage_type user htype']
  cases c with
  | view flags =>
    have hflags : viewFlags json = flags := h
    have hflags' : viewFlags json' = flags := h'
    simp only [Command.handler, handleClientView, hflags, hflags']
  | list => rfl
  | exit => rfl
  | file op name =>
    have hname : jsonFile json = some name := h
    have hname' : jsonFile json' = some name := h'
    cases op with
    | info => simp only [Command.handler, handleClientInfo, hname, hname']
    | create => simp only [Command.handler, handleClientCreate, hname, hname']
    | delete => simp only [Command.handler, handleClientDelete, hname, hname']
    | read => exact lookupCommon_alike user hname hname' now "READ" NM_PERM_READ
    | stream => exact lookupCommon_alike user hname hname' now "STREAM" NM_PERM_READ
    | listcheckpoints => simp only [Command.handler, handleClientListcheckpoints, hname, hname']
    | undo => simp only [Command.handler, handleClientUndo, hname, hname']
    | exec => simp only [Command.handler, handleClientExec, hname, hname']
  | tag op name tag => cases op <;> exact checkpointSection_alike user h h' _ _ _ _
  | write name sentence =>
    obtain ⟨hname, hsentence⟩ := h
    obtain ⟨hname', hsentence'⟩ := h'
    simp only [Command.handler, handleClientWrite, handleLookupCommon, hname, hname', hsentence, hsentence']
  | addaccess name target write =>
    obtain ⟨hname, htarget, mode, hmode, hwrite⟩ := h
    obtain ⟨hname', htarget', mode', hmode', hwrite'⟩ := h'
    simp only [Command.handler, handleClientAddaccess, hname, hname', htarget, htarget', hmode, hmode',
      modePerm_eq hwrite, modePerm_eq hwrite']
  | remaccess name target =>
    obtain ⟨hname, htarget⟩ := h
    obtain ⟨hname', htarget'⟩ := h'
    simp only [Command.handler, handleClientRemoveaccess, hname, hname', htarget, htarget']
  | reqaccess name write =>
    obtain ⟨hname, mode, hmode, hvalid, hwrite⟩ := h
    obtain ⟨hname', mode', hmode', hvalid', hwrite'⟩ := h'
    simp only [Command.handler, handleClientReqaccess, hname, hname', hmode, hmode', hvalid, hvalid',
      modePerm_eq hwrite, modePerm_eq hwrite']
  | viewreqs sent =>
    obtain ⟨direction, hdirection, hsent, hreceived⟩ := h
    obtain ⟨direction', hdirection', hsent', hreceived'⟩ := h'
    simp only [Command.handler, handleClientViewreqs, hdirection, hdirection', hsent, hsent']
    cases sent with
    | true => simp only [Bool.not_true, Bool.false_and]
    | false => simp only [hreceived rfl, hreceived' rfl]
  | handlereq name requester approve =>
    obtain ⟨hname, hrequester, action, haction, happrove, hdeny⟩ := h
    obtain ⟨hname', hrequester', action', haction', happrove', hdeny'⟩ := h'
    simp only [Command.handler, handleClientHandlereq, hname, hname', hrequester, hrequester', haction, haction',
      happrove, happrove']
    cases approve with
    | true => simp only [Bool.not_true, Bool.false_and]
    | false => simp only [hdeny rfl, hdeny' rfl]

end Alike

/-! ## The message of a command -/

/-- The names of the command fit the arrays of the name manager. -/
def Command.Short : Command → Prop
  | .view _ | .list | .viewreqs _ | .exit => True
  | .file _ name | .write name _ | .reqaccess name _ => name.length < NM_MAX_NAME
  | .tag _ name label => name.length < NM_MAX_NAME ∧ label.length < NM_MAX_NAME
  | .addaccess name user _ | .remaccess name user | .handlereq name user _ =>
    name.length < NM_MAX_NAME ∧ user.length < NM_MAX_USER

/-- What the prompt sees to. -/
def Command.Proper : Command → Prop
  | .view flags => flags ∈ [[], ['a'], ['l'], ['a', 'l'], ['l', 'a']]
  | .write _ sentence => -2 ^ 31 ≤ sentence ∧ sentence < 2 ^ 31
  | _ => True

section Message

variable {username : Text}

/-- A string behind well-formed fields of other keys is read if it fits. -/
theorem read_string {key : Text} (hkey : IsKey key) (hlen : key.length < 124) {n : Nat} (hn : 0 < n) {pre : List Field}
    (hpre : WellFormed pre) (hno : NoString key pre) (v : Text) (post : List Field) :
    jsonGetString (printMessage (pre ++ (key, .string (jsonEscape v)) :: post)) key n =
      if v.length < n then some v else none := by
  obtain ⟨rest, h⟩ := exists_jsonGetString hkey hlen hn hpre hno (jsonEscape v) post
  obtain ⟨hescaped, hunescape⟩ := escaped_jsonEscape v
  rw [h, scanString_escaped hescaped, hunescape]
  exact if_congr (by omega) rfl rfl

theorem type_plain (c : Command) : Plain (Text.lit c.type) ∧ (Text.lit c.type).length < 64 := by
  have hall : ∀ type ∈ readers.map Prod.fst, Plain (Text.lit type) ∧ (Text.lit type).length < 64 := by decide
  exact hall _ (List.mem_map_of_mem (List.mem_of_find?_eq_some (findReader_type c)))

theorem wellFormed_type (c : Command) : WellFormed [typeField c.type] :=
  List.forall_mem_singleton.2 ⟨(by decide : IsKey (Text.lit "type")), (type_plain c).1.escaped.1⟩

theorem wellFormed_textField {key : String} (hkey : IsKey (Text.lit key)) (text : Text) :
    WellFormed [textField key text] :=
  List.forall_mem_singleton.2 ⟨hkey, (escaped_jsonEscape text).1⟩

theorem read_type (c : Command) (body : List Field) :
    jsonGetString (printMessage (typeField c.type :: body)) (Text.lit "type") 64 = some (Text.lit c.type) :=
  (@jsonGetString_raw (Text.lit "type") (by decide) (by decide) 64 [] (by simp [WellFormed]) noString_nil _
    (type_plain c).2 body).2 (type_plain c).1

/-- The first string behind the type. -/
theorem read_first (c : Command) {key : String} (hkey : IsKey (Text.lit key)) (hlen : (Text.lit key).length < 124)
    (hne : Text.lit key ≠ Text.lit "type") {n : Nat} (hn : 0 < n) (v : Text) (post : List Field) :
    jsonGetString (printMessage (typeField c.type :: textField key v :: post)) (Text.lit key) n =
      if v.length < n then some v else none :=
  read_string hkey hlen hn (wellFormed_type c) (noString_cons.2 ⟨fun h => absurd h.symm hne, noString_nil⟩) v post

/-- The second string. -/
theorem read_second (c : Command) {first key : String} (hfirst : IsKey (Text.lit first)) (hkey : IsKey (Text.lit key))
    (hlen : (Text.lit key).length < 124) (hne : Text.lit key ≠ Text.lit "type") (hnf : Text.lit key ≠ Text.lit first)
    {n : Nat} (hn : 0 < n) (u v : Text) (post : List Field) :
    jsonGetString (printMessage (typeField c.type :: textField first u :: textField key v :: post)) (Text.lit key) n =
      if v.length < n then some v else none :=
  read_string hkey hlen hn (List.forall_mem_append.2 ⟨wellFormed_type c, wellFormed_textField hfirst u⟩)
    (noString_cons.2 ⟨fun h => absurd h.symm hne, noString_cons.2 ⟨fun h => absurd h.symm hnf, noString_nil⟩⟩) v post

/-- The third string. -/
theorem read_third (c : Command) {first second key : String} (hfirst : IsKey (Text.lit first))
    (hsecond : IsKey (Text.lit second)) (hkey : IsKey (Text.lit key)) (hlen : (Text.lit key).length < 124)
    (hne : Text.lit key ≠ Text.lit "type") (hnf : Text.lit key ≠ Text.lit first) (hns : Text.lit key ≠ Text.lit second)
    {n : Nat} (hn : 0 < n) (t u v : Text) (post : List Field) :
    jsonGetString
        (printMessage (typeField c.type :: textField first t :: textField second u :: textField key v :: post))
        (Text.lit key) n =
      if v.length < n then some v else none :=
  read_string hkey hlen hn
    (List.forall_mem_append.2 ⟨List.forall_mem_append.2 ⟨wellFormed_type c, wellFormed_textField hfirst t⟩,
      wellFormed_textField hsecond u⟩)
    (noString_cons.2 ⟨fun h => absurd h.symm hne, noString_cons.2 ⟨fun h => absurd h.symm hnf,
      noString_cons.2 ⟨fun h => absurd h.symm hns, noString_nil⟩⟩⟩) v post

theorem read_file (c : Command) (name : Text) (post : List Field) :
    jsonFile (printMessage (typeField c.type :: textField "file" name :: post)) =
      if name.length < NM_MAX_NAME then some name else none :=
  read_first c (by decide) (by decide) (by decide) (by decide) name post

theorem read_tag (c : Command) (name tag : Text) (post : List Field) :
    jsonGetString (printMessage (typeField c.type :: textField "file" name :: textField "tag" tag :: post))
        (Text.lit "tag") NM_MAX_NAME =
      if tag.length < NM_MAX_NAME then some tag else none :=
  read_second c (by decide) (by decide) (by decide) (by decide) (by decide) (by decide) name tag post

theorem read_user (c : Command) (name user : Text) (post : List Field) :
    jsonGetString (printMessage (typeField c.type :: textField "file" name :: textField "user" user :: post))
        (Text.lit "user") NM_MAX_USER =
      if user.length < NM_MAX_USER then some user else none :=
  read_second c (by decide) (by decide) (by decide) (by decide) (by decide) (by decide) name user post

/-- In the message of a command with short names the command is found. -/
theorem finds_body {c : Command} (hshort : c.Short) (hproper : c.Proper) :
    Finds (printMessage (typeField c.type :: c.body username)) c := by
  cases c with
  | view flags =>
    have hall : ∀ flags ∈ [[], ['a'], ['l'], ['a', 'l'], ['l', 'a']],
        viewFlags (printMessage (typeField "VIEW" :: Command.body [] (.view flags))) = flags := by decide
    exact hall flags hproper
  | list => trivial
  | exit => trivial
  | file op name => exact (read_file (.file op name) name []).trans (if_pos hshort)
  | tag op name tag =>
    have hname := hshort.1
    have htag := hshort.2
    cases op with
    | checkpoint =>
      exact ⟨(read_file (.tag .checkpoint name tag) name _).trans (if_pos hname),
        (read_tag (.tag .checkpoint name tag) name tag []).trans (if_pos htag)⟩
    | viewcheckpoint =>
      exact ⟨(read_file (.tag .viewcheckpoint name tag) name _).trans (if_pos hname),
        (read_tag (.tag .viewcheckpoint name tag) name tag _).trans (if_pos htag)⟩
    | revert =>
      exact ⟨(read_file (.tag .revert name tag) name _).trans (if_pos hname),
        (read_tag (.tag .revert name tag) name tag _).trans (if_pos htag)⟩
  | write name sentence =>
    refine ⟨(read_file (.write name sentence) name _).trans (if_pos hshort), ?_⟩
    have hpre : WellFormed [typeField "WRITE", textField "file" name] :=
      List.forall_mem_append.2 ⟨wellFormed_type (.write name sentence), wellFormed_textField (by decide) name⟩
    have hne : ∀ f ∈ [typeField "WRITE", textField "file" name], f.1 ≠ Text.lit "sentence" := by
      simp only [List.forall_mem_cons]
      exact ⟨(by decide : Text.lit "type" ≠ Text.lit "sentence"), (by decide : Text.lit "file" ≠ Text.lit "sentence"),
        by simp⟩
    have hlong : LONG_MIN ≤ sentence ∧ sentence ≤ LONG_MAX := by
      have := hproper
      simp only [Command.Proper] at this
      unfold LONG_MIN LONG_MAX
      omega
    have hread := jsonGetInt_last (by decide : IsKey (Text.lit "sentence")) (by decide) hpre hne hlong
    rw [toInt32_eq_self hproper] at hread
    exact congrArg (Option.getD · 0) hread
  | addaccess name user write =>
    refine ⟨(read_file (.addaccess name user write) name _).trans (if_pos hshort.1),
      (read_user (.addaccess name user write) name user _).trans (if_pos hshort.2), _,
      (read_third (.addaccess name user write) (by decide) (by decide) (by decide) (by decide) (by decide) (by decide)
        (by decide) (by decide) name user _ []).trans (if_pos ?_), ?_⟩ <;> cases write <;> decide
  | remaccess name user =>
    exact ⟨(read_file (.remaccess name user) name _).trans (if_pos hshort.1),
      (read_user (.remaccess name user) name user []).trans (if_pos hshort.2)⟩
  | reqaccess name write =>
    refine ⟨(read_file (.reqaccess name write) name _).trans (if_pos hshort), _,
      (read_second (.reqaccess name write) (by decide) (by decide) (by decide) (by decide) (by decide) (by decide)
        name _ []).trans (if_pos ?_), ?_, ?_⟩ <;> cases write <;> decide
  | viewreqs sent =>
    refine ⟨_, (read_first (.viewreqs sent) (by decide) (by decide) (by decide) (by decide) _ []).trans (if_pos ?_),
      ?_, ?_⟩ <;> cases sent <;> decide
  | handlereq name user approve =>
    refine ⟨(read_file (.handlereq name user approve) name _).trans (if_pos hshort.1),
      (read_user (.handlereq name user approve) name user _).trans (if_pos hshort.2), _,
      (read_third (.handlereq name user approve) (by decide) (by decide) (by decide) (by decide) (by decide) (by decide)
        (by decide) (by decide) name user _ []).trans (if_pos ?_), ?_, ?_⟩ <;> cases approve <;> decide

/-- Where a name is too long the name manager refuses the message and looks no further. -/
theorem refused_body {c : Command} (hlong : ¬ c.Short) (user : Text) (now : Int) :
    ∃ reason, handleClientMessage user (printMessage (typeField c.type :: c.body username)) now =
      refuse .BADREQ reason := by
  rw [handleClientMessage_type user (read_type c _)]
  cases c with
  | view flags => exact absurd trivial hlong
  | list => exact absurd trivial hlong
  | exit => exact absurd trivial hlong
  | viewreqs sent => exact absurd trivial hlong
  | file op name =>
    have hname := (read_file (.file op name) name []).trans (if_neg hlong)
    refine ⟨"missing file", ?_⟩
    cases op with
    | info => simp only [Command.handler, handleClientInfo, Command.body, hname]
    | create => simp only [Command.handler, handleClientCreate, Command.body, hname]
    | delete => simp only [Command.handler, handleClientDelete, Command.body, hname]
    | read => simp only [Command.handler, handleClientRead, handleLookupCommon, Command.body, hname]
    | stream => simp only [Command.handler, handleClientStream, handleLookupCommon, Command.body, hname]
    | listcheckpoints => simp only [Command.handler, handleClientListcheckpoints, Command.body, hname]
    | undo => simp only [Command.handler, handleClientUndo, Command.body, hname]
    | exec => simp only [Command.handler, handleClientExec, Command.body, hname]
  | tag op name tag =>
    have hsection {post : List Field} {perm denied check next} :
        checkpointSection user
            (printMessage (typeField (Command.tag op name tag).type :: textField "file" name :: textField "tag" tag ::
              post)) perm denied check next = refuse .BADREQ "missing fields" := by
      rw [checkpointSection, read_file, read_tag]
      split
      · next hname htag =>
        exact absurd ⟨(Option.ite_none_right_eq_some.1 hname).1, (Option.ite_none_right_eq_some.1 htag).1⟩ hlong
      · rfl
    cases op <;> exact ⟨_, hsection⟩
  | write name sentence =>
    have hname := (read_file (.write name sentence) name
      [(Text.lit "sentence", .number (printInt sentence))]).trans (if_neg hlong)
    refine ⟨"missing file", ?_⟩
    simp only [Command.handler, handleClientWrite, handleLookupCommon, Command.body, hname]
  | addaccess name target write =>
    refine ⟨"missing fields", ?_⟩
    rw [Command.handler, handleClientAddaccess, Command.body, read_file, read_user]
    split
    · next hname htarget _ =>
      exact absurd ⟨(Option.ite_none_right_eq_some.1 hname).1, (Option.ite_none_right_eq_some.1 htarget).1⟩ hlong
    · rfl
  | remaccess name target =>
    refine ⟨"missing fields", ?_⟩
    rw [Command.handler, handleClientRemoveaccess, Command.body, read_file, read_user]
    split
    · next hname htarget =>
      exact absurd ⟨(Option.ite_none_right_eq_some.1 hname).1, (Option.ite_none_right_eq_some.1 htarget).1⟩ hlong
    · rfl
  | reqaccess name write =>
    refine ⟨"missing fields", ?_⟩
    rw [Command.handler, handleClientReqaccess, Command.body, read_file]
    split
    · next hname _ => exact absurd (Option.ite_none_right_eq_some.1 hname).1 hlong
    · rfl
  | handlereq name requester approve =>
    refine ⟨"missing fields", ?_⟩
    rw [Command.handler, handleClientHandlereq, Command.body, read_file, read_user]
    split
    · next hname hrequester _ =>
      exact absurd ⟨(Option.ite_none_right_eq_some.1 hname).1, (Option.ite_none_right_eq_some.1 hrequester).1⟩ hlong
    · rfl

end Message

/-! ## Every line -/

theorem addFlag_mem {flags : Text} (h : flags ∈ [[], ['a'], ['l'], ['a', 'l'], ['l', 'a']]) (c : Char) :
    addFlag flags c ∈ [[], ['a'], ['l'], ['a', 'l'], ['l', 'a']] := by
  unfold addFlag
  split_ifs with hnew
  · obtain ⟨hletter, hnot⟩ := hnew
    simp only [List.mem_cons, List.not_mem_nil, or_false] at h
    rcases h with rfl | rfl | rfl | rfl | rfl <;> rcases hletter with hc | hc <;> simp_all
  · exact h

/-- The options of `VIEW`, whatever stands in the line. -/
theorem flags_mem (tokens : List Text) :
    tokens.foldl addFlags [] ∈ [[], ['a'], ['l'], ['a', 'l'], ['l', 'a']] := by
  have hword {flags : Text} (letters : Text) (h : flags ∈ [[], ['a'], ['l'], ['a', 'l'], ['l', 'a']]) :
      letters.foldl addFlag flags ∈ [[], ['a'], ['l'], ['a', 'l'], ['l', 'a']] := by
    induction letters generalizing flags with
    | nil => exact h
    | cons c letters ih => exact ih (addFlag_mem h c)
  have htokens {flags : Text} (tokens : List Text) (h : flags ∈ [[], ['a'], ['l'], ['a', 'l'], ['l', 'a']]) :
      tokens.foldl addFlags flags ∈ [[], ['a'], ['l'], ['a', 'l'], ['l', 'a']] := by
    induction tokens generalizing flags with
    | nil => exact h
    | cons token tokens ih =>
      refine ih ?_
      unfold addFlags
      split
      · exact hword _ h
      · exact h
  exact htokens tokens (by simp)

section Proper

variable {args : Text} {c : Command}

theorem proper_promptFile {op : FileOp} (h : promptFile op args = .command c) : c.Proper := by
  unfold promptFile at h
  split at h <;> cases h
  trivial

theorem proper_promptListcheckpoints (h : promptListcheckpoints args = .command c) : c.Proper := by
  unfold promptListcheckpoints at h
  split at h <;> cases h
  trivial

theorem proper_promptTag {op : TagOp} (h : promptTag op args = .command c) : c.Proper := by
  unfold promptTag at h
  split at h
  · cases h
  split at h
  · cases h
  dsimp only at h
  split_ifs at h <;> cases h
  trivial

theorem proper_promptWrite (h : promptWrite args = .command c) : c.Proper := by
  unfold promptWrite at h
  split at h
  · cases h
  split at h
  · cases h
    exact ⟨by decide, by decide⟩
  split at h
  · cases h
    exact Writing.toInt32_bounds _
  · cases h

theorem proper_promptAddaccess (h : promptAddaccess args = .command c) : c.Proper := by
  unfold promptAddaccess at h
  split at h
  · cases h
  split at h
  · cases h
  dsimp only at h
  split at h <;> cases h
  trivial

theorem proper_promptRemaccess (h : promptRemaccess args = .command c) : c.Proper := by
  unfold promptRemaccess at h
  split at h
  · cases h
  split at h <;> cases h
  trivial

theorem proper_promptReqaccess (h : promptReqaccess args = .command c) : c.Proper := by
  unfold promptReqaccess at h
  split at h
  · cases h
  split at h
  · cases h
  split at h <;> cases h
  trivial

theorem proper_promptViewreqs (h : promptViewreqs args = .command c) : c.Proper := by
  unfold promptViewreqs at h
  split at h
  · cases h
  dsimp only at h
  split_ifs at h <;> cases h <;> trivial

theorem proper_promptHandlereq (h : promptHandlereq args = .command c) : c.Proper := by
  unfold promptHandlereq at h
  split at h
  · cases h
  split at h
  · cases h
  split at h
  · cases h
  dsimp only at h
  split_ifs at h <;> cases h <;> trivial

theorem proper_ite {p : Prop} [Decidable p] {a b : Prompt} (ha : a = .command c → c.Proper)
    (hb : b = .command c → c.Proper) : (if p then a else b) = .command c → c.Proper := by
  split
  · exact ha
  · exact hb

theorem proper_promptCommand {word : Text} : promptCommand word args = .command c → c.Proper := by
  unfold promptCommand
  refine proper_ite nofun ?_
  refine proper_ite (fun h => by cases h; exact flags_mem _) ?_
  refine proper_ite (fun h => by cases h; trivial) ?_
  refine proper_ite proper_promptFile ?_
  refine proper_ite proper_promptFile ?_
  refine proper_ite proper_promptFile ?_
  refine proper_ite proper_promptFile ?_
  refine proper_ite proper_promptFile ?_
  refine proper_ite proper_promptTag ?_
  refine proper_ite proper_promptTag ?_
  refine proper_ite proper_promptTag ?_
  refine proper_ite proper_promptListcheckpoints ?_
  refine proper_ite proper_promptWrite ?_
  refine proper_ite proper_promptAddaccess ?_
  refine proper_ite proper_promptRemaccess ?_
  refine proper_ite proper_promptReqaccess ?_
  refine proper_ite proper_promptViewreqs ?_
  refine proper_ite proper_promptHandlereq ?_
  refine proper_ite proper_promptFile ?_
  refine proper_ite proper_promptFile ?_
  exact proper_ite (fun h => by cases h; trivial) nofun

/-- What the prompt understood is proper, whatever was typed. -/
theorem proper_prompt {line : Text} (h : prompt line = .command c) : c.Proper := by
  unfold prompt at h
  split at h
  · cases h
  · exact proper_promptCommand h

end Proper

/-- **What the name manager finds is what the prompt understood**: whatever line is typed, if a message goes out for it,
the name manager finds the command of the line in the message and goes by nothing else in it, or a name is too long and
the name manager refuses the message. -/
theorem prompt_found {line username payload : Text} {c : Command} (hline : prompt line = .command c)
    (hsent : c.sent username = some payload) (user : Text) (now : Int) :
    (c.Short ∧ readCommand payload = some c ∧ ∀ json, readCommand json = some c →
        handleClientMessage user payload now = handleClientMessage user json now) ∨
      (¬ c.Short ∧ ∃ reason, handleClientMessage user payload now = refuse .BADREQ reason) := by
  rw [sent_eq hsent]
  by_cases hshort : c.Short
  · have hread : readCommand (printMessage (typeField c.type :: c.body username)) = some c :=
      readCommand_of_finds (read_type c _) (finds_body hshort (proper_prompt hline))
    exact .inl ⟨hshort, hread, fun json hjson => handled_alike user hread hjson now⟩
  · exact .inr ⟨hshort, refused_body hshort user now⟩

/-- A line with blanks, a quoted name and a mode behind the user. -/
theorem prompt_found_quoted :
    let c : Command := .addaccess (Text.lit "no\"tes") (Text.lit "frank") true
    readCommand (printMessage (typeField c.type :: c.body [])) = some c := by
  intro c
  have hline : prompt (Text.lit "addaccess  no\"tes frank  rw ") = .command c := by decide
  have hsent : c.sent [] = some (printMessage (typeField c.type :: c.body [])) := by decide
  have hshort : c.Short := ⟨by decide, by decide⟩
  exact ((prompt_found hline hsent (Text.lit "frank") 0).resolve_right fun h => h.1 hshort).2.1

/-! ## Commands that can be typed -/

/-- A word that stands in a line. -/
structure Arg (t : Text) : Prop where
  word : Word t
  nul : '\x00' ∉ t

def Command.words : Command → List Text
  | .view flags => Text.lit "VIEW" :: if flags = [] then [] else ['-' :: flags]
  | .list => [Text.lit "LIST"]
  | .file op name => [Text.lit op.type, name]
  | .tag op name label => [Text.lit op.type, name, label]
  | .write name sentence => [Text.lit "WRITE", name, printInt sentence]
  | .addaccess name user writing =>
    [Text.lit "ADDACCESS", Text.lit (if writing then "-W" else "-R"), name, user]
  | .remaccess name user => [Text.lit "REMACCESS", name, user]
  | .reqaccess name writing => [Text.lit "REQACCESS", name, Text.lit (if writing then "-W" else "-R")]
  | .viewreqs mine => [Text.lit "VIEWREQS", Text.lit (if mine then "SENT" else "RECEIVED")]
  | .handlereq name user approve =>
    [Text.lit "HANDLEREQ", name, user, Text.lit (if approve then "APPROVE" else "DENY")]
  | .exit => [Text.lit "EXIT"]

/-- The arguments are words, the tag is one that the client accepts, and the rest is as the prompt makes it. -/
def Command.Typable : Command → Prop
  | .view flags => flags ∈ [[], ['a'], ['l'], ['a', 'l'], ['l', 'a']]
  | .list | .viewreqs _ | .exit => True
  | .file _ name | .reqaccess name _ => Arg name
  | .tag _ name label => Arg name ∧ Arg label ∧ validCheckpointTag label = true
  | .write name sentence => Arg name ∧ -2 ^ 31 ≤ sentence ∧ sentence < 2 ^ 31
  | .addaccess name user _ | .remaccess name user | .handlereq name user _ => Arg name ∧ Arg user

section Arg

variable {t : Text} (h : Arg t)
include h

theorem Arg.ne_nil : t ≠ [] := h.word.1

theorem Arg.not_isSpace {c : Char} (hc : c ∈ t) : isSpace c = false := h.word.2 c hc

theorem Arg.dropWhile : t.dropWhile isSpace = t := by
  obtain ⟨c, s, rfl⟩ := List.exists_cons_of_ne_nil h.ne_nil
  exact List.dropWhile_cons_of_neg (by simpa using h.not_isSpace (List.mem_cons_self ..))

theorem Arg.trimSpaces : trimSpaces t = t := by
  rw [Commands.trimSpaces, h.dropWhile, List.rdropWhile_eq_self_iff]
  exact fun hne => by simpa using h.not_isSpace (List.getLast_mem hne)

theorem Arg.blank : ∀ c ∈ t, (c == ' ') = false := by
  intro c hc
  have := h.not_isSpace hc
  simp only [beq_eq_false_iff_ne]
  rintro rfl
  simp [isSpace] at this

/-- The first word of a line, and the rest. -/
theorem strtokR_spaced (ts : List Text) : strtokR (spaced (t :: ts)) = some (t, spaced ts) := by
  have hne : ∀ c ∈ t, (c != ' ') = true := fun c hc => by simpa using h.blank c hc
  have hhead {s : Text} : (t ++ s).dropWhile (· == ' ') = t ++ s := by
    obtain ⟨c, u, rfl⟩ := List.exists_cons_of_ne_nil h.ne_nil
    exact List.dropWhile_cons_of_neg (by simpa using h.blank c (List.mem_cons_self ..))
  have hword {s : Text} (hs : ∀ c ∈ s.head?, c = ' ') :
      (t ++ s).takeWhile (· != ' ') = t ∧ (t ++ s).dropWhile (· != ' ') = s := by
    rw [List.takeWhile_append_of_pos hne, List.dropWhile_append_of_pos hne]
    cases s with
    | nil => simp
    | cons c s =>
      obtain rfl := hs c (by simp)
      simp
  have hline : ∃ s, spaced (t :: ts) = t ++ s ∧ (∀ c ∈ s.head?, c = ' ') ∧ s.drop 1 = spaced ts := by
    cases ts with
    | nil => exact ⟨[], by simp [spaced_singleton], by simp, by simp [spaced]⟩
    | cons u ts => exact ⟨' ' :: spaced (u :: ts), spaced_cons_cons t u ts, by simp, by simp⟩
  obtain ⟨s, hs, hblank, hdrop⟩ := hline
  rw [strtokR, hs, hhead]
  split
  · next hnil => exact absurd (List.append_eq_nil_iff.1 hnil).1 h.ne_nil
  · rw [(hword hblank).1, (hword hblank).2, hdrop]

end Arg

theorem arg_lit {s : String} (h : (Text.lit s).all (fun c => !isSpace c && c != '\x00') = true ∧ Text.lit s ≠ []) :
    Arg (Text.lit s) := by
  obtain ⟨hall, hne⟩ := h
  simp only [List.all_eq_true, Bool.and_eq_true, Bool.not_eq_true', bne_iff_ne] at hall
  exact ⟨⟨hne, fun c hc => (hall c hc).1⟩, fun hnul => (hall _ hnul).2 rfl⟩

theorem arg_printInt (z : Int) : Arg (printInt z) := by
  have hdigits (n : Nat) : ∀ c ∈ printNat n, isSpace c = false ∧ c ≠ '\x00' := fun c hc =>
    ⟨not_isSpace_of_isDigit (isDigit_of_mem_printNat hc),
      fun h => absurd (isDigit_of_mem_printNat hc) (by rw [h]; decide)⟩
  cases z with
  | ofNat n => exact ⟨⟨printNat_ne_nil n, fun c hc => (hdigits n c hc).1⟩, fun h => (hdigits n _ h).2 rfl⟩
  | negSucc n =>
    refine ⟨⟨by simp [printInt], ?_⟩, ?_⟩
    · simp only [printInt, List.forall_mem_cons]
      exact ⟨by decide, fun c hc => (hdigits _ c hc).1⟩
    · simp only [printInt, List.mem_cons, not_or]
      exact ⟨by decide, fun h => (hdigits _ _ h).2 rfl⟩

theorem spaced_ne_nil {t : Text} (h : Arg t) (ts : List Text) : spaced (t :: ts) ≠ [] := by
  cases ts with
  | nil => simpa [spaced_singleton] using h.ne_nil
  | cons u ts => simp [spaced_cons_cons]

/-- A line of words is read as it was typed. -/
theorem trimNewline_spaced {ts : List Text} (h : ∀ t ∈ ts, Arg t) : trimNewline (spaced ts) = spaced ts := by
  have hnul : ∀ c ∈ spaced ts, c ≠ '\x00' :=
    forall_mem_spaced (by decide) fun t ht c hc heq => (h t ht).nul (heq ▸ hc)
  have hlast : ∀ hne : spaced ts ≠ [], isSpace ((spaced ts).getLast hne) = false := by
    induction ts with
    | nil => exact fun hne => absurd rfl hne
    | cons t ts ih =>
      cases ts with
      | nil => exact fun hne => (h t (by simp)).not_isSpace (by simp [spaced_singleton])
      | cons u ts =>
        intro hne
        have hrest : spaced (u :: ts) ≠ [] := spaced_ne_nil (h u (by simp)) ts
        have := ih (fun v hv => h v (List.mem_cons_of_mem _ hv)) (fun c hc => hnul c (by
          rw [spaced_cons_cons]; simp [hc])) hrest
        simpa [spaced_cons_cons, List.getLast_append, List.getLast_cons hrest] using this
  rw [Writing.trimNewline, List.takeWhile_eq_self_iff.2 (by simpa using hnul), List.rdropWhile_eq_self_iff]
  intro hne
  have := hlast hne
  intro hend
  simp only [Bool.or_eq_true, beq_iff_eq] at hend
  rcases hend with hend | hend <;> simp [hend, isSpace] at this

/-- The first word of the line of a command goes to the dispatch. -/
theorem prompt_spaced {word : String} {ts : List Text} (hword : Arg (Text.lit word)) (hts : ∀ t ∈ ts, Arg t) :
    prompt (spaced (Text.lit word :: ts)) = promptCommand ((Text.lit word).map Char.toUpper) (spaced ts) := by
  rw [prompt, trimNewline_spaced (List.forall_mem_cons.2 ⟨hword, hts⟩), strtokR_spaced hword]

theorem promptFile_name {op : FileOp} {name : Text} (h : Arg name) :
    promptFile op (spaced [name]) = .command (.file op name) := by
  rw [promptFile, spaced_singleton, strtokRest, if_neg h.ne_nil]
  exact congrArg (fun name => Prompt.command (.file op name)) h.dropWhile

theorem promptListcheckpoints_name {name : Text} (h : Arg name) :
    promptListcheckpoints (spaced [name]) = .command (.file .listcheckpoints name) := by
  rw [promptListcheckpoints, spaced_singleton, strtokRest, if_neg h.ne_nil, Option.map_some, h.trimSpaces]
  obtain ⟨c, s, rfl⟩ := List.exists_cons_of_ne_nil h.ne_nil
  rfl

theorem promptTag_names {op : TagOp} {name tag : Text} (h : Arg name) (htag : Arg tag)
    (hvalid : validCheckpointTag tag = true) : promptTag op (spaced [name, tag]) = .command (.tag op name tag) := by
  rw [promptTag, strtokR_spaced h]
  dsimp only
  rw [strtokR_spaced htag]
  dsimp only
  rw [h.trimSpaces, htag.trimSpaces, if_neg (by simp [h.ne_nil, htag.ne_nil, hvalid])]

theorem promptWrite_sentence {name : Text} (h : Arg name) {sentence : Int}
    (hbounds : -2 ^ 31 ≤ sentence ∧ sentence < 2 ^ 31) :
    promptWrite (spaced [name, printInt sentence]) = .command (.write name sentence) := by
  have hlong : LONG_MIN ≤ sentence ∧ sentence ≤ LONG_MAX := by
    unfold LONG_MIN LONG_MAX
    omega
  have hread : strtol (printInt sentence) = some (sentence, []) := by
    simpa using strtol_printInt hlong noDigitHead_nil
  rw [promptWrite, strtokR_spaced h]
  dsimp only
  rw [spaced_singleton, (arg_printInt sentence).dropWhile]
  split
  · next hnil => exact absurd hnil (arg_printInt sentence).ne_nil
  · rw [hread]
    dsimp only
    rw [toInt32_eq_self hbounds]

theorem promptAddaccess_option {name user : Text} (h : Arg name) (huser : Arg user) (write : Bool) :
    promptAddaccess (spaced [Text.lit (if write then "-W" else "-R"), name, user]) =
      .command (.addaccess name user write) := by
  have hoption : Arg (Text.lit (if write then "-W" else "-R")) := arg_lit (by cases write <;> decide)
  have hmode : modeOption (Text.lit (if write then "-W" else "-R")) = some write := by cases write <;> decide
  rw [promptAddaccess, strtokR_spaced hoption]
  dsimp only
  rw [strtokR_spaced h]
  dsimp only
  rw [hmode, spaced_singleton, strtokRest, if_neg huser.ne_nil]
  dsimp only [Option.map_some]
  rw [huser.trimSpaces, huser.trimSpaces]
  obtain ⟨c, s, rfl⟩ := List.exists_cons_of_ne_nil huser.ne_nil
  rfl

theorem promptRemaccess_user {name user : Text} (h : Arg name) (huser : Arg user) :
    promptRemaccess (spaced [name, user]) = .command (.remaccess name user) := by
  rw [promptRemaccess, strtokR_spaced h]
  dsimp only
  rw [spaced_singleton, strtokRest, if_neg huser.ne_nil]
  exact congrArg (fun user => Prompt.command (.remaccess name user)) huser.dropWhile

theorem promptReqaccess_option {name : Text} (h : Arg name) (write : Bool) :
    promptReqaccess (spaced [name, Text.lit (if write then "-W" else "-R")]) = .command (.reqaccess name write) := by
  have hoption : Arg (Text.lit (if write then "-W" else "-R")) := arg_lit (by cases write <;> decide)
  have hmode : modeOption (Text.lit (if write then "-W" else "-R")) = some write := by cases write <;> decide
  rw [promptReqaccess, strtokR_spaced h]
  dsimp only
  rw [strtokR_spaced hoption]
  dsimp only
  rw [h.trimSpaces, hoption.trimSpaces, hmode]
  obtain ⟨c, s, rfl⟩ := List.exists_cons_of_ne_nil h.ne_nil
  rfl

theorem promptHandlereq_action {name user : Text} (h : Arg name) (huser : Arg user) (approve : Bool) :
    promptHandlereq (spaced [name, user, Text.lit (if approve then "APPROVE" else "DENY")]) =
      .command (.handlereq name user approve) := by
  have haction : Arg (Text.lit (if approve then "APPROVE" else "DENY")) := arg_lit (by cases approve <;> decide)
  rw [promptHandlereq, strtokR_spaced h]
  dsimp only
  rw [strtokR_spaced huser]
  dsimp only
  rw [strtokR_spaced haction]
  dsimp only
  rw [h.trimSpaces, huser.trimSpaces, haction.trimSpaces, if_neg (by simp [h.ne_nil, huser.ne_nil])]
  cases approve <;> rfl

/-- The prompt understands the line of a command. -/
theorem prompt_words {c : Command} (h : c.Typable) : prompt (spaced c.words) = .command c := by
  cases c with
  | view flags =>
    have hall : ∀ flags ∈ [[], ['a'], ['l'], ['a', 'l'], ['l', 'a']],
        prompt (spaced (Command.view flags).words) = .command (.view flags) := by decide
    exact hall flags h
  | list => decide
  | exit => decide
  | viewreqs sent => cases sent <;> decide
  | file op name =>
    have hname : ∀ t ∈ [name], Arg t := List.forall_mem_singleton.2 h
    rw [Command.words, prompt_spaced (arg_lit (by cases op <;> decide)) hname]
    cases op with
    | listcheckpoints => exact promptListcheckpoints_name h
    | _ => exact promptFile_name h
  | tag op name tag =>
    obtain ⟨hname, htag, hvalid⟩ := h
    rw [Command.words, prompt_spaced (arg_lit (by cases op <;> decide))
      (List.forall_mem_cons.2 ⟨hname, List.forall_mem_singleton.2 htag⟩)]
    cases op <;> exact promptTag_names hname htag hvalid
  | write name sentence =>
    obtain ⟨hname, hbounds⟩ := h
    rw [Command.words, prompt_spaced (arg_lit (by decide))
      (List.forall_mem_cons.2 ⟨hname, List.forall_mem_singleton.2 (arg_printInt sentence)⟩)]
    exact promptWrite_sentence hname hbounds
  | addaccess name user write =>
    rw [Command.words, prompt_spaced (arg_lit (by decide)) (List.forall_mem_cons.2
      ⟨arg_lit (by cases write <;> decide), List.forall_mem_cons.2 ⟨h.1, List.forall_mem_singleton.2 h.2⟩⟩)]
    exact promptAddaccess_option h.1 h.2 write
  | remaccess name user =>
    rw [Command.words, prompt_spaced (arg_lit (by decide))
      (List.forall_mem_cons.2 ⟨h.1, List.forall_mem_singleton.2 h.2⟩)]
    exact promptRemaccess_user h.1 h.2
  | reqaccess name write =>
    rw [Command.words, prompt_spaced (arg_lit (by decide))
      (List.forall_mem_cons.2 ⟨h, List.forall_mem_singleton.2 (arg_lit (by cases write <;> decide))⟩)]
    exact promptReqaccess_option h write
  | handlereq name user approve =>
    rw [Command.words, prompt_spaced (arg_lit (by decide)) (List.forall_mem_cons.2 ⟨h.1,
      List.forall_mem_cons.2 ⟨h.2, List.forall_mem_singleton.2 (arg_lit (by cases approve <;> decide))⟩⟩)]
    exact promptHandlereq_action h.1 h.2 approve

/-! ## They are sent -/

/-- A field that leaves room for others in a message. -/
def Fits (f : Field) : Prop := 5 + f.1.length + f.2.print.length ≤ 400

theorem length_message_lt {type : String} {body : List Field} (hbody : body.length ≤ 3)
    (hfits : ∀ f ∈ typeField type :: body, Fits f) : (printMessage (typeField type :: body)).length < MAX_JSON := by
  have hmessage := CoWrite.Nm.length_printMessage_le (typeField type :: body)
  have hsum := List.sum_le_card_nsmul ((typeField type :: body).map fun f => 5 + f.1.length + f.2.print.length) 400
    (List.forall_mem_map.2 hfits)
  rw [List.length_map, List.length_cons, smul_eq_mul] at hsum
  unfold MAX_JSON
  omega

theorem nmCall_some {type : String} {body : List Field} (hbody : body.length ≤ 3)
    (hfits : ∀ f ∈ typeField type :: body, Fits f) :
    nmCall type body = some (printMessage (typeField type :: body)) := by
  have hroom := length_message_lt hbody hfits
  have hfields : (printFields body).length ≤ (printMessage (typeField type :: body)).length := by
    cases body with
    | nil => simp [printFields]
    | cons f fs =>
      rw [printMessage, printFields_cons_cons]
      simp only [List.length_append, List.length_cons]
      omega
  rw [nmCall, if_neg (by omega)]
  exact if_neg (by omega)

theorem fits_textField {key : String} (hkey : (Text.lit key).length ≤ 16) {text : Text}
    (h : text.length < NM_MAX_NAME) : Fits (textField key text) := by
  have := length_jsonEscape_le text
  unfold NM_MAX_NAME at h
  simp only [Fits, textField, Value.print, List.length_append, List.length_cons, List.length_nil]
  omega

theorem fits_typeField (c : Command) : Fits (typeField c.type) := by
  have := (type_plain c).2
  have htype : (Text.lit "type").length = 4 := by decide
  simp only [Fits, typeField, Value.print, List.length_append, List.length_cons, List.length_nil, htype]
  omega

theorem fits_body {c : Command} (hshort : c.Short) (hproper : c.Proper) {username : Text}
    (huser : username.length < NM_MAX_USER) :
    (c.body username).length ≤ 3 ∧ ∀ f ∈ c.body username, Fits f := by
  have hlong {t : Text} (h : t.length < NM_MAX_USER) : t.length < NM_MAX_NAME := h.trans (by decide)
  cases c with
  | view flags =>
    have hall : ∀ flags ∈ [[], ['a'], ['l'], ['a', 'l'], ['l', 'a']],
        (Command.body [] (.view flags)).length ≤ 3 ∧
          ∀ f ∈ Command.body [] (.view flags), 5 + f.1.length + f.2.print.length ≤ 400 := by decide
    exact hall flags hproper
  | list => exact ⟨by simp [Command.body], by simp [Command.body]⟩
  | exit => exact ⟨by simp [Command.body], by simp [Command.body]⟩
  | viewreqs sent =>
    exact ⟨le_of_lt (by decide : 1 < 3), List.forall_mem_singleton.2
      (fits_textField (by decide) (by cases sent <;> decide))⟩
  | file op name => exact ⟨le_of_lt (by decide : 1 < 3), List.forall_mem_singleton.2 (fits_textField (by decide) hshort)⟩
  | tag op name tag =>
    have hname := fits_textField (by decide : (Text.lit "file").length ≤ 16) hshort.1
    have htag := fits_textField (by decide : (Text.lit "tag").length ≤ 16) hshort.2
    have husername := fits_textField (by decide : (Text.lit "user").length ≤ 16) (hlong huser)
    cases op with
    | checkpoint =>
      exact ⟨by simp [Command.body], List.forall_mem_cons.2 ⟨hname, List.forall_mem_singleton.2 htag⟩⟩
    | viewcheckpoint =>
      exact ⟨by simp [Command.body],
        List.forall_mem_cons.2 ⟨hname, List.forall_mem_cons.2 ⟨htag, List.forall_mem_singleton.2 husername⟩⟩⟩
    | revert =>
      exact ⟨by simp [Command.body],
        List.forall_mem_cons.2 ⟨hname, List.forall_mem_cons.2 ⟨htag, List.forall_mem_singleton.2 husername⟩⟩⟩
  | write name sentence =>
    have hnumber : Fits (Text.lit "sentence", .number (printInt sentence)) := by
      have hlong : LONG_MIN ≤ sentence ∧ sentence ≤ LONG_MAX := by
        have hbounds : -2 ^ 31 ≤ sentence ∧ sentence < 2 ^ 31 := hproper
        unfold LONG_MIN LONG_MAX
        omega
      have := length_printInt_le hlong
      have hkey : (Text.lit "sentence").length = 8 := by decide
      simp only [Fits, Value.print, hkey]
      omega
    exact ⟨by simp [Command.body],
      List.forall_mem_cons.2 ⟨fits_textField (by decide) hshort, List.forall_mem_singleton.2 hnumber⟩⟩
  | addaccess name user write =>
    exact ⟨by simp [Command.body], List.forall_mem_cons.2 ⟨fits_textField (by decide) hshort.1,
      List.forall_mem_cons.2 ⟨fits_textField (by decide) (hlong hshort.2),
        List.forall_mem_singleton.2 (fits_textField (by decide) (by cases write <;> decide))⟩⟩⟩
  | remaccess name user =>
    exact ⟨by simp [Command.body], List.forall_mem_cons.2 ⟨fits_textField (by decide) hshort.1,
      List.forall_mem_singleton.2 (fits_textField (by decide) (hlong hshort.2))⟩⟩
  | reqaccess name write =>
    exact ⟨by simp [Command.body], List.forall_mem_cons.2 ⟨fits_textField (by decide) hshort,
      List.forall_mem_singleton.2 (fits_textField (by decide) (by cases write <;> decide))⟩⟩
  | handlereq name user approve =>
    exact ⟨by simp [Command.body], List.forall_mem_cons.2 ⟨fits_textField (by decide) hshort.1,
      List.forall_mem_cons.2 ⟨fits_textField (by decide) (hlong hshort.2),
        List.forall_mem_singleton.2 (fits_textField (by decide) (by cases approve <;> decide))⟩⟩⟩

/-- With short names the buffers of the handlers suffice. -/
theorem sent_nmCall {c : Command} (hshort : c.Short) {username : Text} (huser : username.length < NM_MAX_USER) :
    c.sent username = nmCall c.type (c.body username) := by
  have hescaped {s : Text} (h : s.length < NM_MAX_NAME) : jsonEscapeString 256 s = some (jsonEscape s) :=
    jsonEscapeString_of_length (n := NM_MAX_NAME) h
  have husername : jsonEscapeString 256 username = some (jsonEscape username) := hescaped (huser.trans (by decide))
  cases c with
  | file op name =>
    cases op with
    | listcheckpoints =>
      rw [Command.sent, handleListcheckpointsCmd, hescaped hshort]
      rfl
    | _ => rfl
  | tag op name tag =>
    cases op with
    | checkpoint =>
      rw [Command.sent, handleCheckpointCmd, hescaped hshort.1, hescaped hshort.2]
      rfl
    | viewcheckpoint =>
      rw [Command.sent, handleViewcheckpointCmd, userTagCmd, hescaped hshort.1, hescaped hshort.2, husername]
      rfl
    | revert =>
      rw [Command.sent, handleRevertCmd, userTagCmd, hescaped hshort.1, hescaped hshort.2, husername]
      rfl
  | addaccess name user write => cases write <;> rfl
  | reqaccess name write => cases write <;> rfl
  | viewreqs sent => cases sent <;> rfl
  | _ => rfl

theorem Command.Typable.proper {c : Command} (h : c.Typable) : c.Proper := by
  cases c with
  | view flags => exact h
  | write name sentence => exact h.2
  | _ => trivial

end CoWrite.Client.Commands
