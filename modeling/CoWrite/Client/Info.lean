import CoWrite.Client.Recovery

/-!
# What the client shows of a file

`INFO` tells of one file what the name manager has of it, with the users that may read and write it.
`info_shown_iff`: what is shown is what the tables hold, for counts and times that an `int` holds and users without line
breaks and tabs; `print_access_list` takes the letter of an escape for the character.
-/

namespace CoWrite.Client

open CoWrite.Nm
open CoWrite.Cluster (isOk)
open CoWrite.Cluster.Handlers

/-! ## The parser -/

/-- `describe_server_status` with a buffer of 192 bytes. -/
def describeServerStatus (id status : Text) : Text :=
  Text.copyTo 192 <|
    if status = Text.lit "offline" then
      if id.isEmpty then Text.lit "offline" else Text.lit "offline (last: " ++ id ++ [')']
    else if status = Text.lit "none" then Text.lit "none"
    else if status = Text.lit "online" then if id.isEmpty then Text.lit "unknown" else id
    else if !id.isEmpty then id
    else if !status.isEmpty then status
    else Text.lit "unknown"

/-- The loop over a user's name in `print_access_list`: the name, and what stands behind it. -/
def accessName : Text → Text × Text
  | [] => ([], [])
  | '\\' :: c :: s => (c :: (accessName s).1, (accessName s).2)
  | c :: s => if c = '"' then ([], s) else (c :: (accessName s).1, (accessName s).2)

theorem length_accessName (s : Text) : (accessName s).2.length ≤ s.length := by
  induction s using accessName.induct with
  | case1 => exact Nat.le_refl _
  | case2 c s ih =>
    rw [accessName]
    exact ih.trans (Nat.le_succ_of_le (Nat.le_succ _))
  | case3 s h =>
    rw [accessName, if_pos rfl]
    · exact Nat.le_succ _
    · exact h
  | case4 c s h hc ih =>
    rw [accessName, if_neg hc]
    · exact ih.trans (Nat.le_succ _)
    · exact h

/-- What is printed for a name. -/
def shownUser (name : Text) : Text := if name.isEmpty then Text.lit "(unknown)" else name

/-- The loop of `print_access_list`; of a name the first 127 characters are kept. -/
def scanAccess : Text → List Text
  | [] => []
  | c :: s =>
    if c = ']' then []
    else if c = '"' then
      have : (accessName s).2.length < s.length + 1 := Nat.lt_succ_of_le (length_accessName s)
      shownUser (Text.copyTo 128 (accessName s).1) :: scanAccess (accessName s).2
    else scanAccess s
termination_by s => s.length

/-- `print_access_list`: the users that are printed, where the list is known. -/
def printAccessList (block key : Text) : Option (List Text) :=
  let pattern := keyColon key ++ ['[']
  if pattern.length ≥ 64 then none else (strstr pattern block).map scanAccess

/-- What is printed of a file; the times are shown as dates. -/
structure InfoLine where
  name : Text
  owner : Text
  words : Int
  chars : Int
  created : Int
  modified : Int
  lastAccess : Int
  lastUser : Text
  primary : Text
  backup : Text
  readAccess : Option (List Text)
  writeAccess : Option (List Text)
deriving DecidableEq, Repr

/-- What is printed of one chunk. -/
def infoLine (file chunk : Text) : InfoLine where
  name :=
    let name := readInto [] chunk (Text.lit "name") 128
    if name.isEmpty then file else name
  owner := readInto [] chunk (Text.lit "owner") 128
  words := (jsonGetInt chunk (Text.lit "words")).getD (-1)
  chars := (jsonGetInt chunk (Text.lit "chars")).getD (-1)
  created := (jsonGetInt chunk (Text.lit "created")).getD 0
  modified := (jsonGetInt chunk (Text.lit "modified")).getD 0
  lastAccess := (jsonGetInt chunk (Text.lit "lastAccess")).getD 0
  lastUser :=
    let lastUser := readInto [] chunk (Text.lit "lastAccessUser") 128
    if lastUser.isEmpty then Text.lit "unknown" else lastUser
  primary := describeServerStatus (readInto [] chunk (Text.lit "primaryServer") 128)
    (readInto [] chunk (Text.lit "primaryStatus") 32)
  backup := describeServerStatus (readInto [] chunk (Text.lit "backupServer") 128)
    (readInto [] chunk (Text.lit "backupStatus") 32)
  readAccess := printAccessList chunk (Text.lit "readAccess")
  writeAccess := printAccessList chunk (Text.lit "writeAccess")

inductive Info where
  | refused
  | noMetadata
  /-- The object has no end. -/
  | nothing
  | shown (line : InfoLine)
deriving DecidableEq, Repr

/-- `handle_info_cmd` after the call, for the file that was asked for. -/
def handleInfoCmd (file response : Text) : Info :=
  if !isOk response then .refused
  else
    match strstr (Text.lit "\"file\":\x7b") response with
    | none => .noMetadata
    | some pos =>
      match strchr '}' pos with
      | none => .nothing
      | some (lead, _) => .shown (infoLine file (lead ++ ['}']))

/-! ## Lists of users -/

/-- A user in a list. -/
def userText (user : Text) : Text := (Value.string (jsonEscape user)).print

/-- What `append_access_array` prints. -/
def accessText (key : Text) (users : List Text) : Text :=
  keyColon key ++ '[' :: (separated true (users.map userText) ++ [']'])

/-- Nothing in the name is escaped by a letter. -/
def Unbroken (name : Text) : Prop := '\n' ∉ name ∧ '\r' ∉ name ∧ '\t' ∉ name

instance (name : Text) : Decidable (Unbroken name) := inferInstanceAs (Decidable (_ ∧ _ ∧ _))

/-- The character that `print_access_list` takes from an escape. -/
def letterOf : Char → Char
  | '\n' => 'n'
  | '\r' => 'r'
  | '\t' => 't'
  | c => c

theorem letterOf_eq_self {c : Char} : letterOf c = c ↔ c ≠ '\n' ∧ c ≠ '\r' ∧ c ≠ '\t' := by
  unfold letterOf
  split
  · simp
  · simp
  · simp
  · next h1 h2 h3 => exact iff_of_true rfl ⟨h1, h2, h3⟩

theorem map_letterOf_eq_self {name : Text} : name.map letterOf = name ↔ Unbroken name := by
  induction name with
  | nil => simp [Unbroken]
  | cons c name ih =>
    rw [List.map_cons, List.cons.injEq, letterOf_eq_self, ih]
    simp only [Unbroken, List.mem_cons, not_or, ne_eq, eq_comm (a := c)]
    tauto

/-- A name is taken up to its closing quote, with the letters of its escapes. -/
theorem accessName_escaped (name s : Text) : accessName (jsonEscape name ++ '"' :: s) = (name.map letterOf, s) := by
  induction name with
  | nil => rfl
  | cons c name ih =>
    rw [jsonEscape_cons, List.append_assoc]
    by_cases hc : c ∈ ['"', '\\', '\n', '\r', '\t']
    · obtain ⟨d, hd, hletter⟩ : ∃ d, escapeChar c = ['\\', d] ∧ d = letterOf c := by
        simp only [List.mem_cons, List.not_mem_nil, or_false] at hc
        rcases hc with rfl | rfl | rfl | rfl | rfl <;> exact ⟨_, rfl, rfl⟩
      rw [hd, List.cons_append, List.cons_append, List.nil_append, accessName, ih, hletter]
      rfl
    · have hplain := hc
      simp only [List.mem_cons, List.not_mem_nil, or_false, not_or] at hplain
      obtain ⟨hquote, hback, hn, hr, ht⟩ := hplain
      rw [escapeChar_of_ne hc, List.singleton_append, accessName, if_neg hquote, ih, List.map_cons,
        letterOf_eq_self.2 ⟨hn, hr, ht⟩]
      exact fun _ _ h => absurd h hback

theorem scanAccess_comma (s : Text) : scanAccess (',' :: s) = scanAccess s := by
  rw [scanAccess, if_neg (by decide), if_neg (by decide)]

theorem scanAccess_end (s : Text) : scanAccess (']' :: s) = [] := by
  rw [scanAccess, if_pos rfl]

theorem scanAccess_user {name : Text} (h : name.length < 128) (s : Text) :
    scanAccess (userText name ++ s) = shownUser (name.map letterOf) :: scanAccess s := by
  have htext : userText name ++ s = '"' :: (jsonEscape name ++ '"' :: s) := by simp [userText, Value.print]
  rw [htext, scanAccess, if_neg (by decide), if_pos rfl, accessName_escaped, Text.copyTo_eq_self (by rwa [List.length_map])]

theorem shownUser_letters_iff {name : Text} : shownUser (name.map letterOf) = shownUser name ↔ Unbroken name := by
  rw [← map_letterOf_eq_self]
  cases name with
  | nil => simp [shownUser]
  | cons c name => simp [shownUser]

/-- The users of a list are shown when none of them needs a letter, and only then. -/
theorem scanAccess_eq_iff {users : List Text} (h : ∀ user ∈ users, user.length < 128) (s : Text) :
    scanAccess (separated true (users.map userText) ++ ']' :: s) = users.map shownUser ↔ ∀ user ∈ users, Unbroken user := by
  refine scan_eq_iff shownUser scanAccess_end users ?_ true s
  intro user huser first s
  refine ⟨shownUser (user.map letterOf), scanAccess s, ?_, shownUser_letters_iff, fun _ => rfl⟩
  cases first with
  | true => exact scanAccess_user (h user huser) s
  | false => exact (scanAccess_comma _).trans (scanAccess_user (h user huser) s)

/-! ## What is sent -/

/-- The users that `append_access_array` names. -/
def allowed (file : FileEntry) (perm : BitVec 32) : List Text :=
  file.owner :: (file.acl.filter fun acl => acl.perm &&& perm == perm).map FileAclEntry.user

/-- The fields before the lists. -/
def infoFields (state : NmState) (file : FileEntry) : List Field :=
  [(Text.lit "name", .string (jsonEscape file.name)), (Text.lit "owner", .string (jsonEscape file.owner)),
    (Text.lit "words", .number (printInt file.wordCount)), (Text.lit "chars", .number (printInt file.charCount)),
    (Text.lit "created", .number (printInt file.created)), (Text.lit "modified", .number (printInt file.modified)),
    (Text.lit "lastAccess", .number (printInt file.lastAccess)),
    (Text.lit "lastAccessUser", .string (jsonEscape file.lastAccessUser)),
    (Text.lit "primaryServer", .string (jsonEscape (serverName state file.ssIndex))),
    (Text.lit "primaryStatus", .string (jsonEscape (serverStatus state file.ssIndex))),
    (Text.lit "backupServer", .string (jsonEscape (serverName state file.backupIndex))),
    (Text.lit "backupStatus", .string (jsonEscape (serverStatus state file.backupIndex)))]

/-- The two lists. -/
def infoLists (file : FileEntry) : Text :=
  accessText (Text.lit "readAccess") (allowed file NM_PERM_READ) ++
    ',' :: accessText (Text.lit "writeAccess") (allowed file NM_PERM_WRITE)

section Sent

variable {state : NmState} {file : FileEntry}

theorem appendAccessArray_ok {buf : Option Text} {key : String} {perm : BitVec 32} {text : Text}
    (h : appendAccessArray buf key file perm = some text) :
    ∃ t, buf = some t ∧ text = t ++ accessText (Text.lit key) (allowed file perm) := by
  have happend {buf : Option Text} {lead user t : Text}
      (ht : ((jsonEscapeString 256 user).bind fun user => jsonAppend buf (lead ++ (Value.string user).print)) = some t) :
      ∃ t', buf = some t' ∧ t = t' ++ (lead ++ userText user) := by
    obtain ⟨escaped, hescaped, ht⟩ := Option.bind_eq_some_iff.1 ht
    obtain rfl := jsonEscapeString_some hescaped
    exact jsonAppend_some ht
  have hloop (users : List Text) {buf : Option Text} {t : Text} (ht : users.foldl (fun buf user =>
      (jsonEscapeString 256 user).bind fun user => jsonAppend buf ([','] ++ (Value.string user).print)) buf = some t) :
      ∃ t', buf = some t' ∧ t = t' ++ separated false (users.map userText) := by
    induction users generalizing buf with
    | nil => exact ⟨t, ht, by simp [separated_nil]⟩
    | cons user users ih =>
      obtain ⟨t', ht', rfl⟩ := ih ht
      obtain ⟨t'', rfl, rfl⟩ := happend ht'
      exact ⟨t'', rfl, by simp [separated_cons]⟩
  unfold appendAccessArray at h
  obtain ⟨t₁, h₁, rfl⟩ := jsonAppend_some h
  obtain ⟨t₂, h₂, rfl⟩ := hloop _ h₁
  obtain ⟨t₃, h₃, rfl⟩ := happend h₂
  obtain ⟨t, rfl, rfl⟩ := jsonAppend_some h₃
  refine ⟨t, rfl, ?_⟩
  simp [accessText, allowed, keyColon, separated_cons, Text.lit]

theorem infoText_ok (hstored : state.Stored) {text : Text}
    (h : infoText state file (jsonEscape file.name) (jsonEscape file.owner) (jsonEscape file.lastAccessUser) = some text) :
    text = Text.lit "\"file\":" ++ (fieldsBefore (infoFields state file) ++ infoLists file) ++ ['}'] := by
  have hstatus (index : Int) := (serverStatus_spec state index).2.2.2.1
  have hcount (n : Nat) : printNat n = printInt n := rfl
  obtain ⟨t₁, h₁, rfl⟩ := jsonAppend_some h
  obtain ⟨t₂, h₂, rfl⟩ := appendAccessArray_ok h₁
  obtain ⟨t₃, h₃, rfl⟩ := jsonAppend_some h₂
  obtain ⟨t₄, h₄, rfl⟩ := appendAccessArray_ok h₃
  obtain ⟨t₅, h₅, rfl⟩ := jsonAppend_some h₄
  obtain ⟨t₆, h₆, rfl⟩ := jsonAppend_some h₅
  obtain ⟨t₇, h₇, rfl⟩ := jsonAppend_some h₆
  obtain ⟨t₈, h₈, rfl⟩ := jsonAppend_some h₇
  cases h₈
  simp [infoLists, infoFields, fieldsBefore, printFields, serverFields, serverLabels_eq hstored,
    hstatus, hcount, Text.lit]

theorem info_extra {answers : Nat → Option Text} {user json name extra : Text} (hstored : state.Stored)
    (hname : jsonFile json = some name) (hfile : nmFindFile state name = some file)
    (h : (handleClientInfo user json).result (fun _ => state) answers = .ok extra) :
    extra = Text.lit "\"file\":" ++ (fieldsBefore (infoFields state file) ++ infoLists file) ++ ['}'] := by
  unfold handleClientInfo at h
  rw [hname] at h
  dsimp only [Lib.Prog.result] at h
  rw [hfile] at h
  dsimp only at h
  split at h
  · cases h
  split at h
  · next hescaped howner hlast =>
    rw [jsonEscapeString_some hescaped, jsonEscapeString_some howner, jsonEscapeString_some hlast] at h
    split at h
    · cases h
    · next htext =>
      cases h
      exact infoText_ok hstored htext
  · cases h

theorem wellFormed_infoFields (state : NmState) (file : FileEntry) : WellFormed (infoFields state file) := by
  have hstring (key v : Text) (hkey : IsKey key) : IsKey key ∧ (Value.string (jsonEscape v)).WellFormed :=
    ⟨hkey, (escaped_jsonEscape v).1⟩
  have hnumber (key : Text) (z : Int) (hkey : IsKey key) : IsKey key ∧ (Value.number (printInt z)).WellFormed :=
    ⟨hkey, quote_not_mem_printInt z⟩
  unfold WellFormed infoFields
  simp only [List.forall_mem_cons]
  refine ⟨hstring _ _ ?_, hstring _ _ ?_, hnumber _ _ ?_, hnumber _ _ ?_, hnumber _ _ ?_, hnumber _ _ ?_, hnumber _ _ ?_,
    hstring _ _ ?_, hstring _ _ ?_, hstring _ _ ?_, hstring _ _ ?_, hstring _ _ ?_, by simp⟩ <;> decide

end Sent

/-! ## Reading a chunk -/

/-- No pattern begins with a brace. -/
theorem strstr_brace {key t pattern : Text} (h : keyPattern key t = some pattern) (s : Text) :
    strstr pattern ('\x7b' :: s) = strstr pattern s := by
  unfold keyPattern at h
  dsimp only at h
  obtain ⟨-, h⟩ := Option.ite_none_right_eq_some.1 h
  cases h
  exact strstr_cons_of_ne (by decide) ..

theorem jsonGetString_brace (s key : Text) (n : Nat) : jsonGetString ('\x7b' :: s) key n = jsonGetString s key n := by
  unfold jsonGetString
  cases h : keyPattern key ['"'] with
  | none => rfl
  | some pattern => rw [Option.bind_some, Option.bind_some, strstr_brace h]

theorem jsonGetInt_brace (s key : Text) : jsonGetInt ('\x7b' :: s) key = jsonGetInt s key := by
  unfold jsonGetInt
  cases h : keyPattern key [] with
  | none => rfl
  | some pattern => rw [Option.bind_some, Option.bind_some, strstr_brace h]

section Search

variable {key : Text} (hkey : IsKey key) (t : Text)

include hkey

/-- A search passes users, and the end of their list. -/
theorem strstr_skip_users (users : List Text) (first : Bool) (s : Text) :
    strstr (keyColon key ++ t) (separated first (users.map userText) ++ ']' :: s) = strstr (keyColon key ++ t) s := by
  have hskip {c : Char} (hc : c ≠ '"') (s : Text) : strstr (keyColon key ++ t) (c :: s) = strstr (keyColon key ++ t) s :=
    strstr_cons_of_ne hc ..
  have hlead (first : Bool) (s : Text) : strstr (keyColon key ++ t) ((if first then [] else [',']) ++ s) =
      strstr (keyColon key ++ t) s := by
    cases first with
    | true => rfl
    | false => exact hskip (by decide) s
  have huser (user : Text) {c : Char} (hc : c ≠ ':' ∧ c.isAlpha = false) (s : Text) :
      strstr (keyColon key ++ t) (userText user ++ c :: s) = strstr (keyColon key ++ t) (c :: s) := by
    have htext : userText user ++ c :: s = '"' :: (jsonEscape user ++ '"' :: c :: s) := by simp [userText, Value.print]
    rw [htext]
    exact strstr_escaped hkey.plain (escaped_jsonEscape user).1 hc.1 (hkey.not_isPrefix hc.2 t s)
  induction users generalizing first with
  | nil =>
    rw [List.map_nil, separated_nil]
    exact hskip (c := ']') (by decide) s
  | cons user users ih =>
    rw [List.map_cons, separated_cons, List.append_assoc, hlead, List.append_assoc]
    refine Eq.trans ?_ (ih false)
    cases users with
    | nil => exact huser user (by decide) s
    | cons user' users =>
      rw [List.map_cons, separated_cons]
      exact huser user (by decide) _

/-- A search passes the list of another key. -/
theorem strstr_skip_access {other : Text} (hother : IsKey other) (hne : other ≠ key) (users : List Text) (s : Text) :
    strstr (keyColon key ++ t) (accessText other users ++ s) = strstr (keyColon key ++ t) s := by
  have htext : accessText other users ++ s =
      '"' :: (other ++ '"' :: ':' :: '[' :: (separated true (users.map userText) ++ ']' :: s)) := by
    simp [accessText, keyColon]
  rw [htext, strstr_printField hkey.plain hother.plain.1 t _ (hkey.not_isPrefix (by decide) t _) fun h => hne h.1]
  refine Eq.trans ?_ (strstr_skip_users hkey t users true s)
  exact strstr_cons_of_ne (by decide) ..

end Search

section Chunk

variable {state : NmState} {file : FileEntry}

/-- The chunk of a file without a brace in its names. -/
def infoChunk (state : NmState) (file : FileEntry) : Text :=
  ((infoFields state file).flatMap fun f => printField f ++ [',']) ++ (infoLists file ++ ['}'])

theorem infoChunk_brace (state : NmState) (file : FileEntry) :
    '{' :: infoChunk state file = fieldsBefore (infoFields state file) ++ (infoLists file ++ ['}']) := rfl

/-- The lists stand behind fields of other keys. -/
theorem strstr_infoChunk {key : Text} (h : key = Text.lit "readAccess" ∨ key = Text.lit "writeAccess") (t : Text) :
    strstr (keyColon key ++ t) (infoChunk state file) = strstr (keyColon key ++ t) (infoLists file ++ ['}']) := by
  have hkey : IsKey key := by
    rcases h with rfl | rfl <;> decide
  have hne : ∀ f ∈ infoFields state file, f.1 ≠ key := by
    unfold infoFields
    simp only [List.forall_mem_cons]
    rcases h with rfl | rfl <;> decide
  exact strstr_skip_fields hkey (wellFormed_infoFields state file) hne t _

/-- The users of a list of the chunk, which other users follow or nothing. -/
theorem printAccessList_at {key : Text} (hkey : IsKey key ∧ key.length < 60) {chunk : Text} {users : List Text} {s : Text}
    (h : ∀ t, strstr (keyColon key ++ t) chunk = strstr (keyColon key ++ t) (accessText key users ++ s))
    (husers : ∀ user ∈ users, user.length < 128) :
    printAccessList chunk key = some (users.map shownUser) ↔ ∀ user ∈ users, Unbroken user := by
  have htext : accessText key users ++ s = (keyColon key ++ ['[']) ++ (separated true (users.map userText) ++ ']' :: s) := by
    simp [accessText]
  have hlen : ¬ (keyColon key ++ ['[']).length ≥ 64 := by
    simp only [keyColon, List.length_append, List.length_cons, List.length_nil]
    omega
  unfold printAccessList
  rw [if_neg hlen, h, htext, strstr_append, Option.map_some, Option.some.injEq]
  exact scanAccess_eq_iff husers s

theorem readAccess_iff (h : ∀ user ∈ allowed file NM_PERM_READ, user.length < 128) :
    printAccessList (infoChunk state file) (Text.lit "readAccess") = some ((allowed file NM_PERM_READ).map shownUser) ↔
      ∀ user ∈ allowed file NM_PERM_READ, Unbroken user := by
  refine printAccessList_at (s := ',' :: accessText (Text.lit "writeAccess") (allowed file NM_PERM_WRITE) ++ ['}'])
    (by decide) (fun t => ?_) h
  rw [strstr_infoChunk (.inl rfl), infoLists, List.append_assoc]

theorem writeAccess_iff (h : ∀ user ∈ allowed file NM_PERM_WRITE, user.length < 128) :
    printAccessList (infoChunk state file) (Text.lit "writeAccess") = some ((allowed file NM_PERM_WRITE).map shownUser) ↔
      ∀ user ∈ allowed file NM_PERM_WRITE, Unbroken user := by
  have hkey : IsKey (Text.lit "writeAccess") := by decide
  refine printAccessList_at (s := ['}']) (by decide) (fun t => ?_) h
  rw [strstr_infoChunk (.inr rfl), infoLists, List.append_assoc,
    strstr_skip_access hkey t (show IsKey (Text.lit "readAccess") by decide) (by decide)]
  exact strstr_cons_of_ne (by decide) ..

end Chunk

/-! ## What is shown -/

/-- What the client is to show of a file. -/
def shownFile (state : NmState) (file : FileEntry) : InfoLine where
  name := file.name
  owner := file.owner
  words := file.wordCount
  chars := file.charCount
  created := file.created
  modified := file.modified
  lastAccess := file.lastAccess
  lastUser := if file.lastAccessUser.isEmpty then Text.lit "unknown" else file.lastAccessUser
  primary := describeServerStatus (serverName state file.ssIndex) (serverStatus state file.ssIndex)
  backup := describeServerStatus (serverName state file.backupIndex) (serverStatus state file.backupIndex)
  readAccess := some ((allowed file NM_PERM_READ).map shownUser)
  writeAccess := some ((allowed file NM_PERM_WRITE).map shownUser)

/-- No name has a brace, which is the end of the object for the client. -/
structure Braceless (state : NmState) (file : FileEntry) : Prop where
  name : '}' ∉ file.name
  owner : '}' ∉ file.owner
  lastUser : '}' ∉ file.lastAccessUser
  primary : '}' ∉ serverName state file.ssIndex
  backup : '}' ∉ serverName state file.backupIndex
  acl : ∀ entry ∈ file.acl, '}' ∉ entry.user

/-- **What can be shown**: counts and times that an `int` holds, and users without line breaks and tabs. -/
structure Showable (file : FileEntry) : Prop where
  words : file.wordCount < 2 ^ 31
  chars : file.charCount < 2 ^ 31
  created : IsInt file.created
  modified : IsInt file.modified
  lastAccess : IsInt file.lastAccess
  readers : ∀ user ∈ allowed file NM_PERM_READ, Unbroken user
  writers : ∀ user ∈ allowed file NM_PERM_WRITE, Unbroken user

section Shown

variable {state : NmState} {file : FileEntry}

/-- A user of a list is the owner or in the access list. -/
theorem forall_allowed {P : Text → Prop} (howner : P file.owner) (hacl : ∀ entry ∈ file.acl, P entry.user)
    (perm : BitVec 32) : ∀ user ∈ allowed file perm, P user := by
  unfold allowed
  rw [List.forall_mem_cons, List.forall_mem_map]
  exact ⟨howner, fun entry hentry => hacl entry (List.mem_of_mem_filter hentry)⟩

theorem brace_accessText {key : Text} (hkey : IsKey key) {users : List Text} (h : ∀ user ∈ users, '}' ∉ user) :
    '}' ∉ accessText key users := by
  have huser (user : Text) (hu : '}' ∉ user) : '}' ∉ userText user := by simp [userText, Value.print, brace_jsonEscape, hu]
  have hlist (first : Bool) : '}' ∉ separated first (users.map userText) := by
    induction users generalizing first with
    | nil => simp [separated_nil]
    | cons user users ih =>
      obtain ⟨hu, h⟩ := List.forall_mem_cons.1 h
      rw [List.map_cons, separated_cons, List.mem_append, List.mem_append, not_or, not_or]
      exact ⟨by cases first <;> simp, huser user hu, ih h false⟩
  simp [accessText, keyColon, hkey.ne (show ('}' : Char).isAlpha = false by decide), hlist]

theorem Braceless.chunk (h : Braceless state file) :
    '}' ∉ ((infoFields state file).flatMap fun f => printField f ++ [',']) ++ infoLists file := by
  have hprimary := (serverStatus_spec state file.ssIndex).2.2.2.2
  have hbackup := (serverStatus_spec state file.backupIndex).2.2.2.2
  have hbefore : '}' ∉ fieldsBefore (infoFields state file) ++ (keyColon (Text.lit "name") ++ '"' :: []) := by
    refine (brace_body (fun f hf => (wellFormed_infoFields state file f hf).1) (by decide) []).2 ⟨?_, by simp⟩
    simp [infoFields, Value.print, brace_jsonEscape, brace_not_mem_printInt, hprimary, hbackup, h.name, h.owner,
      h.lastUser, h.primary, h.backup]
  have hfields : '}' ∉ (infoFields state file).flatMap fun f => printField f ++ [','] := fun hmem =>
    hbefore (List.mem_append_left _ (List.mem_cons_of_mem _ hmem))
  have husers := forall_allowed (P := ('}' ∉ ·)) h.owner h.acl
  rw [List.mem_append, infoLists, List.mem_append, List.mem_cons, not_or, not_or, not_or]
  exact ⟨hfields, brace_accessText (by decide) (husers _), by decide, brace_accessText (by decide) (husers _)⟩

/-- A string of the chunk is read. -/
theorem readInto_infoChunk (pre post : List Field) {key v : Text} {n : Nat} (hkey : IsKey key ∧ key.length < 124)
    (hsplit : infoFields state file = pre ++ (key, .string (jsonEscape v)) :: post) (hne : ∀ f ∈ pre, f.1 ≠ key)
    (hv : v.length < n) : readInto [] (infoChunk state file) key n = v := by
  refine readInto_eq ?_
  rw [← jsonGetString_brace, infoChunk_brace, hsplit, fieldsBefore_append_cons]
  refine jsonGetString_at hkey (fun f hf => wellFormed_infoFields state file f ?_) hne hv _
  rw [hsplit]
  exact List.mem_append_left _ hf

theorem jsonGetInt_infoChunk (pre post : List Field) (key : Text) {z : Int} (hkey : IsKey key ∧ key.length < 124)
    (hsplit : infoFields state file = pre ++ (key, .number (printInt z)) :: post) (hne : ∀ f ∈ pre, f.1 ≠ key) :
    jsonGetInt (infoChunk state file) key = some (toInt32 (clampLong z)) := by
  rw [← jsonGetInt_brace, infoChunk_brace, hsplit, fieldsBefore_append_cons]
  refine jsonGetInt_at hkey (fun f hf => wellFormed_infoFields state file f ?_) hne z (by decide) _
  rw [hsplit]
  exact List.mem_append_left _ hf

/-- A chunk is read field by field. -/
theorem infoLine_infoChunk (h : Short state file) :
    infoLine file.name (infoChunk state file) =
      { shownFile state file with
        words := toInt32 (clampLong file.wordCount)
        chars := toInt32 (clampLong file.charCount)
        created := toInt32 (clampLong file.created)
        modified := toInt32 (clampLong file.modified)
        lastAccess := toInt32 (clampLong file.lastAccess)
        readAccess := printAccessList (infoChunk state file) (Text.lit "readAccess")
        writeAccess := printAccessList (infoChunk state file) (Text.lit "writeAccess") } := by
  let fields := infoFields state file
  have hstatus (index : Int) := (serverStatus_spec state index).2.2.1
  have hname : readInto [] (infoChunk state file) (Text.lit "name") 128 = file.name :=
    readInto_infoChunk [] (fields.drop 1) (by decide) rfl (by simp) h.name
  have howner : readInto [] (infoChunk state file) (Text.lit "owner") 128 = file.owner :=
    readInto_infoChunk (fields.take 1) (fields.drop 2) (by decide) rfl (by simp [fields, infoFields, Text.lit]) h.owner
  have hwords := jsonGetInt_infoChunk (fields.take 2) (fields.drop 3) (Text.lit "words") (by decide) rfl
    (by simp [fields, infoFields, Text.lit])
  have hchars := jsonGetInt_infoChunk (fields.take 3) (fields.drop 4) (Text.lit "chars") (by decide) rfl
    (by simp [fields, infoFields, Text.lit])
  have hcreated := jsonGetInt_infoChunk (fields.take 4) (fields.drop 5) (Text.lit "created") (by decide) rfl
    (by simp [fields, infoFields, Text.lit])
  have hmodified := jsonGetInt_infoChunk (fields.take 5) (fields.drop 6) (Text.lit "modified") (by decide) rfl
    (by simp [fields, infoFields, Text.lit])
  have haccess := jsonGetInt_infoChunk (fields.take 6) (fields.drop 7) (Text.lit "lastAccess") (by decide) rfl
    (by simp [fields, infoFields, Text.lit])
  have huser : readInto [] (infoChunk state file) (Text.lit "lastAccessUser") 128 = file.lastAccessUser :=
    readInto_infoChunk (fields.take 7) (fields.drop 8) (by decide) rfl (by simp [fields, infoFields, Text.lit]) h.lastUser
  have hprimary : readInto [] (infoChunk state file) (Text.lit "primaryServer") 128 = serverName state file.ssIndex :=
    readInto_infoChunk (fields.take 8) (fields.drop 9) (by decide) rfl (by simp [fields, infoFields, Text.lit]) h.primary
  have hstatus₁ : readInto [] (infoChunk state file) (Text.lit "primaryStatus") 32 = serverStatus state file.ssIndex :=
    readInto_infoChunk (fields.take 9) (fields.drop 10) (by decide) rfl (by simp [fields, infoFields, Text.lit]) (hstatus _)
  have hbackup : readInto [] (infoChunk state file) (Text.lit "backupServer") 128 = serverName state file.backupIndex :=
    readInto_infoChunk (fields.take 10) (fields.drop 11) (by decide) rfl (by simp [fields, infoFields, Text.lit]) h.backup
  have hstatus₂ : readInto [] (infoChunk state file) (Text.lit "backupStatus") 32 = serverStatus state file.backupIndex :=
    readInto_infoChunk (fields.take 11) (fields.drop 12) (by decide) rfl (by simp [fields, infoFields, Text.lit]) (hstatus _)
  unfold infoLine shownFile
  rw [hname, howner, hwords, hchars, hcreated, hmodified, haccess, huser, hprimary, hstatus₁, hbackup, hstatus₂]
  simp

theorem shownFile_iff (hfile : file.Stored state.servers.length) (h : Short state file) :
    infoLine file.name (infoChunk state file) = shownFile state file ↔ Showable file := by
  have hlength (perm : BitVec 32) : ∀ user ∈ allowed file perm, user.length < 128 :=
    forall_allowed (P := (·.length < 128)) h.owner (fun entry hentry => (hfile.acl entry hentry).user.trans (by decide)) perm
  have htime {t : Int} (ht : IsTime t) : toInt32 (clampLong t) = t ↔ IsInt t := by
    rw [clampLong_eq_self ht]
    exact CoWrite.Cluster.toInt32_eq_iff
  rw [infoLine_infoChunk h]
  unfold shownFile
  simp only [InfoLine.mk.injEq, true_and, count_shown_iff, htime hfile.created, htime hfile.modified,
    htime hfile.lastAccess, readAccess_iff (hlength _), writeAccess_iff (hlength _)]
  constructor
  · rintro ⟨hwords, hchars, hcreated, hmodified, haccess, hreaders, hwriters⟩
    exact ⟨hwords, hchars, hcreated, hmodified, haccess, hreaders, hwriters⟩
  · rintro ⟨hwords, hchars, hcreated, hmodified, haccess, hreaders, hwriters⟩
    exact ⟨hwords, hchars, hcreated, hmodified, haccess, hreaders, hwriters⟩

end Shown

/-- A file of `alice` that `bob` may read and write. -/
def sharedNotes : FileEntry :=
  { newFileEntry (Text.lit "notes") (Text.lit "alice") (-1) (-1) 1700000000 with acl := [⟨Text.lit "bob", 3⟩] }

def sharedTables : NmState := { NmState.clear with files := [sharedNotes] }

theorem stored_sharedTables : sharedTables.Stored where
  serverCount := by decide
  servers := by simp [sharedTables, NmState.clear]
  fileCount := by decide
  files := by
    intro file hfile
    cases List.mem_singleton.1 hfile
    exact
      { name := ⟨by decide, by decide⟩
        owner := ⟨by decide, by decide⟩
        ssIndex := ⟨by decide, by decide⟩
        backupIndex := ⟨by decide, by decide⟩
        wordCount := by decide
        charCount := by decide
        created := by decide
        modified := by decide
        lastAccess := by decide
        lastAccessUser := ⟨by decide, by decide⟩
        aclCount := by decide
        acl := List.forall_mem_singleton.2 ⟨by decide, by decide⟩
        checkpointCount := by decide
        checkpoints := by simp [sharedNotes, newFileEntry] }
  names := by decide
  userCount := by decide
  users := by simp [sharedTables, NmState.clear]
  requestCount := by decide
  requests := by simp [sharedTables, NmState.clear]

end CoWrite.Client
