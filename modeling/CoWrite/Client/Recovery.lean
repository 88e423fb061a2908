import CoWrite.Client.Listings
import CoWrite.Cluster.Numbers

/-!
# What the client recovers of a listing

The entries that the name manager prints, and which of them the client's listings read as they were encoded: `view_iff`,
`list_iff` and `checkpoints_iff`.
-/

namespace CoWrite.Client

open CoWrite.Nm
open CoWrite.Cluster (isOk)
open CoWrite.Cluster.Handlers

/-! ## The entry of a file -/

/-- The name that is sent for a server. -/
def serverName (state : NmState) (index : Int) : Text := ((nmGetServer state index).map StorageServer.id).getD []

def serverStatus (state : NmState) (index : Int) : Text := (serverLabels state index).2

/-- The fields of an entry but the last, and the last. -/
def viewFields (state : NmState) (long : Bool) (file : FileEntry) : List Field × Text × Text :=
  if long then
    ([(Text.lit "name", .string (jsonEscape file.name)), (Text.lit "owner", .string (jsonEscape file.owner)),
      (Text.lit "words", .number (printInt file.wordCount)), (Text.lit "chars", .number (printInt file.charCount)),
      (Text.lit "lastAccess", .number (printInt file.lastAccess)),
      (Text.lit "lastAccessUser", .string (jsonEscape file.lastAccessUser)),
      (Text.lit "primaryServer", .string (jsonEscape (serverName state file.ssIndex))),
      (Text.lit "primaryStatus", .string (jsonEscape (serverStatus state file.ssIndex))),
      (Text.lit "backupServer", .string (jsonEscape (serverName state file.backupIndex)))],
      Text.lit "backupStatus", serverStatus state file.backupIndex)
  else ([], Text.lit "name", jsonEscape file.name)

/-- The entry up to the end of its last value. -/
def viewBody (state : NmState) (long : Bool) (file : FileEntry) : Text :=
  let (pre, key, value) := viewFields state long file
  fieldsBefore pre ++ (keyColon key ++ '"' :: value)

/-- The entry of a file. -/
def viewText (state : NmState) (long : Bool) (file : FileEntry) : Text := viewBody state long file ++ closing

/-- What the client is to show of a file. -/
def fileLine (state : NmState) (long : Bool) (file : FileEntry) : ViewLine where
  name := file.name
  details :=
    if long then
      some
        { owner := file.owner, words := file.wordCount, chars := file.charCount, lastUser := file.lastAccessUser
          primary := serverName state file.ssIndex, primaryStatus := serverStatus state file.ssIndex
          backup := serverName state file.backupIndex, backupStatus := serverStatus state file.backupIndex }
    else none

/-- The names of an entry fit the client's buffers. -/
structure Short (state : NmState) (file : FileEntry) : Prop where
  name : file.name.length < 128
  owner : file.owner.length < 128
  lastUser : file.lastAccessUser.length < 128
  primary : (serverName state file.ssIndex).length < 128
  backup : (serverName state file.backupIndex).length < 128

/-- **What the client can read of an entry**: no brace in the names, and with `-l` no more than 513 characters and no
count that an `int` does not hold. -/
structure Readable (state : NmState) (long : Bool) (file : FileEntry) : Prop where
  name : '}' ∉ file.name
  names : long = true → '}' ∉ file.owner ∧ '}' ∉ file.lastAccessUser ∧ '}' ∉ serverName state file.ssIndex ∧
    '}' ∉ serverName state file.backupIndex
  length : long = true → (viewText state long file).length ≤ 513
  counts : long = true → file.wordCount < 2 ^ 31 ∧ file.charCount < 2 ^ 31

section Entry

variable {state : NmState} {file : FileEntry}

/-- A status is one of four words. -/
theorem serverStatus_cases (state : NmState) (index : Int) :
    serverStatus state index ∈ [Text.lit "online", Text.lit "offline", Text.lit "unknown", Text.lit "none"] := by
  unfold serverStatus serverLabels
  split
  · split <;> simp
  · split <;> simp

theorem serverStatus_spec (state : NmState) (index : Int) :
    Plain (serverStatus state index) ∧ serverStatus state index ≠ [] ∧ (serverStatus state index).length < 32 ∧
      jsonEscape (serverStatus state index) = serverStatus state index ∧ '}' ∉ serverStatus state index := by
  have h := serverStatus_cases state index
  simp only [List.mem_cons, List.not_mem_nil, or_false] at h
  rcases h with h | h | h | h <;> rw [h] <;> decide

theorem wellFormed_viewFields (state : NmState) (long : Bool) (file : FileEntry) :
    WellFormed (viewFields state long file).1 := by
  have hstring (key v : Text) (hkey : IsKey key) : IsKey key ∧ (Value.string (jsonEscape v)).WellFormed :=
    ⟨hkey, (escaped_jsonEscape v).1⟩
  have hnumber (key : Text) (z : Int) (hkey : IsKey key) : IsKey key ∧ (Value.number (printInt z)).WellFormed :=
    ⟨hkey, quote_not_mem_printInt z⟩
  cases long with
  | false => simp [viewFields, WellFormed]
  | true =>
    intro f hf
    simp only [viewFields, if_true, List.mem_cons, List.not_mem_nil, or_false] at hf
    rcases hf with rfl | rfl | rfl | rfl | rfl | rfl | rfl | rfl | rfl
    · exact hstring (Text.lit "name") _ (by decide)
    · exact hstring (Text.lit "owner") _ (by decide)
    · exact hnumber (Text.lit "words") _ (by decide)
    · exact hnumber (Text.lit "chars") _ (by decide)
    · exact hnumber (Text.lit "lastAccess") _ (by decide)
    · exact hstring (Text.lit "lastAccessUser") _ (by decide)
    · exact hstring (Text.lit "primaryServer") _ (by decide)
    · exact hstring (Text.lit "primaryStatus") _ (by decide)
    · exact hstring (Text.lit "backupServer") _ (by decide)

/-- With `-l` a whole chunk is read field by field. -/
theorem viewLine_long (h : Short state file) (n : Nat) :
    viewLine (viewBody state true file ++ closing.take n) =
      some
        { name := file.name
          details := some
            { owner := file.owner, words := toInt32 (clampLong file.wordCount)
              chars := toInt32 (clampLong file.charCount), lastUser := file.lastAccessUser
              primary := serverName state file.ssIndex, primaryStatus := serverStatus state file.ssIndex
              backup := serverName state file.backupIndex, backupStatus := serverStatus state file.backupIndex } } := by
  have hwf := wellFormed_viewFields state true file
  have hbody : viewBody state true file = fieldsBefore (viewFields state true file).1 ++
      (keyColon (Text.lit "backupStatus") ++ '"' :: serverStatus state file.backupIndex) := rfl
  -- a string is read where it stands among the fields
  have hstring (pre post : List Field) (key v : Text) (n' : Nat) (hkey : IsKey key ∧ key.length < 124)
      (hsplit : (viewFields state true file).1 = pre ++ (key, .string (jsonEscape v)) :: post)
      (hne : ∀ f ∈ pre, f.1 ≠ key) (hv : v.length < n') :
      jsonGetString (viewBody state true file ++ closing.take n) key n' = some v := by
    rw [hbody, hsplit, List.append_assoc, fieldsBefore_append_cons]
    refine jsonGetString_at hkey (fun f hf => hwf f ?_) hne hv _
    rw [hsplit]
    exact List.mem_append_left _ hf
  have hint (pre post : List Field) (key : Text) (z : Int) (hkey : IsKey key ∧ key.length < 124)
      (hsplit : (viewFields state true file).1 = pre ++ (key, .number (printInt z)) :: post)
      (hne : ∀ f ∈ pre, f.1 ≠ key) :
      jsonGetInt (viewBody state true file ++ closing.take n) key = some (toInt32 (clampLong z)) := by
    rw [hbody, hsplit, List.append_assoc, fieldsBefore_append_cons]
    refine jsonGetInt_at hkey (fun f hf => hwf f ?_) hne z (by decide) _
    rw [hsplit]
    exact List.mem_append_left _ hf
  obtain ⟨hplain, -, hlen, hescape, -⟩ := serverStatus_spec state file.backupIndex
  have hlast : readInto [] (viewBody state true file ++ closing.take n) (Text.lit "backupStatus") 32 =
      serverStatus state file.backupIndex := by
    have hkey : IsKey (Text.lit "backupStatus") ∧ (Text.lit "backupStatus").length < 124 := by decide
    have hne : ∀ f ∈ (viewFields state true file).1, f.1 ≠ Text.lit "backupStatus" := by
      simp only [viewFields, if_true, List.forall_mem_cons]
      decide
    cases n with
    | zero =>
      rw [List.take_zero, List.append_nil, hbody]
      exact readInto_unclosed hkey hwf hne hplain hlen
    | succ n =>
      have hquote : viewBody state true file ++ closing.take (n + 1) = fieldsBefore (viewFields state true file).1 ++
          (printField (Text.lit "backupStatus", .string (jsonEscape (serverStatus state file.backupIndex))) ++
            List.take n ['}']) := by
        rw [hescape, hbody]
        simp [printField, keyColon, Value.print, closing]
      rw [hquote]
      exact readInto_eq (jsonGetString_at hkey hwf hne hlen _)
  let fields := (viewFields state true file).1
  have hname := hstring [] (fields.drop 1) (Text.lit "name") file.name 128 (by decide) rfl (by simp) h.name
  have howner := hstring (fields.take 1) (fields.drop 2) (Text.lit "owner") file.owner 128 (by decide) rfl
    (by simp [fields, viewFields, Text.lit]) h.owner
  have hwords := hint (fields.take 2) (fields.drop 3) (Text.lit "words") file.wordCount (by decide) rfl
    (by simp [fields, viewFields, Text.lit])
  have hchars := hint (fields.take 3) (fields.drop 4) (Text.lit "chars") file.charCount (by decide) rfl
    (by simp [fields, viewFields, Text.lit])
  have huser := hstring (fields.take 5) (fields.drop 6) (Text.lit "lastAccessUser") file.lastAccessUser 128 (by decide)
    rfl (by simp [fields, viewFields, Text.lit]) h.lastUser
  have hprimary := hstring (fields.take 6) (fields.drop 7) (Text.lit "primaryServer") _ 128 (by decide) rfl
    (by simp [fields, viewFields, Text.lit]) h.primary
  have hstatus := hstring (fields.take 7) (fields.drop 8) (Text.lit "primaryStatus") _ 32 (by decide) rfl
    (by simp [fields, viewFields, Text.lit]) (serverStatus_spec state file.ssIndex).2.2.1
  have hbackup := hstring (fields.take 8) (fields.drop 9) (Text.lit "backupServer") _ 128 (by decide) rfl
    (by simp [fields, viewFields, Text.lit]) h.backup
  unfold viewLine
  rw [hname, howner, hwords, hchars, huser, readInto_eq hprimary, readInto_eq hstatus, readInto_eq hbackup, hlast]
  rfl

theorem viewText_eq (state : NmState) (long : Bool) (file : FileEntry) :
    viewText state long file = printMessage ((viewFields state long file).1 ++
      [((viewFields state long file).2.1, .string (viewFields state long file).2.2)]) :=
  (printMessage_last ..).symm

/-- The entry has one name, at its beginning. -/
theorem isViewEntry_viewText (state : NmState) (long : Bool) (file : FileEntry) :
    IsViewEntry (viewText state long file) := by
  have hkey : IsKey (Text.lit "name") := by decide
  have htail {c : Char} (hc : c ≠ ':' ∧ c.isAlpha = false) {s : Text} (hnone : strstr namePattern (c :: s) = none) :
      strstr namePattern (jsonEscape file.name ++ '"' :: c :: s) = none := by
    have hskip := strstr_escaped hkey.plain (escaped_jsonEscape file.name).1 hc.1 (hkey.not_isPrefix hc.2 ['"'] s)
    have hwhole : strstr namePattern (['"'] ++ (jsonEscape file.name ++ '"' :: c :: s)) = none := hskip.trans hnone
    exact (strstr_none_of_append hwhole).2
  cases long with
  | false =>
    refine ⟨jsonEscape file.name ++ '"' :: '}' :: [], ?_, htail (by decide) (by decide), by simp⟩
    simp [viewText, viewBody, viewFields, fieldsBefore, namePattern, keyColon, closing]
  | true =>
    let later : List Field := (viewFields state true file).1.drop 1 ++
      [(Text.lit "backupStatus", .string (serverStatus state file.backupIndex))]
    have hlater : WellFormed later := by
      intro f hf
      obtain hf | hf := List.mem_append.1 hf
      · exact wellFormed_viewFields state true file f (List.mem_of_mem_drop hf)
      · cases List.mem_singleton.1 hf
        exact ⟨(by decide : IsKey (Text.lit "backupStatus")), (serverStatus_spec state file.backupIndex).1.escaped.1⟩
    have hno : NoString (Text.lit "name") later := by
      intro f hf hname
      refine absurd hname ?_
      revert f
      simp only [later, viewFields, if_true, List.drop_succ_cons, List.drop_zero, List.cons_append, List.nil_append,
        List.forall_mem_cons]
      decide
    have hnone : strstr namePattern (',' :: (printFields later ++ ['}'])) = none :=
      (strstr_cons_of_ne (by decide) ..).trans (strstr_printFields_eq_none hkey hlater hno)
    refine ⟨jsonEscape file.name ++ '"' :: ',' :: (printFields later ++ ['}']), ?_, htail (by decide) hnone, ?_⟩
    · have hsplit : printFields ((Text.lit "name", .string (jsonEscape file.name)) :: later) =
          printField (Text.lit "name", .string (jsonEscape file.name)) ++ ',' :: printFields later :=
        printFields_cons_cons ..
      rw [viewText_eq]
      refine congrArg (fun t => '{' :: t ++ ['}']) hsplit |>.trans ?_
      simp [printField, namePattern, keyColon, Value.print]
    · rw [← List.cons_append, ← List.cons_append, ← List.append_assoc]
      exact List.getLast?_concat ..

theorem isKey_viewFields (state : NmState) (long : Bool) (file : FileEntry) : IsKey (viewFields state long file).2.1 := by
  cases long with
  | true => exact (by decide : IsKey (Text.lit "backupStatus"))
  | false => exact (by decide : IsKey (Text.lit "name"))

/-- The braces of an entry are those of its names. -/
theorem brace_viewBody (state : NmState) (long : Bool) (file : FileEntry) :
    '}' ∉ viewBody state long file ↔ '}' ∉ file.name ∧ (long = true → '}' ∉ file.owner ∧ '}' ∉ file.lastAccessUser ∧
      '}' ∉ serverName state file.ssIndex ∧ '}' ∉ serverName state file.backupIndex) := by
  have hbody := brace_body (fun f hf => (wellFormed_viewFields state long file f hf).1) (isKey_viewFields state long file)
    (viewFields state long file).2.2
  refine hbody.trans ?_
  cases long with
  | false => simp [viewFields, brace_jsonEscape]
  | true =>
    have hprimary := (serverStatus_spec state file.ssIndex).2.2.2.2
    have hbackup := (serverStatus_spec state file.backupIndex).2.2.2.2
    simp [viewFields, Value.print, brace_jsonEscape, brace_not_mem_printInt, hprimary, hbackup]

/-- A count is shown as it is if an `int` holds it. -/
theorem count_shown_iff {n : Nat} : toInt32 (clampLong n) = n ↔ n < 2 ^ 31 := by
  refine ⟨?_, toInt32_clampLong_natCast⟩
  intro h
  have hint := isInt_toInt32 (clampLong n)
  unfold IsInt at hint
  omega

/-- A chunk that was cut is not read as its entry. -/
theorem viewLine_cut {long : Bool} {chunk rest : Text}
    (hchunk : chunk ++ rest = viewBody state long file)
    (hrest : (viewBody state long file).getLast? ≠ some '}' → rest ≠ []) :
    viewLine chunk ≠ some (fileLine state long file) := by
  have hwf := wellFormed_viewFields state long file
  cases long with
  | false =>
    have hnone : jsonGetString chunk (Text.lit "name") 128 = none :=
      jsonGetString_cut (by decide) (show WellFormed [] from hwf) (by simp) hchunk (escaped_jsonEscape file.name).1
    unfold viewLine
    rw [hnone]
    simp
  | true =>
    obtain ⟨hplain, hne, hlen, -, hbrace⟩ := serverStatus_spec state file.backupIndex
    have hlast : (viewBody state true file).getLast? ≠ some '}' := by
      intro hlast
      refine hbrace (List.mem_of_getLast? ?_)
      rw [← hlast]
      have hsplit : viewBody state true file = (fieldsBefore (viewFields state true file).1 ++
          (keyColon (Text.lit "backupStatus") ++ ['"'])) ++ serverStatus state file.backupIndex := by
        simp [viewBody, viewFields]
      rw [hsplit, List.getLast?_append_of_ne_nil _ hne]
    have hkeys : ∀ f ∈ (viewFields state true file).1, f.1 ≠ Text.lit "backupStatus" := by
      simp only [viewFields, if_true, List.forall_mem_cons]
      decide
    have hcut := readInto_cut (n := 32) (by decide) hwf hkeys hchunk (hrest hlast) hplain hne hlen
    unfold viewLine fileLine
    intro heq
    obtain ⟨name, -, hline⟩ := Option.map_eq_some_iff.1 heq
    have hdetails := congrArg ViewLine.details hline
    dsimp only at hdetails
    split at hdetails
    · exact hcut (congrArg ViewDetails.backupStatus (Option.some.inj hdetails))
    · cases hdetails

/-- **An entry is read as it was encoded** when it is readable, and only then. -/
theorem entry_iff (h : Short state file) (long : Bool) :
    viewLine (chunkOf (viewText state long file)) = some (fileLine state long file) ↔ Readable state long file := by
  have hlength : (viewText state long file).length = (viewBody state long file).length + 2 := by
    simp [viewText, closing]
  have hbrace := brace_viewBody state long file
  obtain ⟨hwhole, hlen, hchunk⟩ | ⟨hcut, rest, hchunk, hrest⟩ := chunkOf_cases (viewBody state long file)
  · rw [viewText, hchunk]
    have hnames := hbrace.1 hwhole
    cases long with
    | true =>
      rw [viewLine_long h]
      simp only [fileLine, if_true, Option.some.injEq, ViewLine.mk.injEq, ViewDetails.mk.injEq, true_and, and_true,
        count_shown_iff]
      constructor
      · intro hcounts
        exact ⟨hnames.1, hnames.2, fun _ => by omega, fun _ => hcounts⟩
      · intro hreadable
        exact hreadable.counts rfl
    | false =>
      refine iff_of_true ?_ ⟨hnames.1, by simp, by simp, by simp⟩
      have hshort : (viewBody state false file).length ≤ 264 := by
        have hescape : (jsonEscape file.name).length ≤ 2 * file.name.length := length_jsonEscape_le file.name
        have := h.name
        simp only [viewBody, viewFields, fieldsBefore, keyColon, Text.lit]
        simp
        omega
      have htake : closing.take (511 - (viewBody state false file).length) = closing :=
        List.take_of_length_le (by simp [closing]; omega)
      rw [htake]
      have hmessage : viewBody state false file ++ closing =
          printMessage ([] ++ (Text.lit "name", .string (jsonEscape file.name)) :: []) := viewText_eq state false file
      have hname : jsonGetString (viewBody state false file ++ closing) (Text.lit "name") 128 = some file.name := by
        rw [hmessage]
        exact jsonGetString_escaped (by decide) (by decide) (by simp [WellFormed]) noString_nil h.name []
      have howner : jsonGetString (viewBody state false file ++ closing) (Text.lit "owner") 128 = none := by
        rw [hmessage]
        refine jsonGetString_printMessage_eq_none (by decide) ?_ ?_ _
        · simp [WellFormed, Value.WellFormed, (escaped_jsonEscape file.name).1]
          decide
        · simp [NoString, Text.lit]
      unfold viewLine
      rw [hname, howner]
      rfl
  · rw [viewText]
    refine iff_of_false (viewLine_cut hchunk hrest) ?_
    intro hreadable
    have hnone : '}' ∉ viewBody state long file := hbrace.2 ⟨hreadable.name, hreadable.names⟩
    cases long with
    | true =>
      have := hreadable.length rfl
      exact hcut ⟨hnone, by omega⟩
    | false =>
      -- a short entry is cut at a brace only
      refine hcut ⟨hnone, ?_⟩
      have hescape : (jsonEscape file.name).length ≤ 2 * file.name.length := length_jsonEscape_le file.name
      have := h.name
      simp only [viewBody, viewFields, fieldsBefore, keyColon, Text.lit]
      simp
      omega

end Entry
/-! ## The checkpoints -/

/-- The fields of a checkpoint before its timestamp. -/
def checkpointFields (entry : CheckpointEntry) : List Field :=
  [(Text.lit "tag", .string (jsonEscape entry.tag)), (Text.lit "user", .string (jsonEscape entry.user))]

/-- The object of a checkpoint. -/
def checkpointText (entry : CheckpointEntry) : Text :=
  printMessage (checkpointFields entry ++ [(Text.lit "timestamp", .string (printInt entry.timestamp))])

/-- What the client is to show of a checkpoint. -/
def entryLine (entry : CheckpointEntry) : CheckpointLine where
  tag := entry.tag
  user := entry.user
  timestamp := some entry.timestamp

/-- What the client can read of a checkpoint. -/
structure ReadableCheckpoint (entry : CheckpointEntry) : Prop where
  tag : '}' ∉ entry.tag
  user : '}' ∉ entry.user
  timestamp : IsInt entry.timestamp

theorem scanCheckpoints_end (s : Text) : scanCheckpoints (']' :: s) = [] := by
  have hskip : ((']' :: s : Text)).dropWhile (fun c => isSpace c || c == ',') = ']' :: s := rfl
  rw [scanCheckpoints]
  split
  · rfl
  · next c t hp =>
    obtain ⟨rfl, rfl⟩ := List.cons.inj (hskip.symm.trans hp)
    rw [if_pos (by decide)]

/-- One object, after the comma or in the first place. -/
theorem scanCheckpoints_chunk (first : Bool) {lead : Text} (h : '}' ∉ lead) (hopen : lead.head? = some '{') (s : Text) :
    scanCheckpoints ((if first = true then [] else [',']) ++ (lead ++ '}' :: s)) =
      checkpointLine (lead ++ ['}']) :: scanCheckpoints s := by
  have hfound := strchr_append h s
  obtain ⟨lead, rfl⟩ : ∃ t, lead = '{' :: t := by
    cases lead with
    | nil => cases hopen
    | cons c t => exact ⟨t, by rw [Option.some.inj hopen]⟩
  have hskip : ((if first = true then [] else [',']) ++ ('{' :: lead ++ '}' :: s)).dropWhile
      (fun c => isSpace c || c == ',') = '{' :: (lead ++ '}' :: s) := by
    cases first <;> rfl
  rw [scanCheckpoints]
  split
  · next hp => exact absurd (hskip.symm.trans hp) (by simp)
  · next c t hp =>
    obtain ⟨rfl, rfl⟩ := List.cons.inj (hskip.symm.trans hp)
    rw [if_neg (by decide)]
    rw [List.cons_append] at hfound
    split
    · next hnone => cases hnone.symm.trans hfound
    · next hsome =>
      cases hsome.symm.trans hfound
      rfl

section Checkpoint

variable {entry : CheckpointEntry}

theorem wellFormed_checkpointFields (entry : CheckpointEntry) : WellFormed (checkpointFields entry) := by
  intro f hf
  simp only [checkpointFields, List.mem_cons, List.not_mem_nil, or_false] at hf
  rcases hf with rfl | rfl
  · exact ⟨(by decide : IsKey (Text.lit "tag")), (escaped_jsonEscape _).1⟩
  · exact ⟨(by decide : IsKey (Text.lit "user")), (escaped_jsonEscape _).1⟩

theorem jsonEscape_printInt (z : Int) : jsonEscape (printInt z) = printInt z := by
  have hdigit {c : Char} (h : c.isDigit = true) : c ∉ ['"', '\\', '\n', '\r', '\t'] := by
    simp only [List.mem_cons, List.not_mem_nil, or_false]
    rintro (rfl | rfl | rfl | rfl | rfl) <;> exact absurd h (by decide)
  refine jsonEscape_eq_self.2 fun c hc => ?_
  cases z with
  | ofNat n => exact hdigit (isDigit_of_mem_printNat hc)
  | negSucc n =>
    simp only [printInt, List.mem_cons] at hc
    obtain rfl | hc := hc
    · decide
    · exact hdigit (isDigit_of_mem_printNat hc)

theorem printInt_ne_nil (z : Int) : printInt z ≠ [] := by
  cases z with
  | ofNat n => exact printNat_ne_nil n
  | negSucc n => simp [printInt]

/-- What is read of a whole object. -/
theorem checkpointLine_whole (h : entry.Stored) : checkpointLine (checkpointText entry) =
    ⟨entry.tag, entry.user, some (toInt32 entry.timestamp)⟩ := by
  have hwf := wellFormed_checkpointFields entry
  have htag : entry.tag.length < 128 := h.tag.2
  have huser : entry.user.length < 128 := h.user.2.trans (by decide)
  have htime : (printInt entry.timestamp).length < 32 := Nat.lt_of_le_of_lt (length_printInt_le h.timestamp) (by decide)
  have hline (key v : Text) (n : Nat) (pre post : List Field) (hkey : IsKey key ∧ key.length < 124)
      (hsplit : checkpointFields entry ++ [(Text.lit "timestamp", .string (jsonEscape (printInt entry.timestamp)))] =
        pre ++ (key, .string (jsonEscape v)) :: post)
      (hpre : WellFormed pre) (hno : NoString key pre) (hv : v.length < n) :
      readInto [] (checkpointText entry) key n = v := by
    rw [checkpointText, ← jsonEscape_printInt, hsplit]
    exact readInto_eq (jsonGetString_escaped hkey.1 hkey.2 hpre hno hv post)
  have htagRead := hline (Text.lit "tag") _ 128 [] _ (by decide) rfl (by simp [WellFormed]) noString_nil htag
  have huserRead := hline (Text.lit "user") _ 128 [(Text.lit "tag", .string (jsonEscape entry.tag))] _ (by decide) rfl
    (fun f hf => hwf f (by simp [checkpointFields, List.mem_singleton.1 hf])) (by simp [NoString, Text.lit]) huser
  have htimeRead := hline (Text.lit "timestamp") _ 32 (checkpointFields entry) [] (by decide) rfl hwf
    (by simp [NoString, checkpointFields, Text.lit]) htime
  have hne : (printInt entry.timestamp).isEmpty = false := by
    simpa using printInt_ne_nil entry.timestamp
  unfold checkpointLine
  rw [htagRead, huserRead, htimeRead]
  dsimp only
  rw [hne, if_neg Bool.false_ne_true, atol_printInt h.timestamp]

/-- An object is shown as it was encoded when it is readable; then the parser goes on behind it. -/
theorem scanCheckpoints_object (h : entry.Stored) (first : Bool) (s : Text) :
    ∃ shown rest, scanCheckpoints ((if first = true then [] else [',']) ++ (checkpointText entry ++ s)) = shown :: rest ∧
      (shown = entryLine entry ↔ ReadableCheckpoint entry) ∧ (ReadableCheckpoint entry → rest = scanCheckpoints s) := by
  have hwf := wellFormed_checkpointFields entry
  have hkey : IsKey (Text.lit "timestamp") := by decide
  have hne : ∀ f ∈ checkpointFields entry, f.1 ≠ Text.lit "timestamp" := by
    simp only [checkpointFields, List.forall_mem_cons]
    decide
  have hbody := brace_body (fun f hf => (hwf f hf).1) hkey (printInt entry.timestamp)
  have hnames : (∀ f ∈ checkpointFields entry, '}' ∉ f.2.print) ↔ '}' ∉ entry.tag ∧ '}' ∉ entry.user := by
    simp [checkpointFields, Value.print, brace_jsonEscape]
  have htext : checkpointText entry = fieldsBefore (checkpointFields entry) ++
      (keyColon (Text.lit "timestamp") ++ '"' :: printInt entry.timestamp) ++ closing := printMessage_last ..
  by_cases hbrace : '}' ∈ fieldsBefore (checkpointFields entry)
  · -- the brace of a name ends the object before its timestamp
    obtain ⟨lead, tail, hsplit, hlead⟩ := List.eq_append_cons_of_mem hbrace
    have hopen : lead.head? = some '{' := by
      cases lead with
      | nil => cases hsplit
      | cons c lead => rw [← (List.cons.inj hsplit).1]; rfl
    let after := keyColon (Text.lit "timestamp") ++ '"' :: printInt entry.timestamp ++ closing
    refine ⟨checkpointLine (lead ++ ['}']), scanCheckpoints (tail ++ (after ++ s)), ?_, ?_, ?_⟩
    · have hwhole : checkpointText entry ++ s = lead ++ '}' :: (tail ++ (after ++ s)) := by
        rw [htext, hsplit]
        simp [after]
      rw [hwhole]
      exact scanCheckpoints_chunk first hlead hopen _
    · refine iff_of_false ?_ ?_
      · have hcut : (lead ++ ['}']) ++ (tail ++ (keyColon (Text.lit "timestamp") ++ ['"'])) =
            fieldsBefore (checkpointFields entry) ++ (keyColon (Text.lit "timestamp") ++ ['"']) := by
          rw [hsplit]
          simp
        have hnone := strstr_cut ⟨hkey, by decide⟩ hwf hne hcut (by simp)
        have hread : readInto [] (lead ++ ['}']) (Text.lit "timestamp") 32 = [] := by
          unfold readInto jsonGetString
          rw [if_neg (by decide), keyPattern_eq (by decide) _ (by decide), Option.bind_some, hnone, Option.bind_none,
            Option.bind_some, hnone]
        intro hline
        have htime := congrArg CheckpointLine.timestamp hline
        simp [checkpointLine, hread, entryLine] at htime
      · intro hreadable
        refine (hbody.2 ⟨hnames.2 ⟨hreadable.tag, hreadable.user⟩, brace_not_mem_printInt _⟩) ?_
        exact List.mem_append_left _ hbrace
    · intro hreadable
      refine absurd (List.mem_append_left _ hbrace) (hbody.2 ⟨hnames.2 ⟨hreadable.tag, hreadable.user⟩, ?_⟩)
      exact brace_not_mem_printInt _
  · have hfields : ∀ f ∈ checkpointFields entry, '}' ∉ f.2.print := by
      intro f hf hmem
      refine hbrace (List.mem_cons_of_mem _ (List.mem_flatMap.2 ⟨f, hf, List.mem_append_left _ ?_⟩))
      exact List.mem_append_right _ (List.mem_cons_of_mem _ (List.mem_cons_of_mem _ hmem))
    obtain ⟨htag, huser⟩ := hnames.1 hfields
    have hclear := hbody.2 ⟨hfields, brace_not_mem_printInt _⟩
    refine ⟨checkpointLine (checkpointText entry), scanCheckpoints s, ?_, ?_, fun _ => rfl⟩
    · have hlead : '}' ∉ fieldsBefore (checkpointFields entry) ++
          (keyColon (Text.lit "timestamp") ++ '"' :: printInt entry.timestamp) ++ ['"'] := by
        rw [List.mem_append]
        exact not_or.2 ⟨hclear, by decide⟩
      have hchunk := scanCheckpoints_chunk first hlead rfl s
      rw [List.append_assoc _ ['"'] ['}']] at hchunk
      rw [htext]
      simpa [closing] using hchunk
    · rw [checkpointLine_whole h]
      simp only [entryLine, CheckpointLine.mk.injEq, true_and, Option.some.injEq, Cluster.toInt32_eq_iff]
      exact ⟨fun hint => ⟨htag, huser, hint⟩, ReadableCheckpoint.timestamp⟩

end Checkpoint
/-! ## What the name manager encodes -/

section Encode

variable {state : NmState}

theorem foldl_jsonAppend {pieces : List Text} {buf : Option Text} {text : Text}
    (h : pieces.foldl jsonAppend buf = some text) : ∃ t, buf = some t ∧ text = t ++ pieces.flatten := by
  induction pieces generalizing buf with
  | nil => exact ⟨text, h, by simp⟩
  | cons piece pieces ih =>
    obtain ⟨t, ht, rfl⟩ := ih h
    obtain ⟨t', rfl, rfl⟩ := jsonAppend_some ht
    exact ⟨t', rfl, by simp⟩

/-- The comma before an entry. -/
theorem jsonAppend_comma {first : Bool} {buf : Option Text} {t : Text}
    (h : (if first = true then buf else jsonAppend buf [',']) = some t) :
    ∃ t', buf = some t' ∧ t = t' ++ if first = true then [] else [','] := by
  cases first with
  | true => exact ⟨t, h, by simp⟩
  | false => exact jsonAppend_some h

theorem serverLabels_eq (h : state.Stored) (index : Int) :
    serverLabels state index = (jsonEscape (serverName state index), serverStatus state index) := by
  unfold serverStatus serverName serverLabels
  cases hserver : nmGetServer state index with
  | none => rfl
  | some ss =>
    have hid := (h.servers ss (List.mem_of_getElem? (Option.ite_none_left_eq_some.1 hserver).2)).id
    simp only [jsonEscapeString_isSome hid]
    rfl

/-- The pieces of an entry. -/
theorem viewEntry_eq (h : state.Stored) {long : Bool} {file : FileEntry} {pieces : List Text}
    (hpieces : viewEntry state long file = some pieces) : pieces.flatten = viewText state long file := by
  have hstatus := (serverStatus_spec state file.ssIndex).2.2.2.1
  unfold viewEntry at hpieces
  split at hpieces
  · next name owner lastUser hname howner hlast =>
    rw [jsonEscapeString_some hname, jsonEscapeString_some howner, jsonEscapeString_some hlast] at hpieces
    cases long with
    | true =>
      cases hpieces
      have hcount (n : Nat) : printNat n = printInt n := rfl
      rw [viewText_eq]
      simp [viewFields, serverFields, serverLabels_eq h, hstatus, printMessage, printFields, hcount]
    | false =>
      cases hpieces
      rw [viewText_eq]
      exact List.append_nil _
  · cases hpieces

theorem viewLoop_ok (h : state.Stored) {user : Text} {all long : Bool} {files : List FileEntry} {first : Bool}
    {buf : Option Text} {text : Text} (htext : viewLoop state user all long files first buf = some (some text)) :
    ∃ t, buf = some t ∧ text = t ++ separated first
      ((files.filter fun file => all || fileHasAccess file user NM_PERM_READ).map (viewText state long)) := by
  induction files generalizing first buf with
  | nil =>
    cases htext
    exact ⟨text, rfl, by simp [separated_nil]⟩
  | cons file files ih =>
    unfold viewLoop at htext
    cases haccess : (all || fileHasAccess file user NM_PERM_READ) with
    | false =>
      rw [haccess, Bool.not_false, if_pos rfl] at htext
      rw [List.filter_cons, haccess, if_neg Bool.false_ne_true]
      exact ih htext
    | true =>
      rw [haccess, Bool.not_true, if_neg Bool.false_ne_true] at htext
      rw [List.filter_cons, haccess, if_pos rfl, List.map_cons, separated_cons]
      cases hpieces : viewEntry state long file with
      | none =>
        rw [hpieces] at htext
        cases htext
      | some pieces =>
        rw [hpieces] at htext
        obtain ⟨t, ht, rfl⟩ := ih htext
        obtain ⟨t', ht', rfl⟩ := foldl_jsonAppend ht
        obtain ⟨t'', rfl, rfl⟩ := jsonAppend_comma ht'
        refine ⟨t'', rfl, ?_⟩
        rw [viewEntry_eq h hpieces]
        simp

theorem listLoop_ok {users : List UserEntry} {first : Bool} {buf : Option Text} {text : Text}
    (h : listLoop users first buf = some (some text)) :
    ∃ t, buf = some t ∧ text = t ++ separated first
      ((users.map UserEntry.name).map fun name => (Value.string (jsonEscape name)).print) := by
  induction users generalizing first buf with
  | nil =>
    cases h
    exact ⟨text, rfl, by simp [separated_nil]⟩
  | cons user users ih =>
    unfold listLoop at h
    cases hname : jsonEscapeString 256 user.name with
    | none =>
      rw [hname] at h
      cases h
    | some name =>
      rw [hname] at h
      obtain ⟨t, ht, rfl⟩ := ih h
      obtain ⟨t', ht', rfl⟩ := jsonAppend_some ht
      obtain ⟨t'', rfl, rfl⟩ := jsonAppend_comma ht'
      refine ⟨t'', rfl, ?_⟩
      rw [jsonEscapeString_some hname, List.map_cons, List.map_cons, separated_cons]
      simp

theorem listCheckpointsLoop_ok {entries : List CheckpointEntry} {first : Bool} {buf text : Text}
    (h : listCheckpointsLoop entries first buf = .ok text) :
    text = buf ++ separated first (entries.map checkpointText) := by
  induction entries generalizing first buf with
  | nil =>
    cases h
    simp [separated_nil]
  | cons entry entries ih =>
    unfold listCheckpointsLoop at h
    split at h
    · next tag user htag huser =>
      dsimp only at h
      split at h
      · cases h
      · next buf' happend =>
        obtain ⟨t, ht, rfl⟩ := jsonAppend_some happend
        obtain ⟨t', ht', rfl⟩ := jsonAppend_comma ht
        cases ht'
        rw [ih h, jsonEscapeString_some htag, jsonEscapeString_some huser, List.map_cons, separated_cons, checkpointText,
          checkpointFields]
        simp
    · cases h

end Encode

/-- `handle_client_listcheckpoints` on the other side: the list is printed where the reply is one. -/
def handleListcheckpoints (response : Text) : Option (List CheckpointLine) :=
  if !isOk response then none else some (printCheckpointList response)

section Results

variable {state : NmState} {answers : Nat → Option Text} {user json extra response : Text}

/-- The files of a listing. -/
def listedFiles (state : NmState) (user json : Text) : List FileEntry :=
  state.files.filter fun file => (viewFlags json).contains 'a' || fileHasAccess file user NM_PERM_READ

theorem view_extra (hstored : state.Stored)
    (h : (handleClientView user json).result (fun _ => state) answers = .ok extra) :
    extra = Text.lit "\"files\":[" ++ separated true ((listedFiles state user json).map
      (viewText state ((viewFlags json).contains 'l'))) ++ [']'] := by
  unfold handleClientView at h
  dsimp only [Lib.Prog.result] at h
  cases hloop : viewLoop state user ((viewFlags json).contains 'a') ((viewFlags json).contains 'l') state.files true
      (jsonAppend (some []) (Text.lit "\"files\":[")) with
  | none =>
    rw [hloop] at h
    cases h
  | some buf =>
    rw [hloop] at h
    dsimp only at h
    cases hend : jsonAppend buf [']'] with
    | none =>
      rw [hend] at h
      cases h
    | some text =>
      rw [hend] at h
      cases h
      refine listing_closed hend fun t ht => ?_
      rw [ht] at hloop
      exact viewLoop_ok hstored hloop

theorem list_extra (h : handleClientListUsers.result (fun _ => state) answers = .ok extra) :
    extra = Text.lit "\"users\":[" ++ separated true
      ((state.users.map UserEntry.name).map fun name => (Value.string (jsonEscape name)).print) ++ [']'] := by
  unfold handleClientListUsers at h
  dsimp only [Lib.Prog.result] at h
  cases hloop : listLoop state.users true (jsonAppend (some []) (Text.lit "\"users\":[")) with
  | none =>
    rw [hloop] at h
    cases h
  | some buf =>
    rw [hloop] at h
    dsimp only at h
    cases hend : jsonAppend buf [']'] with
    | none =>
      rw [hend] at h
      cases h
    | some text =>
      rw [hend] at h
      cases h
      refine listing_closed hend fun t ht => ?_
      rw [ht] at hloop
      exact listLoop_ok hloop

theorem checkpoints_extra {name : Text} {file : FileEntry} (hname : jsonFile json = some name)
    (hfile : nmFindFile state name = some file)
    (h : (handleClientListcheckpoints user json).result (fun _ => state) answers = .ok extra) :
    extra = printFields [(Text.lit "file", .string (jsonEscape name))] ++ Text.lit ",\"checkpoints\":[" ++
      separated true (file.checkpoints.map checkpointText) ++ [']'] := by
  unfold handleClientListcheckpoints at h
  rw [hname] at h
  dsimp only [Lib.Prog.result] at h
  rw [hfile] at h
  dsimp only at h
  split at h
  · cases h
  cases hescaped : jsonEscapeString (NM_MAX_NAME * 2) name with
  | none =>
    rw [hescaped] at h
    cases h
  | some escaped =>
    rw [hescaped] at h
    dsimp only at h
    cases hbuf : jsonAppend (some []) (printFields [(Text.lit "file", .string escaped)] ++ Text.lit ",\"checkpoints\":[") with
    | none =>
      rw [hbuf] at h
      cases h
    | some buf =>
      rw [hbuf] at h
      dsimp only at h
      cases hloop : listCheckpointsLoop file.checkpoints true buf with
      | error response =>
        rw [hloop] at h
        cases h
      | ok text =>
        rw [hloop] at h
        dsimp only at h
        cases hend : jsonAppend (some text) [']'] with
        | none =>
          rw [hend] at h
          cases h
        | some extra' =>
          rw [hend] at h
          cases h
          obtain ⟨t, ht, rfl⟩ := jsonAppend_some hend
          cases ht
          obtain ⟨t', ht', rfl⟩ := jsonAppend_some hbuf
          cases ht'
          rw [listCheckpointsLoop_ok hloop, jsonEscapeString_some hescaped]
          rfl

end Results
/-! ## What is recovered -/

section Recovered

variable {state : NmState} {answers : Nat → Option Text} {user json extra response : Text}

theorem short_of_stored (h : state.Stored) {file : FileEntry} (hfile : file ∈ state.files) : Short state file := by
  have hserver (index : Int) : (serverName state index).length < 128 := by
    unfold serverName
    cases hserver : nmGetServer state index with
    | none => decide
    | some ss => exact (h.servers ss (List.mem_of_getElem? (Option.ite_none_left_eq_some.1 hserver).2)).id
  have hstored := h.files file hfile
  exact
    { name := hstored.name.2
      owner := hstored.owner.2.trans (by decide)
      lastUser := hstored.lastAccessUser.2.trans (by decide)
      primary := hserver _
      backup := hserver _ }

theorem view_iff (hstored : state.Stored)
    (h : (handleClientView user json).result (fun _ => state) answers = .ok extra) (hresponse : response ∈ Ss.sendOk extra) :
    handleView response =
        some ((listedFiles state user json).map (fileLine state ((viewFlags json).contains 'l'))) ↔
      ∀ file ∈ listedFiles state user json, Readable state ((viewFlags json).contains 'l') file := by
  have hextra := view_extra hstored h
  subst hextra
  rw [sendOk_some hresponse rfl]
  have hmarker (s : Text) : strstr (Text.lit "\"files\":[")
      (Text.lit "\x7b\"status\":\"OK\"," ++ (Text.lit "\"files\":[" ++ s)) = some s := rfl
  have hstatus (s : Text) : isOk (Text.lit "\x7b\"status\":\"OK\"," ++ s) = true := rfl
  have hshort : ∀ file ∈ listedFiles state user json, Short state file := fun file hfile =>
    short_of_stored hstored (List.mem_of_mem_filter hfile)
  have hwhole (long : Bool) : ∀ file ∈ listedFiles state user json,
      viewLine (chunkOf (viewText state long file)) = some (fileLine state long file) →
        '}' ∉ (viewText state long file).dropLast := by
    intro file hfile hline
    have hreadable := (entry_iff (hshort file hfile) long).1 hline
    have hbody := (brace_viewBody state long file).2 ⟨hreadable.name, hreadable.names⟩
    rw [viewText, closing, List.dropLast_append_of_ne_nil (by simp), List.mem_append]
    exact not_or.2 ⟨hbody, by decide⟩
  unfold handleView
  simp only [List.append_assoc, hstatus, hmarker, Bool.not_true, Bool.false_eq_true, if_false, List.singleton_append,
    Option.some.injEq]
  refine (scanFiles_eq_iff (fileLine state ((viewFlags json).contains 'l')) (listedFiles state user json)
    (fun file _ => isViewEntry_viewText state _ file) (hwhole _) true ['}']).trans ?_
  exact forall₂_congr fun file hfile => entry_iff (hshort file hfile) _

theorem list_iff (h : handleClientListUsers.result (fun _ => state) answers = .ok extra)
    (hresponse : response ∈ Ss.sendOk extra) :
    handleListUsers response = some (state.users.map UserEntry.name) ↔ ∀ user ∈ state.users, Unescaped user.name := by
  have hextra := list_extra h
  subst hextra
  rw [sendOk_some hresponse rfl]
  have hmarker (s : Text) : strstr (Text.lit "\"users\":[")
      (Text.lit "\x7b\"status\":\"OK\"," ++ (Text.lit "\"users\":[" ++ s)) = some s := rfl
  have hstatus (s : Text) : isOk (Text.lit "\x7b\"status\":\"OK\"," ++ s) = true := rfl
  unfold handleListUsers
  simp only [List.append_assoc, hstatus, hmarker, Bool.not_true, Bool.false_eq_true, if_false, List.singleton_append,
    Option.some.injEq]
  refine (scanUsers_eq_iff _ true ['}']).trans ?_
  simp

theorem checkpoints_iff (hstored : state.Stored) {name : Text} {file : FileEntry} (hname : jsonFile json = some name)
    (hfile : nmFindFile state name = some file)
    (h : (handleClientListcheckpoints user json).result (fun _ => state) answers = .ok extra)
    (hresponse : response ∈ Ss.sendOk extra) :
    handleListcheckpoints response = some (file.checkpoints.map entryLine) ↔
      ∀ entry ∈ file.checkpoints, ReadableCheckpoint entry := by
  have hextra := checkpoints_extra hname hfile h
  subst hextra
  rw [sendOk_some hresponse rfl]
  have hentries : ∀ entry ∈ file.checkpoints, entry.Stored :=
    (hstored.files file (List.mem_of_find?_eq_some hfile)).checkpoints
  let fields : List Field := [(Text.lit "status", .string (Text.lit "OK")), (Text.lit "file", .string (jsonEscape name))]
  have hfields : WellFormed fields := by
    intro f hf
    simp only [fields, List.mem_cons, List.not_mem_nil, or_false] at hf
    rcases hf with rfl | rfl
    · decide
    · exact ⟨(by decide : IsKey (Text.lit "file")), (escaped_jsonEscape _).1⟩
  have hmarker (s : Text) : strstr (Text.lit "\"checkpoints\":") (Text.lit "\x7b\"status\":\"OK\"," ++
      (printFields [(Text.lit "file", .string (jsonEscape name))] ++ (Text.lit ",\"checkpoints\":[" ++ s))) =
      some ('[' :: s) := by
    have hfound := strstr_fieldsBefore (show IsKey (Text.lit "checkpoints") ∧ _ from ⟨by decide, by decide⟩) hfields
      (by simp only [fields, List.forall_mem_cons]; decide) [] ('[' :: s)
    have hsplit : Text.lit "\x7b\"status\":\"OK\"," ++
        (printFields [(Text.lit "file", .string (jsonEscape name))] ++ (Text.lit ",\"checkpoints\":[" ++ s)) =
        fieldsBefore fields ++ (keyColon (Text.lit "checkpoints") ++ ([] ++ '[' :: s)) := by
      simp [fields, fieldsBefore, printFields, printField, Value.print, keyColon, Text.lit]
    rw [hsplit]
    exact hfound
  have hstatus (s : Text) : isOk (Text.lit "\x7b\"status\":\"OK\"," ++ s) = true := rfl
  unfold handleListcheckpoints printCheckpointList
  simp only [List.append_assoc, hstatus, hmarker, Bool.not_true, Bool.false_eq_true, if_false, List.singleton_append,
    Option.some.injEq]
  exact scan_eq_iff entryLine scanCheckpoints_end file.checkpoints (fun entry hentry first s =>
    scanCheckpoints_object (hentries entry hentry) first s) true ['}']

/-- **The listings that are recovered**: of `VIEW` those whose files are readable, of `LIST` those whose names need no
escaping, of `LISTCHECKPOINTS` those whose objects have no brace in them and timestamps that an `int` holds. -/
theorem listings_recovered_iff (user json : Text) (hstored : state.Stored) (hresponse : response ∈ Ss.sendOk extra) :
    ((handleClientView user json).result (fun _ => state) answers = .ok extra →
      (handleView response =
          some ((listedFiles state user json).map (fileLine state ((viewFlags json).contains 'l'))) ↔
        ∀ file ∈ listedFiles state user json, Readable state ((viewFlags json).contains 'l') file)) ∧
      (handleClientListUsers.result (fun _ => state) answers = .ok extra →
        (handleListUsers response = some (state.users.map UserEntry.name) ↔
          ∀ user ∈ state.users, Unescaped user.name)) ∧
      ∀ name file, jsonFile json = some name → nmFindFile state name = some file →
        (handleClientListcheckpoints user json).result (fun _ => state) answers = .ok extra →
        (handleListcheckpoints response = some (file.checkpoints.map entryLine) ↔
          ∀ entry ∈ file.checkpoints, ReadableCheckpoint entry) := by
  refine ⟨fun h => view_iff hstored h hresponse, fun h => list_iff h hresponse, ?_⟩
  intro name file hname hfile h
  exact checkpoints_iff hstored hname hfile h hresponse

end Recovered

/-- A file and a checkpoint of it with a brace in their names, and a user with a quote. -/
def oddTables : NmState :=
  { NmState.clear with
    files :=
      [{ newFileEntry (Text.lit "a\x7db") (Text.lit "alice") (-1) (-1) 1700000000 with
        checkpoints := [⟨Text.lit "v\x7d1", Text.lit "alice", 1700000000⟩] }]
    users := [⟨Text.lit "al\"ice", 1700000000⟩] }

theorem stored_oddTables : oddTables.Stored where
  serverCount := by decide
  servers := by simp [oddTables, NmState.clear]
  fileCount := by decide
  files := by
    intro file hfile
    cases List.mem_singleton.1 hfile
    have hcheckpoint : (⟨Text.lit "v\x7d1", Text.lit "alice", 1700000000⟩ : CheckpointEntry).Stored :=
      ⟨⟨by decide, by decide⟩, ⟨by decide, by decide⟩, by decide⟩
    exact
      { name := ⟨by decide, by decide⟩
        owner := ⟨by decide, by decide⟩
        ssIndex := ⟨by decide, by decide⟩
        backupIndex := ⟨by decide, by decide⟩
        wordCount := by decide
        charCount := by decide
        created := by decide
        modified := by decide
        lastAccess := by decide
        lastAccessUser := ⟨by decide, by decide⟩
        aclCount := by decide
        acl := by simp [newFileEntry]
        checkpointCount := by decide
        checkpoints := by simpa using hcheckpoint }
  names := by decide
  userCount := by decide
  users := by
    intro user huser
    cases List.mem_singleton.1 huser
    exact ⟨⟨by decide, by decide⟩, by decide⟩
  requestCount := by decide
  requests := by simp [oddTables, NmState.clear]

/-- The reply to a handler's `send_ok`. -/
def replyOf (result : Except Response Text) : Option Text :=
  match result with
  | .ok extra => (Ss.sendOk extra).head?
  | .error _ => none

theorem replyOf_eq {result : Except Response Text} {response : Text} (h : replyOf result = some response) :
    ∃ extra, result = .ok extra ∧ response ∈ Ss.sendOk extra := by
  cases result with
  | error r => cases h
  | ok extra => exact ⟨extra, rfl, List.mem_of_head? h⟩

/-- The file is not shown, the user is shown as two, and the checkpoint is cut. -/
theorem listings_lost :
    (replyOf ((handleClientView (Text.lit "alice") []).result (fun _ => oddTables) fun _ => none)).map handleView ≠
        some (some ((listedFiles oddTables (Text.lit "alice") []).map (fileLine oddTables false))) ∧
      (replyOf (handleClientListUsers.result (fun _ => oddTables) fun _ => none)).map handleListUsers ≠
        some (some (oddTables.users.map UserEntry.name)) ∧
      (replyOf ((handleClientListcheckpoints (Text.lit "alice") (Text.lit "\x7b\"file\":\"a\x7db\"\x7d")).result
          (fun _ => oddTables) fun _ => none)).map handleListcheckpoints ≠
        some (some (oddTables.files.flatMap fun file => file.checkpoints.map entryLine)) := by
  refine ⟨fun h => ?_, fun h => ?_, fun h => ?_⟩
  · obtain ⟨response, hreply, hview⟩ := Option.map_eq_some_iff.1 h
    obtain ⟨extra, hextra, hresponse⟩ := replyOf_eq hreply
    have hreadable := (view_iff stored_oddTables hextra hresponse).1 hview _ (List.mem_cons_self)
    exact hreadable.name (by decide)
  · obtain ⟨response, hreply, hlist⟩ := Option.map_eq_some_iff.1 h
    obtain ⟨extra, hextra, hresponse⟩ := replyOf_eq hreply
    exact absurd ((list_iff hextra hresponse).1 hlist) (by decide)
  · obtain ⟨response, hreply, hlist⟩ := Option.map_eq_some_iff.1 h
    obtain ⟨extra, hextra, hresponse⟩ := replyOf_eq hreply
    have hname : jsonFile (Text.lit "\x7b\"file\":\"a\x7db\"\x7d") = some (Text.lit "a\x7db") := by decide
    have hreadable := (checkpoints_iff stored_oddTables hname rfl hextra hresponse).1 hlist _ List.mem_cons_self
    exact hreadable.tag (by decide)

theorem listings_recovered_odd :
    ∃ extra response, response ∈ Ss.sendOk extra ∧
      (handleListUsers response = some (oddTables.users.map UserEntry.name) ↔
        ∀ user ∈ oddTables.users, Unescaped user.name) := by
  have hextra : handleClientListUsers.result (fun _ => oddTables) (fun _ => none) =
      .ok (Text.lit "\"users\":[\"al\\\"ice\"]") := by decide
  have hresponse : Text.lit "\x7b\"status\":\"OK\",\"users\":[\"al\\\"ice\"]\x7d" ∈
      Ss.sendOk (Text.lit "\"users\":[\"al\\\"ice\"]") := by decide
  exact ⟨_, _, hresponse, (listings_recovered_iff [] [] stored_oddTables hresponse).2.1 hextra⟩

end CoWrite.Client
