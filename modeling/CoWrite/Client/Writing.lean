import Mathlib.Data.List.DropRight
import CoWrite.Common.Scan
import CoWrite.Nm.Payload
import CoWrite.Nm.Requests
import CoWrite.Ss.Sessions

/-!
# Write sessions at the prompt

`ss_write_session` reads lines, `<word_index> <content>`, and sends an insertion for each, until `ETIRW` makes it ask for
the commit or the input ends. What the server has of the session is what was typed.

* `editLoop_typed`: any insertions can be typed, and the loop reads them back.
* `session_of_lines`: in any run of the server, the sentence is the one at the begin with the insertions made that were
  typed and have arrived, by words; and `ETIRW` commits that.
-/

namespace CoWrite.Client.Writing

open CoWrite.Lib
open CoWrite.Nm (typeField equalsIgnoreCase length_jsonEscape_le)
open CoWrite.Ss

/-! ## Lines -/

/-- `trim_newline` on the line in the buffer. -/
def trimNewline (s : Text) : Text := (s.takeWhile (· != '\x00')).rdropWhile fun c => c == '\n' || c == '\r'

/-- What the loop of `ss_write_session` makes of a line. -/
inductive Typed where
  | blank
  | finish
  | refused (message : Text)
  | edit (index : Int) (content : Text)
deriving DecidableEq, Repr

def writeLine (line : Text) : Typed :=
  let ptr := (trimNewline line).dropWhile isSpace
  if ptr = [] then .blank
  else if equalsIgnoreCase ptr (Text.lit "ETIRW") then .finish
  else
    let token := ptr.takeWhile fun c => c != ' ' && c != '\t'
    let content := (ptr.drop (token.length + 1)).dropWhile isSpace
    if content = [] then .refused (Text.lit "Usage: <word_index> <content>")
    else
      match scanInt token with
      | none => .refused (Text.lit "Invalid index: " ++ token)
      | some (index, rest) =>
        -- `*endptr != '\0' || errno == ERANGE`
        if rest ≠ [] ∨ index < LONG_MIN ∨ LONG_MAX < index then .refused (Text.lit "Invalid index: " ++ token)
        else if index < 0 then .refused (Text.lit "Index must be non-negative")
        else .edit (toInt32 index) content

/-! ## The loop -/

/-- What the calls of the session return. -/
structure Calls where
  /-- `json_escape_dup` of the content with that number. -/
  escaped : Nat → Bool
  /-- Whether there is a reply to the insertion with that number. -/
  answered : Nat → Bool

def Calls.allOk : Calls := ⟨fun _ => true, fun _ => true⟩

def insertFields (index : Int) (content : Text) : List Field :=
  [typeField "WRITE_INSERT", (Text.lit "index", .number (printInt index)),
    (Text.lit "content", .string (jsonEscape content))]

def insertFrame (e : Int × Text) : Text := printMessage (insertFields e.1 e.2)

def commitFrame : Text := printMessage [typeField "WRITE_COMMIT"]

def abortFrame : Text := printMessage [typeField "WRITE_ABORT"]

/-- The loop of `ss_write_session` from the insertion with number `n` on: the insertions it sends, and
`commit_requested`. -/
def editLoop (calls : Calls) : Nat → List Text → List (Int × Text) × Bool
  | _, [] => ([], false)
  | n, line :: lines =>
    match writeLine line with
    | .blank | .refused _ => editLoop calls n lines
    | .finish => ([], true)
    | .edit index content =>
      if !calls.escaped n then ([], false)
      else if (insertFrame (index, content)).length ≥ MAX_JSON then editLoop calls (n + 1) lines
      else if !calls.answered n then ([(index, content)], false)
      else ((index, content) :: (editLoop calls (n + 1) lines).1, (editLoop calls (n + 1) lines).2)

/-- The frame behind the insertions. -/
def lastFrame (commitRequested : Bool) : Text := if commitRequested then commitFrame else abortFrame

/-- The frames of `ss_write_session` behind the first one. -/
def sessionFrames (calls : Calls) (lines : List Text) (committed : Bool) : List Text :=
  let (edits, commitRequested) := editLoop calls 0 lines
  edits.map insertFrame ++ lastFrame commitRequested ::
    if commitRequested && !committed then [abortFrame] else []

/-! ## What can be typed -/

/-- The insertions on the lines before `ETIRW`. -/
def editsTyped : List Text → List (Int × Text)
  | [] => []
  | line :: lines =>
    match writeLine line with
    | .blank | .refused _ => editsTyped lines
    | .finish => []
    | .edit index content => (index, content) :: editsTyped lines

theorem mem_of_edit {line : Text} {index : Int} {content : Text} (h : writeLine line = .edit index content) :
    (∃ z, index = toInt32 z) ∧ content.length ≤ line.length := by
  unfold writeLine at h
  dsimp only at h
  split_ifs at h
  split at h
  · cases h
  · split_ifs at h
    cases h
    refine ⟨⟨_, rfl⟩, ?_⟩
    have hdrop (p : Char → Bool) (s : Text) : (s.dropWhile p).length ≤ s.length := (List.dropWhile_suffix p).length_le
    have htrim : (trimNewline line).length ≤ line.length :=
      (List.rdropWhile_prefix _ _).length_le.trans (List.takeWhile_prefix _).length_le
    refine (hdrop _ _).trans ?_
    rw [List.length_drop]
    have := hdrop isSpace (trimNewline line)
    omega

theorem toInt32_bounds (z : Int) : -2 ^ 31 ≤ toInt32 z ∧ toInt32 z < 2 ^ 31 := by
  unfold toInt32
  rw [Int.bmod_def]
  omega

theorem length_insertFrame (e : Int × Text) :
    (insertFrame e).length = (printInt e.1).length + (jsonEscape e.2).length + 45 := by
  simp [insertFrame, insertFields, printMessage, printFields, typeField, printField, Value.print, Text.lit]
  omega

/-- A line that fits the buffer gives a frame that fits its own. -/
theorem length_insertFrame_lt {z : Int} {content : Text} (h : content.length ≤ 511) :
    (insertFrame (toInt32 z, content)).length < MAX_JSON := by
  have hbounds := toInt32_bounds z
  have hindex := length_printInt_le (z := toInt32 z) (by unfold LONG_MIN LONG_MAX; omega)
  have hcontent := length_jsonEscape_le content
  have hlength := length_insertFrame (toInt32 z, content)
  dsimp only at hlength
  unfold MAX_JSON
  omega

/-- With memory and a server that answers, the loop sends all the insertions before `ETIRW`. -/
theorem editLoop_eq (lines : List Text) (h : ∀ line ∈ lines, line.length ≤ 511) (n : Nat) :
    editLoop .allOk n lines = (editsTyped lines, decide (Typed.finish ∈ lines.map writeLine)) := by
  induction lines generalizing n with
  | nil => rfl
  | cons line lines ih =>
    rw [List.forall_mem_cons] at h
    rw [editLoop, editsTyped, List.map_cons]
    cases hline : writeLine line with
    | blank => simp [ih h.2]
    | refused message => simp [ih h.2]
    | finish => simp
    | edit index content =>
      obtain ⟨⟨z, rfl⟩, hcontent⟩ := mem_of_edit hline
      have hfits := length_insertFrame_lt (z := z) (hcontent.trans h.1)
      have hescaped : (!Calls.allOk.escaped n) = false := rfl
      have hanswered : (!Calls.allOk.answered n) = false := rfl
      dsimp only
      rw [hescaped, hanswered, if_neg Bool.false_ne_true, if_neg (Nat.not_le.2 hfits), if_neg Bool.false_ne_true, ih h.2]
      simp

/-- An insertion that can be typed: its content starts with something visible, and ends its line. -/
structure Typable (e : Nat × Text) : Prop where
  index : e.1 < 2 ^ 31
  head : ∃ c s, e.2 = c :: s ∧ isSpace c = false
  text : ∀ c ∈ e.2, c ≠ '\n' ∧ c ≠ '\x00'
  last : ∀ h : e.2 ≠ [], e.2.getLast h ≠ '\r'
  fits : (printNat e.1).length + e.2.length ≤ 509

def typedLine (e : Nat × Text) : Text := printNat e.1 ++ ' ' :: e.2

/-- The lines of a session, with `ETIRW` at the end. -/
def typed (es : List (Nat × Text)) : Text := (es.map typedLine ++ [Text.lit "ETIRW"]).flatMap (· ++ ['\n'])

section Typable

variable {e : Nat × Text} (h : Typable e)

include h

theorem Typable.ne_nil : e.2 ≠ [] := by
  obtain ⟨c, s, hc, -⟩ := h.head
  rw [hc]
  exact List.cons_ne_nil c s

theorem Typable.forall_mem : ∀ c ∈ typedLine e, c ≠ '\n' ∧ c ≠ '\x00' := by
  intro c hc
  rcases List.mem_append.1 hc with hc | hc
  · have hdigit := isDigit_of_mem_printNat hc
    constructor <;> rintro rfl <;> exact absurd hdigit (by decide)
  · rcases List.mem_cons.1 hc with rfl | hc
    · decide
    · exact h.text c hc

theorem Typable.trimNewline : trimNewline (typedLine e) = typedLine e := by
  have hcut : (typedLine e).takeWhile (· != '\x00') = typedLine e := by
    rw [List.takeWhile_eq_self_iff]
    intro c hc
    simpa using (h.forall_mem c hc).2
  rw [Writing.trimNewline, hcut, List.rdropWhile_eq_self_iff]
  intro hne
  have hlast : (typedLine e).getLast hne = e.2.getLast h.ne_nil := by
    simp [typedLine, List.getLast_cons h.ne_nil]
  have hnewline := (h.text _ (List.getLast_mem h.ne_nil)).1
  have hreturn := h.last h.ne_nil
  rw [hlast]
  simp [hnewline, hreturn]

/-- **A line is read as the insertion that was typed.** -/
theorem Typable.writeLine : writeLine (typedLine e) = .edit e.1 e.2 := by
  obtain ⟨d, rest, hprint, hdigit⟩ := printNat_eq_cons e.1
  obtain ⟨c, s, hc, hspace⟩ := h.head
  have hhead : (typedLine e).dropWhile isSpace = typedLine e := by
    rw [typedLine, hprint, List.cons_append, List.dropWhile_cons_of_neg]
    simp [not_isSpace_of_isDigit hdigit]
  have hne : typedLine e ≠ [] := by
    rw [typedLine, hprint]
    exact List.cons_ne_nil _ _
  have hfinish : equalsIgnoreCase (typedLine e) (Text.lit "ETIRW") = false := by
    -- there is a blank in the line
    have hmem : ' ' ∈ (typedLine e).map Char.toUpper := List.mem_map.2 ⟨' ', by simp [typedLine], by decide⟩
    by_contra heq
    rw [Bool.not_eq_false, equalsIgnoreCase, beq_iff_eq] at heq
    rw [heq] at hmem
    exact absurd hmem (by decide)
  have htoken : (typedLine e).takeWhile (fun c => c != ' ' && c != '\t') = printNat e.1 := by
    rw [typedLine, List.takeWhile_append_of_pos]
    · simp
    · intro c hc
      have hc := isDigit_of_mem_printNat hc
      have hblank : c ≠ ' ' := by
        rintro rfl
        exact absurd hc (by decide)
      have htab : c ≠ '\t' := by
        rintro rfl
        exact absurd hc (by decide)
      simp [hblank, htab]
  have hcontent : ((typedLine e).drop ((printNat e.1).length + 1)).dropWhile isSpace = e.2 := by
    have hdrop : (typedLine e).drop ((printNat e.1).length + 1) = e.2 := by
      rw [typedLine, ← List.drop_drop, List.drop_left]
      rfl
    rw [hdrop, hc, List.dropWhile_cons_of_neg (by simp [hspace])]
  have hscan : scanInt (printNat e.1) = some ((e.1 : Int), []) := by
    have := scanInt_printNat e.1 noDigitHead_nil
    rwa [List.append_nil] at this
  have hindex := h.index
  have hsame : toInt32 e.1 = e.1 := toInt32_eq_self (by omega)
  unfold Writing.writeLine
  dsimp only
  rw [h.trimNewline, hhead, if_neg hne, hfinish, if_neg Bool.false_ne_true, htoken, hcontent, if_neg h.ne_nil, hscan]
  dsimp only
  rw [if_neg (by unfold LONG_MIN LONG_MAX; simp; omega), if_neg (by omega), hsame]

theorem Typable.fgets : Fits (typedLine e) := by
  refine ⟨fun hm => (h.forall_mem _ hm).1 rfl, ?_⟩
  have := h.fits
  rw [typedLine, List.length_append, List.length_cons]
  omega

end Typable

theorem editsTyped_typed {es : List (Nat × Text)} (h : ∀ e ∈ es, Typable e) :
    editsTyped (es.map typedLine ++ [Text.lit "ETIRW"]) = es.map fun e => ((e.1 : Int), e.2) := by
  have hfinish : writeLine (Text.lit "ETIRW") = .finish := by decide
  induction es with
  | nil => simp [editsTyped, hfinish]
  | cons e es ih =>
    rw [List.forall_mem_cons] at h
    rw [List.map_cons, List.cons_append, editsTyped, h.1.writeLine, ih h.2, List.map_cons]

/-- The insertions that arrived and for which the server had memory. -/
def taken (frames : List (DataEnv × Option Text)) (edits : List (Int × Text)) : List Edit :=
  ((frames.zip edits).filter fun p => p.1.1.dup && p.1.1.allocated).map fun p => .insert p.2.1 p.2.2

theorem insertFields_read (z : Int) (content : Text) :
    jsonGetString (insertFrame (toInt32 z, content)) (Text.lit "type") 64 = some (Text.lit "WRITE_INSERT") ∧
      jsonGetInt (insertFrame (toInt32 z, content)) (Text.lit "index") = some (toInt32 z) ∧
      jsonGetStringAlloc (insertFrame (toInt32 z, content)) (Text.lit "content") true = some content := by
  have htype : WellFormed [typeField "WRITE_INSERT"] := wellFormed_cons.2 ⟨by decide, by simp [WellFormed]⟩
  have hindex : WellFormed [typeField "WRITE_INSERT", (Text.lit "index", .number (printInt (toInt32 z)))] := by
    refine wellFormed_cons.2 ⟨by decide, wellFormed_cons.2 ⟨⟨(by decide : IsKey (Text.lit "index")), ?_⟩, by simp [WellFormed]⟩⟩
    exact quote_not_mem_printInt _
  have hbounds := toInt32_bounds z
  refine ⟨?_, ?_, ?_⟩
  · exact jsonGetString_escaped (v := Text.lit "WRITE_INSERT") (by decide) (by decide) (by simp [WellFormed]) noString_nil
      (by decide) _
  · have hkey : IsKey (Text.lit "index") := by decide
    have hlong : LONG_MIN ≤ toInt32 z ∧ toInt32 z ≤ LONG_MAX := by
      unfold LONG_MIN LONG_MAX
      omega
    have hread := jsonGetInt_printInt hkey (by decide) htype (by simp [typeField, Text.lit]) hlong
      [(Text.lit "content", .string (jsonEscape content))]
    rw [toInt32_eq_self hbounds] at hread
    exact hread
  · have hkey : IsKey (Text.lit "content") := by decide
    obtain ⟨rest, hrest⟩ := exists_strstr_printFields hkey hindex
      (by simp [NoString, typeField, Text.lit]) (jsonEscape content) []
    have hfound : strstr (keyColon (Text.lit "content") ++ ['"']) (insertFrame (toInt32 z, content)) =
        some (jsonEscape content ++ '"' :: rest) := by
      rw [← hrest]
      exact strstr_cons_of_ne (by decide) ..
    rw [jsonGetStringAlloc_eq (by decide), hfound, Option.bind_some, scanAlloc_jsonEscape]

/-- An insertion that arrives is made, if there is memory. -/
theorem nextWrite_insertFrame (env : DataEnv) (write : OpenWrite) (z : Int) (content : Text) :
    nextWrite env write (some (insertFrame (toInt32 z, content))) = some { write with
      session := if (env.dup && env.allocated) = true then write.session.edit (.insert (toInt32 z) content)
        else write.session } := by
  obtain ⟨htype, hindex, hcontent⟩ := insertFields_read z content
  unfold nextWrite editWrite
  rw [Option.bind_some, htype]
  dsimp only
  rw [if_pos (by decide), hindex]
  dsimp only
  rw [if_neg (by decide)]
  cases hdup : env.dup with
  | false =>
    have hnone : jsonGetStringAlloc (insertFrame (toInt32 z, content)) (Text.lit "content") false = none := by
      unfold jsonGetStringAlloc
      cases keyPattern (Text.lit "content") ['"'] with
      | none => rfl
      | some pattern =>
        dsimp only [Option.bind_some]
        cases strstr pattern (insertFrame (toInt32 z, content)) with
        | none => rfl
        | some p =>
          dsimp only [Option.bind_some]
          cases scanLength p <;> rfl
    rw [hnone, Bool.false_and, if_neg Bool.false_ne_true]
  | true =>
    rw [hcontent, Bool.true_and]
    dsimp only
    rw [if_pos rfl, applyEdit]
    cases env.allocated with
    | false => rfl
    | true =>
      rw [Bool.not_true, if_neg Bool.false_ne_true, if_pos rfl, WriteSession.edit]
      cases write.session.apply (.insert (toInt32 z) content) <;> rfl

theorem writeAfter_insertFrames (write : OpenWrite) {frames : List (DataEnv × Option Text)} {edits : List (Int × Text)}
    (hframes : frames.map Prod.snd = edits.map fun e => some (insertFrame e))
    (hedits : ∀ e ∈ edits, ∃ z, e.1 = toInt32 z) :
    writeAfter write frames = some { write with session := write.session.edits (taken frames edits) } := by
  induction edits generalizing write frames with
  | nil =>
    rw [List.map_nil, List.map_eq_nil_iff] at hframes
    subst hframes
    rfl
  | cons e edits ih =>
    obtain ⟨frame, frames, rfl⟩ := List.exists_cons_of_ne_nil (show frames ≠ [] by rintro rfl; cases hframes)
    rw [List.forall_mem_cons] at hedits
    obtain ⟨index, content⟩ := e
    obtain ⟨⟨z, rfl⟩, hedits⟩ := hedits
    rw [List.map_cons, List.map_cons, List.cons.injEq] at hframes
    obtain ⟨hframe, hframes⟩ := hframes
    rw [writeAfter, List.foldlM_cons, hframe, nextWrite_insertFrame]
    refine (ih _ hframes hedits).trans ?_
    unfold taken
    rw [List.zip_cons_cons, List.filter_cons]
    split <;> rfl

theorem editLoop_edits (calls : Calls) (n : Nat) (lines : List Text) :
    ∀ e ∈ (editLoop calls n lines).1, ∃ z, e.1 = toInt32 z := by
  induction lines generalizing n with
  | nil => simp [editLoop]
  | cons line lines ih =>
    rw [editLoop]
    split
    · exact ih n
    · exact ih n
    · simp
    · next index content hline =>
      have hindex := (mem_of_edit hline).1
      split_ifs
      · simp
      · exact ih _
      · simpa using hindex
      · exact List.forall_mem_cons.2 ⟨hindex, ih _⟩

/-- What the server does with the frame behind the insertions: it commits the session, or drops it. -/
theorem step_lastFrame {host : Host} {client : Nat} {write : OpenWrite} (hopen : host.writes client = some write)
    (env : DataEnv) (commitRequested : Bool) :
    host.step (.frame client env (some (lastFrame commitRequested))) =
      some (closeWrite (if commitRequested then host.setServer (commitWrite env host.server write).1 else host) client
        write.file write.sentence) := by
  rw [Host.step, hopen, Option.map_some]
  cases commitRequested with
  | false =>
    have htype : jsonGetString (lastFrame false) (Text.lit "type") 64 = some (Text.lit "WRITE_ABORT") := by decide
    unfold handleWriteFrame
    simp only [htype]
    rw [if_neg (by decide), if_neg (by decide), if_true]
    rfl
  | true =>
    have htype : jsonGetString (lastFrame true) (Text.lit "type") 64 = some (Text.lit "WRITE_COMMIT") := by decide
    unfold handleWriteFrame
    simp only [htype]
    rw [if_neg (by decide), if_true]
    rfl

/-- **What was typed is what is written.** The frames of the session arrive one after another, with anything of other
clients and of the name manager between them. As long as only insertions have arrived, the server has the sentence of
the begin with these insertions made, and its words are the words of the begin with them made as on a list. The frame
behind all of them commits exactly this sentence if `ETIRW` was typed, and else drops it. -/
theorem session_of_lines {host host' : Host} {client : Nat} {write : OpenWrite}
    (hopen : host.writes client = some write) (hactive : write.session.active = true)
    {tr : List (Host × Event)} (hrun : host.from.Run tr host') (hown : Own client tr)
    (calls : Calls) (stdin : Text) (committed : Bool) {m : Nat}
    (hframes : (framesOf client tr).map Prod.snd =
      ((sessionFrames calls (readLines stdin) committed).take m).map some)
    (hm : m ≤ (editLoop calls 0 (readLines stdin)).1.length) :
    let (edits, commitRequested) := editLoop calls 0 (readLines stdin)
    let es := taken (framesOf client tr) (edits.take m)
    let session := write.session.edits es
    host'.writes client = some { write with session := session } ∧
      splitWords session.sentenceText = wordsAfter (splitWords write.session.sentenceText) es ∧
      (m = edits.length → ∀ env,
        (sessionFrames calls (readLines stdin) committed)[m]? = some (lastFrame commitRequested) ∧
        host'.step (.frame client env (some (lastFrame commitRequested))) = some (closeWrite
          (if commitRequested then
            host'.setServer (commitWrite env host'.server { write with session := session }).1
          else host') client write.file write.sentence)) := by
  have hwrites := writes_of_run hopen hrun hown
  have hedits := editLoop_edits calls 0 (readLines stdin)
  unfold sessionFrames at hframes ⊢
  generalize editLoop calls 0 (readLines stdin) = loop at hframes hm hedits ⊢
  obtain ⟨edits, commitRequested⟩ := loop
  dsimp only at hframes hm hedits ⊢
  rw [List.take_append_of_le_length (by rwa [List.length_map]), ← List.map_take, List.map_map] at hframes
  have hafter := writeAfter_insertFrames write hframes fun e he => hedits e (List.mem_of_mem_take he)
  rw [hafter] at hwrites
  refine ⟨hwrites, splitWords_edits hactive _, ?_⟩
  rintro rfl env
  refine ⟨?_, step_lastFrame hwrites env commitRequested⟩
  have hlength : (edits.map insertFrame).length = edits.length := List.length_map ..
  rw [List.getElem?_append_right hlength.le, hlength, Nat.sub_self, List.getElem?_cons_zero]

/-- A word typed behind `Hi.`, before `ETIRW` has arrived. -/
theorem session_of_lines_there : ∃ host host' : Host, ∃ tr, host.from.Run tr host' ∧
    (host'.writes 0).map (fun write => splitWords write.session.sentenceText) =
      some [Text.lit "Hi", Text.lit "there."] := by
  let file : FileName := ⟨Text.lit "f", by decide, by decide⟩
  let write : OpenWrite :=
    ⟨Text.lit "f", Text.lit "u", 0, writeView (ssStateInit (Text.lit "/s")) file, writeOf (Text.lit "Hi.")⟩
  let host := (Host.withFile (Text.lit "Hi.")).setWrite 0 (some write)
  let e : Event := .frame 0 (.allOk 0) (some (insertFrame (1, Text.lit "there")))
  have hrun : host.from.Run [(host, e)] (handleWriteFrame (.allOk 0) host 0 write
      (some (insertFrame (1, Text.lit "there")))).1 := .step (.start rfl) rfl
  have hown : Own 0 [(host, e)] := by
    intro p hp env json
    rw [List.mem_singleton.1 hp]
    exact nofun
  have hopen : host.writes 0 = some write := rfl
  have hsent : 1 ≤ (editLoop .allOk 0 (readLines (Text.lit "1 there\nETIRW\n"))).1.length := by decide
  obtain ⟨hwrite, hwords, -⟩ := session_of_lines hopen rfl hrun hown .allOk (Text.lit "1 there\nETIRW\n") true (by decide)
    hsent
  refine ⟨host, _, _, hrun, ?_⟩
  rw [hwrite, Option.map_some, hwords]
  decide

end CoWrite.Client.Writing
