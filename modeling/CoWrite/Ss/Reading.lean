import CoWrite.Common.Flat
import CoWrite.Ss.Counts

/-!
# Reading back what was committed

A commit stores a text of any size. A `READ` escapes it into a buffer, this one into another, and prints the
name of the file before the content and as it is.

* `plantedContent`: what a reader takes for the content when the name of the file looks like one.
* `committed_reads_back_iff`: in any run, a text that was committed comes back exactly when the reply has room
  for it and the name plants no other content.
-/

namespace CoWrite.Ss

open CoWrite.Lib

/-! ## Two texts with a comma between them -/

/-- A pattern without a comma does not reach over one. -/
theorem isPrefix_append_comma {pattern : Text} (hp : ',' ∉ pattern) (x y : Text) :
    pattern <+: x ++ ',' :: y ↔ pattern <+: x := by
  constructor
  · intro h
    rcases List.prefix_or_prefix_of_prefix h (List.prefix_append x (',' :: y)) with hx | ⟨z, rfl⟩
    · exact hx
    · rw [List.prefix_append_right_inj] at h
      cases z with
      | nil => exact ⟨[], by simp⟩
      | cons c z =>
        have hc := (List.cons_prefix_cons.1 h).1
        subst hc
        exact absurd (by simp) hp
  · intro h
    exact h.trans (List.prefix_append _ _)

/-- The search goes through the text before the comma, and then through the other one. -/
theorem strstr_append_comma {pattern : Text} (hp : ',' ∉ pattern) (hne : pattern ≠ []) (x y : Text) :
    strstr pattern (x ++ ',' :: y) =
      match strstr pattern x with
      | some p => some (p ++ ',' :: y)
      | none => strstr pattern y := by
  induction x with
  | nil =>
    have hnil : strstr pattern [] = none := by
      rw [strstr, if_neg (by simpa using hne)]
    have hcomma : ¬ pattern <+: ',' :: y := by
      intro h
      have hx := (isPrefix_append_comma hp [] y).1 h
      exact hne (List.prefix_nil.1 hx)
    rw [hnil, List.nil_append, strstr_of_not_isPrefix hcomma]
  | cons c x ih =>
    by_cases hc : pattern <+: c :: x
    · obtain ⟨p, hx⟩ := hc
      rw [← hx, List.append_assoc, strstr_append, strstr_append]
    · have hc' : ¬ pattern <+: c :: (x ++ ',' :: y) := by
        intro h
        exact hc ((isPrefix_append_comma hp (c :: x) y).1 h)
      rw [List.cons_append, strstr_of_not_isPrefix hc', strstr_of_not_isPrefix hc, ih]

/-- The search ends inside the text. -/
theorem strstr_suffix {pattern x p : Text} (h : strstr pattern x = some p) : p <:+ x := by
  induction x with
  | nil =>
    rw [strstr] at h
    split at h
    · cases h
      exact List.suffix_refl []
    · cases h
  | cons c x ih =>
    by_cases hc : pattern <+: c :: x
    · obtain ⟨q, hq⟩ := hc
      rw [← hq, strstr_append] at h
      cases h
      exact ⟨pattern, hq⟩
    · rw [strstr_of_not_isPrefix hc] at h
      exact (ih h).trans (List.suffix_cons c x)

/-- What `json_get_string_alloc` makes of the text behind the key. -/
def scanAlloc (s : Text) : Option Text := (scanLength s).bind fun len => scanString len s

/-- A string without a backslash ends at its first quote, whatever follows. -/
theorem scanAlloc_append {s : Text} (hs : '\\' ∉ s) (hq : '"' ∈ s) : ∃ v, ∀ z, scanAlloc (s ++ z) = some v := by
  obtain ⟨v, rest, rfl, hv⟩ := List.eq_append_cons_of_mem hq
  have hplain : Plain v := by
    refine ⟨hv, ?_⟩
    intro hb
    exact hs (List.mem_append_left _ hb)
  obtain ⟨hescaped, hunescape⟩ := hplain.escaped
  refine ⟨v, ?_⟩
  intro z
  rw [List.append_assoc, List.cons_append, scanAlloc, scanLength_escaped hescaped, Option.bind_some, hunescape,
    scanString_plain hplain (Nat.le_refl _)]

theorem scanAlloc_jsonEscape (text rest : Text) : scanAlloc (jsonEscape text ++ '"' :: rest) = some text := by
  obtain ⟨hescaped, hunescape⟩ := escaped_jsonEscape text
  rw [scanAlloc, scanLength_escaped hescaped, Option.bind_some, hunescape, scanString_jsonEscape (Nat.le_refl _)]

theorem jsonGetStringAlloc_eq {key : Text} (hlen : key.length < 124) (json : Text) :
    jsonGetStringAlloc json key true = (strstr (keyColon key ++ ['"']) json).bind scanAlloc := by
  have hpattern := keyPattern_eq hlen ['"'] (by decide)
  rw [jsonGetStringAlloc, hpattern, Option.bind_some]
  rfl

/-! ## The reply to a read -/

/-- The content that is read from the field of the name, as it is printed before the comma. -/
def plantedContent (name : Text) : Option Text :=
  jsonGetStringAlloc ('"' :: name ++ Text.lit "\",\"") (Text.lit "content") true

/-- The frame of the reply. -/
def readFrame (name content : Text) (words chars : Nat) : Text :=
  printMessage [(Text.lit "status", .string (Text.lit "OK")), (Text.lit "file", .string name),
    (Text.lit "content", .string (jsonEscape content)), (Text.lit "words", .number (printNat words)),
    (Text.lit "chars", .number (printNat chars))]

theorem readFrame_status (name content : Text) (words chars : Nat) :
    jsonGetString (readFrame name content words chars) (Text.lit "status") 16 = some (Text.lit "OK") := by
  have hnil : WellFormed [] := by simp [WellFormed]
  rw [readFrame]
  apply (jsonGetString_raw (by decide) (by decide) hnil noString_nil (by decide) _).2
  decide

/-- **The content that is found is the one that the name plants, or else the text.** -/
theorem readFrame_content (name : FileName) (content : Text) (words chars : Nat) :
    jsonGetStringAlloc (readFrame name.text content words chars) (Text.lit "content") true =
      some ((plantedContent name.text).getD content) := by
  have hframe : ∃ rest, readFrame name.text content words chars =
      Text.lit "\x7b\"status\":\"OK\"" ++ ',' :: ((Text.lit "\"file\":" ++ ('"' :: name.text ++ ['"'])) ++
        ',' :: (Text.lit "\"content\":\"" ++ (jsonEscape content ++ '"' :: rest))) := by
    refine ⟨',' :: (printFields [(Text.lit "words", .number (printNat words)),
      (Text.lit "chars", .number (printNat chars))] ++ ['}']), ?_⟩
    simp [readFrame, printMessage, printFields, printField, Value.print, Text.lit]
  obtain ⟨rest, hrest⟩ := hframe
  have hcomma : ',' ∉ keyColon (Text.lit "content") ++ ['"'] := by decide
  have hne : keyColon (Text.lit "content") ++ ['"'] ≠ [] := by decide
  have hstatus : strstr (keyColon (Text.lit "content") ++ ['"']) (Text.lit "\x7b\"status\":\"OK\"") = none := by decide
  have hfile (s : Text) : strstr (keyColon (Text.lit "content") ++ ['"']) (Text.lit "\"file\":" ++ ('"' :: s)) =
      strstr (keyColon (Text.lit "content") ++ ['"']) ('"' :: s) := rfl
  have hcontent (s : Text) : strstr (keyColon (Text.lit "content") ++ ['"']) (Text.lit "\"content\":\"" ++ s) =
      some s := strstr_append _ s
  have hquote : strstr (keyColon (Text.lit "content") ++ ['"']) ['"'] = none := by decide
  have hname : '"' :: name.text ++ Text.lit "\",\"" = ('"' :: name.text ++ ['"']) ++ ',' :: ['"'] := by
    simp [Text.lit]
  rw [jsonGetStringAlloc_eq (by decide), plantedContent, jsonGetStringAlloc_eq (by decide), hrest, hname,
    strstr_append_comma hcomma hne, hstatus, strstr_append_comma hcomma hne, strstr_append_comma hcomma hne,
    List.cons_append, hfile, hcontent, hquote]
  cases hplanted : strstr (keyColon (Text.lit "content") ++ ['"']) ('"' :: (name.text ++ ['"'])) with
  | none => exact scanAlloc_jsonEscape content rest
  | some p =>
    have hp : '\\' ∉ p := by
      intro hb
      have hmem := (strstr_suffix hplanted).subset hb
      simp only [List.mem_cons, List.mem_append, List.not_mem_nil, or_false] at hmem
      rcases hmem with hmem | hmem | hmem
      · cases hmem
      · exact (validName.chars name.valid _ hmem).2.1 rfl
      · cases hmem
    have hclosed : '\\' ∉ p ++ [',', '"'] := by simp [hp]
    obtain ⟨v, hv⟩ := scanAlloc_append hclosed (by simp)
    have hshort := hv []
    have hlong := hv (Text.lit "content\":\"" ++ (jsonEscape content ++ '"' :: rest))
    rw [List.append_nil] at hshort
    rw [List.append_assoc] at hlong
    dsimp only [Option.bind_some]
    rw [hshort, Option.getD_some]
    exact hlong

example : plantedContent (Text.lit "a\",\"content\":\"b") = some (Text.lit "b") := by decide

/-- The request was answered with the text. -/
def ReadsBack (out : Output) (text : Text) : Prop :=
  ∃ reply, out.client = [reply] ∧ jsonGetString reply (Text.lit "status") 16 = some (Text.lit "OK") ∧
    jsonGetStringAlloc reply (Text.lit "content") true = some text

/-- The reply has room for the text, and the name of the file plants no other. -/
structure Readable (file : FileName) (text : Text) : Prop where
  fits : file.text.length + (jsonEscape text).length + (printNat (countWords text)).length +
    (printNat text.length).length + 56 < MAX_JSON
  found : ∀ planted, plantedContent file.text = some planted → planted = text

theorem not_readsBack_error {code : ErrorCode} {message : Text} {nm : List Text} (text : Text) :
    ¬ ReadsBack ⟨sendErrorResponse code message, nm⟩ text := by
  rintro ⟨reply, hreply, hstatus, -⟩
  have hnil : WellFormed [] := by simp [WellFormed]
  dsimp only [sendErrorResponse] at hreply
  split at hreply
  · cases hreply
  · cases hreply
    have hkey : IsKey (Text.lit "status") := by decide
    have hshort : (Text.lit "ERR").length < 16 := by decide
    have herr := (jsonGetString_raw hkey (by decide) hnil noString_nil hshort
      [(Text.lit "code", .string (errorCodeName code)), (Text.lit "message", .string message)]).2 (by decide)
    rw [List.nil_append] at herr
    rw [errorFields, herr] at hstatus
    cases hstatus

/-- A text that is stored under an entry with its counts. -/
structure StoredAs (dir : Text) (file : FileName) (srv : Server) (text : Text) : Prop where
  placed : Placed dir srv.state
  data : srv.fs (dataPath dir file.text) = some text
  counts : ∀ view, srv.state.entry file.text = some view → view.Counts text

/-- The calls of a reader succeed: the text is loaded and escaped. -/
structure DataEnv.Reads (env : DataEnv) : Prop where
  load : env.dataLoad = true
  escaped : env.escaped = true

section Read

variable {dir : Text} {file : FileName} {srv : Server} {text : Text} (h : StoredAs dir file srv text)

include h

/-- The access time leaves the counts as they are. -/
theorem StoredAs.touched {view : SsFile} (hview : srv.state.entry file.text = some view) (env : DataEnv) (user : Text) :
    ((touchFile env srv file.text user).2.2.getD view).Counts text := by
  unfold touchFile
  dsimp only
  split
  · exact h.counts view hview
  · next hup =>
    obtain ⟨old, hold, rfl, -⟩ := updateFile_some h.placed.sorted (by intro _; rfl) hup
    have hcounts := h.counts old hold
    exact ⟨hcounts.words, hcounts.chars⟩

/-- **A read answers with the text where it is readable.** -/
theorem handleRead_readsBack_iff {env : DataEnv} (henv : env.Reads) (user : Text) :
    ReadsBack (handleRead env srv file.text user).2 text ↔
      (srv.state.entry file.text).isSome = true ∧ Readable file text := by
  unfold handleRead
  rw [ssStateFind_eq h.placed.sorted]
  cases hview : srv.state.entry file.text with
  | none =>
    constructor
    · intro hreads
      exact absurd hreads (not_readsBack_error text)
    · rintro ⟨hsome, -⟩
      cases hsome
  | some view =>
    have hpaths := h.placed.hasPaths _ _ hview
    have hname : view.name = file.text := SsState.entry_name h.placed.sorted hview
    have hcurrent : currentText env.toEnv srv.fs view.dataPath = some text := by
      rw [currentText, loadText, henv.load, if_pos rfl, hpaths.dataEq, h.data]
    have hcounts := h.touched hview env user
    simp only [hcurrent, henv.escaped, Bool.not_true, Bool.false_eq_true, if_false, hname, hcounts.words, hcounts.chars,
      Option.isSome_some, true_and]
    have hlength : (readExtra file.text text (countWords text) text.length).length =
        file.text.length + (jsonEscape text).length + (printNat (countWords text)).length +
          (printNat text.length).length + 40 := by
      simp [readExtra, printFields, printField, Value.print, Text.lit]
      omega
    by_cases hfits : file.text.length + (jsonEscape text).length + (printNat (countWords text)).length +
        (printNat text.length).length + 56 < MAX_JSON
    · have hroom : ¬ (readExtra file.text text (countWords text) text.length).length ≥ MAX_JSON := by omega
      have hsent : sendOk (readExtra file.text text (countWords text) text.length) =
          [readFrame file.text text (countWords text) text.length] := by
        rw [readExtra, sendOk_printFields (by simp), if_pos]
        · rfl
        · rw [← readExtra]
          omega
      rw [if_neg hroom, hsent]
      have hcontent := readFrame_content file text (countWords text) text.length
      constructor
      · rintro ⟨reply, hreply, -, hread⟩
        cases hreply
        refine ⟨hfits, ?_⟩
        intro planted hplanted
        rw [hcontent, hplanted] at hread
        exact Option.some.inj hread
      · intro hreadable
        refine ⟨_, rfl, readFrame_status _ _ _ _, ?_⟩
        rw [hcontent]
        cases hplanted : plantedContent file.text with
        | none => rfl
        | some planted => rw [hreadable.found planted hplanted, Option.getD_some]
    · have hnot : ¬ Readable file text := fun hreadable => hfits hreadable.fits
      refine iff_of_false ?_ hnot
      split
      · exact not_readsBack_error text
      · have hsent : sendOk (readExtra file.text text (countWords text) text.length) = [] := by
          rw [readExtra, sendOk_printFields (by simp), if_neg]
          rw [← readExtra]
          omega
        rintro ⟨reply, hreply, -⟩
        rw [hsent] at hreply
        cases hreply

end Read

/-! ## After a commit -/

section Commit

variable {dir : Text} {srv : Server} (h : Placed dir srv.state) {env : DataEnv} {file : FileName} (user : Text)
  {session : WriteSession} {text : Text}

theorem stored_of_store {fs fs' : Fs} {path content : Text} {o : StoreOutcome}
    (hstore : storeTextAtomic fs path content o = (true, fs')) : fs' path = some content := by
  have hdone : o = .done := by
    rw [← storeTextAtomic_fst fs path content, hstore]
  obtain ⟨stored, hstored, hdata, -⟩ := storeTextAtomic_done fs path content
  rw [hdone, hstored] at hstore
  cases hstore
  exact hdata

/-- A commit that succeeds leaves its text in the data file. -/
theorem writeSessionCommit_data {fs fs' : Fs} {view : SsFile}
    (hcommit : writeSessionCommit env fs session view = (fs', .ok text)) : fs' view.dataPath = some text := by
  unfold writeSessionCommit at hcommit
  split at hcommit
  · cases hcommit
  split at hcommit
  · cases hcommit
  split at hcommit
  · cases hcommit
  split at hcommit
  · cases hcommit
  split at hcommit
  · cases hcommit
  · next hstore =>
    cases hcommit
    exact stored_of_store hstore

include h

/-- **The commit stores its text under an entry with its counts**, if there is one. -/
theorem StoredAs.commit (hcommit : (writeSessionCommit env srv.fs session (writeView srv.state file)).2 = .ok text) :
    StoredAs dir file (Op.run srv (.commit env file user session)) text ∧
      ((Op.run srv (.commit env file user session)).state.entry file.text).isSome = (srv.state.entry file.text).isSome := by
  have hview : HasPaths dir file.text (writeView srv.state file) := h.fillPaths _
  have hplaced := (Op.changes h (.commit env file user session)).placed
  cases hwritten : writeSessionCommit env srv.fs session (writeView srv.state file) with
  | mk fs result =>
    rw [hwritten] at hcommit
    cases hcommit
    have hdata := writeSessionCommit_data hwritten
    rw [hview.dataEq] at hdata
    cases hup : updateFile srv.state file.text (commitFields text user env.now) with
    | none =>
      have hrun : Op.run srv (.commit env file user session) = { srv with fs := fs } := by
        simp only [Op.run, commitWrite, hwritten, hup]
      rw [hrun]
      have hnone := hup
      rw [updateFile_eq_none h.sorted] at hnone
      refine ⟨⟨h, hdata, ?_⟩, rfl⟩
      intro view hentry
      rw [hnone] at hentry
      cases hentry
    | some p =>
      obtain ⟨view, state⟩ := p
      have hrun : Op.run srv (.commit env file user session) =
          { srv with state := state, fs := ssStateSaveMeta fs view env.metaOpened } := by
        simp only [Op.run, commitWrite, hwritten, hup]
      rw [hrun] at hplaced ⊢
      obtain ⟨old, hold, rfl, -, hentry⟩ := updateFile_some h.sorted (by intro _; rfl) hup
      have hmeta : (commitFields text user env.now old).metaPath = metaPath dir file.text :=
        (h.hasPaths _ _ hold).metaEq
      have hsaved : ssStateSaveMeta fs (commitFields text user env.now old) env.metaOpened (dataPath dir file.text) =
          some text := by
        unfold ssStateSaveMeta
        split
        · rw [hmeta, Fs.write, Function.update_of_ne (fivePaths dir file).meta_data.symm]
          exact hdata
        · exact hdata
      refine ⟨⟨hplaced, hsaved, ?_⟩, ?_⟩
      · intro view hfound
        rw [hentry, if_pos rfl] at hfound
        cases hfound
        exact counts_commitFields text user env.now old
      · rw [hentry, if_pos rfl, hold]
        rfl

end Commit

theorem placed_of_ops {dir : Text} {tr : List (Server × Op)} {srv : Server} (h : (placedSystem dir).Run tr srv) :
    Placed dir srv.state := by
  apply h.invariant (I := fun srv => Placed dir srv.state) (G := fun _ _ => True)
  · exact fun _ hstart => hstart
  · intro srv op srv' hI _ hs
    rw [show srv' = op.run srv from hs]
    exact (Op.changes hI op).placed
  · exact fun _ _ => trivial

/-- The operation is on another file and does not store over this one. -/
def Op.Spares (dir : Text) (file : FileName) (op : Op) : Prop :=
  op.file.text ≠ file.text ∧ dataPath dir file.text ∉ op.paths dir

/-- Operations that spare the file leave it as it is. -/
theorem StoredAs.later {dir : Text} {file : FileName} {text : Text} {later : List Op}
    (hlater : ∀ op ∈ later, op.Spares dir file) {srv : Server} (h : StoredAs dir file srv text) :
    StoredAs dir file (later.foldl Op.run srv) text ∧
      (later.foldl Op.run srv).state.entry file.text = srv.state.entry file.text := by
  induction later generalizing srv with
  | nil => exact ⟨h, rfl⟩
  | cons op later ih =>
    obtain ⟨hother, hpath⟩ := hlater op List.mem_cons_self
    have hchanges := Op.changes h.placed op
    have hentry : (op.run srv).state.entry file.text = srv.state.entry file.text :=
      hchanges.entries _ (Ne.symm hother)
    have hstored : StoredAs dir file (op.run srv) text := by
      refine ⟨hchanges.placed, (hchanges.writes _ hpath).trans h.data, ?_⟩
      intro view hview
      rw [hentry] at hview
      exact h.counts view hview
    obtain ⟨hlast, hsame⟩ := ih (fun op hop => hlater op (List.mem_cons_of_mem _ hop)) hstored
    exact ⟨hlast, hsame.trans hentry⟩

/-- A request with a ticket is answered like the read. -/
theorem StoredAs.request {dir : Text} {file : FileName} {text : Text} {host : Host} (h : StoredAs dir file host.server text)
    {reader : DataEnv} (hreader : reader.Reads) (client : Nat) {json name token : Text}
    (hargs : requestArgs json = some (Text.lit "READ", file.text, name, token))
    (hticket : (validateTicket reader host.server token name file.text (Text.lit "READ")).1.isSome = true) :
    ReadsBack (handleDataClient reader host client json).2 text ↔
      (host.server.state.entry file.text).isSome = true ∧ Readable file text := by
  rw [handleDataClient, hargs]
  dsimp only
  rw [if_pos rfl]
  cases hvalid : validateTicket reader host.server token name file.text (Text.lit "READ") with
  | mk ticket left =>
    rw [hvalid] at hticket
    obtain ⟨ticket, rfl⟩ := Option.isSome_iff_exists.1 hticket
    obtain ⟨remaining, rfl⟩ := exists_tickets hvalid
    have hstored : StoredAs dir file { host.server with tickets := remaining } text := ⟨h.placed, h.data, h.counts⟩
    exact handleRead_readsBack_iff hstored hreader name

/-- **What was committed is read back exactly when it is readable.** The commit comes at the end of any run; between
it and the reader there may be operations on other files. -/
theorem committed_reads_back_iff {dir : Text} {tr : List (Server × Op)} {srv : Server}
    (h : (placedSystem dir).Run tr srv) {env : DataEnv} {file : FileName} {user : Text} {session : WriteSession}
    {text : Text} (hcommit : (writeSessionCommit env srv.fs session (writeView srv.state file)).2 = .ok text)
    {later : List Op} (hlater : ∀ op ∈ later, op.Spares dir file) {host : Host}
    (hhost : ∃ tickets, host.server =
      { later.foldl Op.run (Op.run srv (.commit env file user session)) with tickets := tickets })
    {reader : DataEnv} (hreader : reader.Reads) (client : Nat) {json name token : Text}
    (hargs : requestArgs json = some (Text.lit "READ", file.text, name, token))
    (hticket : (validateTicket reader host.server token name file.text (Text.lit "READ")).1.isSome = true) :
    ReadsBack (handleDataClient reader host client json).2 text ↔
      (srv.state.entry file.text).isSome = true ∧ Readable file text := by
  obtain ⟨hcommitted, hthere⟩ := StoredAs.commit (placed_of_ops h) user hcommit
  obtain ⟨hstored, hentry⟩ := hcommitted.later hlater
  obtain ⟨tickets, hserver⟩ := hhost
  have hread : StoredAs dir file host.server text := by
    rw [hserver]
    exact ⟨hstored.placed, hstored.data, hstored.counts⟩
  have hfound : (host.server.state.entry file.text).isSome = (srv.state.entry file.text).isSome := by
    rw [hserver, ← hthere, ← hentry]
  rw [← hfound]
  exact hread.request hreader client hargs hticket

/-- A server with the file `f`, and a ticket to read it. -/
def readableServer (file : FileName) : Server :=
  { Op.run ⟨ssStateInit (Text.lit "/s"), fun _ => none, []⟩ (.create file (Text.lit "u") ⟨0, true, true, true⟩) with
    tickets := [⟨Text.lit "t", file.text, Text.lit "u", Text.lit "READ", 0⟩] }

/-- A write that put one sentence into the empty file. -/
def writeOf (sentence : Text) : WriteSession := ⟨true, 0, Text.lit "u", [], sentence, none, []⟩

/-- The request of the ticket. -/
def readRequest : Text := Text.lit "\x7b\"type\":\"READ\",\"file\":\"f\",\"user\":\"u\",\"ticket\":\"t\"\x7d"

/-- A short sentence is committed and read. -/
theorem committed_reads_back_short :
    let file : FileName := ⟨Text.lit "f", by decide, by decide⟩
    let committed := Op.run (readableServer file) (.commit (.allOk 0) file (Text.lit "u") (writeOf (Text.lit "Hi.")))
    ReadsBack (handleDataClient (.allOk 0) ⟨committed, [], fun _ => none⟩ 0 readRequest).2 (Text.lit "Hi.") := by
  intro file committed
  have hstart : (placedSystem (Text.lit "/s")).Run [] (readableServer file) :=
    .start (Op.changes (Placed.init (Text.lit "/s")) (.create file (Text.lit "u") ⟨0, true, true, true⟩)).placed
  have hcommit : (writeSessionCommit (.allOk 0) (readableServer file).fs (writeOf (Text.lit "Hi."))
      (writeView (readableServer file).state file)).2 = .ok (Text.lit "Hi.") := by decide +kernel
  have hlater : ∀ op ∈ ([] : List Op), op.Spares (Text.lit "/s") file := by
    intro op hop
    cases hop
  let host : Host := ⟨committed, [], fun _ => none⟩
  have hhost : ∃ tickets, host.server = { committed with tickets := tickets } := ⟨_, rfl⟩
  have hreader : DataEnv.Reads (.allOk 0) := ⟨rfl, rfl⟩
  have hargs : requestArgs readRequest = some (Text.lit "READ", file.text, Text.lit "u", Text.lit "t") := by decide +kernel
  have hticket : (validateTicket (.allOk 0) host.server (Text.lit "t") (Text.lit "u") file.text
      (Text.lit "READ")).1.isSome = true := by decide +kernel
  refine (committed_reads_back_iff hstart hcommit hlater hhost hreader 0 hargs hticket).2 ⟨by decide +kernel,
    by decide +kernel, ?_⟩
  intro planted hplanted
  have hnone : plantedContent file.text = none := by decide +kernel
  rw [hnone] at hplanted
  cases hplanted

/-- A sentence of letters. -/
theorem document_letters (n : Nat) : Document [List.replicate (n + 1) 'a'] := by
  refine ⟨?_, ?_⟩
  · intro s hs
    rw [List.mem_singleton.1 hs]
    refine ⟨⟨'a', _, rfl, by decide⟩, ⟨List.replicate n 'a', 'a', List.replicate_succ', by decide, ?_⟩, ?_⟩
    · intro d hd
      rw [List.eq_of_mem_replicate hd]
      decide
    · intro c hc
      rw [List.eq_of_mem_replicate hc]
      decide
  · intro s hs
    cases hs

theorem length_le_jsonEscape (s : Text) : s.length ≤ (jsonEscape s).length := by
  induction s with
  | nil => exact Nat.le_refl 0
  | cons c s ih =>
    have hc := length_escapeChar c
    rw [jsonEscape_cons, List.length_append, List.length_cons, hc]
    split <;> omega

/-- Five thousand letters are committed, and nobody reads them. -/
theorem long_text_unread : ∃ text : Text, text.length = 5000 ∧
    let file : FileName := ⟨Text.lit "f", by decide, by decide⟩
    let srv := readableServer file
    let host : Host :=
      ⟨{ Op.run srv (.commit (.allOk 0) file (Text.lit "u") (writeOf text)) with tickets := srv.tickets }, [], fun _ => none⟩
    (∃ tr, (placedSystem (Text.lit "/s")).Run tr srv) ∧ (srv.state.entry file.text).isSome = true ∧
      (writeSessionCommit (.allOk 0) srv.fs (writeOf text) (writeView srv.state file)).2 = .ok text ∧
      requestArgs readRequest = some (Text.lit "READ", file.text, Text.lit "u", Text.lit "t") ∧
      (validateTicket (.allOk 0) host.server (Text.lit "t") (Text.lit "u") file.text (Text.lit "READ")).1.isSome = true ∧
      ¬ ReadsBack (handleDataClient (.allOk 0) host 0 readRequest).2 text := by
  obtain ⟨text, hlength, hdocument⟩ : ∃ text : Text, text.length = 5000 ∧ Document [text] :=
    ⟨List.replicate (4999 + 1) 'a', List.length_replicate, document_letters 4999⟩
  refine ⟨text, hlength, ?_⟩
  intro file srv host
  have hplaced : Placed (Text.lit "/s") srv.state :=
    (Op.changes (Placed.init (Text.lit "/s")) (.create file (Text.lit "u") ⟨0, true, true, true⟩)).placed
  have hview : HasPaths (Text.lit "/s") file.text (writeView srv.state file) := hplaced.fillPaths _
  have hempty : (srv.copy (Text.lit "/s") file.text).text = [] := by decide +kernel
  have hjoin : joinSentences [text] = text := by simp [joinSentences]
  have hmerge : writeSessionMerge (writeOf text) (srv.copy (Text.lit "/s") file.text).text = .ok [text] := by
    have hsplit := splitSentences_joinSentences hdocument
    rw [hjoin] at hsplit
    rw [hempty, writeSessionMerge]
    dsimp only [writeOf, Option.filter_none]
    rw [hsplit]
    rfl
  let write : OpenWrite := ⟨file.text, Text.lit "u", 0, writeView srv.state file, writeOf text⟩
  have hfile : write.file = file.text := rfl
  have hcommit : (writeSessionCommit (.allOk 0) srv.fs (writeOf text) (writeView srv.state file)).2 = .ok text := by
    have henv : (DataEnv.allOk 0).toEnv.Smooth := Env.smooth_allOk 0
    have hallocated : (DataEnv.allOk 0).allocated = true := rfl
    have hstored := (copy_commitWrite (hplaced.seated file.text) henv hallocated hfile hview hmerge).2.1
    rw [hjoin] at hstored
    exact hstored
  have hargs : requestArgs readRequest = some (Text.lit "READ", file.text, Text.lit "u", Text.lit "t") := by decide +kernel
  have hticket : (validateTicket (.allOk 0) host.server (Text.lit "t") (Text.lit "u") file.text
      (Text.lit "READ")).1.isSome = true := by
    have hvalid : (validateTicket (.allOk 0) srv (Text.lit "t") (Text.lit "u") file.text (Text.lit "READ")).1.isSome =
      true := by decide +kernel
    rw [validateTicket] at hvalid ⊢
    exact hvalid
  refine ⟨⟨[], .start hplaced⟩, by decide +kernel, hcommit, hargs, hticket, ?_⟩
  intro hreads
  have hcommitted := (StoredAs.commit hplaced (Text.lit "u") hcommit).1
  have hread : StoredAs (Text.lit "/s") file host.server text := ⟨hcommitted.placed, hcommitted.data, hcommitted.counts⟩
  have hfits := ((hread.request ⟨rfl, rfl⟩ 0 hargs hticket).1 hreads).2.fits
  have hescaped := length_le_jsonEscape text
  have hbound : MAX_JSON = 4096 := rfl
  omega

end CoWrite.Ss
