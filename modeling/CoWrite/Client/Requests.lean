import CoWrite.Cluster.Handlers

/-!
# The client's list of access requests

`handle_viewreqs_cmd` cuts the array of a `VIEWREQS` reply into its objects: it counts braces outside strings and knows
which quotes are escaped. The fields of each object are then read by `json_get_string`. Names with quotes, backslashes,
braces and brackets come out as they were sent (`viewreqs_recovered`).
-/

namespace CoWrite.Client

open CoWrite.Nm
open CoWrite.Cluster (isOk)
open CoWrite.Cluster.Handlers (storedString)

/-! ## Reading a reply -/

/-- What is in a buffer after `json_get_string`. Without a value, what was stored stands over the text `old` from
before. -/
def readInto (old json key : Text) (outSize : Nat) : Text :=
  match jsonGetString json key outSize with
  | some value => value
  | none =>
    match (keyPattern key ['"']).bind (strstr · json) with
    | some s => storedString (outSize - 1) s ++ old.drop (storedString (outSize - 1) s).length
    | none => old

theorem readInto_eq {old json key value : Text} {n : Nat} (h : jsonGetString json key n = some value) :
    readInto old json key n = value := by
  unfold readInto
  rw [h]

/-! ## Cutting the array -/

/-- The loop over one object, from a state of it; the object with the brace that ends it, and what is behind. -/
def scanObject : Int → Bool → Bool → Text → Option (Text × Text)
  | _, _, _, [] => none
  | braces, true, true, c :: s => (scanObject braces true false s).map (Prod.map (c :: ·) id)
  | braces, true, false, c :: s =>
    (if c = '\\' then scanObject braces true true s
      else if c = '"' then scanObject braces false false s
      else scanObject braces true false s).map (Prod.map (c :: ·) id)
  | braces, false, escape, c :: s =>
    if c = '}' ∧ braces - 1 = 0 then some ([c], s)
    else
      (if c = '"' then scanObject braces true escape s
        else if c = '{' then scanObject (braces + 1) false escape s
        else if c = '}' then scanObject (braces - 1) false escape s
        else scanObject braces false escape s).map (Prod.map (c :: ·) id)

theorem length_scanObject {braces : Int} {inString escape : Bool} {s object rest : Text}
    (h : scanObject braces inString escape s = some (object, rest)) : rest.length < s.length := by
  induction s generalizing braces inString escape object with
  | nil => simp [scanObject] at h
  | cons c s ih =>
    have hmap {o : Option (Text × Text)}
        (ho : ∀ object, o = some (object, rest) → rest.length < s.length)
        (h : o.map (Prod.map (c :: ·) id) = some (object, rest)) :
        rest.length < (c :: s).length := by
      obtain ⟨⟨object', rest'⟩, ho', heq⟩ := Option.map_eq_some_iff.1 h
      cases heq
      exact (ho object' ho').trans (Nat.lt_succ_self _)
    cases inString with
    | true =>
      cases escape with
      | true => exact hmap (fun _ => ih) h
      | false =>
        refine hmap (fun object ho => ?_) h
        split at ho
        · exact ih ho
        · split at ho <;> exact ih ho
    | false =>
      unfold scanObject at h
      split at h
      · cases h
        exact Nat.lt_succ_self _
      · refine hmap (fun object ho => ?_) h
        split at ho
        · exact ih ho
        · split at ho
          · exact ih ho
          · split at ho <;> exact ih ho

/-- The loop over the array. -/
def scanArray (ptr : Text) : List Text :=
  match hptr : ptr.dropWhile fun c => isSpace c || c == ',' with
  | [] => []
  | c :: rest =>
    have : (c :: rest).length ≤ ptr.length := hptr ▸ (List.dropWhile_suffix _).length_le
    if c = ']' then []
    else if c ≠ '{' then scanArray rest
    else
      match hscan : scanObject 0 false false (c :: rest) with
      | none => []
      | some (object, after) =>
        have := length_scanObject hscan
        object :: scanArray after
termination_by ptr.length

/-- A line of the list: a file, the access and the status or the requester. -/
structure Line where
  file : Text
  access : Text
  other : Text
deriving DecidableEq, Repr

/-- What is printed of an object. -/
def objectLine (sent : Bool) (object : Text) : Line where
  file := readInto (Text.lit "unknown") object (Text.lit "file") 256
  access := readInto (Text.lit "unknown") object (Text.lit "access") 64
  other :=
    if sent then readInto (Text.lit "unknown") object (Text.lit "status") 64
    else readInto (Text.lit "unknown") object (Text.lit "user") 128

/-- `handle_viewreqs_cmd` after the call: the lines it prints, where the reply is a list. -/
def handleViewreqsCmd (sent : Bool) (response : Text) : Option (List Line) :=
  if !isOk response then none
  else
    match strstr (Text.lit "\"requests\":") response with
    | none => some []
    | some block =>
      match block.dropWhile (· ≠ '[') with
      | [] => some []
      | _ :: ptr => some ((scanArray ptr).map (objectLine sent))

/-! ## Objects come out whole -/

/-- Outside strings the scan goes over the text and counts no brace. -/
def Passed (t : Text) : Prop :=
  ∀ braces s, scanObject braces false false (t ++ s) =
    (scanObject braces false false s).map (Prod.map (t ++ ·) id)

theorem passed_nil : Passed [] := by
  intro braces s
  cases h : scanObject braces false false s with
  | none => exact h
  | some found => exact h

theorem Passed.append {t u : Text} (ht : Passed t) (hu : Passed u) : Passed (t ++ u) := by
  intro braces s
  rw [List.append_assoc, ht, hu, Option.map_map]
  congr 1
  funext p
  obtain ⟨object, rest⟩ := p
  simp

theorem passed_singleton {c : Char} (h : c ∉ ['"', '{', '}']) : Passed [c] := by
  intro braces s
  simp only [List.mem_cons, List.not_mem_nil, or_false, not_or] at h
  rw [List.singleton_append, scanObject, if_neg (fun hc => h.2.2 hc.1), if_neg h.1, if_neg h.2.1, if_neg h.2.2]
  rfl

/-- Inside a string the scan runs to the quote that closes it. -/
theorem scanObject_escaped {e : Text} (he : Escaped e) (braces : Int) (s : Text) :
    scanObject braces true false (e ++ '"' :: s) =
      (scanObject braces false false s).map (Prod.map (e ++ '"' :: ·) id) := by
  induction e using Escaped.induct with
  | case1 => simp [scanObject]
  | case2 => simp [Escaped] at he
  | case3 => simp [Escaped] at he
  | case4 c e ih =>
    simp only [Escaped] at he
    simp only [List.cons_append, scanObject, if_true, ih he, Option.map_map]
    rfl
  | case5 c e hq h1 h2 ih =>
    have hb : c ≠ '\\' := by
      rintro rfl
      cases e with
      | nil => exact h1 rfl rfl
      | cons d e => exact h2 d e rfl rfl
    have hq : c ≠ '"' := fun e => hq e
    rw [escaped_cons hq hb] at he
    rw [List.cons_append, scanObject, if_neg hb, if_neg hq, ih he, Option.map_map]
    rfl

theorem passed_string {e : Text} (he : Escaped e) : Passed (Value.string e).print := by
  intro braces s
  have hquote : ¬ (('"' : Char) = '}' ∧ braces - 1 = 0) := fun h => absurd h.1 (by decide)
  rw [Value.print, List.cons_append, List.cons_append, List.append_assoc, List.singleton_append, scanObject,
    if_neg hquote, if_pos rfl, scanObject_escaped he, Option.map_map]
  congr 1
  refine funext fun p => ?_
  obtain ⟨object, rest⟩ := p
  simp

/-- Fields whose values are strings. -/
def StringFields (fs : List Field) : Prop := ∀ f ∈ fs, IsKey f.1 ∧ ∃ e, f.2 = .string e ∧ Escaped e

theorem passed_printFields {fs : List Field} (h : StringFields fs) : Passed (printFields fs) := by
  have hfield {f : Field} (hf : IsKey f.1 ∧ ∃ e, f.2 = .string e ∧ Escaped e) : Passed (printField f) := by
    obtain ⟨hkey, e, he, hescaped⟩ := hf
    have hname := passed_string hkey.plain.escaped.1
    have hcolon : Passed [':'] := passed_singleton (by decide)
    have h := hname.append (hcolon.append (passed_string hescaped))
    simpa [printField, he, Value.print] using h
  unfold printFields
  induction fs with
  | nil => exact passed_nil
  | cons f fs ih =>
    have hf := hfield (h f List.mem_cons_self)
    have hfs : StringFields fs := fun g hg => h g (List.mem_cons_of_mem f hg)
    cases fs with
    | nil => simpa using hf
    | cons g fs =>
      have hcomma : Passed [','] := passed_singleton (by decide)
      rw [List.map_cons, List.map_cons, List.intercalate_cons_cons, List.append_assoc]
      exact hf.append (hcomma.append (ih hfs))

/-- An object without numbers comes out whole. -/
theorem scanObject_printMessage {fs : List Field} (h : StringFields fs) (rest : Text) :
    scanObject 0 false false (printMessage fs ++ rest) = some (printMessage fs, rest) := by
  have hopen : ¬ (('{' : Char) = '}' ∧ (0 : Int) - 1 = 0) := by decide
  have hclose : scanObject 1 false false ('}' :: rest) = some (['}'], rest) := by
    rw [scanObject, if_pos (by decide)]
  rw [printMessage, List.cons_append, List.cons_append, List.append_assoc, List.singleton_append, scanObject, if_neg hopen,
    if_neg (by decide), if_pos rfl, Int.zero_add, passed_printFields h, hclose]
  rfl

/-- What the loop over the array takes as one object. -/
def IsObject (object : Text) : Prop :=
  object.head? = some '{' ∧ ∀ rest, scanObject 0 false false (object ++ rest) = some (object, rest)

theorem isObject_printMessage {fs : List Field} (h : StringFields fs) : IsObject (printMessage fs) :=
  ⟨rfl, scanObject_printMessage h⟩

/-- One object, after the comma or in the first place. -/
theorem scanArray_object {object : Text} (h : IsObject object) (lead : Text) (hlead : lead = [] ∨ lead = [','])
    (rest : Text) : scanArray (lead ++ (object ++ rest)) = object :: scanArray rest := by
  obtain ⟨hhead, hscan⟩ := h
  obtain ⟨object, rfl⟩ : ∃ s, object = '{' :: s := by
    cases object with
    | nil => cases hhead
    | cons c s => exact ⟨s, by rw [Option.some.inj hhead]⟩
  have hskip : (lead ++ ('{' :: object ++ rest)).dropWhile (fun c => isSpace c || c == ',') =
      '{' :: (object ++ rest) := by
    rcases hlead with rfl | rfl <;> rfl
  rw [scanArray]
  split
  · next hptr => exact absurd (hskip.symm.trans hptr) (by simp)
  · next c s hptr =>
    obtain ⟨rfl, rfl⟩ := List.cons.inj (hskip.symm.trans hptr)
    rw [if_neg (by decide), if_neg (by decide)]
    have hobject := hscan rest
    rw [List.cons_append] at hobject
    split
    · next hnone => cases hnone.symm.trans hobject
    · next hsome =>
      cases hsome.symm.trans hobject
      rfl

theorem scanArray_end (rest : Text) : scanArray (']' :: rest) = [] := by
  have hskip : ((']' :: rest : Text)).dropWhile (fun c => isSpace c || c == ',') = ']' :: rest := rfl
  rw [scanArray]
  split
  · rfl
  · next c s hptr =>
    obtain ⟨rfl, rfl⟩ := List.cons.inj (hskip.symm.trans hptr)
    rw [if_pos rfl]

/-- **The array is cut into the objects it was printed from.** -/
theorem scanArray_objects {objects : List Text} (h : ∀ object ∈ objects, IsObject object) (rest : Text) :
    scanArray (List.intercalate [','] objects ++ ']' :: rest) = objects := by
  have htail : ∀ objects : List Text, (∀ object ∈ objects, IsObject object) →
      scanArray ((objects.map fun t => ',' :: t).flatten ++ ']' :: rest) = objects := by
    intro objects h
    induction objects with
    | nil => exact scanArray_end rest
    | cons object objects ih =>
      obtain ⟨hobject, h⟩ := List.forall_mem_cons.1 h
      rw [List.map_cons, List.flatten_cons, List.append_assoc, List.cons_append]
      exact (scanArray_object hobject [','] (.inr rfl) _).trans (by rw [ih h])
  cases objects with
  | nil => exact scanArray_end rest
  | cons object objects =>
    obtain ⟨hobject, h⟩ := List.forall_mem_cons.1 h
    rw [intercalate_comma, List.append_assoc]
    exact (scanArray_object hobject [] (.inl rfl) _).trans (by rw [htail objects h])

/-! ## The list is recovered -/

/-- What the client is to print of a request. -/
def requestLine (sent : Bool) (req : AccessRequest) : Line where
  file := req.file
  access := accessRequestTypeLabel req.perm
  other := if sent then accessRequestStatusLabel req.status else req.requester

/-- The fields of a request as they are printed. -/
def requestFields (sent : Bool) (req : AccessRequest) : List Field :=
  [(Text.lit "file", .string (jsonEscape req.file)),
    (Text.lit "access", .string (jsonEscape (accessRequestTypeLabel req.perm))),
    if sent then (Text.lit "status", .string (jsonEscape (accessRequestStatusLabel req.status)))
    else (Text.lit "user", .string (jsonEscape req.requester))]

/-- The labels need no escaping. -/
theorem jsonEscape_typeLabel (perm : BitVec 32) :
    jsonEscape (accessRequestTypeLabel perm) = accessRequestTypeLabel perm ∧ (accessRequestTypeLabel perm).length < 64 := by
  unfold accessRequestTypeLabel
  split <;> decide

theorem jsonEscape_statusLabel (status : Int) :
    jsonEscape (accessRequestStatusLabel status) = accessRequestStatusLabel status ∧
      (accessRequestStatusLabel status).length < 64 := by
  unfold accessRequestStatusLabel
  split
  · decide
  · split
    · decide
    · split <;> decide

theorem shownText_eq (sent : Bool) (req : AccessRequest) : shownText sent req = printMessage (requestFields sent req) := by
  unfold shownText requestText requestFields
  rw [(jsonEscape_typeLabel _).1, (jsonEscape_statusLabel _).1]
  cases sent <;> rfl

theorem stringFields_request (sent : Bool) (req : AccessRequest) : StringFields (requestFields sent req) := by
  have hfield (key v : Text) (hkey : IsKey key) : IsKey key ∧ ∃ e, Value.string (jsonEscape v) = .string e ∧ Escaped e :=
    ⟨hkey, _, rfl, (escaped_jsonEscape v).1⟩
  intro f hf
  simp only [requestFields, List.mem_cons, List.not_mem_nil, or_false] at hf
  rcases hf with rfl | rfl | rfl
  · exact hfield (Text.lit "file") _ (by decide)
  · exact hfield (Text.lit "access") _ (by decide)
  · cases sent
    · exact hfield (Text.lit "user") _ (by decide)
    · exact hfield (Text.lit "status") _ (by decide)

theorem StringFields.wellFormed {fs : List Field} (h : StringFields fs) : WellFormed fs := by
  intro f hf
  obtain ⟨hkey, e, he, hescaped⟩ := h f hf
  exact ⟨hkey, by rw [he]; exact hescaped⟩

/-- The fields of an object are read one by one. -/
theorem objectLine_request (sent : Bool) {req : AccessRequest} (hfile : req.file.length < 256)
    (huser : sent = false → req.requester.length < 128) :
    objectLine sent (shownText sent req) = requestLine sent req := by
  have hfields := (stringFields_request sent req).wellFormed
  have hread {old v : Text} {n : Nat} (key : Text) (pre post : List Field) (hkey : IsKey key ∧ key.length < 124)
      (h : requestFields sent req = pre ++ (key, .string (jsonEscape v)) :: post) (hno : NoString key pre)
      (hv : List.length v < n) : readInto old (shownText sent req) key n = v := by
    rw [shownText_eq, h]
    refine readInto_eq (jsonGetString_escaped hkey.1 hkey.2 (fun f hf => hfields f ?_) hno hv post)
    rw [h]
    exact List.mem_append_left _ hf
  let file : Field := (Text.lit "file", .string (jsonEscape req.file))
  let access : Field := (Text.lit "access", .string (jsonEscape (accessRequestTypeLabel req.perm)))
  unfold objectLine requestLine
  rw [hread (Text.lit "file") [] _ (by decide) rfl noString_nil hfile,
    hread (Text.lit "access") [file] _ (by decide) rfl (by simp [NoString, file, Text.lit])
      (jsonEscape_typeLabel req.perm).2]
  congr 1
  cases sent with
  | true =>
    exact hread (Text.lit "status") [file, access] [] (by decide) rfl (by simp [NoString, file, access, Text.lit])
      (jsonEscape_statusLabel req.status).2
  | false =>
    exact hread (Text.lit "user") [file, access] [] (by decide) rfl (by simp [NoString, file, access, Text.lit])
      (huser rfl)

/-- The client's message. -/
def viewreqsMessage (sent : Bool) : Text :=
  printMessage [(Text.lit "type", .string (Text.lit "VIEWREQS")),
    (Text.lit "direction", .string (if sent then Text.lit "SENT" else Text.lit "RECEIVED"))]

/-- The reply that is sent for fields that are a list. -/
theorem sendOk_some {extra response : Text} (h : response ∈ Ss.sendOk extra) (hne : extra.isEmpty = false) :
    response = Text.lit "\x7b\"status\":\"OK\"," ++ extra ++ ['}'] := by
  unfold Ss.sendOk at h
  rw [hne, if_neg Bool.false_ne_true] at h
  dsimp only at h
  split at h
  · cases h
  · exact List.mem_singleton.1 h

/-- **`VIEWREQS` is read as it was encoded**: from a reply that fits its buffers the client takes the requests of the
direction, each with its file, access and status or requester. -/
theorem viewreqs_recovered {state : NmState} {user : Text} (sent : Bool)
    (hnames : ∀ req ∈ state.requests, req.file.length < NM_MAX_NAME ∧ req.requester.length < NM_MAX_USER)
    {extra response : Text} (h : handleClientViewreqs state user (viewreqsMessage sent) = .ok extra)
    (hresponse : response ∈ Ss.sendOk extra) :
    handleViewreqsCmd sent response = some ((shownRequests state sent user).map (requestLine sent)) := by
  have hdirection : jsonGetString (viewreqsMessage sent) (Text.lit "direction") 16 =
      some (if sent then Text.lit "SENT" else Text.lit "RECEIVED") := by
    cases sent <;> decide
  have hsent : equalsIgnoreCase (if sent then Text.lit "SENT" else Text.lit "RECEIVED") (Text.lit "SENT") = sent := by
    cases sent <;> decide
  have hextra := viewreqs_shows hdirection h
  rw [hsent] at hextra
  subst hextra
  rw [sendOk_some hresponse (by rfl)]
  -- the marker is the first field behind the status
  have hmarker (s : Text) : strstr (Text.lit "\"requests\":")
      (Text.lit "\x7b\"status\":\"OK\"," ++ (Text.lit "\"requests\":[" ++ s)) = some ('[' :: s) := rfl
  have hobjects : ∀ object ∈ (shownRequests state sent user).map (shownText sent), IsObject object := by
    simp only [List.forall_mem_map]
    intro req _
    rw [shownText_eq]
    exact isObject_printMessage (stringFields_request sent req)
  have hstatus (s : Text) : isOk (Text.lit "\x7b\"status\":\"OK\"," ++ s) = true := rfl
  unfold handleViewreqsCmd
  simp only [List.append_assoc, hstatus, hmarker]
  have harray := scanArray_objects hobjects ['}']
  rw [Bool.not_true, if_neg Bool.false_ne_true]
  simp only [List.dropWhile_cons, List.singleton_append]
  refine congrArg some ?_
  have hlist : ∀ t : Text, t = List.intercalate [','] ((shownRequests state sent user).map (shownText sent)) ++
      [']', '}'] → (scanArray t).map (objectLine sent) = (shownRequests state sent user).map (requestLine sent) := by
    rintro _ rfl
    rw [harray, List.map_map]
    exact List.map_congr_left fun req hreq => objectLine_request sent
      ((hnames req (List.mem_filter.1 hreq).1).1.trans (by decide)) fun _ =>
      (hnames req (List.mem_filter.1 hreq).1).2.trans (by decide)
  exact hlist _ rfl

/-- A request waits for a file whose name has a quote, a backslash, braces and brackets. -/
def oddRequest : NmState :=
  { NmState.clear with
    requests := [⟨Text.lit "a\"\x7d]\\,\x7b[", Text.lit "alice", Text.lit "bob", NM_PERM_READ, NM_REQUEST_PENDING⟩] }

theorem viewreqs_recovered_odd :
    ∃ extra response, handleClientViewreqs oddRequest (Text.lit "alice") (viewreqsMessage false) = .ok extra ∧
      response ∈ Ss.sendOk extra ∧
      handleViewreqsCmd false response =
        some [⟨Text.lit "a\"\x7d]\\,\x7b[", Text.lit "READ", Text.lit "bob"⟩] := by
  let extra := Text.lit "\"requests\":[" ++
    shownText false ⟨Text.lit "a\"\x7d]\\,\x7b[", Text.lit "alice", Text.lit "bob", NM_PERM_READ, NM_REQUEST_PENDING⟩ ++ [']']
  have hreply : handleClientViewreqs oddRequest (Text.lit "alice") (viewreqsMessage false) = .ok extra := by decide
  have hresponse : Text.lit "\x7b\"status\":\"OK\"," ++ extra ++ ['}'] ∈ Ss.sendOk extra := by decide
  exact ⟨extra, _, hreply, hresponse, viewreqs_recovered false (by decide) hreply hresponse⟩

end CoWrite.Client
