import CoWrite.Nm.Payload
import CoWrite.Nm.Placement

/-!
# Pending access requests

Requests stand in a table of their own, with the name of the file and a copy of its owner. `VIEWREQS` shows a user the
pending ones with the user as the owner (`viewreqs_shows`), and `HANDLEREQ` accepts a pending one from the owner of the
file. These are the same requests as long as no file goes of which a request is pending (`requests_iff`): a removal
leaves them in the table.
-/

namespace CoWrite.Nm

open CoWrite.Lib
open CoWrite.Ss (MAX_JSON)

/-! ## The list of the requests -/

/-- `json_append`: the text so far, if all of it was short enough. -/
def jsonAppend (buf : Option Text) (s : Text) : Option Text :=
  buf.bind fun t => if t.length + s.length ≥ MAX_JSON then none else some (t ++ s)

/-- `access_request_status_label`. -/
def accessRequestStatusLabel (status : Int) : Text :=
  if status = NM_REQUEST_PENDING then Text.lit "PENDING"
  else if status = NM_REQUEST_APPROVED then Text.lit "APPROVED"
  else if status = NM_REQUEST_DENIED then Text.lit "DENIED"
  else Text.lit "UNKNOWN"

/-- `access_request_type_label`. -/
def accessRequestTypeLabel (perm : BitVec 32) : Text :=
  if perm &&& NM_PERM_WRITE ≠ 0 then Text.lit "WRITE" else Text.lit "READ"

/-- What is printed of a request, names already escaped. -/
def requestText (sent : Bool) (file requester : Text) (req : AccessRequest) : Text :=
  printMessage
    [(Text.lit "file", .string file), (Text.lit "access", .string (accessRequestTypeLabel req.perm)),
      if sent then (Text.lit "status", .string (accessRequestStatusLabel req.status))
      else (Text.lit "user", .string requester)]

/-- The request is of the user, or waits for the user. -/
def concerns (sent : Bool) (user : Text) (req : AccessRequest) : Bool :=
  if sent then req.requester == user else req.owner == user && req.status == NM_REQUEST_PENDING

/-- The loop of `handle_client_viewreqs`; the requester is escaped for `RECEIVED` only. -/
def viewreqsLoop (sent : Bool) (user : Text) : List AccessRequest → Bool → Option Text → Except Response (Option Text)
  | [], _, buf => .ok buf
  | req :: rest, first, buf =>
    if !concerns sent user req then viewreqsLoop sent user rest first buf
    else
      let buf := if first then buf else jsonAppend buf [',']
      match jsonEscapeString 256 req.file, if sent then some [] else jsonEscapeString 256 req.requester with
      | some file, some requester =>
        match jsonAppend buf (requestText sent file requester req) with
        | none => .ok none
        | some text => viewreqsLoop sent user rest false (some text)
      | _, _ => .error (.error .INTERNAL (Text.lit "encoding error"))

/-- `handle_client_viewreqs`: the fields of its reply. -/
def handleClientViewreqs (state : NmState) (user json : Text) : Except Response Text :=
  match jsonGetString json (Text.lit "direction") 16 with
  | none => .error (.error .BADREQ (Text.lit "missing direction"))
  | some direction =>
    let sent := equalsIgnoreCase direction (Text.lit "SENT")
    let received := equalsIgnoreCase direction (Text.lit "RECEIVED")
    if !sent && !received then .error (.error .BADREQ (Text.lit "invalid direction"))
    else
      match viewreqsLoop sent user state.requests true (jsonAppend (some []) (Text.lit "\"requests\":[")) with
      | .error r => .error r
      | .ok buf =>
        match jsonAppend buf [']'] with
        | none => .error (.error .INTERNAL (Text.lit "response too large"))
        | some extra => .ok extra

/-- The requests of a direction. -/
def shownRequests (state : NmState) (sent : Bool) (user : Text) : List AccessRequest :=
  state.requests.filter (concerns sent user)

section View

variable {sent : Bool} {user : Text}

/-- A request with its names as they are printed. -/
def shownText (sent : Bool) (req : AccessRequest) : Text :=
  requestText sent (jsonEscape req.file) (if sent then [] else jsonEscape req.requester) req

theorem jsonAppend_some {buf : Option Text} {s text : Text} (h : jsonAppend buf s = some text) :
    ∃ t, buf = some t ∧ text = t ++ s := by
  obtain ⟨t, rfl, h⟩ := Option.bind_eq_some_iff.1 h
  obtain ⟨-, h⟩ := Option.ite_none_left_eq_some.1 h
  exact ⟨t, rfl, (Option.some.inj h).symm⟩

/-- A list is its head, what its loop appends, and the bracket. -/
theorem listing_closed {head items text : Text} {buf : Option Text} (hend : jsonAppend buf [']'] = some text)
    (hloop : ∀ t, buf = some t → ∃ t', jsonAppend (some []) head = some t' ∧ t = t' ++ items) :
    text = head ++ items ++ [']'] := by
  obtain ⟨t, rfl, rfl⟩ := jsonAppend_some hend
  obtain ⟨t', ht', rfl⟩ := hloop t rfl
  obtain ⟨t'', ht'', rfl⟩ := jsonAppend_some ht'
  cases ht''
  rfl

theorem jsonEscapeString_some {n : Nat} {s e : Text} (h : jsonEscapeString n s = some e) : e = jsonEscape s :=
  (Option.some.inj (Option.ite_none_right_eq_some.1 h).2).symm

theorem intercalate_comma (s : Text) (l : List Text) :
    List.intercalate [','] (s :: l) = s ++ (l.map fun t => ',' :: t).flatten := by
  induction l generalizing s with
  | nil => simp
  | cons t l ih =>
    rw [List.intercalate_cons_cons, ih]
    simp

/-- What the loop appends: the requests with commas, before each one but the first. -/
theorem viewreqsLoop_ok {reqs : List AccessRequest} {first : Bool} {buf : Option Text} {text : Text}
    (h : viewreqsLoop sent user reqs first buf = .ok (some text)) :
    ∃ t, buf = some t ∧ text = t ++
      if first then List.intercalate [','] ((reqs.filter (concerns sent user)).map (shownText sent))
      else (((reqs.filter (concerns sent user)).map (shownText sent)).map fun s => ',' :: s).flatten := by
  induction reqs generalizing first buf with
  | nil =>
    cases h
    exact ⟨text, rfl, by cases first <;> simp⟩
  | cons req rest ih =>
    unfold viewreqsLoop at h
    cases hreq : concerns sent user req with
    | false =>
      rw [hreq, Bool.not_false, if_pos rfl] at h
      rw [List.filter_cons_of_neg (by simp [hreq])]
      exact ih h
    | true =>
      rw [hreq, Bool.not_true, if_neg Bool.false_ne_true] at h
      rw [List.filter_cons_of_pos hreq, List.map_cons, intercalate_comma, List.map_cons, List.flatten_cons]
      dsimp only at h
      split at h
      · next file requester hfile hrequester =>
        split at h
        · cases h
        · next appended happend =>
          obtain ⟨t, ht, rfl⟩ := ih h
          cases ht
          obtain ⟨t', ht', rfl⟩ := jsonAppend_some happend
          have htext : requestText sent file requester req = shownText sent req := by
            unfold shownText
            rw [jsonEscapeString_some hfile]
            cases sent with
            | true =>
              cases hrequester
              rfl
            | false => rw [jsonEscapeString_some hrequester, if_neg Bool.false_ne_true]
          rw [if_neg Bool.false_ne_true, htext]
          cases first with
          | true =>
            refine ⟨t', ht', ?_⟩
            rw [if_pos rfl, List.append_assoc]
          | false =>
            rw [if_neg Bool.false_ne_true] at ht'
            obtain ⟨t'', ht'', rfl⟩ := jsonAppend_some ht'
            refine ⟨t'', ht'', ?_⟩
            rw [if_neg Bool.false_ne_true]
            simp
      · cases h

/-- **`VIEWREQS` shows the requests of its direction**, all of them or an error. -/
theorem viewreqs_shows {state : NmState} {json direction extra : Text}
    (hdirection : jsonGetString json (Text.lit "direction") 16 = some direction)
    (h : handleClientViewreqs state user json = .ok extra) :
    extra = Text.lit "\"requests\":[" ++ List.intercalate [',']
      ((shownRequests state (equalsIgnoreCase direction (Text.lit "SENT")) user).map
        (shownText (equalsIgnoreCase direction (Text.lit "SENT")))) ++ [']'] := by
  unfold handleClientViewreqs at h
  rw [hdirection] at h
  dsimp only at h
  split at h
  · cases h
  split at h
  · cases h
  · next buf hloop =>
    split at h
    · cases h
    · next text happend =>
      cases h
      refine listing_closed happend fun t ht => ?_
      rw [ht] at hloop
      exact viewreqsLoop_ok hloop

end View

/-! ## The requests in order -/

/-- A message of `HANDLEREQ` with all its fields. -/
structure IsHandling (json name requester : Text) : Prop where
  about : IsAbout json name requester
  action : ∃ action, jsonGetString json (Text.lit "action") 16 = some action ∧
    (equalsIgnoreCase action (Text.lit "APPROVE") = true ∨ equalsIgnoreCase action (Text.lit "DENY") = true)

/-- The reply to a `HANDLEREQ` that the user may make; the grant may fail on a full list. -/
def Accepted (r : Response) : Prop :=
  r = .ok (Text.lit "HANDLEREQ") ∨ r = .error .INTERNAL (Text.lit "grant failed")

/-- What is pending waits for the owner of a file that is there. -/
structure RequestsInOrder (s : NmState) : Prop where
  current : ∀ req ∈ s.requests, req.status = NM_REQUEST_PENDING → s.owns req.owner req.file
  /-- What a user is shown is what the user may handle. -/
  handled : ∀ user json name requester, IsHandling json name requester →
    (Accepted (handleClientHandlereq s user json).1 ↔
      ∃ req ∈ shownRequests s false user, req.file = name ∧ req.requester = requester)
  unique : (s.requests.map fun req => (req.file, req.requester)).Nodup

/-- The file that the section removes. -/
def Event.removed : Event → Option Text
  | .deleteEnd file => some file
  | _ => none

/-- No request is pending for a file that goes. -/
def RemovesIdle (s : NmState) (e : Event) : Prop :=
  ∀ req ∈ s.requests, req.status = NM_REQUEST_PENDING → e.removed ≠ some req.file

instance (s : NmState) (e : Event) : Decidable (RemovesIdle s e) :=
  inferInstanceAs (Decidable (∀ req ∈ s.requests, req.status = NM_REQUEST_PENDING → e.removed ≠ some req.file))

section Find

variable {s : NmState} {name requester : Text}

theorem findAccessRequest_none :
    findAccessRequest s name requester = none ↔ ∀ req ∈ s.requests, ¬ (req.file = name ∧ req.requester = requester) := by
  unfold findAccessRequest
  rw [List.findIdx?_eq_none_iff]
  simp

/-- The request that is found. -/
theorem findAccessRequest_some {i : Nat} (h : findAccessRequest s name requester = some i) :
    ∃ req, s.requests[i]? = some req ∧ req.file = name ∧ req.requester = requester := by
  obtain ⟨hi, hreq, -⟩ := List.findIdx?_eq_some_iff_getElem.1 h
  refine ⟨s.requests[i], List.getElem?_eq_getElem hi, ?_⟩
  simpa using hreq

/-- `HANDLEREQ` is accepted for the request that is found, from the owner and while it is pending. -/
theorem accepted_iff {user json : Text} (h : IsHandling json name requester) :
    Accepted (handleClientHandlereq s user json).1 ↔ s.owns user name ∧
      ∃ i req, findAccessRequest s name requester = some i ∧ s.requests[i]? = some req ∧
        req.status = NM_REQUEST_PENDING := by
  obtain ⟨⟨hname, hrequester⟩, action, haction, hvalid⟩ := h
  have hactions : ¬ ((!equalsIgnoreCase action (Text.lit "APPROVE") && !equalsIgnoreCase action (Text.lit "DENY")) =
      true) := by
    rcases hvalid with hvalid | hvalid <;> simp [hvalid]
  have hrefused {code : ErrorCode} {message : Text} (hcode : code ≠ .INTERNAL) : ¬ Accepted (.error code message) := by
    rintro (hreply | hreply) <;> cases hreply
    exact hcode rfl
  unfold handleClientHandlereq NmState.owns
  rw [hname, hrequester, haction]
  dsimp only
  rw [if_neg hactions]
  cases hfind : nmFindFile s name with
  | none => exact iff_of_false (hrefused (by decide)) (by simp)
  | some file =>
    dsimp only
    by_cases howner : file.owner = user
    · rw [if_neg (not_not.2 howner)]
      cases hreq : findAccessRequest s name requester with
      | none => exact iff_of_false (hrefused (by decide)) (by simp)
      | some i =>
        obtain ⟨req, hget, -⟩ := findAccessRequest_some hreq
        dsimp only
        rw [hget]
        dsimp only
        by_cases hpending : req.status = NM_REQUEST_PENDING
        · rw [if_neg (not_not.2 hpending)]
          refine iff_of_true ?_ ⟨⟨file, rfl, howner⟩, i, req, rfl, hget, hpending⟩
          split
          · split
            · exact .inr rfl
            · exact .inl rfl
          · exact .inl rfl
        · rw [if_pos hpending]
          refine iff_of_false (hrefused (by decide)) ?_
          rintro ⟨-, i', req', hi', hget', hpending'⟩
          cases hi'
          rw [hget] at hget'
          cases hget'
          exact hpending hpending'
    · rw [if_pos howner]
      refine iff_of_false (hrefused (by decide)) ?_
      rintro ⟨⟨file', hfile', howner'⟩, -⟩
      cases hfile'
      exact howner howner'

end Find

/-- The two facts about the table make the third. -/
theorem handled_of_current {s : NmState}
    (hcurrent : ∀ req ∈ s.requests, req.status = NM_REQUEST_PENDING → s.owns req.owner req.file)
    (hunique : (s.requests.map fun req => (req.file, req.requester)).Nodup) (user : Text) {json name requester : Text}
    (h : IsHandling json name requester) :
    Accepted (handleClientHandlereq s user json).1 ↔
      ∃ req ∈ shownRequests s false user, req.file = name ∧ req.requester = requester := by
  have hshown (req : AccessRequest) : req ∈ shownRequests s false user ↔
      req ∈ s.requests ∧ req.owner = user ∧ req.status = NM_REQUEST_PENDING := by
    rw [shownRequests, List.mem_filter]
    simp [concerns]
  rw [accepted_iff h]
  constructor
  · rintro ⟨⟨file, hfile, howner⟩, i, req, hfound, hget, hpending⟩
    obtain ⟨req', hget', hname, hrequester⟩ := findAccessRequest_some hfound
    obtain rfl : req = req' := Option.some.inj (hget.symm.trans hget')
    have hmem := List.mem_of_getElem? hget
    obtain ⟨file', hfile', howner'⟩ := hcurrent req hmem hpending
    rw [hname, hfile] at hfile'
    cases hfile'
    exact ⟨req, (hshown req).2 ⟨hmem, howner'.symm.trans howner, hpending⟩, hname, hrequester⟩
  · rintro ⟨req, hreq, rfl, rfl⟩
    obtain ⟨hmem, rfl, hpending⟩ := (hshown req).1 hreq
    refine ⟨hcurrent req hmem hpending, ?_⟩
    cases hfound : findAccessRequest s req.file req.requester with
    | none => exact absurd ⟨rfl, rfl⟩ (findAccessRequest_none.1 hfound req hmem)
    | some i =>
      obtain ⟨req', hget, hname, hrequester⟩ := findAccessRequest_some hfound
      have hsame : req' = req := List.inj_on_of_nodup_map hunique (List.mem_of_getElem? hget) hmem
        (by rw [hname, hrequester])
      exact ⟨i, req', rfl, hget, hsame ▸ hpending⟩

/-! ## What the sections do to the requests -/

/-- The sections that change the table of requests. -/
def Event.isRequest : Event → Bool
  | .reqaccess .. | .handlereq .. => true
  | _ => false

theorem apart_requests : Apart NmState.requests :=
  ⟨fun _ _ => rfl, fun _ _ => rfl, fun _ _ => rfl, fun _ _ => rfl⟩

/-- The other sections leave the table of requests as it is. -/
theorem requests_frame {s t : NmState} {e : Event} (h : tablesStep s e = some t) (he : e.isRequest = false) :
    t.requests = s.requests := by
  refine apart_requests.step_eq (.inr fun _ _ => rfl) (.inl fun user json => ⟨?_, ?_⟩) h
  · rintro rfl
    cases he
  · rintro rfl
    cases he

/-! ## What the sections do to the owners -/

/-- Who owns a file, by the names and owners alone. -/
theorem owns_of_sameEntries {s t : NmState} (h : SameEntries (fun file => (file.name, file.owner)) s t) (user f : Text) :
    t.owns user f ↔ s.owns user f := by
  have hfind := find_of_sameEntries (fun _ => rfl) h f
  have howns (u : NmState) : u.owns user f ↔
      ∃ p, (nmFindFile u f).map (fun file => (file.name, file.owner)) = some p ∧ p.2 = user := by
    constructor
    · rintro ⟨file, hfile, rfl⟩
      exact ⟨(file.name, file.owner), by rw [hfile]; rfl, rfl⟩
    · rintro ⟨p, hp, rfl⟩
      obtain ⟨file, hfile, rfl⟩ := Option.map_eq_some_iff.1 hp
      exact ⟨file, hfile, rfl⟩
  rw [howns, howns, hfind]

/-- Owners come with new files and go with files that are removed. -/
theorem owns_step {s t : NmState} {e : Event} (h : s.Stored) (hs : tablesStep s e = some t) {user f : Text}
    (howns : s.owns user f) : t.owns user f ∨ e.removed = some f := by
  by_cases he : e.isEntry = false
  · left
    apply (owns_of_sameEntries (parts_frame (fun _ _ _ => rfl) (fun _ _ => rfl) (fun _ _ _ _ _ _ _ => rfl) hs he) _ _).2
    exact howns
  · cases e with
    | createEnd owner file primary backup now =>
      obtain ⟨-, hs⟩ := Option.ite_none_right_eq_some.1 hs
      cases hs
      left
      rcases createEnd_cases s owner.short file.short primary (optIndex backup) now.val with
        ⟨_, _, heq⟩ | ⟨-, -, hfiles⟩
      · rw [heq]
        exact howns
      · obtain ⟨entry, hentry, howner⟩ := howns
        refine ⟨entry, ?_, howner⟩
        unfold nmFindFile at hentry ⊢
        rw [hfiles, List.find?_append, hentry]
        rfl
    | deleteEnd file =>
      cases hs
      by_cases hf : file = f
      · subst hf
        exact .inr rfl
      · left
        obtain ⟨entry, hentry, howner⟩ := howns
        refine ⟨entry, ?_, howner⟩
        unfold deleteEnd nmRemoveFile
        cases hidx : findFileIndex s file with
        | none => exact hentry
        | some i =>
          refine (find?_swapRemove h.names hidx f).trans ?_
          rw [if_neg (by simpa using Ne.symm hf)]
          exact hentry
    | fileUpdate json =>
      obtain ⟨u, -, rfl⟩ := Option.map_eq_some_iff.1 hs
      left
      have hsame : SameEntries (fun file => (file.name, file.owner)) s (fileUpdate s u) :=
        sameEntries_modifyFile s u.file fun _ => rfl
      exact (owns_of_sameEntries hsame _ _).2 howns
    | _ => exact absurd rfl he

/-- Nobody owns a file that is removed. -/
theorem not_owns_removed {s t : NmState} {e : Event} (h : s.Stored) (hs : tablesStep s e = some t) {f : Text}
    (he : e.removed = some f) (user : Text) : ¬ t.owns user f := by
  cases e with
  | deleteEnd file =>
    cases hs
    obtain rfl : file = f := Option.some.inj he
    rintro ⟨entry, hentry, -⟩
    unfold deleteEnd nmRemoveFile at hentry
    cases hidx : findFileIndex s file with
    | none =>
      rw [hidx] at hentry
      have hnone : ∀ x ∈ s.files, x.name ≠ file := by simpa [findFileIndex] using hidx
      exact hnone entry (List.mem_of_find?_eq_some hentry) (by simpa using List.find?_some hentry)
    | some i =>
      rw [hidx] at hentry
      have hgone := find?_swapRemove h.names hidx file
      rw [if_pos (by simp)] at hgone
      cases hgone.symm.trans hentry
  | _ => cases he

/-! ## Runs -/

/-- `HANDLEREQ` leaves the requests, or settles one. -/
theorem handleClientHandlereq_requests (s : NmState) (user json : Text) :
    (handleClientHandlereq s user json).2.requests = s.requests ∨
      ∃ i status, status ≠ NM_REQUEST_PENDING ∧ (handleClientHandlereq s user json).2.requests =
        s.requests.modify i fun req => { req with status := status } := by
  rcases handleClientHandlereq_tables s user json with heq | ⟨i, name, requester, perm, t, hgrant, heq⟩ | ⟨i, heq⟩
  · exact .inl (by rw [heq])
  · refine .inr ⟨i, NM_REQUEST_APPROVED, by decide, ?_⟩
    rw [heq, ← apart_requests.beside.nmGrantAccess_eq hgrant]
    rfl
  · refine .inr ⟨i, NM_REQUEST_DENIED, by decide, ?_⟩
    rw [heq]
    rfl

/-- The requests of a state name files with their owners, each file and requester once. -/
structure RequestInv (s : NmState) : Prop where
  stored : s.Stored
  current : ∀ req ∈ s.requests, req.status = NM_REQUEST_PENDING → s.owns req.owner req.file
  unique : (s.requests.map fun req => (req.file, req.requester)).Nodup

theorem RequestInv.inOrder {s : NmState} (h : RequestInv s) : RequestsInOrder s :=
  ⟨h.current, fun user _ _ _ hjson => handled_of_current h.current h.unique user hjson, h.unique⟩

theorem requestInv_clear : RequestInv .clear := ⟨stored_clear, nofun, List.nodup_nil⟩

/-- A request that is changed in place keeps its file and its requester. -/
theorem nodup_modify {g : AccessRequest → AccessRequest} {reqs : List AccessRequest}
    (h : (reqs.map fun req => (req.file, req.requester)).Nodup)
    (hg : ∀ req, ((g req).file, (g req).requester) = (req.file, req.requester)) (i : Nat) :
    ((reqs.modify i g).map fun req => (req.file, req.requester)).Nodup := by
  rw [map_modify_of_eq hg]
  exact h

/-- The request that is entered or asked again is in order. -/
theorem RequestInv.requestAccess {s t : NmState} (h : RequestInv s) {name user : Text} {file : FileEntry}
    {perm : BitVec 32} (hfind : nmFindFile s name = some file) (huser : Named user)
    (hreq : requestAccess s name file.owner user perm = some t) :
    (∀ req ∈ t.requests, req.status = NM_REQUEST_PENDING → s.owns req.owner req.file) ∧
      (t.requests.map fun req => (req.file, req.requester)).Nodup := by
  obtain ⟨hname, hfile⟩ := isName_of_nmFindFile h.stored hfind
  have howner := hfile.owner.copyTo
  unfold Nm.requestAccess at hreq
  cases hfound : findAccessRequest s name user with
  | some i =>
    obtain ⟨asked, hget, hasked, -⟩ := findAccessRequest_some hfound
    rw [hfound] at hreq
    cases hreq
    constructor
    · intro req hreq hpending
      dsimp only at hreq
      rw [List.mem_iff_getElem?] at hreq
      obtain ⟨j, hj⟩ := hreq
      rw [List.getElem?_modify] at hj
      obtain ⟨old, hold, rfl⟩ := Option.map_eq_some_iff.1 hj
      by_cases hij : i = j
      · subst hij
        obtain rfl : asked = old := Option.some.inj (hget.symm.trans hold)
        rw [if_pos rfl]
        exact ⟨file, hasked ▸ hfind, howner.symm⟩
      · rw [if_neg hij] at hpending ⊢
        exact h.current old (List.mem_of_getElem? hold) hpending
    · apply nodup_modify h.unique
      intro _
      rfl
  | none =>
    rw [hfound] at hreq
    obtain ⟨-, hreq⟩ := Option.ite_none_left_eq_some.1 hreq
    cases hreq
    constructor
    · intro req hreq hpending
      rw [List.mem_append, List.mem_singleton] at hreq
      rcases hreq with hreq | rfl
      · exact h.current req hreq hpending
      · exact ⟨file, hname.copyTo.symm ▸ hfind, howner.symm⟩
    · rw [List.map_append, List.nodup_append]
      refine ⟨h.unique, List.nodup_singleton _, ?_⟩
      intro key hkey key' hkey' heq
      obtain ⟨req, hreq, rfl⟩ := List.mem_map.1 hkey
      rw [List.map_singleton, List.mem_singleton] at hkey'
      rw [hkey', Prod.mk.injEq, hname.copyTo, huser.copyTo] at heq
      exact findAccessRequest_none.1 hfound req hreq heq

theorem RequestInv.step {s t : NmState} {e : Event} (h : RequestInv s) (hidle : RemovesIdle s e)
    (hs : tablesStep s e = some t) : RequestInv t := by
  have hstored := tablesStep_stored h.stored hs
  -- what is pending keeps its owner
  have hkept : ∀ req : AccessRequest, s.owns req.owner req.file → (e.removed ≠ some req.file) → t.owns req.owner req.file := by
    intro req howns hne
    rcases owns_step h.stored hs howns with howns' | hremoved
    · exact howns'
    · exact absurd hremoved hne
  by_cases he : e.isRequest = false
  · have hsame := requests_frame hs he
    refine ⟨hstored, ?_, hsame ▸ h.unique⟩
    intro req hreq hpending
    rw [hsame] at hreq
    exact hkept req (h.current req hreq hpending) (hidle req hreq hpending)
  · cases e with
    | reqaccess user json =>
      cases hs
      rcases handleClientReqaccess_tables s user.text json with heq | ⟨name, file, perm, hfind, hreq⟩
      · rw [heq]
        exact h
      · obtain ⟨hcurrent, hunique⟩ := h.requestAccess hfind user.isNamed hreq
        exact ⟨hstored, fun req hmem hpending => hkept req (hcurrent req hmem hpending) nofun, hunique⟩
    | handlereq user json =>
      cases hs
      rcases handleClientHandlereq_requests s user.text json with heq | ⟨i, status, hstatus, heq⟩
      · refine ⟨hstored, ?_, heq ▸ h.unique⟩
        intro req hreq hpending
        rw [heq] at hreq
        exact hkept req (h.current req hreq hpending) nofun
      · refine ⟨hstored, ?_, ?_⟩
        · intro req hreq hpending
          rw [heq, List.mem_iff_getElem?] at hreq
          obtain ⟨j, hj⟩ := hreq
          rw [List.getElem?_modify] at hj
          obtain ⟨old, hold, rfl⟩ := Option.map_eq_some_iff.1 hj
          by_cases hij : i = j
          · rw [if_pos hij] at hpending
            exact absurd hpending hstatus
          · rw [if_neg hij] at hpending ⊢
            exact hkept old (h.current old (List.mem_of_getElem? hold) hpending) nofun
        · rw [heq]
          apply nodup_modify h.unique
          intro _
          rfl
    | _ => exact absurd rfl he

/-- **The requests stay in order** in exactly the runs that remove no file while a request for it is pending; the list
that `VIEWREQS` sends is the one that this is about. -/
theorem requests_iff {tr : List (NmState × Event)} {s : NmState} (h : tables.Run tr s) :
    (System.Throughout RequestsInOrder tr s ↔ System.Meets RemovesIdle tr) ∧
      ∀ user json direction extra, jsonGetString json (Text.lit "direction") 16 = some direction →
        equalsIgnoreCase direction (Text.lit "RECEIVED") = true → handleClientViewreqs s user json = .ok extra →
        extra = Text.lit "\"requests\":[" ++
          List.intercalate [','] ((shownRequests s false user).map (shownText false)) ++ [']'] := by
  constructor
  · refine h.holds_iff (fun s hs => hs ▸ requestInv_clear) (fun s e t hI hG hs => hI.step hG hs) (fun s hI => hI.inOrder) ?_
    intro s e t hI hbad hs hP
    unfold RemovesIdle at hbad
    push Not at hbad
    obtain ⟨req, hreq, hpending, hremoved⟩ := hbad
    have he : e.isRequest = false := by
      cases e with
      | deleteEnd file => rfl
      | _ => cases hremoved
    rw [← requests_frame hs he] at hreq
    exact not_owns_removed hI.stored hs hremoved _ (hP.current req hreq hpending)
  · intro user json direction extra hdirection hreceived hview
    have hsent : equalsIgnoreCase direction (Text.lit "SENT") = false := by
      unfold equalsIgnoreCase at hreceived ⊢
      rw [eq_of_beq hreceived]
      decide
    have hshows := viewreqs_shows hdirection hview
    rwa [hsent] at hshows

theorem bob_named : Text.lit "bob" ≠ [] ∧ (Text.lit "bob").length < NM_MAX_USER := by decide

theorem carol_named : Text.lit "carol" ≠ [] ∧ (Text.lit "carol").length < NM_MAX_USER := by decide

theorem valid_notes : validName (Text.lit "notes") = true ∧ (Text.lit "notes").length < 128 := by decide

theorem recreated_time : LONG_MIN ≤ (1700000001 : Int) ∧ (1700000001 : Int) ≤ LONG_MAX := by decide

/-- Bob asks to read the file of Alice. -/
def bobAsks : List Event :=
  createFile ⟨Text.lit "notes", valid_notes.1, valid_notes.2⟩ ++
    [.reqaccess ⟨Text.lit "bob", bob_named.1, bob_named.2⟩
      (printMessage [(Text.lit "file", .string (Text.lit "notes")), (Text.lit "mode", .string (Text.lit "R"))])]

/-- Alice deletes the file, and Carol makes another of the name. -/
def carolRecreates : List Event :=
  [.deleteBegin alice (printMessage [(Text.lit "file", .string (Text.lit "notes"))]), .deleteEnd (Text.lit "notes"),
    .createEnd ⟨Text.lit "carol", carol_named.1, carol_named.2⟩ ⟨Text.lit "notes", valid_notes.1, valid_notes.2⟩ 0 (some 1)
      ⟨1700000001, recreated_time.1, recreated_time.2⟩]

theorem requests_after_bob : ∃ tr s, tables.Run tr s ∧ tr.length = 6 ∧
    (shownRequests s false alice.text).map AccessRequest.requester = [Text.lit "bob"] ∧
    System.Throughout RequestsInOrder tr s := by
  obtain ⟨tr, s, hrun, hcheck⟩ := exists_tables_run bobAsks
    (fun tr s => (tr.length, (shownRequests s false alice.text).map AccessRequest.requester,
      decide (∀ p ∈ tr, RemovesIdle p.1 p.2)))
    (6, [Text.lit "bob"], true) (by decide +kernel)
  rw [Prod.mk.injEq, Prod.mk.injEq] at hcheck
  have hidle : ∀ p ∈ tr, RemovesIdle p.1 p.2 := by simpa using hcheck.2.2
  exact ⟨tr, s, hrun, hcheck.1, hcheck.2.1, (requests_iff hrun).1.2 hidle⟩

/-- The message by which Alice denies Bob. -/
def denyBob : Text :=
  printMessage [(Text.lit "file", .string (Text.lit "notes")), (Text.lit "user", .string (Text.lit "bob")),
    (Text.lit "action", .string (Text.lit "DENY"))]

/-- Alice is still shown the request, and may not handle it. -/
theorem stale_request : ∃ tr s, tables.Run tr s ∧
    (∃ req ∈ shownRequests s false alice.text, req.file = Text.lit "notes" ∧ req.requester = Text.lit "bob" ∧
      ¬ s.owns req.owner req.file ∧ s.owns (Text.lit "carol") req.file) ∧
    (handleClientHandlereq s alice.text denyBob).1 = .error .NOAUTH (Text.lit "only owner") := by
  obtain ⟨tr, s, hrun, hcheck⟩ := exists_tables_run (bobAsks ++ carolRecreates)
    (fun _ s => decide ((∃ req ∈ shownRequests s false alice.text, req.file = Text.lit "notes" ∧
        req.requester = Text.lit "bob" ∧ ¬ s.owns req.owner req.file ∧ s.owns (Text.lit "carol") req.file) ∧
      (handleClientHandlereq s alice.text denyBob).1 = .error .NOAUTH (Text.lit "only owner")))
    true (by decide +kernel)
  exact ⟨tr, s, hrun, of_decide_eq_true hcheck⟩

end CoWrite.Nm
