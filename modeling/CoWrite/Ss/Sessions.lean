import CoWrite.Ss.Tickets
import CoWrite.Ss.Words

/-!
# A write and its frames

Between its begin and its end, a write changes with the frames of its own connection only. `writes_of_run` says so: in
any run of the server, with whatever other clients and the name manager do in between, it is the fold of `nextWrite`
over the frames that came for it. `splitWords_edits` says the same of the words of its sentence.
-/

namespace CoWrite.Ss

open CoWrite.Lib

/-! ## One frame -/

/-- The write after a frame of its connection, if it is still open. -/
def nextWrite (env : DataEnv) (write : OpenWrite) (frame : Option Text) : Option OpenWrite :=
  frame.bind fun json =>
    match jsonGetString json (Text.lit "type") 64 with
    | none => some write
    | some type =>
      if isEdit type then some { write with session := (editWrite env write.session type json).1 }
      else if type = Text.lit "WRITE_COMMIT" ∨ type = Text.lit "WRITE_ABORT" then none
      else some write

section Step

variable {host : Host} {client : Nat}

theorem handleWriteFrame_writes {write : OpenWrite} (hw : host.writes client = some write) (env : DataEnv)
    (frame : Option Text) : (handleWriteFrame env host client write frame).1.writes =
      Function.update host.writes client (nextWrite env write frame) := by
  have hsame : host.writes = Function.update host.writes client (some write) := by
    rw [← hw, Function.update_eq_self]
  cases frame with
  | none => rfl
  | some json =>
    unfold handleWriteFrame nextWrite
    dsimp only [Option.bind_some]
    cases jsonGetString json (Text.lit "type") 64 with
    | none => exact hsame
    | some type =>
      dsimp only
      by_cases hedit : isEdit type = true
      · rw [if_pos hedit, if_pos hedit]
        rfl
      rw [if_neg hedit, if_neg hedit]
      by_cases hcommit : type = Text.lit "WRITE_COMMIT"
      · rw [if_pos hcommit, if_pos (.inl hcommit)]
        rfl
      by_cases habort : type = Text.lit "WRITE_ABORT"
      · rw [if_neg hcommit, if_pos habort, if_pos (.inr habort)]
        rfl
      · rw [if_neg hcommit, if_neg habort, if_neg (by simp [hcommit, habort])]
        exact hsame

/-- A new connection leaves the writes of the others alone. -/
theorem handleDataClient_writes {other : Nat} (hne : other ≠ client) (env : DataEnv) (json : Text) :
    (handleDataClient env host client json).1.writes other = host.writes other := by
  have hbegin (host : Host) (fileName user : Text) (sentence : Int) :
      (handleWriteBegin env host client fileName user sentence).1.writes other = host.writes other := by
    unfold handleWriteBegin
    split
    · rfl
    split
    · rfl
    dsimp only
    split
    · exact Function.update_of_ne hne ..
    · exact Function.update_of_ne hne ..
  unfold handleDataClient
  dsimp only
  split
  · rfl
  split_ifs
  · split <;> rfl
  · split <;> rfl
  · split
    · rfl
    split
    · rfl
    · exact hbegin ..
  · rfl

/-- A write that is open after a frame was open before, for the same user, on the same copy of the entry. -/
theorem open_before_frame {write : OpenWrite} (hw : host.writes client = some write) {env : DataEnv} {frame : Option Text}
    {other : Nat} {write' : OpenWrite} (h : (handleWriteFrame env host client write frame).1.writes other = some write') :
    ∃ before, host.writes other = some before ∧ before.user = write'.user ∧ before.file = write'.file ∧
      before.view = write'.view := by
  rw [handleWriteFrame_writes hw] at h
  by_cases hne : other = client
  · subst hne
    rw [Function.update_self] at h
    refine ⟨write, hw, ?_⟩
    obtain ⟨json, -, h⟩ := Option.bind_eq_some_iff.1 h
    split at h
    · cases h
      exact ⟨rfl, rfl, rfl⟩
    · split_ifs at h
      · cases h
        exact ⟨rfl, rfl, rfl⟩
      · cases h
        exact ⟨rfl, rfl, rfl⟩
  · rw [Function.update_of_ne hne] at h
    exact ⟨write', h, rfl, rfl, rfl⟩

/-- A write that a request opens is one that its ticket is for, on the entry found. -/
theorem opened_of_request {env : DataEnv} {json : Text} {other : Nat} {write : OpenWrite}
    (h : (handleDataClient env host client json).1.writes other = some write) :
    host.writes other = some write ∨ ((∃ ticket, admitted host (.request client env json) = some ticket ∧
      ticket.user = write.user ∧ ticket.file = write.file ∧ ticket.op = Text.lit "WRITE") ∧
      (ssStateFind host.server.state write.file).1 = some write.view) := by
  by_cases hne : other = client
  · subst hne
    unfold handleDataClient at h
    dsimp only at h
    split at h
    · exact .inl h
    next type fileName user token hargs =>
    split_ifs at h with hread hstream hbegin
    · split at h <;> exact .inl h
    · split at h <;> exact .inl h
    · split at h
      · exact .inl h
      next sentence hsentence =>
      split at h
      · exact .inl h
      next ticket srv htake =>
      have huse : ticketUse json = some ⟨token, user, fileName, Text.lit "WRITE"⟩ := by
        rw [ticketUse, hargs, Option.bind_some]
        dsimp only
        rw [if_neg hread, if_neg hstream, if_pos hbegin, hsentence, Option.map_some]
      have hadmitted : admitted host (.request other env json) = some ticket := by
        rw [admitted, huse, Option.bind_some, htake]
      have hfields : ticket.user = user ∧ ticket.file = fileName ∧ ticket.op = Text.lit "WRITE" := by
        obtain ⟨_, _, _, use, he, huse', hfits, -⟩ := admitted_spec hadmitted
        cases he
        rw [huse] at huse'
        cases huse'
        simp only [TicketUse.fits, Bool.and_eq_true, beq_iff_eq] at hfits
        exact ⟨hfits.1.1.2, hfits.1.2, hfits.2⟩
      obtain ⟨tickets, rfl⟩ := exists_tickets htake
      unfold handleWriteBegin at h
      split at h
      · exact .inl h
      next view hview =>
      split at h
      · exact .inl h
      dsimp only at h
      split at h
      · simp [closeWrite] at h
      · simp only [Host.setWrite, Function.update_self, Option.some.injEq] at h
        subst h
        exact .inr ⟨⟨ticket, hadmitted, hfields⟩, hview⟩
    · exact .inl h
  · rw [handleDataClient_writes hne] at h
    exact .inl h

end Step

/-! ## Runs -/

/-- The frame, if the event is one of the connection. -/
def frameOf (client : Nat) : Event → Option (DataEnv × Option Text)
  | .frame c env frame => if c = client then some (env, frame) else none
  | _ => none

/-- The frames of the connection in a run, the first one first. -/
def framesOf (client : Nat) (tr : List (Host × Event)) : List (DataEnv × Option Text) :=
  tr.reverse.filterMap fun p => frameOf client p.2

theorem framesOf_cons (client : Nat) (p : Host × Event) (tr : List (Host × Event)) :
    framesOf client (p :: tr) = framesOf client tr ++ (frameOf client p.2).toList := by
  rw [framesOf, List.reverse_cons, List.filterMap_append]
  cases h : frameOf client p.2 with
  | none => simp [framesOf, h]
  | some frame => simp [framesOf, h]

/-- The write after frames. -/
def writeAfter (write : OpenWrite) (frames : List (DataEnv × Option Text)) : Option OpenWrite :=
  frames.foldlM (fun write frame => nextWrite frame.1 write frame.2) write

theorem writeAfter_append (write : OpenWrite) (frames frames' : List (DataEnv × Option Text)) :
    writeAfter write (frames ++ frames') = (writeAfter write frames).bind (writeAfter · frames') :=
  List.foldlM_append ..

/-- The connection is not given to another client. -/
def Own (client : Nat) (tr : List (Host × Event)) : Prop := ∀ p ∈ tr, ∀ env json, p.2 ≠ .request client env json

/-- The steps from a state on. -/
def Host.from (host : Host) : System Host Event := .ofStep (· = host) Host.step

/-- **A write is what its own frames make of it**, whatever else the server does meanwhile. -/
theorem writes_of_run {host host' : Host} {client : Nat} {write : OpenWrite} (hopen : host.writes client = some write)
    {tr : List (Host × Event)} (h : host.from.Run tr host') (hown : Own client tr) :
    host'.writes client = writeAfter write (framesOf client tr) := by
  induction h with
  | start hstart => rw [show _ = host from hstart, hopen]; rfl
  | @step tr s t e _ hs ih =>
    have hown := List.forall_mem_cons.1 hown
    have ih := ih hown.2
    rw [framesOf_cons, writeAfter_append, ← ih]
    cases e with
    | command env json =>
      cases hs
      cases h : s.writes client with
      | none => simpa [Host.setServer, frameOf] using h
      | some write => simpa [Host.setServer, frameOf, writeAfter] using h
    | request other env json =>
      have hne : client ≠ other := by
        rintro rfl
        exact hown.1 env json rfl
      obtain ⟨-, hs⟩ := Option.ite_none_left_eq_some.1 hs
      cases hs
      rw [handleDataClient_writes hne]
      cases h : s.writes client with
      | none => rfl
      | some write => rfl
    | frame other env frame =>
      obtain ⟨write', hwrite', rfl⟩ := Option.map_eq_some_iff.1 hs
      rw [handleWriteFrame_writes hwrite']
      by_cases hc : other = client
      · subst hc
        rw [Function.update_self, hwrite', frameOf, if_pos rfl]
        simp [writeAfter]
      · rw [Function.update_of_ne (Ne.symm hc), frameOf, if_neg hc]
        cases h : s.writes client with
        | none => rfl
        | some write => rfl

/-! ## Words -/

/-- What edits make of the words of a sentence; one whose index is none makes nothing of them. -/
def wordsAfter (words : List Text) (es : List Edit) : List Text :=
  es.foldl (fun words e => (e.words words).getD words) words

theorem splitWords_edit {session : WriteSession} (hactive : session.active = true) (e : Edit) :
    splitWords (session.edit e).sentenceText =
      (e.words (splitWords session.sentenceText)).getD (splitWords session.sentenceText) := by
  have hcases : (e.words (splitWords session.sentenceText) = none → session.apply e = .error .EINVAL) ∧
      ∀ words, e.words (splitWords session.sentenceText) = some words →
        ∃ t, session.apply e = .ok { session with sentenceText := t } ∧ splitWords t = words := by
    cases e with
    | insert index content => exact insert_words hactive index content
    | replace index content => exact replace_words hactive index content
    | delete index => exact delete_words hactive index
  cases hwords : e.words (splitWords session.sentenceText) with
  | none =>
    rw [WriteSession.edit, hcases.1 hwords]
    rfl
  | some words =>
    obtain ⟨t, hok, hsplit⟩ := hcases.2 words hwords
    rw [WriteSession.edit, hok]
    exact hsplit

/-- **The words of an edited sentence** are the words with the edits made on them as a list. -/
theorem splitWords_edits {session : WriteSession} (hactive : session.active = true) (es : List Edit) :
    splitWords (session.edits es).sentenceText = wordsAfter (splitWords session.sentenceText) es := by
  induction es generalizing session with
  | nil => rfl
  | cons e es ih =>
    obtain ⟨t, ht⟩ := edit_frame session e
    have hactive' : (session.edit e).active = true := by
      rw [ht]
      exact hactive
    have hedit := splitWords_edit hactive e
    rw [WriteSession.edits, List.foldl_cons]
    refine (ih hactive').trans ?_
    rw [hedit, wordsAfter, wordsAfter, List.foldl_cons]

end CoWrite.Ss
