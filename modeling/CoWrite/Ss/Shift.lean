import CoWrite.Ss.Locks
import CoWrite.Ss.Reading

/-!
# Locked sentences that move

A sentence is locked by its index at `WRITE_BEGIN`, and commits of others put sentences in before it and take
them away. The lock then is on the index where its sentence was.

* `getElem?_spliced`: which sentences have the same index after sentences were put into a document, when it
  is stored and read again.
* `locked_of_run`: as long as every commit beside other writes leaves their sentences where they are, no write begins
  on a sentence that is being written.
-/

namespace CoWrite.Ss

open CoWrite.Lib

/-! ## Sentences that keep their index -/

/-- Sentence `j` has its index still when `parts` replace `d` sentences from `m` on: it is before them; or it is behind
them, they are as many, and they do not run on into the next one; or that one is taken in instead of another. -/
def KeepsPlace (latest parts : List Text) (m d j : Nat) : Prop :=
  (j < m ∧ (parts = [] ∨ ∀ s ∈ latest[j]?, Terminated s)) ∨
    (m + d ≤ j ∧ parts.length = d ∧ ∀ s ∈ parts.getLast?, Terminated s) ∨
    (m + d < j ∧ parts.length = d + 1 ∧ ∀ s ∈ parts.getLast?, ¬ Terminated s)

section Splice

variable {latest parts : List Text} (hl : Document latest) (hp : Document parts) {m d j : Nat}

include hl

theorem terminated_of_lt (hj : j + 1 < latest.length) : Terminated latest[j] := by
  apply hl.terminated
  rw [List.dropLast_eq_take]
  exact List.mem_take_iff_getElem.2 ⟨j, by omega, rfl⟩

include hp

/-- The sentences before the place, and those put there. -/
theorem sentences_before (hm : m < latest.length) (hend : ∀ s ∈ parts.getLast?, Terminated s) :
    ∀ s ∈ latest.take m ++ parts, IsSentence s ∧ Terminated s := by
  intro s hs
  rcases List.mem_append.1 hs with hs | hs
  · exact document_take hl hm s hs
  · refine ⟨hp.sentence s hs, ?_⟩
    rcases List.eq_nil_or_concat parts with rfl | ⟨init, last, rfl⟩
    · cases hs
    · rw [List.concat_eq_append] at *
      rcases List.mem_append.1 hs with hs | hs
      · exact hp.terminated s (by simpa using hs)
      · rw [List.mem_singleton.1 hs]
        exact hend last (by simp)

/-- **A sentence that keeps its place is there when the document is read again.** -/
theorem getElem?_spliced (hm : m + d ≤ latest.length) (hj : j < latest.length) (h : KeepsPlace latest parts m d j) :
    (splitSentences (joinSentences (latest.take m ++ parts ++ latest.drop (m + d))))[j]? = latest[j]? := by
  rcases h with ⟨hjm, hend⟩ | ⟨hjm, hlength, hend⟩ | ⟨hjm, hlength, hend⟩
  · -- before the place: the sentences up to this one are split off
    by_cases hterminated : Terminated latest[j] = true
    · have hpre : ∀ s ∈ latest.take (j + 1), IsSentence s ∧ Terminated s := by
        intro s hs
        refine ⟨hl.sentence s (List.mem_of_mem_take hs), ?_⟩
        obtain ⟨k, hk, rfl⟩ := List.mem_take_iff_getElem.1 hs
        by_cases hkj : k = j
        · subst hkj
          exact hterminated
        · exact terminated_of_lt hl (by omega)
      have hsplit : latest.take m ++ parts ++ latest.drop (m + d) =
          latest.take (j + 1) ++ ((latest.take m).drop (j + 1) ++ parts ++ latest.drop (m + d)) := by
        have htake : latest.take m = latest.take (j + 1) ++ (latest.take m).drop (j + 1) := by
          have htaken := List.take_append_drop (j + 1) (latest.take m)
          rw [List.take_take, Nat.min_eq_left hjm] at htaken
          exact htaken.symm
        rw [← List.append_assoc, ← List.append_assoc, ← htake]
      rw [hsplit, splitSentences_append hpre, List.getElem?_append_left (by simp; omega),
        List.getElem?_take_of_lt (Nat.lt_succ_self j)]
    · -- only the last sentence has no delimiter, and nothing is put behind it
      have hlast : ¬ j + 1 < latest.length := fun hlt => hterminated (terminated_of_lt hl hlt)
      have hnone : parts = [] := by
        rcases hend with hnone | hend
        · exact hnone
        · exact absurd (hend _ (List.getElem?_eq_getElem hj)) hterminated
      rw [hnone, List.append_nil, List.take_of_length_le (by omega), List.drop_of_length_le (by omega), List.append_nil,
        splitSentences_joinSentences hl]
  · have hin : m < latest.length := by omega
    have hbefore := sentences_before hl hp hin hend
    have hlen : (latest.take m ++ parts).length = m + d := by
      rw [List.length_append, List.length_take, hlength]
      omega
    rw [splitSentences_joinSentences (document_append hbefore (document_drop hl)),
      List.getElem?_append_right (by omega), List.getElem?_drop, hlen]
    congr 1
    omega
  · obtain ⟨init, last, rfl⟩ : ∃ init last, parts = init ++ [last] := by
      rcases List.eq_nil_or_concat parts with rfl | ⟨init, last, rfl⟩
      · simp at hlength
      · exact ⟨init, last, by rw [List.concat_eq_append]⟩
    have hinit : Document init := by
      refine ⟨fun s hs => hp.sentence s (by simp [hs]), ?_⟩
      intro s hs
      exact hp.terminated s (by simpa using (List.dropLast_sublist _).subset hs)
    have hterminated : ∀ s ∈ init.getLast?, Terminated s := by
      intro s hs
      exact hp.terminated s (by simpa using List.mem_of_getLast? hs)
    have hin : m < latest.length := by omega
    have hbefore := sentences_before hl hinit hin hterminated
    have hnext : latest.drop (m + d) = latest[m + d] :: latest.drop (m + d + 1) := List.drop_eq_getElem_cons (by omega)
    have hmem : latest[m + d] ∈ latest := List.getElem_mem _
    obtain ⟨v, hv⟩ := splitSentences_joined (hp.sentence last (by simp)) (hend last (by simp))
      (hl.sentence _ hmem) (terminated_of_lt hl (j := m + d) (by omega)) (document_drop (i := m + d + 1) hl)
    have hlen : (latest.take m ++ init).length = m + d := by
      rw [List.length_append, List.length_singleton] at hlength
      rw [List.length_append, List.length_take]
      omega
    rw [hnext, ← List.append_assoc, List.append_assoc, List.singleton_append, splitSentences_append hbefore, hv,
      List.getElem?_append_right (by omega), hlen]
    obtain ⟨k, rfl⟩ := Nat.exists_eq_add_of_lt hjm
    rw [show m + d + k + 1 - (m + d) = k + 1 by omega, List.getElem?_cons_succ, List.getElem?_drop]
    congr 1
    omega

end Splice

/-! ## Where a commit puts its sentences -/

/-- The index of the first sentence that a commit replaces, and how many they are. -/
def WriteSession.place (session : WriteSession) (latest : List Text) : Option (Nat × Nat) :=
  match session.baselineSentence.filter (· ≠ []) with
  | some baseline =>
    if 0 ≤ locate session baseline latest then some ((locate session baseline latest).toNat, 1) else none
  | none => some ((max 0 (min session.sentenceIndex latest.length)).toNat, 0)

/-- The candidate found is one of the list, or the one to start with. -/
theorem locateFrom_lt (baseline : Text) (score : Nat → Int) (l : List Text) (i : Nat) (best : Int × Int)
    (h : best.1 < i) : (locateFrom baseline score l i best).1 < i + l.length := by
  induction l generalizing i best with
  | nil => simpa [locateFrom] using h
  | cons c l ih =>
    rw [locateFrom, List.length_cons]
    split
    · have := ih (i + 1) (i, score i) (by simp)
      omega
    · have := ih (i + 1) best (by omega)
      omega

/-- The sentences that are stored, and the place is in the text. -/
theorem merge_place {session : WriteSession} {current : Text} {merged : List Text}
    (h : writeSessionMerge session current = .ok merged) :
    ∃ m d, session.place (splitSentences current) = some (m, d) ∧ m + d ≤ (splitSentences current).length ∧
      merged = (splitSentences current).take m ++ splitSentences session.sentenceText ++
        (splitSentences current).drop (m + d) := by
  unfold writeSessionMerge at h
  unfold WriteSession.place
  cases hbaseline : session.baselineSentence.filter (· ≠ []) with
  | none =>
    simp only [hbaseline, Except.ok.injEq] at h ⊢
    subst h
    refine ⟨_, _, rfl, ?_, rfl⟩
    omega
  | some baseline =>
    simp only [hbaseline] at h ⊢
    have hlt := locateFrom_lt baseline (relocationScore session (splitSentences current)) (splitSentences current) 0
      (-1, INT_MIN) (by simp)
    by_cases hfound : locate session baseline (splitSentences current) ≥ 0
    · rw [if_pos hfound, Except.ok.injEq] at h
      subst h
      refine ⟨_, _, if_pos hfound, ?_, rfl⟩
      unfold locate at hfound ⊢
      omega
    · rw [if_neg hfound] at h
      cases h

/-! ## The server and its writers -/

/-- What the server does, one command, connection or frame after the other. -/
inductive EditEvent where
  /-- A command on a file; commits come with the frames of the writes. -/
  | op (op : Op)
  | tickets (tickets : List AuthTicket)
  | request (client : Nat) (env : DataEnv) (json : Text)
  | frame (client : Nat) (env : DataEnv) (json : Option Text)

/-- No write begins on the sentence of the file. -/
def RefusesSentence (host : Host) (file : Text) (k : Nat) : Prop :=
  ∀ client env json user token, requestArgs json = some (Text.lit "WRITE_BEGIN", file, user, token) →
    jsonGetInt json (Text.lit "sentence") = some (k : Int) →
    (handleDataClient env host client json).1.writes = host.writes ∧
      ((validateTicket env host.server token user file (Text.lit "WRITE")).1.isSome = true →
        (ssStateFind host.server.state file).1.isSome = true →
        (handleDataClient env host client json).2 = ⟨sendErrorResponse .LOCKED (Text.lit "sentence locked"), []⟩)

/-- What is being written and is found in one place only cannot be opened there. -/
def SentencesLocked (dir : Text) (host : Host) : Prop :=
  ∀ client write s k, host.writes client = some write → write.session.baselineSentence = some s → s ≠ [] →
    (∀ i, (splitSentences (host.server.copy dir write.file).text)[i]? = some s ↔ i = k) →
    RefusesSentence host write.file k

/-- The commit leaves the sentence of another write where it is. If it puts its sentences in at all, it has loaded the
text. -/
def CommitSpares (dir : Text) (srv : Server) (env : DataEnv) (write beside : OpenWrite) : Prop :=
  if beside.file = write.file then
    ∀ current, currentText env.toEnv srv.fs (dataPath dir write.file) = some current →
      ∀ p ∈ write.session.place (splitSentences current), current = (srv.copy dir write.file).text ∧
        KeepsPlace (splitSentences current) (splitSentences write.session.sentenceText) p.1 p.2 beside.sentence.toNat
  else dataPath dir beside.file ∉ replacedPaths dir write.file

namespace EditEvent

def step (host : Host) : EditEvent → Option Host
  | .op o =>
    match o with
    | .commit _ _ _ _ => none
    | o => some (host.setServer (o.run host.server))
  | .tickets ts => some (host.setServer { host.server with tickets := ts })
  | .request client env json =>
    if (host.writes client).isSome then none else some (handleDataClient env host client json).1
  | .frame client env json => (host.writes client).map fun write => (handleWriteFrame env host client write json).1

def system (dir : Text) : System Host EditEvent :=
  .ofStep (fun host => host.Started ∧ Placed dir host.server.state) step

/-- Commands leave the text of a file that is being written alone, commits the sentences that are; and no meta file is
its data file. -/
def KeepsPlaces (dir : Text) (host : Host) : EditEvent → Prop
  | .op o => ∀ client write, host.writes client = some write → write.session.baselineSentence.isSome = true →
      (o.run host.server).fs (dataPath dir write.file) = host.server.fs (dataPath dir write.file)
  | .tickets _ => True
  | .request _ _ json => ∀ type file user token, requestArgs json = some (type, file, user, token) →
      ∀ client write, host.writes client = some write → write.session.baselineSentence.isSome = true →
        dataPath dir write.file ≠ metaPath dir file
  | .frame client env json =>
      json.bind (fun json => jsonGetString json (Text.lit "type") 64) = some (Text.lit "WRITE_COMMIT") →
        ∀ write, host.writes client = some write → ∀ other beside, other ≠ client → host.writes other = some beside →
          beside.session.baselineSentence.isSome = true → CommitSpares dir host.server env write beside

end EditEvent

/-! ## A write and its sentence -/

/-- The file of the write has a name, its paths are those of the name, and its sentence is at the index locked. -/
structure Rooted (dir : Text) (srv : Server) (write : OpenWrite) : Prop where
  named : validName write.file = true ∧ write.file.length < SS_NAME_MAX
  paths : HasPaths dir write.file write.view
  sentence : ∀ s, write.session.baselineSentence = some s → 0 ≤ write.sentence ∧
    (splitSentences (srv.copy dir write.file).text)[write.sentence.toNat]? = some s

theorem Rooted.of_data {dir : Text} {srv srv' : Server} {write : OpenWrite} (h : Rooted dir srv write)
    (hdata : write.session.baselineSentence.isSome = true →
      srv'.fs (dataPath dir write.file) = srv.fs (dataPath dir write.file)) : Rooted dir srv' write := by
  refine ⟨h.named, h.paths, ?_⟩
  intro s hs
  have hsame : (srv'.copy dir write.file).text = (srv.copy dir write.file).text := by
    have hdata := hdata (by rw [hs]; rfl)
    simp only [Server.copy, Copy.text, hdata]
  rw [hsame]
  exact h.sentence s hs

/-- An edit keeps the baseline of its session. -/
theorem baseline_editWrite (env : DataEnv) (session : WriteSession) (type json : Text) :
    (editWrite env session type json).1.baselineSentence = session.baselineSentence := by
  have happly (e : Edit) (step : String) (failed : Text) :
      (applyEdit env session e step failed).1.baselineSentence = session.baselineSentence := by
    obtain ⟨t, ht⟩ := edit_frame session e
    unfold WriteSession.edit at ht
    unfold applyEdit
    split
    · rfl
    · split
      · next hok =>
        rw [hok] at ht
        dsimp only at ht ⊢
        rw [ht]
      · rfl
  unfold editWrite
  split
  · rfl
  split
  · exact happly ..
  split
  · rfl
  split
  · exact happly ..
  · exact happly ..

theorem fs_setFileLockState (srv : Server) (name : Text) (active : Bool) (sentence : Int) (user : Option Text) :
    (setFileLockState srv name active sentence user).fs = srv.fs := by
  unfold setFileLockState
  split <;> rfl

theorem placed_setFileLockState {dir : Text} {srv : Server} (h : Placed dir srv.state) (name : Text) (active : Bool)
    (sentence : Int) (user : Option Text) : Placed dir (setFileLockState srv name active sentence user).state := by
  unfold setFileLockState
  split
  · exact h
  · next hup =>
    have hkeeps : KeepsPaths (lockFields active sentence user) := fun _ => ⟨rfl, rfl, rfl, rfl⟩
    exact (h.update hkeeps hup).1

/-- What is read is the text of the file, or nothing. -/
theorem currentText_cases {env : Env} {fs : Fs} {path text : Text} (h : currentText env fs path = some text) :
    text = (fs path).getD [] ∨ text = [] := by
  unfold currentText loadText at h
  cases hload : env.dataLoad with
  | false =>
    rw [hload] at h
    simp only [Bool.false_eq_true, if_false, Option.ite_none_right_eq_some, Option.some.injEq] at h
    exact .inr h.2.symm
  | true =>
    rw [hload, if_pos rfl] at h
    cases hdata : fs path with
    | none =>
      rw [hdata] at h
      simp only [Option.ite_none_right_eq_some, Option.some.injEq] at h
      exact .inr h.2.symm
    | some content =>
      rw [hdata] at h
      cases h
      exact .inl rfl

/-- A write that opens has its sentence at the index it locked. -/
theorem rooted_openSession {dir : Text} {srv : Server} (h : Placed dir srv.state) {env : DataEnv} {name user : Text}
    {view : SsFile} (hview : (ssStateFind srv.state name).1 = some view) {sentence : Int} {session : WriteSession}
    {frames : List Text} (hopen : openSession env srv.fs view user sentence = (some session, frames)) :
    Rooted dir srv ⟨name, user, sentence, view, session⟩ := by
  rw [ssStateFind_eq h.sorted] at hview
  have hpaths := h.hasPaths name view hview
  refine ⟨h.named name (by rw [hview]; rfl), hpaths, ?_⟩
  intro s hs
  have hbegin : beginSession env srv.fs view user sentence = .ok session := by
    unfold openSession at hopen
    split at hopen
    · split at hopen <;> cases hopen
    · next hbegin =>
      split_ifs at hopen <;> cases hopen
      exact hbegin
  unfold beginSession at hbegin
  split at hbegin
  · cases hbegin
  · next text htext =>
    split at hbegin
    · cases hbegin
    · unfold writeSessionBegin at hbegin
      dsimp only at hbegin
      split at hbegin
      · cases hbegin
      · next hrange =>
        cases hbegin
        rw [not_or, Int.not_lt] at hrange
        refine ⟨hrange.1, ?_⟩
        rcases currentText_cases htext with rfl | rfl
        · rw [hpaths.dataEq] at hs
          exact hs
        · cases hs

/-! ## Commits beside a write -/

/-- A store that fails leaves its path alone. -/
theorem storeTextAtomic_failed {fs fs' : Fs} {path content : Text} {o : StoreOutcome}
    (hstore : storeTextAtomic fs path content o = (false, fs')) (htmp : path ≠ tmpPath path) : fs' path = fs path := by
  cases o with
  | done =>
    have hdone := storeTextAtomic_fst fs path content .done
    rw [hstore] at hdone
    simp at hdone
  | openFailed =>
    cases hstore
    rfl
  | failed left =>
    cases hstore
    exact Function.update_of_ne htmp ..

/-- The undo file of a file is not its data file. -/
theorem data_storeUndo {dir : Text} {f : FileName} {fs fs' : Fs} {content : Text} {o : StoreOutcome} {ok : Bool}
    (hstore : storeTextAtomic fs (undoPath dir f.text) content o = (ok, fs')) :
    fs' (dataPath dir f.text) = fs (dataPath dir f.text) := by
  have hapart := fivePaths dir f
  have hwrites : Writes [undoPath dir f.text, tmpPath (undoPath dir f.text)] fs fs' :=
    writes_of_store hstore (by simp) (by simp)
  refine hwrites _ ?_
  simp only [List.mem_cons, List.not_mem_nil, or_false, not_or]
  exact ⟨hapart.undo_data.symm, hapart.data_tmpUndo⟩

/-- **What a commit does**: it fails and leaves the text, or stores its merge of what it loaded. -/
theorem writeSessionCommit_cases {dir : Text} {f : FileName} {view : SsFile} (hview : HasPaths dir f.text view)
    (env : DataEnv) (fs : Fs) (session : WriteSession) :
    (∃ fs' e, writeSessionCommit env fs session view = (fs', .error e) ∧
      fs' (dataPath dir f.text) = fs (dataPath dir f.text)) ∨
    ∃ fs' current merged, currentText env.toEnv fs (dataPath dir f.text) = some current ∧
      writeSessionMerge session current = .ok merged ∧
      writeSessionCommit env fs session view = (fs', .ok (joinSentences merged)) ∧
      fs' (dataPath dir f.text) = some (joinSentences merged) := by
  have hapart := fivePaths dir f
  unfold writeSessionCommit
  rw [hview.dataEq, hview.undoEq]
  split
  · exact .inl ⟨_, _, rfl, rfl⟩
  next current hcurrent =>
  split
  · exact .inl ⟨_, _, rfl, rfl⟩
  split
  · exact .inl ⟨_, _, rfl, rfl⟩
  next merged hmerge =>
  split
  · next hundo => exact .inl ⟨_, _, rfl, data_storeUndo hundo⟩
  next hundo =>
  split
  · next hdata =>
    refine .inl ⟨_, _, rfl, ?_⟩
    exact (storeTextAtomic_failed hdata hapart.data_tmp).trans (data_storeUndo hundo)
  · next hdata => exact .inr ⟨_, current, merged, hcurrent, hmerge, rfl, stored_of_store hdata⟩

/-- A commit leaves the text, or stores its merge of what it loaded. -/
theorem data_commitWrite {dir : Text} {srv : Server} (h : Placed dir srv.state) {write : OpenWrite}
    (hname : validName write.file = true ∧ write.file.length < SS_NAME_MAX) (hpaths : HasPaths dir write.file write.view)
    (env : DataEnv) :
    (commitWrite env srv write).1.fs (dataPath dir write.file) = srv.fs (dataPath dir write.file) ∨
      ∃ current merged, currentText env.toEnv srv.fs (dataPath dir write.file) = some current ∧
        writeSessionMerge write.session current = .ok merged ∧
        (commitWrite env srv write).1.fs (dataPath dir write.file) = some (joinSentences merged) := by
  let file : FileName := ⟨write.file, hname.1, hname.2⟩
  have hapart := fivePaths dir file
  -- the commit of the session, before the entry
  have hcommit : (writeSessionCommit env srv.fs write.session write.view).1 (dataPath dir write.file) =
        srv.fs (dataPath dir write.file) ∨
      ∃ current merged, currentText env.toEnv srv.fs (dataPath dir write.file) = some current ∧
        writeSessionMerge write.session current = .ok merged ∧
        (writeSessionCommit env srv.fs write.session write.view).1 (dataPath dir write.file) =
          some (joinSentences merged) := by
    rcases writeSessionCommit_cases (f := file) hpaths env srv.fs write.session with
      ⟨fs, e, hresult, hdata⟩ | ⟨fs, current, merged, hcurrent, hmerge, hresult, hdata⟩
    · rw [hresult]
      exact .inl hdata
    · rw [hresult]
      exact .inr ⟨current, merged, hcurrent, hmerge, hdata⟩
  -- the meta file is another one
  have hsame : (commitWrite env srv write).1.fs (dataPath dir write.file) =
      (writeSessionCommit env srv.fs write.session write.view).1 (dataPath dir write.file) := by
    unfold commitWrite
    split
    · next hresult =>
      rw [hresult]
      split <;> rfl
    · next fs text hresult =>
      rw [hresult]
      split
      · rfl
      · next entry state hup =>
        have hkeeps : KeepsPaths (commitFields text write.user env.now) := fun _ => ⟨rfl, rfl, rfl, rfl⟩
        have hmeta := (h.update hkeeps hup).2.1.metaEq
        have hwrites : Writes [entry.metaPath] fs (ssStateSaveMeta fs entry env.metaOpened) :=
          writes_saveMeta entry env.metaOpened List.mem_cons_self
        refine hwrites _ ?_
        rw [hmeta, List.mem_singleton]
        exact hapart.meta_data.symm
  rw [hsame]
  exact hcommit

section Commit

variable {dir : Text} {srv : Server} (h : Placed dir srv.state) {write : OpenWrite} (hwrite : Rooted dir srv write)

include h hwrite

/-- **A commit that spares another write leaves its sentence where it is.** -/
theorem Rooted.commit {env : DataEnv} {beside : OpenWrite} (hbeside : Rooted dir srv beside)
    (hspares : beside.session.baselineSentence.isSome = true → CommitSpares dir srv env write beside) :
    Rooted dir (commitWrite env srv write).1 beside := by
  by_cases hbase : beside.session.baselineSentence.isSome = true
  · have hspares := hspares hbase
    unfold CommitSpares at hspares
    split at hspares
    · next hfile =>
      refine ⟨hbeside.named, hbeside.paths, ?_⟩
      intro s hs
      obtain ⟨hindex, hsentence⟩ := hbeside.sentence s hs
      refine ⟨hindex, ?_⟩
      rw [hfile] at hsentence ⊢
      rcases data_commitWrite h hwrite.named hwrite.paths env with hdata | ⟨current, merged, hcurrent, hmerge, hdata⟩
      · simp only [Server.copy, Copy.text, hdata]
        exact hsentence
      · obtain ⟨m, d, hplace, hin, rfl⟩ := merge_place hmerge
        obtain ⟨hloaded, hkeeps⟩ := hspares current hcurrent (m, d) hplace
        rw [← hloaded] at hsentence
        have hj := (List.getElem?_eq_some_iff.1 hsentence).1
        have hstored : ((commitWrite env srv write).1.copy dir write.file).text = joinSentences
            ((splitSentences current).take m ++ splitSentences write.session.sentenceText ++
              (splitSentences current).drop (m + d)) := by
          simp only [Server.copy, Copy.text, hdata, Option.getD_some]
        rw [hstored, getElem?_spliced (document_splitSentences current) (document_splitSentences _) hin hj hkeeps]
        exact hsentence
    · exact hbeside.of_data fun _ => (Changes.commitWrite h env write hwrite.paths).writes _ hspares
  · exact hbeside.of_data fun h => absurd h hbase

end Commit

/-! ## Steps -/

structure EditInv (dir : Text) (host : Host) : Prop where
  placed : Placed dir host.server.state
  locks : (Threads.ofHost host).LocksHeld
  rooted : ∀ client write, host.writes client = some write → Rooted dir host.server write

/-- The part of the invariant that is about the texts. -/
structure WritesRooted (dir : Text) (host : Host) : Prop where
  placed : Placed dir host.server.state
  rooted : ∀ client write, host.writes client = some write → Rooted dir host.server write

theorem Threads.LocksHeld.reaches {s t : Threads} (h : s.LocksHeld) (hr : Threads.Reaches s t) : t.LocksHeld := by
  induction hr with
  | refl => exact h
  | tail _ hs ih =>
    obtain ⟨e, hs⟩ := hs
    exact ih.step hs

section Step

variable {dir : Text} {host : Host}

theorem WritesRooted.closeWrite (hplaced : Placed dir host.server.state) {client : Nat}
    (hrooted : ∀ other write, other ≠ client → host.writes other = some write → Rooted dir host.server write)
    (name : Text) (sentence : Int) : WritesRooted dir (Ss.closeWrite host client name sentence) := by
  refine ⟨placed_setFileLockState hplaced .., ?_⟩
  intro other write hw
  by_cases hother : other = client
  · subst hother
    simp only [Ss.closeWrite, Function.update_self] at hw
    cases hw
  · simp only [Ss.closeWrite, Function.update_of_ne hother] at hw
    refine (hrooted other write hother hw).of_data fun _ => ?_
    rw [Ss.closeWrite, fs_setFileLockState]

variable (h : WritesRooted dir host)

include h

theorem WritesRooted.setServer {srv : Server} (hplaced : Placed dir srv.state)
    (hdata : ∀ client write, host.writes client = some write → write.session.baselineSentence.isSome = true →
      srv.fs (dataPath dir write.file) = host.server.fs (dataPath dir write.file)) :
    WritesRooted dir (host.setServer srv) := by
  refine ⟨hplaced, ?_⟩
  intro client write hw
  exact (h.rooted client write hw).of_data (hdata client write hw)

theorem WritesRooted.setWrite {client : Nat} {write : OpenWrite} (hwrite : Rooted dir host.server write) :
    WritesRooted dir (host.setWrite client (some write)) := by
  refine ⟨h.placed, ?_⟩
  intro other write' hw
  by_cases hother : other = client
  · subst hother
    simp only [Host.setWrite, Function.update_self, Option.some.injEq] at hw
    exact hw ▸ hwrite
  · simp only [Host.setWrite, Function.update_of_ne hother] at hw
    exact h.rooted other write' hw

/-- A write begins, or does not. -/
theorem WritesRooted.handleWriteBegin (env : DataEnv) (client : Nat) (name user : Text) (sentence : Int) :
    WritesRooted dir (Ss.handleWriteBegin env host client name user sentence).1 := by
  unfold Ss.handleWriteBegin
  split
  · exact h
  · next view hview =>
    split
    · exact h
    · next locks _ =>
      have hlocked : WritesRooted dir ⟨setFileLockState host.server name true sentence (some user), locks, host.writes⟩ := by
        refine ⟨placed_setFileLockState h.placed .., ?_⟩
        intro other write hw
        refine (h.rooted other write hw).of_data fun _ => ?_
        rw [fs_setFileLockState]
      dsimp only
      rw [fs_setFileLockState]
      split
      · exact .closeWrite hlocked.placed (fun other write _ hw => hlocked.rooted other write hw) ..
      · next session _ hopen =>
        refine hlocked.setWrite ((rooted_openSession h.placed hview hopen).of_data fun _ => ?_)
        rw [fs_setFileLockState]

theorem WritesRooted.handleDataClient (env : DataEnv) (client : Nat) (json : Text)
    (hG : EditEvent.KeepsPlaces dir host (.request client env json)) :
    WritesRooted dir (Ss.handleDataClient env host client json).1 := by
  have htickets (tickets : List AuthTicket) : WritesRooted dir (host.setServer { host.server with tickets := tickets }) :=
    h.setServer h.placed fun _ _ _ _ => rfl
  unfold Ss.handleDataClient
  dsimp only
  split
  · exact h
  · next type name user token hargs =>
    -- a reader writes the meta file only
    have htouch (tickets : List AuthTicket) {srv : Server} (hread : srv = { host.server with tickets := tickets } ∨
        srv = (touchFile env { host.server with tickets := tickets } name user).1) :
        WritesRooted dir (host.setServer srv) := by
      have hplaced : Placed dir ({ host.server with tickets := tickets } : Server).state := h.placed
      have hchanges := changes_touchFile hplaced name env user
      rcases hread with rfl | rfl
      · exact htickets tickets
      · refine h.setServer hchanges.placed ?_
        intro other write hw hbase
        refine hchanges.writes _ ?_
        rw [List.mem_singleton]
        exact hG type name user token hargs other write hw hbase
    split
    · split
      · next htake =>
        obtain ⟨tickets, rfl⟩ := exists_tickets htake
        exact htickets tickets
      · next htake =>
        obtain ⟨tickets, rfl⟩ := exists_tickets htake
        exact htouch tickets ((handleRead_touch env _ name user).imp And.left And.left)
    split
    · split
      · next htake =>
        obtain ⟨tickets, rfl⟩ := exists_tickets htake
        exact htickets tickets
      · next htake =>
        obtain ⟨tickets, rfl⟩ := exists_tickets htake
        exact htouch tickets ((handleStream_touch env _ name user).imp And.left And.left)
    split
    · split
      · exact h
      · split
        · next htake =>
          obtain ⟨tickets, rfl⟩ := exists_tickets htake
          exact htickets tickets
        · next htake =>
          obtain ⟨tickets, rfl⟩ := exists_tickets htake
          exact (htickets tickets).handleWriteBegin ..
    · exact h

theorem WritesRooted.handleWriteFrame (env : DataEnv) {client : Nat} {write : OpenWrite}
    (hw : host.writes client = some write) (frame : Option Text)
    (hG : EditEvent.KeepsPlaces dir host (.frame client env frame)) :
    WritesRooted dir (Ss.handleWriteFrame env host client write frame).1 := by
  have hwrite := h.rooted client write hw
  have hclose : WritesRooted dir (Ss.closeWrite host client write.file write.sentence) :=
    .closeWrite h.placed (fun other write _ hw => h.rooted other write hw) ..
  cases frame with
  | none => exact hclose
  | some json =>
    unfold Ss.handleWriteFrame
    dsimp only
    split
    · exact h
    · next type htype =>
      split
      · refine h.setWrite ⟨hwrite.named, hwrite.paths, ?_⟩
        intro s hs
        rw [baseline_editWrite] at hs
        exact hwrite.sentence s hs
      split
      · next hcommit =>
        subst hcommit
        have hplaced := (Changes.commitWrite h.placed env write hwrite.paths).placed
        refine WritesRooted.closeWrite hplaced ?_ _ _
        intro other beside hother hbeside
        refine Rooted.commit h.placed hwrite (h.rooted other beside hbeside) ?_
        exact hG htype write hw other beside hother hbeside
      split
      · exact hclose
      · exact h

end Step

theorem EditInv.step {dir : Text} {host host' : Host} {e : EditEvent} (h : EditInv dir host) (hG : e.KeepsPlaces dir host)
    (hs : e.step host = some host') : EditInv dir host' := by
  have hwrites : WritesRooted dir host := ⟨h.placed, h.rooted⟩
  cases e with
  | op o =>
    have hchanges := Op.changes h.placed o
    have hrun : WritesRooted dir (host.setServer (o.run host.server)) := hwrites.setServer hchanges.placed hG
    have hlocks : (Threads.ofHost (host.setServer (o.run host.server))).LocksHeld :=
      h.locks.reaches (.single (.server _))
    have heq : host' = host.setServer (o.run host.server) := by
      simp only [EditEvent.step] at hs
      split at hs
      · cases hs
      · exact (Option.some.inj hs).symm
    rw [heq]
    exact ⟨hrun.placed, hlocks, hrun.rooted⟩
  | tickets ts =>
    cases hs
    have hrun : WritesRooted dir (host.setServer { host.server with tickets := ts }) :=
      hwrites.setServer h.placed fun _ _ _ _ => rfl
    exact ⟨hrun.placed, h.locks.reaches (.single (.server _)), hrun.rooted⟩
  | request client env json =>
    obtain ⟨hnone, hs⟩ := Option.ite_none_left_eq_some.1 hs
    cases hs
    have hrun := hwrites.handleDataClient env client json hG
    exact ⟨hrun.placed, h.locks.reaches (reaches_handleDataClient (by simpa using hnone) env json), hrun.rooted⟩
  | frame client env json =>
    obtain ⟨write, hw, rfl⟩ := Option.map_eq_some_iff.1 hs
    have hrun := hwrites.handleWriteFrame env hw json hG
    exact ⟨hrun.placed, h.locks.reaches (reaches_handleWriteFrame hw env json), hrun.rooted⟩

/-- The lock of an open write is in the table. -/
theorem EditInv.lock_mem {dir : Text} {host : Host} (h : EditInv dir host) {client : Nat} {write : OpenWrite}
    (hw : host.writes client = some write) :
    ⟨write.file, Text.copyTo SS_USER_MAX write.user, write.sentence⟩ ∈ host.sentenceLocks := by
  have hcall : (Threads.ofHost host).calls client = some write.call := by
    rw [Threads.ofHost_calls, hw, Option.map_some]
  have hheld : (Threads.ofHost host).held client = some write.call.lock := Threads.held_of_writing hcall rfl
  obtain ⟨i, hi, -⟩ := h.locks.matched.existsUnique_entry hheld
  exact List.mem_of_getElem? hi

/-- A sentence whose lock is in the table is refused. -/
theorem refusesSentence_of_lock {host : Host} {lock : SentenceLock} (hmem : lock ∈ host.sentenceLocks) {k : Nat}
    (hk : lock.sentence = k) : RefusesSentence host lock.file k := by
  intro client env json user token hargs hsentence
  have hacquire : sentenceLockAcquire env host.sentenceLocks lock.file k user = none := by
    refine if_pos (List.any_eq_true.2 ⟨lock, hmem, ?_⟩)
    simp [SentenceLock.covers, hk]
  unfold handleDataClient
  simp only [hargs, hsentence]
  rw [if_neg (by decide), if_neg (by decide), if_pos trivial]
  cases htake : validateTicket env host.server token user lock.file (Text.lit "WRITE") with
  | mk ticket srv =>
    obtain ⟨tickets, rfl⟩ := exists_tickets htake
    cases ticket with
    | none => exact ⟨rfl, fun hticket => by cases hticket⟩
    | some ticket =>
      dsimp only
      unfold handleWriteBegin Host.setServer
      dsimp only
      cases hview : (ssStateFind host.server.state lock.file).1 with
      | none => exact ⟨rfl, fun _ hfound => by cases hfound⟩
      | some view =>
        dsimp only
        rw [hacquire]
        exact ⟨rfl, fun _ _ => rfl⟩

theorem EditInv.sentencesLocked {dir : Text} {host : Host} (h : EditInv dir host) : SentencesLocked dir host := by
  intro client write s k hw hs _ hunique
  obtain ⟨hindex, hsentence⟩ := (h.rooted client write hw).sentence s hs
  have hk : write.sentence.toNat = k := (hunique _).1 hsentence
  have hindex : write.sentence = k := by omega
  exact refusesSentence_of_lock (h.lock_mem hw) hindex

theorem system_init_withFile (content : Text) :
    (EditEvent.system (Text.lit "/s")).init (Host.withFile content) := by
  let file : FileName := ⟨Text.lit "f", by decide, by decide⟩
  let started : Server := ⟨ssStateInit (Text.lit "/s"), fun _ => none, []⟩
  have hstarted : Placed (Text.lit "/s") started.state := Placed.init _
  have hchanges := Op.changes hstarted (.create file (Text.lit "u") ⟨0, true, true, true⟩)
  exact ⟨Host.started_withFile content, hchanges.placed⟩

/-- The request to write a sentence with the ticket. -/
def writeRequest (ticket : Text) (sentence : Nat) : Text :=
  printMessage [(Text.lit "type", .string (Text.lit "WRITE_BEGIN")), (Text.lit "file", .string (Text.lit "f")),
    (Text.lit "user", .string (Text.lit "u")), (Text.lit "ticket", .string ticket),
    (Text.lit "sentence", .number (printNat sentence))]

/-- Tickets to write come, and the second sentence is opened. -/
def openSecond : List EditEvent :=
  let ticket (token : Text) : AuthTicket := ⟨token, Text.lit "f", Text.lit "u", Text.lit "WRITE", 0⟩
  [.tickets [ticket ['a'], ticket ['b'], ticket ['c']], .request 0 (.allOk 0) (writeRequest ['a'] 1)]

end CoWrite.Ss
