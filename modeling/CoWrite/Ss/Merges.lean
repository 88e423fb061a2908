import CoWrite.Ss.Normal
import CoWrite.Ss.Shift

/-!
# What a commit merges

A commit puts the sentences of its session into the text that it finds: in the place of the sentence they were
written for, or at the index of a new one. The merge is stored as its join.

* `reread_commit`: the stored text is split into the sentences that were merged exactly if the new ones are kept
  apart from their neighbours by delimiters.
* `locate_of_context`: where the sentence has its context, the search finds it and none of its copies.
* `commit_swaps_iff`: the commit is a compare-and-swap on one sentence, as long as the scores of the search do not all
  overflow to `INT_MIN`.
-/

namespace CoWrite.Ss

/-! ## Reading the merge back -/

/-- The sentences that are put in before index `m + d` follow a delimiter, and end with one or the text. -/
def KeptApart (latest parts : List Text) (m d : Nat) : Prop :=
  parts = [] ∨ ((∀ s ∈ (latest.take m).getLast?, Terminated s) ∧
    (latest.drop (m + d) = [] ∨ ∀ s ∈ parts.getLast?, Terminated s))

instance (latest parts : List Text) (m d : Nat) : Decidable (KeptApart latest parts m d) :=
  inferInstanceAs (Decidable (_ ∨ _))

/-- In a document whose last sentence is terminated all are. -/
theorem Document.closed {l : List Text} (h : Document l) (hlast : ∀ s ∈ l.getLast?, Terminated s) :
    ∀ s ∈ l, IsSentence s ∧ Terminated s := by
  intro s hs
  refine ⟨h.sentence s hs, ?_⟩
  rcases List.eq_nil_or_concat l with rfl | ⟨init, last, rfl⟩
  · cases hs
  · rw [List.concat_eq_append] at *
    rcases List.mem_append.1 hs with hs | hs
    · exact h.terminated s (by simpa using hs)
    · rw [List.mem_singleton.1 hs]
      exact hlast last (by simp)

theorem Document.take {l : List Text} (h : Document l) (m : Nat) : Document (l.take m) := by
  by_cases hm : m < l.length
  · constructor
    · intro s hs
      exact (document_take h hm s hs).1
    · intro s hs
      exact (document_take h hm s (List.dropLast_subset _ hs)).2
  · rw [List.take_of_length_le (by omega)]
    exact h

theorem document_merge_iff {latest parts : List Text} (hl : Document latest) (hp : Document parts) {m d : Nat} :
    Document (latest.take m ++ parts ++ latest.drop (m + d)) ↔ KeptApart latest parts m d := by
  unfold KeptApart
  by_cases hparts : parts = []
  · -- nothing is put in
    subst hparts
    rw [List.append_nil]
    refine iff_of_true ?_ (.inl rfl)
    by_cases hm : m < latest.length
    · exact document_append (document_take hl hm) (document_drop hl)
    · rw [List.drop_eq_nil_of_le (by omega), List.append_nil]
      exact hl.take m
  · rw [List.append_assoc]
    have hne : parts ++ latest.drop (m + d) ≠ [] := by simp [hparts]
    constructor
    · intro h
      have hterminated := h.terminated
      rw [List.dropLast_append_of_ne_nil hne] at hterminated
      refine .inr ⟨?_, ?_⟩
      · intro s hs
        exact hterminated s (List.mem_append_left _ (List.mem_of_getLast? hs))
      · by_cases hdrop : latest.drop (m + d) = []
        · exact .inl hdrop
        · rw [List.dropLast_append_of_ne_nil hdrop] at hterminated
          refine .inr ?_
          intro s hs
          exact hterminated s (List.mem_append_right _ (List.mem_append_left _ (List.mem_of_getLast? hs)))
    · rintro (hnil | ⟨hbefore, hbehind⟩)
      · exact absurd hnil hparts
      · apply document_append ((hl.take m).closed hbefore)
        rcases hbehind with hdrop | hlast
        · rw [hdrop, List.append_nil]
          exact hp
        · exact document_append (hp.closed hlast) (document_drop hl)

/-- **The stored text is read back as it was merged** exactly if the new sentences are kept apart. -/
theorem reread_commit {env : DataEnv} {fs fs' : Fs} {session : WriteSession} {view : SsFile} {text : Text}
    (h : writeSessionCommit env fs session view = (fs', .ok text)) :
    ∃ current merged m d, currentText env.toEnv fs view.dataPath = some current ∧
      writeSessionMerge session current = .ok merged ∧ session.place (splitSentences current) = some (m, d) ∧
      merged = (splitSentences current).take m ++ splitSentences session.sentenceText ++
        (splitSentences current).drop (m + d) ∧
      fs' view.dataPath = some (joinSentences merged) ∧
      (splitSentences (joinSentences merged) = merged ↔
        KeptApart (splitSentences current) (splitSentences session.sentenceText) m d) := by
  have hdata := writeSessionCommit_data h
  unfold writeSessionCommit at h
  split at h
  · cases h
  next current hcurrent =>
  split at h
  · cases h
  split at h
  · cases h
  next merged hmerge =>
  have htext : text = joinSentences merged := by
    split at h
    · cases h
    · split at h
      · cases h
      · cases h
        rfl
  subst htext
  obtain ⟨m, d, hplace, -, hmerged⟩ := merge_place hmerge
  refine ⟨current, merged, m, d, hcurrent, hmerge, hplace, hmerged, hdata, ?_⟩
  rw [splitSentences_joinSentences_iff, hmerged]
  exact document_merge_iff (document_splitSentences current) (document_splitSentences session.sentenceText)

/-- The file system with the text in the data file of `f`. -/
def fsWith (text : Text) : Fs := Function.update (fun _ => none) (dataPath (Text.lit "/s") (Text.lit "f")) (some text)

def viewOfF : SsFile := writeView (ssStateInit (Text.lit "/s")) ⟨Text.lit "f", by decide, by decide⟩

/-- The first sentence of two, with other words. -/
def firstEdited (words : Text) : WriteSession :=
  ⟨true, 0, [], Text.lit "A. B.", words, some (Text.lit "A."), [Text.lit "A.", Text.lit "B."]⟩

/-- The first of two sentences gets another delimiter. -/
theorem reread_commit_apart : ∃ session fs' merged, Begun (Text.lit "A. B.") 0 session ∧
    writeSessionCommit (.allOk 0) (fsWith (Text.lit "A. B.")) session viewOfF = (fs', .ok (joinSentences merged)) ∧
    merged = [Text.lit "A!", Text.lit "B."] ∧ splitSentences (joinSentences merged) = merged := by
  let session := firstEdited (Text.lit "A!")
  let merged := [Text.lit "A!", Text.lit "B."]
  have hbegun : Begun (Text.lit "A. B.") 0 session := ⟨[], [.replace 0 (Text.lit "A!")], _, rfl, by decide⟩
  have hcommit : writeSessionCommit (.allOk 0) (fsWith (Text.lit "A. B.")) session viewOfF =
      (_, .ok (joinSentences merged)) := Prod.ext rfl (by decide +kernel)
  obtain ⟨current, merged', m, d, hcurrent, hmerge, hplace, -, -, hiff⟩ := reread_commit hcommit
  obtain rfl : current = Text.lit "A. B." := by
    rw [← Option.some_inj, ← hcurrent]
    decide +kernel
  obtain rfl : merged = merged' := by
    rw [← Except.ok.injEq (ε := Errno), ← hmerge]
    decide +kernel
  obtain ⟨rfl, rfl⟩ : m = 0 ∧ d = 1 := by
    rw [← Prod.mk.injEq, ← Option.some_inj, ← hplace]
    decide +kernel
  exact ⟨_, _, merged, hbegun, hcommit, rfl, hiff.2 (by decide +kernel)⟩

/-- Without its delimiter the first sentence runs on into the second one. -/
theorem reread_commit_runs_on : ∃ session fs' merged, Begun (Text.lit "A. B.") 0 session ∧
    writeSessionMerge session (Text.lit "A. B.") = .ok merged ∧
    writeSessionCommit (.allOk 0) (fsWith (Text.lit "A. B.")) session viewOfF = (fs', .ok (joinSentences merged)) ∧
    splitSentences (joinSentences merged) ≠ merged := by
  let session := firstEdited (Text.lit "A")
  have hbegun : Begun (Text.lit "A. B.") 0 session := ⟨[], [.replace 0 (Text.lit "A")], _, rfl, by decide⟩
  exact ⟨session, _, [Text.lit "A", Text.lit "B."], hbegun, by decide +kernel, Prod.ext rfl (by decide +kernel), by decide⟩

/-! ## The sentence that is found -/

/-- The score of a candidate, before it is put into an `int`. -/
def scoreFormula (session : WriteSession) (latest : List Text) (i : Nat) : Int :=
  countContextMatches latest session.sentences i session.sentenceIndex (-1) * 1000 +
    countContextMatches latest session.sentences i session.sentenceIndex 1 * 500 -
    ((i : Int) - session.sentenceIndex).natAbs * 10 - if (i : Int) < session.sentenceIndex then 50 else 0

theorem relocationScore_formula (session : WriteSession) (latest : List Text) (i : Nat) :
    relocationScore session latest i = toInt32 (scoreFormula session latest i) := rfl

/-- **The search finds the sentence and none of its copies** where the sentence has its context still. -/
theorem locate_of_context {text : Text} {t : Nat} {session : WriteSession} (h : Begun text t session) {baseline : Text}
    (hb : (splitSentences text)[t]? = some baseline) {latest : List Text}
    (hcontext : HasContext latest (splitSentences text) t)
    (hfit : ∀ k, latest[k]? = some baseline → INT_MIN ≤ scoreFormula session latest k) :
    locate session baseline latest = t ∧
      ∀ current, splitSentences current = latest →
        writeSessionMerge session current = .ok (splice latest t (splitSentences session.sentenceText)) := by
  obtain ⟨hsentences, hindex, -⟩ := h.spec
  have ht := (List.getElem?_eq_some_iff.1 hb).1
  have hfound : latest[t]? = some baseline := by
    rw [hcontext t ht (by omega) (by omega), hb]
  -- no score overflows
  have hscore (k : Nat) (hk : latest[k]? = some baseline) :
      relocationScore session latest k = scoreFormula session latest k := by
    have hp := countContextMatches_bounds latest session.sentences k session.sentenceIndex (-1)
    have hs := countContextMatches_bounds latest session.sentences k session.sentenceIndex 1
    have hlow := hfit k hk
    rw [relocationScore_formula]
    apply toInt32_eq_self
    refine ⟨hlow, ?_⟩
    unfold scoreFormula
    split
    · omega
    · omega
  -- the sentence itself has the most context, and is nearest
  have hself : scoreFormula session latest t =
      countContextMatches (splitSentences text) (splitSentences text) t t (-1) * 1000 +
        countContextMatches (splitSentences text) (splitSentences text) t t 1 * 500 := by
    unfold scoreFormula
    rw [hsentences, hindex, hcontext.countContextMatches_eq (.inr rfl), hcontext.countContextMatches_eq (.inl rfl)]
    simp
  have hother (k : Nat) (hk : k ≠ t) : scoreFormula session latest k < scoreFormula session latest t := by
    have hp := countContextMatches_le latest (splitSentences text) k t (-1)
    have hs := countContextMatches_le latest (splitSentences text) k t 1
    rw [hself]
    unfold scoreFormula
    rw [hsentences, hindex]
    split <;> omega
  have hbest : INT_MIN < relocationScore session latest t := by
    have hp := countContextMatches_bounds (splitSentences text) (splitSentences text) t t (-1)
    have hs := countContextMatches_bounds (splitSentences text) (splitSentences text) t t 1
    rw [hscore t hfound, hself]
    unfold INT_MIN
    omega
  have hlocate : locate session baseline latest = t := by
    have hresult : locateFrom baseline (relocationScore session latest) latest 0 (-1, INT_MIN) =
        (((0 + t : Nat) : Int), relocationScore session latest (0 + t)) := by
      apply locateFrom_of_best hfound
      · simpa using hbest
      · intro k hk hl
        rw [Nat.zero_add, Nat.zero_add, hscore k hl, hscore t hfound]
        exact hother k hk.ne
      · intro k hk hl
        rw [Nat.zero_add, Nat.zero_add, hscore k hl, hscore t hfound]
        exact (hother k hk.ne').le
    rw [locate, hresult]
    simp
  refine ⟨hlocate, ?_⟩
  rintro current rfl
  simp only [writeSessionMerge, h.baseline_filter hb, hlocate]
  simp [splice]

/-- A copy was put in at the end, with the same sentence in front of it. -/
theorem locate_of_context_copy : ∃ session, Begun (Text.lit "A. B.") 1 session ∧
    locate session (Text.lit "B.") [Text.lit "A.", Text.lit "B.", Text.lit "A.", Text.lit "B."] = 1 := by
  have hbegun : Begun (Text.lit "A. B.") 1 _ := ⟨[], [], _, rfl, rfl⟩
  let latest := [Text.lit "A.", Text.lit "B.", Text.lit "A.", Text.lit "B."]
  have hcontext : HasContext latest (splitSentences (Text.lit "A. B.")) 1 := by
    intro k hk _ _
    have hlength : (splitSentences (Text.lit "A. B.")).length = 2 := by decide
    obtain rfl | rfl : k = 0 ∨ k = 1 := by omega
    · decide
    · decide
  refine ⟨_, hbegun, (locate_of_context hbegun (by decide) hcontext ?_).1⟩
  intro k hk
  have hlt : k < 4 := (List.getElem?_eq_some_iff.1 hk).1
  revert hk
  revert k
  decide

/-! ## Compare-and-swap -/

/-- The score of the candidate comes out as `INT_MIN`. -/
def Overflows (session : WriteSession) (latest : List Text) (i : Nat) : Prop :=
  scoreFormula session latest i % 2 ^ 32 = 2 ^ 31

theorem relocationScore_gt_iff (session : WriteSession) (latest : List Text) (i : Nat) :
    INT_MIN < relocationScore session latest i ↔ ¬ Overflows session latest i := by
  rw [relocationScore_formula]
  unfold Overflows toInt32 INT_MIN
  rw [Int.bmod_def]
  split <;> omega

/-- The result of the loop is what it started with, or one of the candidates. -/
theorem locateFrom_cases (baseline : Text) (score : Nat → Int) (l : List Text) (i : Nat) (best : Int × Int) :
    locateFrom baseline score l i best = best ∨
      ∃ k, l[k]? = some baseline ∧ (locateFrom baseline score l i best).1 = ((i + k : Nat) : Int) := by
  induction l generalizing i best with
  | nil => exact .inl rfl
  | cons c l ih =>
    have hlater {best : Int × Int} (h : ∃ k, l[k]? = some baseline ∧
        (locateFrom baseline score l (i + 1) best).1 = ((i + 1 + k : Nat) : Int)) :
        ∃ k, (c :: l)[k]? = some baseline ∧ (locateFrom baseline score l (i + 1) best).1 = ((i + k : Nat) : Int) := by
      obtain ⟨k, hk, heq⟩ := h
      refine ⟨k + 1, by simpa using hk, ?_⟩
      rw [heq]
      omega
    rw [locateFrom]
    split
    · next hc =>
      rcases ih (i + 1) (i, score i) with heq | hfound
      · refine .inr ⟨0, by simp [hc.1], ?_⟩
        rw [heq]
        rfl
      · exact .inr (hlater hfound)
    · rcases ih (i + 1) best with heq | hfound
      · exact .inl heq
      · exact .inr (hlater hfound)

/-- The search finds a copy of the baseline, unless there is none, or every score comes out as `INT_MIN`. -/
theorem locate_cases (session : WriteSession) (baseline : Text) (latest : List Text) :
    ((∃ k, latest[k]? = some baseline ∧ ¬ Overflows session latest k) ∧
      ∃ k : Nat, latest[k]? = some baseline ∧ locate session baseline latest = (k : Int)) ∨
    ((∀ k, latest[k]? = some baseline → Overflows session latest k) ∧ locate session baseline latest = -1) := by
  by_cases hfound : ∃ k, latest[k]? = some baseline ∧ ¬ Overflows session latest k
  · refine .inl ⟨hfound, ?_⟩
    obtain ⟨k, hk, hscore⟩ := hfound
    have hpos : 0 ≤ locate session baseline latest := by
      refine locateFrom_nonneg (.inr ⟨k, hk, ?_⟩)
      rw [Nat.zero_add]
      exact (relocationScore_gt_iff session latest k).2 hscore
    rcases locateFrom_cases baseline (relocationScore session latest) latest 0 (-1, INT_MIN) with heq | ⟨m, hm, heq⟩
    · rw [locate, heq] at hpos
      exact absurd hpos (by decide)
    · refine ⟨m, hm, ?_⟩
      rw [locate, heq, Nat.zero_add]
  · simp only [not_exists, not_and, not_not] at hfound
    refine .inr ⟨hfound, ?_⟩
    have hnone : locateFrom baseline (relocationScore session latest) latest 0 (-1, INT_MIN) = (-1, INT_MIN) := by
      apply locateFrom_of_le
      rintro k c hk rfl
      have hlow := (relocationScore_gt_iff session latest k).not.2 (not_not.2 (hfound k hk))
      rw [Nat.zero_add]
      exact not_lt.1 hlow
    rw [locate, hnone]

/-- The commit swaps one copy of the baseline for the sentences of the session, and keeps the old text; it reports a
conflict, and changes nothing, exactly if the text has no copy. -/
structure SwapsOne (env : DataEnv) (fs : Fs) (session : WriteSession) (view : SsFile) (baseline current : Text) : Prop where
  conflict : (writeSessionCommit env fs session view).2 = .error .EAGAIN ↔ baseline ∉ splitSentences current
  unchanged : (writeSessionCommit env fs session view).2 = .error .EAGAIN →
    (writeSessionCommit env fs session view).1 = fs
  swapped : (writeSessionCommit env fs session view).2 ≠ .error .EAGAIN →
    ∃ k, (splitSentences current)[k]? = some baseline ∧
      (writeSessionCommit env fs session view).2 =
        .ok (joinSentences (splice (splitSentences current) k (splitSentences session.sentenceText))) ∧
      (writeSessionCommit env fs session view).1 view.dataPath =
        some (joinSentences (splice (splitSentences current) k (splitSentences session.sentenceText))) ∧
      (writeSessionCommit env fs session view).1 view.undoPath = some current

/-- A commit whose merge fails. -/
theorem writeSessionCommit_failed {env : DataEnv} {fs : Fs} {session : WriteSession} {view : SsFile} {current : Text}
    (hload : currentText env.toEnv fs view.dataPath = some current) (hallocated : env.allocated = true) {e : Errno}
    (hmerge : writeSessionMerge session current = .error e) :
    writeSessionCommit env fs session view = (fs, .error e) := by
  unfold writeSessionCommit
  rw [hload]
  dsimp only
  rw [hallocated, Bool.not_true, if_neg Bool.false_ne_true, hmerge]

/-- A commit whose merge and stores are done. -/
theorem writeSessionCommit_done {dir : Text} {f : FileName} {env : DataEnv} {fs : Fs} {session : WriteSession}
    {view : SsFile} (hview : HasPaths dir f.text view) {current : Text}
    (hload : currentText env.toEnv fs view.dataPath = some current) (hallocated : env.allocated = true)
    (hundo : env.undoStore = .done) (hdata : env.dataStore = .done) {merged : List Text}
    (hmerge : writeSessionMerge session current = .ok merged) :
    (writeSessionCommit env fs session view).2 = .ok (joinSentences merged) ∧
      (writeSessionCommit env fs session view).1 view.dataPath = some (joinSentences merged) ∧
      (writeSessionCommit env fs session view).1 view.undoPath = some current := by
  have hapart := fivePaths dir f
  obtain ⟨fs₁, hstore₁, hstored₁, -⟩ := storeTextAtomic_done fs view.undoPath current
  obtain ⟨fs₂, hstore₂, hstored₂, hother₂⟩ := storeTextAtomic_done fs₁ view.dataPath (joinSentences merged)
  have hcommit : writeSessionCommit env fs session view = (fs₂, .ok (joinSentences merged)) := by
    unfold writeSessionCommit
    rw [hload]
    dsimp only
    rw [hallocated, Bool.not_true, if_neg Bool.false_ne_true, hmerge]
    dsimp only
    rw [hundo, hstore₁]
    dsimp only
    rw [hdata, hstore₂]
  rw [hcommit]
  refine ⟨rfl, hstored₂, ?_⟩
  have hkept : fs₂ view.undoPath = fs₁ view.undoPath := by
    apply hother₂
    · rw [hview.undoEq, hview.dataEq]
      exact hapart.undo_data
    · rw [hview.undoEq, hview.dataEq]
      exact hapart.undo_tmpData
  exact hkept.trans hstored₁

/-- **A commit is a compare-and-swap on its sentence** exactly if the text has no copy of it, or one whose score does
not come out as `INT_MIN`. -/
theorem commit_swaps_iff {dir : Text} {f : FileName} {env : DataEnv} {fs : Fs} {session : WriteSession} {view : SsFile}
    {baseline current : Text} (hview : HasPaths dir f.text view) (hbaseline : session.baselineSentence = some baseline)
    (hne : baseline ≠ []) (hload : currentText env.toEnv fs view.dataPath = some current) (hallocated : env.allocated = true)
    (hundo : env.undoStore = .done) (hdata : env.dataStore = .done) :
    SwapsOne env fs session view baseline current ↔
      (baseline ∈ splitSentences current → ∃ k, (splitSentences current)[k]? = some baseline ∧
        ¬ Overflows session (splitSentences current) k) := by
  have hfilter : session.baselineSentence.filter (· ≠ []) = some baseline := by
    rw [hbaseline]
    simp [hne]
  rcases locate_cases session baseline (splitSentences current) with ⟨hscored, k, hk, hlocate⟩ | ⟨hall, hlocate⟩
  · -- a copy is found
    have hmerge : writeSessionMerge session current =
        .ok (splice (splitSentences current) k (splitSentences session.sentenceText)) := by
      simp only [writeSessionMerge, hfilter, hlocate]
      simp [splice]
    obtain ⟨hok, hstored, hkept⟩ := writeSessionCommit_done hview hload hallocated hundo hdata hmerge
    have hnot : (writeSessionCommit env fs session view).2 ≠ .error .EAGAIN := by
      rw [hok]
      intro heq
      cases heq
    refine iff_of_true ?_ fun _ => hscored
    constructor
    · exact iff_of_false hnot (not_not.2 (List.mem_of_getElem? hk))
    · intro hagain
      exact absurd hagain hnot
    · intro _
      exact ⟨k, hk, hok, hstored, hkept⟩
  · -- none is found
    have hmerge : writeSessionMerge session current = .error .EAGAIN := by
      simp only [writeSessionMerge, hfilter, hlocate]
      rfl
    have hcommit := writeSessionCommit_failed hload hallocated hmerge
    constructor
    · intro h hmem
      exact absurd hmem (h.conflict.1 (by rw [hcommit]))
    · intro h
      have hgone : baseline ∉ splitSentences current := by
        intro hmem
        obtain ⟨k, hk, hnot⟩ := h hmem
        exact hnot (hall k hk)
      constructor
      · rw [hcommit]
        exact iff_of_true rfl hgone
      · intro _
        rw [hcommit]
      · intro hnot
        rw [hcommit] at hnot
        exact absurd rfl hnot

/-- Nobody has written the file since. -/
theorem commit_swaps_first : SwapsOne (.allOk 0) (fsWith (Text.lit "A. B.")) (firstEdited (Text.lit "A!")) viewOfF
    (Text.lit "A.") (Text.lit "A. B.") := by
  have hpaths : HasPaths (Text.lit "/s") (FileName.text ⟨Text.lit "f", by decide, by decide⟩) viewOfF := ⟨rfl, rfl, rfl⟩
  refine (commit_swaps_iff hpaths rfl (by decide) (by decide +kernel) rfl rfl rfl).2 ?_
  intro _
  refine ⟨0, by decide, ?_⟩
  unfold Overflows
  decide

/-- A document of `n + 1` sentences. -/
def longDocument (n : Nat) : List Text := List.replicate n (Text.lit "A.") ++ [Text.lit "B."]

theorem document_longDocument (n : Nat) : Document (longDocument n) := by
  have hA : IsSentence (Text.lit "A.") := ⟨⟨'A', ['.'], rfl, rfl⟩,
    ⟨['A'], '.', rfl, rfl, List.forall_mem_singleton.2 rfl⟩, List.forall_mem_cons.2 ⟨rfl, List.forall_mem_singleton.2 rfl⟩⟩
  have hB : IsSentence (Text.lit "B.") := ⟨⟨'B', ['.'], rfl, rfl⟩,
    ⟨['B'], '.', rfl, rfl, List.forall_mem_singleton.2 rfl⟩, List.forall_mem_cons.2 ⟨rfl, List.forall_mem_singleton.2 rfl⟩⟩
  apply document_append
  · intro s hs
    rw [List.eq_of_mem_replicate hs]
    exact ⟨hA, by decide⟩
  · refine ⟨?_, ?_⟩
    · intro s hs
      rw [List.mem_singleton.1 hs]
      exact hB
    · intro s hs
      cases hs

/-- A session on the last sentence of the document. -/
def lastSession (n : Nat) : WriteSession :=
  ⟨true, n, [], joinSentences (longDocument n), Text.lit "B.", some (Text.lit "B."), longDocument n⟩

theorem begun_lastSession (n : Nat) : Begun (joinSentences (longDocument n)) n (lastSession n) := by
  have hsplit := splitSentences_joinSentences (document_longDocument n)
  have hlast : (longDocument n)[n]? = some (Text.lit "B.") := by simp [longDocument]
  refine ⟨[], [], lastSession n, ?_, rfl⟩
  unfold writeSessionBegin
  dsimp only
  rw [hsplit, if_neg, Int.toNat_natCast, hlast]
  · rfl
  · simp [longDocument]

/-- All but the last of 1073741820 sentences are gone, and the score of the last one comes out as `INT_MIN`. -/
theorem commit_overflow : ∃ text session, Begun text 1073741819 session ∧
    session.baselineSentence = some (Text.lit "B.") ∧ Text.lit "B." ∈ splitSentences (Text.lit "B.") ∧
    (writeSessionCommit (.allOk 0) (fsWith (Text.lit "B.")) session viewOfF).2 = .error .EAGAIN := by
  -- the only candidate is far to the left, and has no neighbours
  have hformula (n : Nat) (hn : 0 < n) : scoreFormula (lastSession n) [Text.lit "B."] 0 = -(n * 10 + 50 : Int) := by
    have hbefore : countContextMatches [Text.lit "B."] (longDocument n) 0 n (-1) = 0 := by
      simp [countContextMatches, countContextMatchesFrom]
    have hafter : countContextMatches [Text.lit "B."] (longDocument n) 0 n 1 = 0 := by
      simp [countContextMatches, countContextMatchesFrom]
    unfold scoreFormula lastSession
    dsimp only
    rw [Int.ofNat_zero, hbefore, hafter, if_pos (by omega)]
    omega
  have hoverflows : Overflows (lastSession 1073741819) [Text.lit "B."] 0 := by
    unfold Overflows
    rw [hformula 1073741819 (by decide)]
    decide
  have hsplit : splitSentences (Text.lit "B.") = [Text.lit "B."] := by decide
  refine ⟨_, lastSession 1073741819, begun_lastSession _, rfl, by decide, ?_⟩
  have hload : currentText (DataEnv.allOk 0).toEnv (fsWith (Text.lit "B.")) viewOfF.dataPath = some (Text.lit "B.") := by
    decide +kernel
  have hmerge : writeSessionMerge (lastSession 1073741819) (Text.lit "B.") = .error .EAGAIN := by
    have hfilter : (lastSession 1073741819).baselineSentence.filter (· ≠ []) = some (Text.lit "B.") := by
      unfold lastSession
      dsimp only
      decide
    have hlocate : locate (lastSession 1073741819) (Text.lit "B.") [Text.lit "B."] = -1 := by
      rcases locate_cases (lastSession 1073741819) (Text.lit "B.") [Text.lit "B."] with ⟨⟨k, hk, hnot⟩, -⟩ | ⟨-, hnone⟩
      · obtain rfl : k = 0 := by
          have := (List.getElem?_eq_some_iff.1 hk).1
          simpa using this
        exact absurd hoverflows hnot
      · exact hnone
    simp only [writeSessionMerge, hfilter, hsplit, hlocate]
    rfl
  rw [writeSessionCommit_failed hload rfl hmerge]

end CoWrite.Ss
