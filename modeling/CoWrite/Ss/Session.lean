import CoWrite.Common.Error
import CoWrite.Ss.Sentences

/-!
# Write sessions

A client edits one sentence of a document by words, and its commit merges the edited text into
whatever the document is by then. The commit finds the sentence again by its text: among the equal
sentences it takes the one whose neighbours match best those at the begin, counted up to
`CONTEXT_MATCH_LIMIT` on each side, with a penalty for the distance moved.

* `locate_of_best`: the loop over the candidates returns the first one with the highest score.
* `writeSessionMerge_of_best`: if that is where the sentence is, its commit replaces it there.
* `commits_commute`: two sessions on different sentences of one text both commit, in either order, and
  the merged document is the text with both sentences replaced, under the conditions the heuristic
  needs.
-/

namespace CoWrite.Ss

/-- `struct write_session`. -/
structure WriteSession where
  active : Bool
  sentenceIndex : Int
  user : Text
  originalText : Text
  sentenceText : Text
  baselineSentence : Option Text
  sentences : List Text
deriving DecidableEq, Repr

/-- `write_session_begin` on the text of the file. -/
def writeSessionBegin (text user : Text) (sentenceIndex : Int) : Except Errno WriteSession :=
  let sentences := splitSentences text
  if sentenceIndex < 0 ∨ sentenceIndex > sentences.length then .error .EINVAL
  else
    let existing := sentences[sentenceIndex.toNat]?
    .ok
      { active := true
        sentenceIndex := sentenceIndex
        user := Text.copyTo 64 user
        originalText := text
        sentenceText := existing.getD []
        baselineSentence := existing
        sentences := sentences }

/-! ## Edits -/

/-- `write_session_apply_insert`. New words behind the last one take over its delimiter. -/
def writeSessionApplyInsert (session : WriteSession) (index : Int) (content : Text) :
    Except Errno WriteSession :=
  let words := splitWords session.sentenceText
  if !session.active then .error .other
  else if index < 0 then .error .EINVAL
  else
    let idx := index.toNat
    if idx > words.length then .error .EINVAL
    else
      let newWords := splitWords content
      let delim :=
        if idx = words.length then
          (words.getLast?.bind List.getLast?).filter isSentenceDelimChar
        else none
      let words :=
        if delim.isSome then words.modify (words.length - 1) List.dropLast else words
      let words := words.take idx ++ newWords ++ words.drop idx
      let target :=
        if newWords.length > 0 then idx + newWords.length - 1 else words.length - 1
      let words := words.modify target (· ++ delim.toList)
      .ok { session with sentenceText := joinWords words }

/-- `write_session_apply_replace`. -/
def writeSessionApplyReplace (session : WriteSession) (index : Int) (content : Text) :
    Except Errno WriteSession :=
  let words := splitWords session.sentenceText
  if !session.active then .error .other
  else if index < 0 then .error .EINVAL
  else
    let idx := index.toNat
    if idx ≥ words.length then .error .EINVAL
    else
      let words := words.eraseIdx idx
      .ok { session with
        sentenceText := joinWords (words.take idx ++ splitWords content ++ words.drop idx) }

/-- `write_session_apply_delete`. -/
def writeSessionApplyDelete (session : WriteSession) (index : Int) : Except Errno WriteSession :=
  let words := splitWords session.sentenceText
  if !session.active then .error .other
  else if index < 0 then .error .EINVAL
  else
    let idx := index.toNat
    if words.length = 0 ∨ idx ≥ words.length then .error .EINVAL
    else .ok { session with sentenceText := joinWords (words.eraseIdx idx) }

inductive Edit where
  | insert (index : Int) (content : Text)
  | replace (index : Int) (content : Text)
  | delete (index : Int)
deriving DecidableEq, Repr

def WriteSession.apply (session : WriteSession) : Edit → Except Errno WriteSession
  | .insert index content => writeSessionApplyInsert session index content
  | .replace index content => writeSessionApplyReplace session index content
  | .delete index => writeSessionApplyDelete session index

/-- The session after an edit; a refused one changes nothing. -/
def WriteSession.edit (session : WriteSession) (e : Edit) : WriteSession :=
  match session.apply e with
  | .ok session' => session'
  | .error _ => session

def WriteSession.edits (session : WriteSession) (es : List Edit) : WriteSession :=
  es.foldl WriteSession.edit session

/-! ## The commit -/

abbrev CONTEXT_MATCH_LIMIT : Nat := 4

/-- The loop of `count_context_matches` from `step` on, with `n` steps left. -/
def countContextMatchesFrom (latest original : List Text) (candidate target direction : Int) :
    Nat → Int → Int
  | 0, _ => 0
  | n + 1, step =>
    let origIdx := target + direction * step
    let latestIdx := candidate + direction * step
    if origIdx < 0 ∨ origIdx ≥ original.length ∨ latestIdx < 0 ∨ latestIdx ≥ latest.length then 0
    else if original[origIdx.toNat]? ≠ latest[latestIdx.toNat]? then 0
    else countContextMatchesFrom latest original candidate target direction n (step + 1) + 1

def countContextMatches (latest original : List Text) (candidate target direction : Int) : Int :=
  countContextMatchesFrom latest original candidate target direction CONTEXT_MATCH_LIMIT 1

def INT_MIN : Int := -2 ^ 31

/-- The score of the candidate `i`, computed in an `int`. -/
def relocationScore (session : WriteSession) (latest : List Text) (i : Nat) : Int :=
  let prefixMatches := countContextMatches latest session.sentences i session.sentenceIndex (-1)
  let suffixMatches := countContextMatches latest session.sentences i session.sentenceIndex 1
  let distance : Int := ((i : Int) - session.sentenceIndex).natAbs
  toInt32 (prefixMatches * 1000 + suffixMatches * 500 - distance * 10 -
    if (i : Int) < session.sentenceIndex then 50 else 0)

/-- The loop over the candidates from index `i` on, with `best_index` and `best_score`. -/
def locateFrom (baseline : Text) (score : Nat → Int) : List Text → Nat → Int × Int → Int × Int
  | [], _, best => best
  | candidate :: rest, i, best =>
    if candidate = baseline ∧ score i > best.2 then locateFrom baseline score rest (i + 1) (i, score i)
    else locateFrom baseline score rest (i + 1) best

/-- `best_index`, `-1` when the baseline is gone. -/
def locate (session : WriteSession) (baseline : Text) (latest : List Text) : Int :=
  (locateFrom baseline (relocationScore session latest) latest 0 (-1, INT_MIN)).1

/-- The merge of `write_session_commit`: the sentences it joins and stores, when the text of the file
is `current` by now. -/
def writeSessionMerge (session : WriteSession) (current : Text) : Except Errno (List Text) :=
  let latest := splitSentences current
  let newParts := splitSentences session.sentenceText
  match session.baselineSentence.filter (· ≠ []) with
  | some baseline =>
    let best := locate session baseline latest
    if best ≥ 0 then
      .ok (latest.take best.toNat ++ newParts ++ latest.drop (best.toNat + 1))
    else .error .EAGAIN
  | none =>
    let insertIndex := (max 0 (min session.sentenceIndex latest.length)).toNat
    .ok (latest.take insertIndex ++ newParts ++ latest.drop insertIndex)

/-! ## The candidate that wins -/

section Locate

variable {baseline : Text} {score : Nat → Int}

/-- The later candidates do not beat the one found. -/
theorem locateFrom_of_le {l : List Text} {i : Nat} {best : Int × Int}
    (h : ∀ k c, l[k]? = some c → c = baseline → score (i + k) ≤ best.2) :
    locateFrom baseline score l i best = best := by
  induction l generalizing i with
  | nil => rfl
  | cons c l ih =>
    have hc := h 0 c rfl
    have hne : ¬ (c = baseline ∧ score i > best.2) := by
      rintro ⟨rfl, hgt⟩
      exact absurd (hc rfl) (by simpa using hgt)
    rw [locateFrom, if_neg hne]
    refine ih fun k d hk hd => ?_
    have := h (k + 1) d hk hd
    rwa [show i + (k + 1) = i + 1 + k by omega] at this

/-- **The loop returns the first candidate with the highest score.** -/
theorem locateFrom_of_best {l : List Text} {i m : Nat} {best : Int × Int}
    (hm : l[m]? = some baseline) (hbest : best.2 < score (i + m))
    (hbefore : ∀ k, k < m → l[k]? = some baseline → score (i + k) < score (i + m))
    (hafter : ∀ k, m < k → l[k]? = some baseline → score (i + k) ≤ score (i + m)) :
    locateFrom baseline score l i best = (((i + m : Nat) : Int), score (i + m)) := by
  induction l generalizing i m best with
  | nil => simp at hm
  | cons c l ih =>
    cases m with
    | zero =>
      have hc : c = baseline := by simpa using hm
      rw [Nat.add_zero] at hbest hafter ⊢
      rw [locateFrom, if_pos ⟨hc, hbest⟩]
      refine locateFrom_of_le fun k d hk hd => ?_
      have := hafter (k + 1) (Nat.succ_pos k) (by simpa [hd] using hk)
      rwa [show i + (k + 1) = i + 1 + k by omega] at this
    | succ m =>
      have hshift : i + (m + 1) = i + 1 + m := by omega
      rw [hshift] at hbest hbefore hafter ⊢
      have hbefore' : ∀ k, k < m → l[k]? = some baseline →
          score (i + 1 + k) < score (i + 1 + m) := by
        intro k hk hl
        have := hbefore (k + 1) (by omega) hl
        rwa [show i + (k + 1) = i + 1 + k by omega] at this
      have hafter' : ∀ k, m < k → l[k]? = some baseline →
          score (i + 1 + k) ≤ score (i + 1 + m) := by
        intro k hk hl
        have := hafter (k + 1) (by omega) hl
        rwa [show i + (k + 1) = i + 1 + k by omega] at this
      rw [locateFrom]
      split
      · next hc =>
        refine ih (by simpa using hm) ?_ hbefore' hafter'
        exact hbefore 0 (by omega) (by simp [hc.1])
      · exact ih (by simpa using hm) hbest hbefore' hafter'

/-- Some candidate is found if there is one. -/
theorem locateFrom_nonneg {l : List Text} {i : Nat} {best : Int × Int}
    (h : 0 ≤ best.1 ∨ ∃ m, l[m]? = some baseline ∧ best.2 < score (i + m)) :
    0 ≤ (locateFrom baseline score l i best).1 := by
  induction l generalizing i best with
  | nil => simpa [locateFrom] using h
  | cons c l ih =>
    rw [locateFrom]
    split
    · exact ih (.inl (Int.natCast_nonneg i))
    · next hc =>
      refine ih (h.imp_right ?_)
      rintro ⟨m, hm, hlt⟩
      cases m with
      | zero => exact absurd ⟨by simpa using hm, hlt⟩ hc
      | succ m => exact ⟨m, hm, by rwa [show i + 1 + m = i + (m + 1) by omega]⟩

end Locate

/-! ## Context scores -/

theorem countContextMatchesFrom_bounds (latest original : List Text) (candidate target direction : Int)
    (n : Nat) (step : Int) :
    0 ≤ countContextMatchesFrom latest original candidate target direction n step ∧
      countContextMatchesFrom latest original candidate target direction n step ≤ n := by
  induction n generalizing step with
  | zero => simp [countContextMatchesFrom]
  | succ n ih =>
    have := ih (step + 1)
    unfold countContextMatchesFrom
    simp only
    split_ifs <;> omega

theorem countContextMatches_bounds (latest original : List Text) (candidate target direction : Int) :
    0 ≤ countContextMatches latest original candidate target direction ∧
      countContextMatches latest original candidate target direction ≤ 4 :=
  countContextMatchesFrom_bounds ..

/-- No candidate has more context than the sentence itself where nothing was changed. -/
theorem countContextMatches_le (latest original : List Text) (candidate target direction : Int) :
    countContextMatches latest original candidate target direction ≤
      countContextMatches original original target target direction := by
  unfold countContextMatches
  generalize (1 : Int) = step
  induction CONTEXT_MATCH_LIMIT generalizing step with
  | zero => simp [countContextMatchesFrom]
  | succ n ih =>
    have hb := countContextMatchesFrom_bounds original original target target direction n (step + 1)
    unfold countContextMatchesFrom
    simp only [ne_eq, not_true_eq_false, if_false]
    have := ih (step + 1)
    split_ifs <;> omega

/-- The sentences of the original that the search looks at are where they were. -/
def HasContext (latest original : List Text) (target : Nat) : Prop :=
  ∀ k, k < original.length → k ≤ target + CONTEXT_MATCH_LIMIT → target ≤ k + CONTEXT_MATCH_LIMIT →
    latest[k]? = original[k]?

/-- The sentence has the whole of its own context. -/
theorem HasContext.countContextMatches_eq {latest original : List Text} {target : Nat}
    (h : HasContext latest original target) {direction : Int} (hd : direction = 1 ∨ direction = -1) :
    countContextMatches latest original target target direction =
      countContextMatches original original target target direction := by
  have hlimit : CONTEXT_MATCH_LIMIT = 4 := rfl
  have hgen (n : Nat) (step : Int) (h1 : 0 ≤ step) (h2 : step + n ≤ 5) :
      countContextMatchesFrom latest original target target direction n step =
        countContextMatchesFrom original original target target direction n step := by
    induction n generalizing step with
    | zero => rfl
    | succ n ih =>
      have hih := ih (step + 1) (by omega) (by omega)
      unfold countContextMatchesFrom
      dsimp only
      by_cases hin : 0 ≤ target + direction * step ∧ target + direction * step < original.length
      · have hnear := h (target + direction * step).toNat (by omega) (by rcases hd with rfl | rfl <;> omega)
          (by rcases hd with rfl | rfl <;> omega)
        have hsome := List.getElem?_eq_getElem (show (target + direction * step).toNat < original.length by omega)
        have hlt := (List.getElem?_eq_some_iff.1 (hnear.trans hsome)).1
        have hthere : ¬ (target + direction * step < 0 ∨ target + direction * step ≥ original.length ∨
            target + direction * step < 0 ∨ target + direction * step ≥ latest.length) := by omega
        have hself : ¬ (target + direction * step < 0 ∨ target + direction * step ≥ original.length ∨
            target + direction * step < 0 ∨ target + direction * step ≥ original.length) := by omega
        rw [if_neg hthere, if_neg hself, hnear, if_neg (by simp), if_neg (by simp), hih]
      · rw [if_pos (by omega), if_pos (by omega)]
  exact hgen _ _ (by omega) (by rw [hlimit]; omega)

/-- The document around the sentence is as it was at the begin. -/
structure Undisturbed (latest original : List Text) (target : Nat) : Prop where
  length : latest.length = original.length
  near : ∀ k : Nat, k ≤ target + CONTEXT_MATCH_LIMIT → target ≤ k + CONTEXT_MATCH_LIMIT →
    latest[k]? = original[k]?

theorem Undisturbed.hasContext {latest original : List Text} {target : Nat} (h : Undisturbed latest original target) :
    HasContext latest original target :=
  fun k _ => h.near k

theorem Undisturbed.countContextMatches_eq {latest original : List Text} {target : Nat}
    (h : Undisturbed latest original target) {direction : Int}
    (hd : direction = 1 ∨ direction = -1) :
    countContextMatches latest original target target direction =
      countContextMatches original original target target direction :=
  h.hasContext.countContextMatches_eq hd

/-! ## One commit -/

/-- A session on sentence `i` of `text`, after any edits. -/
structure Begun (text : Text) (i : Nat) (session : WriteSession) : Prop where
  run : ∃ user es session₀, writeSessionBegin text user i = .ok session₀ ∧
    session = session₀.edits es

/-- An edit changes the text of the sentence only. -/
theorem edit_frame (session : WriteSession) (e : Edit) :
    ∃ t, session.edit e = { session with sentenceText := t } := by
  unfold WriteSession.edit
  split
  · next session' h =>
    cases e with
    | insert index content =>
      simp only [WriteSession.apply, writeSessionApplyInsert] at h
      split_ifs at h <;> cases h <;> exact ⟨_, rfl⟩
    | replace index content =>
      simp only [WriteSession.apply, writeSessionApplyReplace] at h
      split_ifs at h
      cases h
      exact ⟨_, rfl⟩
    | delete index =>
      simp only [WriteSession.apply, writeSessionApplyDelete] at h
      split_ifs at h
      cases h
      exact ⟨_, rfl⟩
  · exact ⟨session.sentenceText, rfl⟩

theorem edits_frame (session : WriteSession) (es : List Edit) :
    ∃ t, session.edits es = { session with sentenceText := t } := by
  induction es generalizing session with
  | nil => exact ⟨session.sentenceText, rfl⟩
  | cons e es ih =>
    obtain ⟨t, ht⟩ := edit_frame session e
    obtain ⟨t', ht'⟩ := ih (session.edit e)
    exact ⟨t', ht'.trans (by rw [ht])⟩

section Begun

variable {text : Text} {i : Nat} {session : WriteSession} (h : Begun text i session)

include h

/-- What the commit of a session reads of its begin. -/
theorem Begun.spec : session.sentences = splitSentences text ∧ session.sentenceIndex = i ∧
    session.baselineSentence = (splitSentences text)[i]? := by
  obtain ⟨user, es, session₀, hb, rfl⟩ := h.run
  obtain ⟨t, ht⟩ := edits_frame session₀ es
  rw [ht]
  unfold writeSessionBegin at hb
  simp only at hb
  split at hb <;> cases hb
  simp

/-- The sentence is one that the commit replaces. -/
theorem Begun.baseline_filter {baseline : Text} (hb : (splitSentences text)[i]? = some baseline) :
    session.baselineSentence.filter (· ≠ []) = some baseline := by
  obtain ⟨c, t, e, -⟩ :=
    ((document_splitSentences text).sentence baseline (List.mem_of_getElem? hb)).head
  rw [h.spec.2.2, hb]
  simp [e]

/-- Where no overflow is near, the score is the formula. -/
theorem Begun.relocationScore_eq (latest : List Text) {k : Nat} (hk : k < 2 ^ 27) (hi : i < 2 ^ 27) :
    relocationScore session latest k =
      countContextMatches latest (splitSentences text) k i (-1) * 1000 +
        countContextMatches latest (splitSentences text) k i 1 * 500 -
        ((k : Int) - i).natAbs * 10 - if k < i then 50 else 0 := by
  obtain ⟨hs, hidx, -⟩ := h.spec
  have hp := countContextMatches_bounds latest (splitSentences text) k i (-1)
  have hq := countContextMatches_bounds latest (splitSentences text) k i 1
  unfold relocationScore
  simp only [hs, hidx, Int.ofNat_lt]
  rw [toInt32_eq_self]
  split <;> omega

theorem Begun.lt_relocationScore (latest : List Text) {k : Nat} (hk : k < 2 ^ 27)
    (hi : i < 2 ^ 27) : INT_MIN < relocationScore session latest k := by
  have hp := countContextMatches_bounds latest (splitSentences text) k i (-1)
  have hq := countContextMatches_bounds latest (splitSentences text) k i 1
  rw [h.relocationScore_eq latest hk hi, INT_MIN]
  split <;> omega

end Begun

/-- The list with the sentence at `m` replaced by the sentences `parts`. -/
def splice (l : List Text) (m : Nat) (parts : List Text) : List Text :=
  l.take m ++ parts ++ l.drop (m + 1)

/-- Among the sentences of `latest` that equal the baseline, the one at `m` is the first with the
highest score. -/
def StaysBest (session : WriteSession) (latest : List Text) (baseline : Text) (m : Nat) : Prop :=
  (∀ k, k < m → latest[k]? = some baseline →
    relocationScore session latest k < relocationScore session latest m) ∧
  ∀ k, m < k → latest[k]? = some baseline →
    relocationScore session latest k ≤ relocationScore session latest m

section Merge

variable {text : Text} {i : Nat} {session : WriteSession} (h : Begun text i session)
  {baseline : Text} (hb : (splitSentences text)[i]? = some baseline) (hi : i < 2 ^ 27)
  {current : Text} (hlen : (splitSentences current).length < 2 ^ 27) {m : Nat}
  (hm : (splitSentences current)[m]? = some baseline)

include h hb hi hlen hm

/-- A session whose sentence is still in the document commits. -/
theorem Begun.merge_ok : ∃ merged, writeSessionMerge session current = .ok merged := by
  have hrep := h.baseline_filter hb
  have hmlt : m < 2 ^ 27 := by
    have := (List.getElem?_eq_some_iff.1 hm).1
    omega
  have hscore := h.lt_relocationScore (splitSentences current) hmlt hi
  have hpos : locate session baseline (splitSentences current) ≥ 0 :=
    locateFrom_nonneg (.inr ⟨m, hm, by simpa using hscore⟩)
  simp only [writeSessionMerge, hrep, if_pos hpos]
  exact ⟨_, rfl⟩

/-- **Where the sentence wins, the commit replaces it.** -/
theorem Begun.merge_eq (hbest : StaysBest session (splitSentences current) baseline m) :
    writeSessionMerge session current =
      .ok (splice (splitSentences current) m (splitSentences session.sentenceText)) := by
  have hrep := h.baseline_filter hb
  have hmlt : m < 2 ^ 27 := by
    have := (List.getElem?_eq_some_iff.1 hm).1
    omega
  have hscore := h.lt_relocationScore (splitSentences current) hmlt hi
  have hloc : locate session baseline (splitSentences current) = m := by
    rw [locate, locateFrom_of_best hm (by simpa using hscore) (by simpa using hbest.1)
      (by simpa using hbest.2)]
    simp
  simp only [writeSessionMerge, hrep, hloc]
  simp [splice]

end Merge

/-- The only sentence with its text is the best. -/
theorem StaysBest.of_unique {session : WriteSession} {latest : List Text} {baseline : Text} {m : Nat}
    (h : ∀ k, latest[k]? = some baseline → k = m) : StaysBest session latest baseline m :=
  ⟨fun k hk hl => absurd (h k hl) hk.ne, fun k hk hl => absurd (h k hl) hk.ne'⟩

/-- Where its surroundings are as they were, the sentence is the best: the others have no more context
and are further away. -/
theorem Begun.staysBest_of_undisturbed {text : Text} {i : Nat} {session : WriteSession}
    (h : Begun text i session) {latest : List Text} (hlen : latest.length < 2 ^ 27)
    (hi : i < latest.length) (hu : Undisturbed latest (splitSentences text) i) (baseline : Text) :
    StaysBest session latest baseline i := by
  have hlt (k : Nat) (hk : k < latest.length) (hne : k ≠ i) :
      relocationScore session latest k < relocationScore session latest i := by
    rw [h.relocationScore_eq latest (by omega) (by omega),
      h.relocationScore_eq latest (by omega) (by omega)]
    have hp := countContextMatches_le latest (splitSentences text) k i (-1)
    have hq := countContextMatches_le latest (splitSentences text) k i 1
    rw [hu.countContextMatches_eq (.inl rfl), hu.countContextMatches_eq (.inr rfl)]
    simp only [lt_irrefl, if_false]
    split <;> omega
  refine ⟨fun k hk hl => hlt k ?_ hk.ne, fun k hk hl => Int.le_of_lt (hlt k ?_ hk.ne')⟩
  · exact (List.getElem?_eq_some_iff.1 hl).1
  · exact (List.getElem?_eq_some_iff.1 hl).1

theorem undisturbed_refl (l : List Text) (i : Nat) : Undisturbed l l i := ⟨rfl, fun _ _ _ => rfl⟩

/-! ## Replacing sentences -/

section Splice

variable {l parts : List Text} {i j : Nat}

theorem length_splice (hi : i < l.length) (parts : List Text) :
    (splice l i parts).length + 1 = l.length + parts.length := by
  simp only [splice, List.length_append, List.length_take, List.length_drop]
  omega

/-- Where the sentence `j` is after the sentence `i` was replaced by `n` others. -/
def shifted (i n j : Nat) : Nat := if j < i then j else j - 1 + n

/-- What stands at an index after a sentence was replaced. -/
theorem getElem?_splice (hi : i < l.length) (k : Nat) : (splice l i parts)[k]? =
    if k < i then l[k]? else if k < i + parts.length then parts[k - i]?
      else l[k + 1 - parts.length]? := by
  have htake : (l.take i).length = i := by simp; omega
  unfold splice
  split_ifs with h1 h2
  · rw [List.append_assoc, List.getElem?_append_left (by omega), List.getElem?_take_of_lt h1]
  · rw [List.append_assoc, List.getElem?_append_right (by omega), htake,
      List.getElem?_append_left (by omega)]
  · rw [List.getElem?_append_right (by simp; omega), List.getElem?_drop]
    congr 1
    simp only [List.length_append, htake]
    omega

theorem getElem?_splice_shifted (hi : i < l.length) (hij : i ≠ j) :
    (splice l i parts)[shifted i parts.length j]? = l[j]? := by
  rw [getElem?_splice hi, shifted]
  split_ifs <;> first | rfl | omega | (congr 1; omega)

/-- The sentences that replace `l[i]` keep the next sentence apart. -/
def KeepsEnd (l : List Text) (i : Nat) (parts : List Text) : Prop :=
  (∀ s ∈ parts.getLast?, Terminated s) ∨ i + 1 = l.length

instance : Decidable (KeepsEnd l i parts) := inferInstanceAs (Decidable (_ ∨ _))

theorem document_take (hl : Document l) (hi : i < l.length) :
    ∀ s ∈ l.take i, IsSentence s ∧ Terminated s := by
  intro s hs
  refine ⟨hl.sentence s (List.mem_of_mem_take hs), hl.terminated s ?_⟩
  rw [List.dropLast_eq_take]
  exact (List.take_subset_take_left l (by omega)) hs

theorem document_drop (hl : Document l) : Document (l.drop i) := by
  refine ⟨fun s hs => hl.sentence s (List.mem_of_mem_drop hs), fun s hs => hl.terminated s ?_⟩
  by_cases hne : l.drop i = []
  · simp [hne] at hs
  · rw [← List.take_append_drop i l, List.dropLast_append_of_ne_nil hne]
    exact List.mem_append_right _ hs

/-- **Replacing a sentence leaves a document** if the new sentences keep the next one apart. -/
theorem document_splice (hl : Document l) (hp : Document parts) (hi : i < l.length)
    (hk : KeepsEnd l i parts) : Document (splice l i parts) := by
  unfold splice
  rw [List.append_assoc]
  refine document_append (document_take hl hi) ?_
  rcases hk with hk | hk
  · refine document_append (fun s hs => ⟨hp.sentence s hs, ?_⟩) (document_drop hl)
    rcases List.eq_nil_or_concat parts with rfl | ⟨init, last, rfl⟩
    · simp at hs
    · rw [List.concat_eq_append] at *
      rcases List.mem_append.1 hs with hs | hs
      · exact hp.terminated s (by simpa using hs)
      · rw [List.mem_singleton.1 hs]
        exact hk last (by simp)
  · rw [List.drop_eq_nil_of_le (by omega), List.append_nil]
    exact hp

/-- Both sentences replaced. -/
def replaceTwo (l : List Text) (i : Nat) (parts : List Text) (j : Nat) (parts' : List Text) :
    List Text :=
  (l.mapIdx fun k s => if k = i then parts else if k = j then parts' else [s]).flatten

theorem replaceTwo_comm (hij : i ≠ j) (l parts parts' : List Text) :
    replaceTwo l i parts j parts' = replaceTwo l j parts' i parts := by
  unfold replaceTwo
  congr 2
  funext k s
  split_ifs <;> simp_all

theorem splice_append (parts x r : List Text) (s : Text) :
    splice (x ++ s :: r) x.length parts = x ++ parts ++ r := by
  simp [splice]

theorem flatten_mapIdx_singleton {w : List Text} {f : Nat → Text → List Text}
    (hf : ∀ k s, k < w.length → f k s = [s]) : (w.mapIdx f).flatten = w := by
  induction w generalizing f with
  | nil => rfl
  | cons s w ih =>
    rw [List.mapIdx_cons, List.flatten_cons, hf 0 s (by simp),
      ih fun k t hk => hf (k + 1) t (by simpa using hk)]
    rfl

theorem replaceTwo_append (x y z : List Text) (s t : Text) (parts' : List Text) :
    replaceTwo (x ++ s :: (y ++ t :: z)) x.length parts (x.length + 1 + y.length) parts' =
      x ++ parts ++ y ++ parts' ++ z := by
  unfold replaceTwo
  rw [List.mapIdx_append, List.mapIdx_cons, List.mapIdx_append, List.mapIdx_cons]
  simp only [List.flatten_append, List.flatten_cons]
  rw [flatten_mapIdx_singleton, flatten_mapIdx_singleton, flatten_mapIdx_singleton]
  · simp [Nat.add_comm, Nat.add_left_comm]
  all_goals
    intro k s hk
    rw [if_neg (by omega), if_neg (by omega)]

theorem exists_two (hij : i < j) (hj : j < l.length) : ∃ x s y t z,
    l = x ++ s :: (y ++ t :: z) ∧ x.length = i ∧ x.length + 1 + y.length = j := by
  refine ⟨l.take i, l[i], (l.drop (i + 1)).take (j - (i + 1)), l[j], l.drop (j + 1), ?_, ?_, ?_⟩
  · have hdrop : (l.drop (i + 1)).drop (j - (i + 1)) = l[j] :: l.drop (j + 1) := by
      rw [List.drop_drop, show i + 1 + (j - (i + 1)) = j by omega, List.drop_eq_getElem_cons hj]
    rw [← hdrop, List.take_append_drop, ← List.drop_eq_getElem_cons (by omega),
      List.take_append_drop]
  · simp; omega
  · simp; omega

/-- Replacing one sentence after the other replaces both, in either order. -/
theorem splice_splice (hi : i < l.length) (hj : j < l.length) (hij : i ≠ j) (parts' : List Text) :
    splice (splice l i parts) (shifted i parts.length j) parts' = replaceTwo l i parts j parts' := by
  rcases Nat.lt_or_gt_of_ne hij with hlt | hlt
  · obtain ⟨x, s, y, t, z, rfl, rfl, rfl⟩ := exists_two hlt hj
    rw [replaceTwo_append, splice_append]
    have hshift : shifted x.length parts.length (x.length + 1 + y.length) =
        (x ++ parts ++ y).length := by
      simp only [shifted, List.length_append]
      split <;> omega
    rw [hshift, ← List.append_assoc, splice_append]
  · obtain ⟨x, s, y, t, z, rfl, rfl, rfl⟩ := exists_two hlt hi
    rw [replaceTwo_comm hij, replaceTwo_append]
    have hfirst : splice (x ++ s :: (y ++ t :: z)) (x.length + 1 + y.length) parts =
        x ++ s :: (y ++ parts ++ z) := by
      have := splice_append parts (x ++ s :: y) z t
      simpa [Nat.add_assoc, Nat.add_comm 1] using this
    have hshift : shifted (x.length + 1 + y.length) parts.length x.length = x.length :=
      if_pos (by omega)
    rw [hfirst, hshift, splice_append]
    simp

end Splice

/-! ## Two sessions on one text -/

/-- The commit of a session on sentence `i` leaves the copies of the sentence `j` where the search
finds the right one: there is no other, or sentence `i` was replaced by one sentence out of sight. -/
def KeepsFound (l : List Text) (i : Nat) (parts : List Text) (j : Nat) : Prop :=
  (∀ s ∈ l[j]?, s ∉ parts ∧ ∀ k < l.length, l[k]? = some s → k = i ∨ k = j) ∨
    parts.length = 1 ∧ (i + CONTEXT_MATCH_LIMIT < j ∨ j + CONTEXT_MATCH_LIMIT < i)

instance (l : List Text) (i : Nat) (parts : List Text) (j : Nat) :
    Decidable (KeepsFound l i parts j) := inferInstanceAs (Decidable (_ ∨ _))

section Two

variable {text : Text} {i j : Nat} {a b : WriteSession} (ha : Begun text i a) (hb : Begun text j b)
  (hi : i < (splitSentences text).length) (hj : j < (splitSentences text).length) (hij : i ≠ j)

include ha hi in
/-- The first commit finds the text as it was. -/
theorem Begun.merge_first (hlen : (splitSentences text).length < 2 ^ 27) :
    writeSessionMerge a text =
      .ok (splice (splitSentences text) i (splitSentences a.sentenceText)) :=
  ha.merge_eq (List.getElem?_eq_getElem hi) (by omega) hlen (List.getElem?_eq_getElem hi)
    (ha.staysBest_of_undisturbed hlen hi (undisturbed_refl _ _) _)

include hb hi in
/-- Where `KeepsFound` holds, the second commit takes the right sentence. -/
theorem Begun.staysBest_of_keepsFound {parts : List Text}
    (hk : KeepsFound (splitSentences text) i parts j)
    (hlen : (splice (splitSentences text) i parts).length < 2 ^ 27) :
    StaysBest b (splice (splitSentences text) i parts) (splitSentences text)[j]
      (shifted i parts.length j) := by
  have hlength := length_splice hi parts
  rcases hk with hk | ⟨hone, hfar⟩
  · obtain ⟨hp, hk⟩ := hk _ (List.getElem?_eq_getElem hj)
    refine .of_unique fun k hl => ?_
    rw [getElem?_splice hi] at hl
    unfold shifted
    split_ifs at hl with h1 h2
    · have := hk k (List.getElem?_eq_some_iff.1 hl).1 hl
      split_ifs <;> omega
    · exact absurd (List.mem_of_getElem? hl) hp
    · have := hk _ (List.getElem?_eq_some_iff.1 hl).1 hl
      split_ifs <;> omega
  · have hshift : shifted i parts.length j = j := by
      unfold shifted
      split_ifs <;> omega
    have hlimit : CONTEXT_MATCH_LIMIT = 4 := rfl
    rw [hshift]
    refine hb.staysBest_of_undisturbed hlen (by omega) ⟨by omega, fun k h1 h2 => ?_⟩ _
    rw [getElem?_splice hi]
    split_ifs with h3 h4
    · rfl
    · omega
    · congr 1
      omega

include ha hb hi hj hij in
/-- One order: the second commit finds its sentence, and where it is still the best match, both
sentences are replaced. -/
theorem Begun.merge_second
    (hlen : (splitSentences text).length + (splitSentences a.sentenceText).length < 2 ^ 27)
    (hend : KeepsEnd (splitSentences text) i (splitSentences a.sentenceText)) :
    ∃ first second, writeSessionMerge a text = .ok first ∧
      writeSessionMerge b (joinSentences first) = .ok second ∧
      (StaysBest b first (splitSentences text)[j]
          (shifted i (splitSentences a.sentenceText).length j) →
        second = replaceTwo (splitSentences text) i (splitSentences a.sentenceText) j
          (splitSentences b.sentenceText)) := by
  have hlength := length_splice hi (splitSentences a.sentenceText)
  have hfirst := ha.merge_first hi (by omega)
  -- the stored text is split into the merged sentences again
  have hread := splitSentences_joinSentences
    (document_splice (document_splitSentences text) (document_splitSentences a.sentenceText) hi hend)
  have hfound : (splice (splitSentences text) i (splitSentences a.sentenceText))[
      shifted i (splitSentences a.sentenceText).length j]? = some (splitSentences text)[j] := by
    rw [getElem?_splice_shifted hi hij, List.getElem?_eq_getElem hj]
  have hj27 : j < 2 ^ 27 := by omega
  rw [← hread] at hfound
  have hlen' : (splitSentences (joinSentences (splice (splitSentences text) i
      (splitSentences a.sentenceText)))).length < 2 ^ 27 := by
    rw [hread]
    omega
  obtain ⟨second, hsecond⟩ := hb.merge_ok (List.getElem?_eq_getElem hj) hj27 hlen' hfound
  refine ⟨_, second, hfirst, hsecond, fun hbest => ?_⟩
  rw [← hread] at hbest
  have heq := hb.merge_eq (List.getElem?_eq_getElem hj) hj27 hlen' hfound hbest
  rw [heq, hread] at hsecond
  cases hsecond
  exact splice_splice hi hj hij _

end Two

/-- **Two sessions on different sentences of one text both commit, in either order.** Each edit has to
keep its sentence apart from the next one. Where the second commit still finds its own sentence best
(`KeepsFound` is enough), the merged sentences are those of the text with both replaced. -/
theorem commits_commute (text : Text) (i j : Nat) (a b : WriteSession)
    (hi : i < (splitSentences text).length) (hj : j < (splitSentences text).length) (hij : i ≠ j)
    (ha : Begun text i a) (hb : Begun text j b)
    (hlena : (splitSentences text).length + (splitSentences a.sentenceText).length < 2 ^ 27)
    (hlenb : (splitSentences text).length + (splitSentences b.sentenceText).length < 2 ^ 27)
    (henda : KeepsEnd (splitSentences text) i (splitSentences a.sentenceText))
    (hendb : KeepsEnd (splitSentences text) j (splitSentences b.sentenceText)) :
    let sentences := splitSentences text
    let partsA := splitSentences a.sentenceText
    let partsB := splitSentences b.sentenceText
    ∃ afterA afterAB afterB afterBA,
      writeSessionMerge a text = .ok afterA ∧
      writeSessionMerge b (joinSentences afterA) = .ok afterAB ∧
      writeSessionMerge b text = .ok afterB ∧
      writeSessionMerge a (joinSentences afterB) = .ok afterBA ∧
      (StaysBest b afterA sentences[j] (shifted i partsA.length j) ∨
          KeepsFound sentences i partsA j →
        afterAB = replaceTwo sentences i partsA j partsB) ∧
      (StaysBest a afterB sentences[i] (shifted j partsB.length i) ∨
          KeepsFound sentences j partsB i →
        afterBA = replaceTwo sentences i partsA j partsB) := by
  intro sentences partsA partsB
  obtain ⟨afterA, afterAB, hA, hAB, hABeq⟩ := ha.merge_second hb hi hj hij hlena henda
  obtain ⟨afterB, afterBA, hB, hBA, hBAeq⟩ := hb.merge_second ha hj hi hij.symm hlenb hendb
  refine ⟨afterA, afterAB, afterB, afterBA, hA, hAB, hB, hBA, fun h => hABeq ?_, fun h => ?_⟩
  · rcases h with h | h
    · exact h
    · have hspl := length_splice hi (splitSentences a.sentenceText)
      rw [ha.merge_first hi (by omega)] at hA
      cases hA
      exact hb.staysBest_of_keepsFound hi hj h (by omega)
  · rw [replaceTwo_comm hij]
    refine hBAeq ?_
    rcases h with h | h
    · exact h
    · have hspl := length_splice hj (splitSentences b.sentenceText)
      rw [hb.merge_first hj (by omega)] at hB
      cases hB
      exact ha.staysBest_of_keepsFound hj hi h (by omega)

/-- The first and the last of three sentences, edited by two users. -/
theorem commits_commute_three : ∃ a b afterA afterAB afterB afterBA,
    Begun (Text.lit "A. B. C.") 0 a ∧ Begun (Text.lit "A. B. C.") 2 b ∧
    writeSessionMerge a (Text.lit "A. B. C.") = .ok afterA ∧
    writeSessionMerge b (joinSentences afterA) = .ok afterAB ∧
    writeSessionMerge b (Text.lit "A. B. C.") = .ok afterB ∧
    writeSessionMerge a (joinSentences afterB) = .ok afterBA ∧
    afterAB = [Text.lit "X.", Text.lit "Y.", Text.lit "B.", Text.lit "Z!"] ∧ afterBA = afterAB := by
  have ha : Begun (Text.lit "A. B. C.") 0 _ :=
    ⟨[], [.replace 0 (Text.lit "X. Y.")], _, rfl, rfl⟩
  have hb : Begun (Text.lit "A. B. C.") 2 _ := ⟨[], [.replace 0 (Text.lit "Z!")], _, rfl, rfl⟩
  obtain ⟨afterA, afterAB, afterB, afterBA, h1, h2, h3, h4, h5, h6⟩ :=
    commits_commute (Text.lit "A. B. C.") 0 2 _ _ (by decide) (by decide) (by decide) ha hb
      (by decide) (by decide) (by decide) (by decide)
  have hA := h5 (.inr (by decide))
  have hB := h6 (.inr (by decide))
  exact ⟨_, _, afterA, afterAB, afterB, afterBA, ha, hb, h1, h2, h3, h4,
    hA.trans (by decide), hB.trans hA.symm⟩

/-- An edit that drops the delimiter of its sentence joins it to the next one, which the other session
then does not find any more; and an edit that writes a copy of the other session's sentence before a
context like its own makes that session replace the copy. -/
theorem commits_conflict :
    (∃ a b afterA,
      Begun (Text.lit "A. B.") 0 a ∧ Begun (Text.lit "A. B.") 1 b ∧
      writeSessionMerge a (Text.lit "A. B.") = .ok afterA ∧
      writeSessionMerge b (joinSentences afterA) = .error .EAGAIN) ∧
    ∃ a b afterA afterAB,
      Begun (Text.lit "B. C.") 1 a ∧ Begun (Text.lit "B. C.") 0 b ∧
      writeSessionMerge a (Text.lit "B. C.") = .ok afterA ∧
      writeSessionMerge b (joinSentences afterA) = .ok afterAB ∧
      afterAB ≠ replaceTwo (splitSentences (Text.lit "B. C.")) 1 (splitSentences a.sentenceText) 0
        (splitSentences b.sentenceText) :=
  ⟨⟨_, _, _, ⟨[], [.replace 0 (Text.lit "A")], _, rfl, rfl⟩, ⟨[], [], _, rfl, rfl⟩, rfl, rfl⟩,
    _, _, _, _, ⟨[], [.insert 0 (Text.lit "B.")], _, rfl, rfl⟩,
    ⟨[], [.replace 0 (Text.lit "X.")], _, rfl, rfl⟩, rfl, rfl, by decide⟩

end CoWrite.Ss
