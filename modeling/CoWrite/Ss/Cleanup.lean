import CoWrite.Ss.Merges

/-!
# The clean-up of a commit

`write_session_commit` frees its arrays at one label, which it comes to from the conflict and from every element that
could not be pushed. Here the function has its locals, each without a value until its initialiser has run, and its
loop with both flags.

* `commitLocals_merge`: with memory enough the loop makes the merge of `writeSessionMerge`.
* `cleanup_initialised_iff`: the clean-up reads no local without a value exactly if there is no conflict. The
  conflict jumps over the initialisers of `merged` and `merged_init`.
-/

namespace CoWrite.Ss

/-- Which allocations succeed: those of the two `split_sentences`, and the push of the `n`-th element of `merged`. -/
structure CommitMemory where
  latest : Bool
  parts : Bool
  push : Nat → Bool

/-- The locals that the clean-up may read. -/
structure CommitLocals where
  latestSentences : Option (List Text)
  newParts : Option (List Text)
  merged : Option (List Text)
  mergedInit : Option Bool

/-- How the function goes on: it returns before, jumps to `commit_fail`, or stores what it merged. -/
inductive CommitExit where
  | returned
  | commitFail (e : Errno) (locals : CommitLocals)
  | stores (merged : List Text)

/-- `append_sentence_list`. -/
def appendSentenceList (push : Nat → Bool) (dest : List Text) : List Text → List Text × Bool
  | [] => (dest, true)
  | value :: src =>
    if push dest.length then appendSentenceList push (dest ++ [value]) src else (dest, false)

/-- `merged`, with `inserted` and `removed_original`. -/
structure Merging where
  merged : List Text
  inserted : Bool
  removed : Bool

/-- The loop over the latest sentences from index `i` on; `false` is the jump out of it. -/
def mergeLoop (push : Nat → Bool) (parts : List Text) (insertIndex : Int) (replacing : Bool) :
    List Text → Nat → Merging → Merging × Bool
  | [], _, s => (s, true)
  | segment :: rest, i, s =>
    let (merged, ok) :=
      if !s.inserted && (i : Int) == insertIndex then appendSentenceList push s.merged parts else (s.merged, true)
    let s := { s with merged := merged, inserted := s.inserted || (i : Int) == insertIndex }
    if !ok then (s, false)
    else if replacing && !s.removed && (i : Int) == insertIndex then
      mergeLoop push parts insertIndex replacing rest (i + 1) { s with removed := true }
    else if push s.merged.length then
      mergeLoop push parts insertIndex replacing rest (i + 1) { s with merged := s.merged ++ [segment] }
    else (s, false)

/-- `insert_index` and `replacing_existing`, or the conflict. -/
def commitIndex (session : WriteSession) (latest : List Text) : Option (Int × Bool) :=
  match session.baselineSentence.filter (· ≠ []) with
  | some baseline =>
    let best := locate session baseline latest
    if best ≥ 0 then some (min best latest.length, true) else none
  | none => some (max 0 (min session.sentenceIndex latest.length), false)

/-- `write_session_commit` up to its stores, on the text that it loaded. -/
def commitLocals (o : CommitMemory) (session : WriteSession) (current : Text) : CommitExit :=
  if !o.latest then .returned
  else
    let latest := splitSentences current
    if !o.parts then .returned
    else
      let parts := splitSentences session.sentenceText
      let locals : CommitLocals := ⟨some latest, some parts, none, none⟩
      match commitIndex session latest with
      | none => .commitFail .EAGAIN locals
      | some (insertIndex, replacing) =>
        let locals := { locals with merged := some [], mergedInit := some true }
        match mergeLoop o.push parts insertIndex replacing latest 0 ⟨[], false, false⟩ with
        | (s, false) => .commitFail .other { locals with merged := some s.merged }
        | (s, true) =>
          if s.inserted then .stores s.merged
          else
            match appendSentenceList o.push s.merged parts with
            | (merged, false) => .commitFail .other { locals with merged := some merged }
            | (merged, true) => .stores merged

/-- What the clean-up reads has a value: the flag, `merged` if the flag is set, and the two others. -/
structure CommitLocals.Initialised (locals : CommitLocals) : Prop where
  mergedInit : locals.mergedInit.isSome = true
  merged : locals.mergedInit = some true → locals.merged.isSome = true
  newParts : locals.newParts.isSome = true
  latestSentences : locals.latestSentences.isSome = true

/-! ## With memory enough -/

section Loop

variable {push : Nat → Bool} (hpush : ∀ n, push n = true)

include hpush

theorem appendSentenceList_done (dest src : List Text) : appendSentenceList push dest src = (dest ++ src, true) := by
  induction src generalizing dest with
  | nil => rw [appendSentenceList, List.append_nil]
  | cons value src ih =>
    rw [appendSentenceList, if_pos (hpush _), ih, List.append_assoc]
    rfl

/-- Behind the index the rest is copied. -/
theorem mergeLoop_behind (parts : List Text) {insertIndex : Int} (replacing : Bool) (rest : List Text) {i : Nat}
    (hi : insertIndex < i) (s : Merging) :
    mergeLoop push parts insertIndex replacing rest i s = ({ s with merged := s.merged ++ rest }, true) := by
  induction rest generalizing i s with
  | nil =>
    rw [mergeLoop, List.append_nil]
  | cons segment rest ih =>
    have hne : ((i : Int) == insertIndex) = false := by
      rw [beq_eq_false_iff_ne]
      omega
    rw [mergeLoop]
    simp only [hne, Bool.and_false, Bool.or_false, Bool.false_eq_true, if_false, Bool.not_true, hpush, if_true]
    rw [ih (by omega)]
    simp

/-- Up to the index sentences are copied; there the new ones are put in, and the old one is left out if it is
replaced. -/
theorem mergeLoop_done (parts : List Text) (m : Nat) (replacing : Bool) (rest : List Text) {i : Nat} (hi : i ≤ m)
    (merged : List Text) :
    mergeLoop push parts m replacing rest i ⟨merged, false, false⟩ =
      if m - i < rest.length then
        (⟨merged ++ rest.take (m - i) ++ parts ++ rest.drop (m - i + replacing.toNat), true, replacing⟩, true)
      else (⟨merged ++ rest, false, false⟩, true) := by
  induction rest generalizing i merged with
  | nil =>
    rw [if_neg (by simp), mergeLoop, List.append_nil]
  | cons segment rest ih =>
    rw [mergeLoop]
    by_cases him : i = m
    · subst him
      have hnext : ((i : Nat) : Int) < ((i + 1 : Nat) : Int) := by omega
      rw [if_pos (by simp)]
      simp only [beq_self_eq_true, Bool.not_false, Bool.and_true, if_true,
        appendSentenceList_done hpush, Bool.or_true, Bool.not_true, Bool.false_eq_true, if_false, hpush, Nat.sub_self,
        List.take_zero, List.append_nil, Nat.zero_add]
      cases replacing with
      | true =>
        rw [if_pos rfl, mergeLoop_behind hpush parts true rest hnext]
        rfl
      | false =>
        rw [if_neg Bool.false_ne_true, mergeLoop_behind hpush parts false rest hnext]
        simp
    · have hne : ((i : Int) == (m : Int)) = false := by
        rw [beq_eq_false_iff_ne]
        omega
      simp only [hne, Bool.and_false, Bool.or_false, Bool.false_eq_true, if_false, Bool.not_true, hpush, if_true]
      rw [ih (by omega)]
      have hstep : m - i = m - (i + 1) + 1 := by omega
      by_cases hlt : m - (i + 1) < rest.length
      · rw [if_pos hlt, if_pos (by rw [List.length_cons]; omega), hstep, List.take_succ_cons,
          show m - (i + 1) + 1 + replacing.toNat = m - (i + 1) + replacing.toNat + 1 by omega, List.drop_succ_cons]
        simp
      · rw [if_neg hlt, if_neg (by rw [List.length_cons]; omega)]
        simp

end Loop

/-- **The loop with its flags makes the merge.** -/
theorem commitLocals_merge {o : CommitMemory} (hlatest : o.latest = true) (hparts : o.parts = true)
    (hpush : ∀ n, o.push n = true) (session : WriteSession) (current : Text) :
    (∀ merged, writeSessionMerge session current = .ok merged → commitLocals o session current = .stores merged) ∧
      ∀ e, writeSessionMerge session current = .error e →
        ∃ locals, commitLocals o session current = .commitFail e locals := by
  have hloop {m : Nat} {replacing : Bool} (hm : m + replacing.toNat ≤ (splitSentences current).length)
      (hindex : commitIndex session (splitSentences current) = some ((m : Int), replacing)) :
      commitLocals o session current = .stores ((splitSentences current).take m ++ splitSentences session.sentenceText ++
        (splitSentences current).drop (m + replacing.toNat)) := by
    unfold commitLocals
    simp only [hlatest, hparts, Bool.not_true, Bool.false_eq_true, if_false, hindex]
    rw [mergeLoop_done hpush (splitSentences session.sentenceText) m replacing (splitSentences current) (Nat.zero_le m) [],
      Nat.sub_zero]
    by_cases hlt : m < (splitSentences current).length
    · rw [if_pos hlt]
      simp
    · rw [if_neg hlt]
      simp only [Bool.false_eq_true, if_false, appendSentenceList_done hpush, List.nil_append]
      rw [List.take_of_length_le (by omega), List.drop_eq_nil_of_le (by omega), List.append_nil]
  unfold writeSessionMerge
  cases hbaseline : session.baselineSentence.filter (· ≠ []) with
  | none =>
    dsimp only
    refine ⟨?_, nofun⟩
    intro merged hmerged
    cases hmerged
    have hindex : commitIndex session (splitSentences current) =
        some (((max 0 (min session.sentenceIndex (splitSentences current).length)).toNat : Int), false) := by
      unfold commitIndex
      rw [hbaseline]
      simp
    rw [hloop (by simp) hindex]
    rfl
  | some baseline =>
    have hlt := locateFrom_lt baseline (relocationScore session (splitSentences current)) (splitSentences current) 0
      (-1, INT_MIN) (by simp)
    dsimp only
    by_cases hfound : locate session baseline (splitSentences current) ≥ 0
    · rw [if_pos hfound]
      refine ⟨?_, nofun⟩
      intro merged hmerged
      cases hmerged
      have hbest : (locate session baseline (splitSentences current)).toNat < (splitSentences current).length := by
        unfold locate at hfound ⊢
        omega
      have hindex : commitIndex session (splitSentences current) =
          some (((locate session baseline (splitSentences current)).toNat : Int), true) := by
        unfold commitIndex
        rw [hbaseline]
        dsimp only
        rw [if_pos hfound, min_eq_left (by omega), Int.toNat_of_nonneg hfound]
      rw [hloop hbest hindex]
      rfl
    · rw [if_neg hfound]
      refine ⟨nofun, ?_⟩
      intro e he
      cases he
      have hindex : commitIndex session (splitSentences current) = none := by
        unfold commitIndex
        rw [hbaseline]
        dsimp only
        rw [if_neg hfound]
      unfold commitLocals
      simp only [hlatest, hparts, Bool.not_true, Bool.false_eq_true, if_false, hindex]
      exact ⟨_, rfl⟩

/-! ## The clean-up -/

/-- The session replaces a sentence of which the text has no copy that the search finds. -/
def Conflicts (session : WriteSession) (latest : List Text) : Prop :=
  ∃ baseline, session.baselineSentence = some baseline ∧ baseline ≠ [] ∧
    ∀ k, latest[k]? = some baseline → Overflows session latest k

theorem commitIndex_eq_none_iff (session : WriteSession) (latest : List Text) :
    commitIndex session latest = none ↔ Conflicts session latest := by
  unfold commitIndex Conflicts
  cases hbaseline : session.baselineSentence.filter (· ≠ []) with
  | none =>
    refine iff_of_false nofun ?_
    rintro ⟨baseline, hsome, hne, -⟩
    rw [hsome] at hbaseline
    simp [hne] at hbaseline
  | some baseline =>
    obtain ⟨hsome, hne⟩ := Option.filter_eq_some_iff.1 hbaseline
    have hne : baseline ≠ [] := by simpa using hne
    dsimp only
    rcases locate_cases session baseline latest with ⟨⟨k, hk, hnot⟩, m, -, hlocate⟩ | ⟨hall, hlocate⟩
    · rw [hlocate, if_pos (by omega)]
      refine iff_of_false nofun ?_
      rintro ⟨baseline', hsome', -, hall⟩
      cases hsome.symm.trans hsome'
      exact hnot (hall k hk)
    · rw [hlocate, if_neg (by decide)]
      exact iff_of_true rfl ⟨baseline, hsome, hne, hall⟩

/-- **The clean-up reads initialised locals only**, exactly if the commit does not come to a conflict. -/
theorem cleanup_initialised_iff (o : CommitMemory) (session : WriteSession) (current : Text) :
    (∀ e locals, commitLocals o session current = .commitFail e locals → locals.Initialised) ↔
      ¬ (o.latest = true ∧ o.parts = true ∧ Conflicts session (splitSentences current)) := by
  rw [← commitIndex_eq_none_iff]
  unfold commitLocals
  cases o.latest with
  | false => exact iff_of_true nofun (by simp)
  | true =>
    cases o.parts with
    | false => exact iff_of_true nofun (by simp)
    | true =>
      simp only [Bool.not_true, Bool.false_eq_true, if_false, true_and]
      cases commitIndex session (splitSentences current) with
      | none =>
        refine iff_of_false ?_ (by simp)
        intro h
        have hflag := (h _ _ rfl).mergedInit
        cases hflag
      | some place =>
        obtain ⟨insertIndex, replacing⟩ := place
        refine iff_of_true ?_ (by simp)
        -- from here on both have a value
        intro e locals
        dsimp only
        split
        · intro heq
          cases heq
          exact ⟨rfl, fun _ => rfl, rfl, rfl⟩
        · split
          · nofun
          · split
            · intro heq
              cases heq
              exact ⟨rfl, fun _ => rfl, rfl, rfl⟩
            · nofun

/-- The sentence of the session is gone. -/
theorem cleanup_conflict : ∃ session e locals, Begun (Text.lit "A. B.") 0 session ∧
    commitLocals ⟨true, true, fun _ => true⟩ session (Text.lit "C.") = .commitFail e locals ∧ ¬ locals.Initialised := by
  have hbegun : Begun (Text.lit "A. B.") 0 (firstEdited (Text.lit "A!")) :=
    ⟨[], [.replace 0 (Text.lit "A!")], _, rfl, by decide⟩
  refine ⟨_, .EAGAIN, ⟨some [Text.lit "C."], some [Text.lit "A!"], none, none⟩, hbegun, by rfl, ?_⟩
  intro h
  cases h.mergedInit

end CoWrite.Ss
