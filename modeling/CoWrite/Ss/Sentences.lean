import Mathlib.Data.List.DropRight
import CoWrite.Common.Text

/-!
# Words and sentences

`split_words`, `split_sentences` and the two joins of `ss_main.c`. A document is stored as its
sentences joined by newlines, and split again at every commit. `splitSentences_joinSentences` says
when that is lossless: every sentence but the last has to end with a delimiter, since a newline alone
does not separate sentences. `document_splitSentences` says that a split text has that form.
-/

namespace CoWrite.Ss

/-- A character `trim_spaces` and `split_words` treat as space. -/
def isBlank (c : Char) : Bool := c ≤ ' '

/-- `is_sentence_delim_char`. -/
def isSentenceDelimChar (c : Char) : Bool := c == '.' || c == '!' || c == '?'

def isNewline (c : Char) : Bool := c == '\n' || c == '\r'

def trimSpaces (s : Text) : Text := (s.rdropWhile isBlank).dropWhile isBlank

/-- The word that has been read, if there is one. -/
def flushWord (word : Text) : List Text := if word.isEmpty then [] else [word]

/-- The loop of `split_words`, inside a word or, with `[]`, between words. -/
def splitWordsFrom (word : Text) : Text → List Text
  | [] => flushWord word
  | c :: s =>
    if isBlank c then flushWord word ++ splitWordsFrom [] s else splitWordsFrom (word ++ [c]) s

def splitWords (sentence : Text) : List Text := splitWordsFrom [] sentence

def joinWords (words : List Text) : Text := List.intercalate [' '] words

/-- The trimmed buffer, if anything is left of it. -/
def flushSentence (buffer : Text) : List Text :=
  if (trimSpaces buffer).isEmpty then [] else [trimSpaces buffer]

/-- The loop of `split_sentences` with its buffer. -/
def splitSentencesFrom (buffer : Text) : Text → List Text
  | [] => flushSentence buffer
  | c :: s =>
    let c := if isNewline c then ' ' else c
    if isSentenceDelimChar c then flushSentence (buffer ++ [c]) ++ splitSentencesFrom [] s
    else splitSentencesFrom (buffer ++ [c]) s

def splitSentences (text : Text) : List Text := splitSentencesFrom [] text

def joinSentences (sentences : List Text) : Text := List.intercalate ['\n'] sentences

/-! ## What a split text looks like -/

/-- What `split_sentences` produces: trimmed, on one line, with a delimiter at the end if at all. -/
structure IsSentence (s : Text) : Prop where
  head : ∃ c t, s = c :: t ∧ isBlank c = false
  last : ∃ t c, s = t ++ [c] ∧ isBlank c = false ∧ ∀ d ∈ t, isSentenceDelimChar d = false
  line : ∀ c ∈ s, isNewline c = false

/-- The sentence ends with a delimiter. -/
def Terminated (s : Text) : Bool := s.getLast?.any isSentenceDelimChar

/-- The sentences of a stored text: all but the last end with a delimiter. -/
structure Document (l : List Text) : Prop where
  sentence : ∀ s ∈ l, IsSentence s
  terminated : ∀ s ∈ l.dropLast, Terminated s

theorem terminated_concat {t : Text} {c : Char} : Terminated (t ++ [c]) = isSentenceDelimChar c := by
  simp [Terminated]

theorem isBlank_of_delim {c : Char} (h : isSentenceDelimChar c) : isBlank c = false := by
  simp only [isSentenceDelimChar, Bool.or_eq_true, beq_iff_eq] at h
  rcases h with (rfl | rfl) | rfl <;> decide

theorem not_newline_of_delim {c : Char} (h : isSentenceDelimChar c) : isNewline c = false := by
  simp only [isSentenceDelimChar, Bool.or_eq_true, beq_iff_eq] at h
  rcases h with (rfl | rfl) | rfl <;> decide

/-! ## Reading one sentence -/

theorem trimSpaces_blank_append {w s : Text} (hw : ∀ c ∈ w, isBlank c) (hs : IsSentence s) :
    trimSpaces (w ++ s) = s := by
  obtain ⟨c, t, hhead, hc⟩ := hs.head
  obtain ⟨u, d, hlast, hd, -⟩ := hs.last
  have hr : (w ++ s).rdropWhile isBlank = w ++ s := by
    rw [hlast, ← List.append_assoc, List.rdropWhile_concat_neg _ _ _ (by simp [hd])]
  rw [trimSpaces, hr, List.dropWhile_append_of_pos hw, hhead]
  simp [hc]

theorem flushSentence_blank_append {w s : Text} (hw : ∀ c ∈ w, isBlank c) (hs : IsSentence s) :
    flushSentence (w ++ s) = [s] := by
  obtain ⟨c, t, rfl, -⟩ := hs.head
  simp [flushSentence, trimSpaces_blank_append hw hs]

theorem splitSentencesFrom_append {t : Text} (ht : ∀ c ∈ t, isSentenceDelimChar c = false)
    (hn : ∀ c ∈ t, isNewline c = false) (buffer rest : Text) :
    splitSentencesFrom buffer (t ++ rest) = splitSentencesFrom (buffer ++ t) rest := by
  induction t generalizing buffer with
  | nil => simp
  | cons c t ih =>
    rw [List.forall_mem_cons] at ht hn
    rw [List.cons_append, splitSentencesFrom]
    simp only [hn.1, ht.1, Bool.false_eq_true, if_false]
    rw [ih ht.2 hn.2]
    simp

/-- A terminated sentence behind blanks is split off. -/
theorem splitSentencesFrom_terminated {w s : Text} (hw : ∀ c ∈ w, isBlank c) (hs : IsSentence s)
    (ht : Terminated s) (rest : Text) :
    splitSentencesFrom w (s ++ rest) = s :: splitSentencesFrom [] rest := by
  obtain ⟨t, c, rfl, hc, hd⟩ := hs.last
  rw [terminated_concat] at ht
  have hline := hs.line
  rw [List.forall_mem_append] at hline
  have hflush := flushSentence_blank_append hw hs
  rw [List.append_assoc, splitSentencesFrom_append hd hline.1, List.singleton_append,
    splitSentencesFrom]
  simp only [not_newline_of_delim ht, Bool.false_eq_true, if_false, ht, if_true]
  rw [List.append_assoc, hflush, List.singleton_append]

/-- The last sentence needs no delimiter. -/
theorem splitSentencesFrom_last {w s : Text} (hw : ∀ c ∈ w, isBlank c) (hs : IsSentence s) :
    splitSentencesFrom w s = [s] := by
  by_cases ht : Terminated s
  · have := splitSentencesFrom_terminated hw hs ht []
    simpa [splitSentencesFrom, flushSentence, trimSpaces] using this
  · obtain ⟨t, c, rfl, hc, hd⟩ := hs.last
    rw [terminated_concat] at ht
    have hline := hs.line
    have hdelim : ∀ d ∈ t ++ [c], isSentenceDelimChar d = false := by
      rw [List.forall_mem_append]
      exact ⟨hd, by simpa using ht⟩
    have h := splitSentencesFrom_append hdelim hs.line w []
    rw [List.append_nil] at h
    rw [h, splitSentencesFrom, flushSentence_blank_append hw hs]

theorem flushSentence_blank {w : Text} (hw : ∀ c ∈ w, isBlank c) : flushSentence w = [] := by
  have : w.rdropWhile isBlank = [] := List.rdropWhile_eq_nil_iff.2 hw
  simp [flushSentence, trimSpaces, this]

theorem document_cons {s : Text} {l : List Text} (hl : Document (s :: l)) :
    IsSentence s ∧ Document l ∧ (l ≠ [] → Terminated s) := by
  refine ⟨hl.sentence s (by simp), ⟨fun t ht => hl.sentence t (by simp [ht]), ?_⟩, ?_⟩
  · intro t ht
    cases l with
    | nil => simp at ht
    | cons u l => exact hl.terminated t (by simp [List.dropLast_cons_cons, ht])
  · intro hne
    cases l with
    | nil => exact absurd rfl hne
    | cons u l => exact hl.terminated s (by simp [List.dropLast_cons_cons])

theorem splitSentencesFrom_joinSentences {w : Text} (hw : ∀ c ∈ w, isBlank c) {l : List Text}
    (hl : Document l) : splitSentencesFrom w (joinSentences l) = l := by
  induction l generalizing w with
  | nil => exact flushSentence_blank hw
  | cons s l ih =>
    obtain ⟨hs, hl, ht⟩ := document_cons hl
    cases l with
    | nil => simpa [joinSentences] using splitSentencesFrom_last hw hs
    | cons u l =>
      have hjoin : joinSentences (s :: u :: l) = s ++ '\n' :: joinSentences (u :: l) := by
        simp [joinSentences, List.intercalate_cons_cons]
      rw [hjoin, splitSentencesFrom_terminated hw hs (ht (by simp)), splitSentencesFrom]
      simp only [isNewline, beq_self_eq_true, Bool.true_or, if_true, List.nil_append,
        isSentenceDelimChar, Char.reduceBEq, Bool.or_self, Bool.false_eq_true, if_false]
      rw [ih (by simp [isBlank]) hl]

/-- **A document is read back as it was stored.** -/
theorem splitSentences_joinSentences {l : List Text} (hl : Document l) :
    splitSentences (joinSentences l) = l :=
  splitSentencesFrom_joinSentences (by simp) hl

/-! ## Every text is split into a document -/

/-- A buffer of `split_sentences`: no delimiter, no line break. -/
def IsBuffer (b : Text) : Prop :=
  ∀ c ∈ b, isSentenceDelimChar c = false ∧ isNewline c = false

theorem exists_append_trimSpaces (x : Text) : ∃ w z, x = w ++ trimSpaces x ++ z := by
  obtain ⟨z, hz⟩ := List.rdropWhile_prefix isBlank x
  refine ⟨(x.rdropWhile isBlank).takeWhile isBlank, z, ?_⟩
  rw [trimSpaces, List.takeWhile_append_dropWhile, hz]

theorem trimSpaces_head {x : Text} (hne : trimSpaces x ≠ []) :
    ∃ c t, trimSpaces x = c :: t ∧ isBlank c = false := by
  obtain ⟨c, t, h⟩ := List.exists_cons_of_ne_nil hne
  refine ⟨c, t, h, ?_⟩
  have hnot := List.head_dropWhile_not isBlank hne
  change isBlank ((trimSpaces x).head hne) = false at hnot
  simpa [h] using hnot

theorem trimSpaces_last {x : Text} (hne : trimSpaces x ≠ []) :
    ∃ t c, trimSpaces x = t ++ [c] ∧ isBlank c = false := by
  have hsuffix : trimSpaces x <:+ x.rdropWhile isBlank := List.dropWhile_suffix isBlank
  have hy : x.rdropWhile isBlank ≠ [] := fun h => hne (by rw [trimSpaces, h]; rfl)
  have hlast := List.rdropWhile_last_not isBlank x hy
  rw [← hsuffix.getLast hne] at hlast
  exact ⟨_, _, (List.dropLast_append_getLast hne).symm, by simpa using hlast⟩

/-- What is left of a buffer, with or without a delimiter behind it, is a sentence. -/
theorem isSentence_trimSpaces {b e : Text} (hb : IsBuffer b)
    (he : e = [] ∨ ∃ c, e = [c] ∧ isSentenceDelimChar c) (hne : trimSpaces (b ++ e) ≠ []) :
    IsSentence (trimSpaces (b ++ e)) := by
  obtain ⟨w, z, hx⟩ := exists_append_trimSpaces (b ++ e)
  obtain ⟨t, c, ht, hc⟩ := trimSpaces_last hne
  refine ⟨trimSpaces_head hne, ⟨t, c, ht, hc, fun d hd => ?_⟩, fun d hd => ?_⟩
  · -- all characters but the last come from the buffer
    have hdrop : (b ++ e).dropLast = w ++ t ++ ([c] ++ z).dropLast := by
      rw [hx, ht, ← List.dropLast_append_of_ne_nil (by simp)]
      simp
    have hmem : d ∈ (b ++ e).dropLast := by
      rw [hdrop]
      simp [hd]
    have hmem : d ∈ b := by
      rcases he with rfl | ⟨c', rfl, -⟩
      · rw [List.append_nil] at hmem
        exact (List.dropLast_sublist _).subset hmem
      · rwa [List.dropLast_concat] at hmem
    exact (hb d hmem).1
  · have hmem : d ∈ b ++ e := by
      rw [hx]
      simp [hd]
    rcases List.mem_append.1 hmem with hmem | hmem
    · exact (hb d hmem).2
    · rcases he with rfl | ⟨c', rfl, hc'⟩
      · simp at hmem
      · rw [List.mem_singleton.1 hmem]
        exact not_newline_of_delim hc'

theorem document_flushSentence {b e : Text} (hb : IsBuffer b)
    (he : e = [] ∨ ∃ c, e = [c] ∧ isSentenceDelimChar c) :
    ∀ s ∈ flushSentence (b ++ e), IsSentence s := by
  intro s hs
  unfold flushSentence at hs
  split at hs
  · simp at hs
  · next hne =>
    rw [List.mem_singleton.1 hs]
    exact isSentence_trimSpaces hb he (by simpa using hne)

theorem document_append {l l' : List Text} (hl : ∀ s ∈ l, IsSentence s ∧ Terminated s)
    (hl' : Document l') : Document (l ++ l') := by
  constructor
  · intro s hs
    rcases List.mem_append.1 hs with hs | hs
    · exact (hl s hs).1
    · exact hl'.sentence s hs
  · intro s hs
    by_cases hne : l' = []
    · subst hne
      rw [List.append_nil] at hs
      exact (hl s ((List.dropLast_sublist _).subset hs)).2
    · rw [List.dropLast_append_of_ne_nil hne] at hs
      rcases List.mem_append.1 hs with hs | hs
      · exact (hl s hs).2
      · exact hl'.terminated s hs

/-- A sentence flushed behind a delimiter keeps it. -/
theorem terminated_flushSentence {b : Text} {c : Char} (hc : isSentenceDelimChar c) :
    ∀ s ∈ flushSentence (b ++ [c]), Terminated s := by
  intro s hs
  unfold flushSentence at hs
  split at hs
  · simp at hs
  · next hne =>
    rw [List.mem_singleton.1 hs]
    have hr : (b ++ [c]).rdropWhile isBlank = b ++ [c] :=
      List.rdropWhile_concat_neg _ _ _ (by simp [isBlank_of_delim hc])
    have hsuffix : trimSpaces (b ++ [c]) <:+ b ++ [c] := by
      rw [trimSpaces, hr]
      exact List.dropWhile_suffix isBlank
    obtain ⟨t, d, ht, -⟩ := trimSpaces_last (x := b ++ [c]) (by simpa using hne)
    rw [ht] at hsuffix ⊢
    obtain ⟨u, hu⟩ := hsuffix
    rw [← List.append_assoc] at hu
    rw [terminated_concat, (List.append_inj' hu rfl).2 |> List.singleton_inj.1]
    exact hc

theorem document_splitSentencesFrom {b : Text} (hb : IsBuffer b) (s : Text) :
    Document (splitSentencesFrom b s) := by
  induction s generalizing b with
  | nil =>
    have hsent := document_flushSentence hb (.inl rfl)
    rw [List.append_nil] at hsent
    rw [splitSentencesFrom]
    refine ⟨hsent, ?_⟩
    unfold flushSentence
    split <;> simp
  | cons c s ih =>
    rw [splitSentencesFrom]
    generalize hc' : (if isNewline c then ' ' else c) = c'
    split
    · next hd =>
      refine document_append (fun s hs => ?_) (ih (by simp [IsBuffer]))
      exact ⟨document_flushSentence hb (.inr ⟨c', rfl, hd⟩) s hs, terminated_flushSentence hd s hs⟩
    · next hd =>
      refine ih fun d hmem => ?_
      rcases List.mem_append.1 hmem with hmem | hmem
      · exact hb d hmem
      · rw [List.mem_singleton.1 hmem]
        refine ⟨by simpa using hd, ?_⟩
        split at hc'
        · subst hc'; rfl
        · next hn => subst hc'; simpa using hn

/-- **Splitting gives a document.** -/
theorem document_splitSentences (text : Text) : Document (splitSentences text) :=
  document_splitSentencesFrom (by simp [IsBuffer]) text

/-! ## Blanks in front -/

theorem trimSpaces_blank {w : Text} (hw : ∀ c ∈ w, isBlank c) (x : Text) : trimSpaces (w ++ x) = trimSpaces x := by
  have hdrop : (w ++ x).rdropWhile isBlank = if (x.rdropWhile isBlank).isEmpty then [] else w ++ x.rdropWhile isBlank := by
    have hwr : w.reverse.dropWhile isBlank = [] := List.dropWhile_eq_nil_iff.2 (by simpa using hw)
    rw [List.rdropWhile, List.rdropWhile, List.reverse_append, List.dropWhile_append, List.isEmpty_reverse, hwr]
    split
    · rfl
    · rw [List.reverse_append, List.reverse_reverse]
  rw [trimSpaces, trimSpaces, hdrop]
  split
  · next hempty =>
    rw [List.isEmpty_iff.1 hempty]
  · rw [List.dropWhile_append_of_pos hw]

theorem splitSentencesFrom_blank {w : Text} (hw : ∀ c ∈ w, isBlank c) (b s : Text) :
    splitSentencesFrom (w ++ b) s = splitSentencesFrom b s := by
  have hflush (b : Text) : flushSentence (w ++ b) = flushSentence b := by
    rw [flushSentence, flushSentence, trimSpaces_blank hw]
  induction s generalizing b with
  | nil => exact hflush b
  | cons c s ih =>
    rw [splitSentencesFrom, splitSentencesFrom]
    simp only [List.append_assoc, ih, hflush]

theorem joinSentences_cons (s : Text) {l : List Text} (hl : l ≠ []) :
    joinSentences (s :: l) = s ++ '\n' :: joinSentences l := by
  cases l with
  | nil => exact absurd rfl hl
  | cons u l => simp [joinSentences, List.intercalate_cons_cons]

theorem splitSentencesFrom_newline (b s : Text) :
    splitSentencesFrom b ('\n' :: s) = splitSentencesFrom (b ++ [' ']) s := by
  rw [splitSentencesFrom]
  simp [isNewline, isSentenceDelimChar]

theorem splitSentences_newline (s : Text) : splitSentencesFrom [] ('\n' :: s) = splitSentences s := by
  have hblank : ∀ c ∈ [' '], isBlank c := by
    intro c hc
    rw [List.mem_singleton.1 hc]
    rfl
  have h := splitSentencesFrom_blank hblank [] s
  rw [splitSentencesFrom_newline]
  exact h

/-- Sentences that end with a delimiter are split off as they are, whatever stands behind them. -/
theorem splitSentences_append {pre : List Text} (hpre : ∀ s ∈ pre, IsSentence s ∧ Terminated s) (post : List Text) :
    splitSentences (joinSentences (pre ++ post)) = pre ++ splitSentences (joinSentences post) := by
  induction pre with
  | nil => rfl
  | cons s pre ih =>
    rw [List.forall_mem_cons] at hpre
    obtain ⟨⟨hs, ht⟩, hpre⟩ := hpre
    have ih := ih hpre
    have hnil : ∀ c ∈ ([] : Text), isBlank c := by simp
    by_cases hne : pre ++ post = []
    · obtain ⟨rfl, rfl⟩ := List.append_eq_nil_iff.1 hne
      have hone : joinSentences [s] = s := by simp [joinSentences]
      have hnone : splitSentences (joinSentences []) = [] := flushSentence_blank hnil
      rw [List.append_nil, hnone, hone]
      exact splitSentencesFrom_last hnil hs
    · rw [List.cons_append, joinSentences_cons s hne, splitSentences, splitSentencesFrom_terminated hnil hs ht,
        splitSentences_newline, ih, List.cons_append]

theorem flushSentence_concat (b : Text) {e : Char} (he : isBlank e = false) : ∃ v, flushSentence (b ++ [e]) = [v] := by
  have hr : (b ++ [e]).rdropWhile isBlank = b ++ [e] := List.rdropWhile_concat_neg _ _ _ (by simp [he])
  have hne : trimSpaces (b ++ [e]) ≠ [] := by
    rw [trimSpaces, hr]
    intro hnil
    have hblank := List.dropWhile_eq_nil_iff.1 hnil e (by simp)
    rw [he] at hblank
    cases hblank
  refine ⟨trimSpaces (b ++ [e]), ?_⟩
  rw [flushSentence, if_neg (by simpa using hne)]

/-- A sentence that has no delimiter is joined to the next one, and those behind stay as they are. -/
theorem splitSentences_joined {s u : Text} {l : List Text} (hs : IsSentence s) (ht : ¬ Terminated s)
    (hu : IsSentence u) (htu : Terminated u) (hl : Document l) :
    ∃ v, splitSentences (joinSentences (s :: u :: l)) = v :: l := by
  have hrest : ∃ r, joinSentences (u :: l) = u ++ r ∧ splitSentencesFrom [] r = l := by
    by_cases hne : l = []
    · subst hne
      exact ⟨[], by simp [joinSentences], flushSentence_blank (by simp)⟩
    · refine ⟨_, joinSentences_cons u hne, ?_⟩
      rw [splitSentences_newline, splitSentences_joinSentences hl]
  obtain ⟨r, hr, hsplit⟩ := hrest
  obtain ⟨t, c, rfl, -, hd⟩ := hs.last
  obtain ⟨a, e, rfl, -, hda⟩ := hu.last
  rw [terminated_concat] at ht htu
  have hdelim : ∀ d ∈ t ++ [c], isSentenceDelimChar d = false := by
    rw [List.forall_mem_append]
    exact ⟨hd, by simpa using ht⟩
  have hline := hu.line
  rw [List.forall_mem_append] at hline
  obtain ⟨v, hv⟩ := flushSentence_concat ([] ++ (t ++ [c]) ++ [' '] ++ a) (isBlank_of_delim htu)
  refine ⟨v, ?_⟩
  rw [joinSentences_cons _ (List.cons_ne_nil _ _), splitSentences, splitSentencesFrom_append hdelim hs.line,
    splitSentencesFrom_newline, hr, List.append_assoc a, splitSentencesFrom_append hda hline.1, List.singleton_append,
    splitSentencesFrom]
  simp only [not_newline_of_delim htu, Bool.false_eq_true, if_false, htu, if_true]
  rw [hv, hsplit]
  rfl

end CoWrite.Ss
