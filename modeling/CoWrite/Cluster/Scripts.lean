import CoWrite.Common.Scan
import CoWrite.Ss.Normal
import CoWrite.Ss.Words

/-!
# Scripts

`EXEC` takes the line breaks that the storage server put between sentences out of a script again. The blank that stood
behind a delimiter was lost when the text was split, and it does not come back: `flatten_words_iff`.

* `flattenExecScript_joinSentences`: of a document the line breaks go, all of them.
* `flatten_splitSentences`: splitting drops the blanks behind delimiters, and no others.
-/

namespace CoWrite.Cluster

open CoWrite.Ss

/-- `is_exec_delim_char`. -/
def isExecDelimChar (c : Char) : Bool := c == '.' || c == '!' || c == '?'

/-- The loop of `flatten_exec_script`, with the last character that was no line break. -/
def flattenFrom (lastNonNewline : Option Char) : Text → Text
  | [] => []
  | c :: script =>
    if c = '\r' then flattenFrom lastNonNewline script
    else if c = '\n' then
      if lastNonNewline.any isExecDelimChar then flattenFrom lastNonNewline script
      else c :: flattenFrom lastNonNewline script
    else c :: flattenFrom (some c) script

/-- `flatten_exec_script`, where there is memory. -/
def flattenExecScript (script : Text) : Text := flattenFrom none script

/-! ## Line breaks -/

theorem flattenFrom_append {s : Text} (hs : ∀ c ∈ s, isNewline c = false) (last : Option Char) (script : Text) :
    flattenFrom last (s ++ script) = s ++ flattenFrom (s.getLast?.or last) script := by
  induction s generalizing last with
  | nil => rfl
  | cons c s ih =>
    obtain ⟨hc, hs⟩ := List.forall_mem_cons.1 hs
    unfold isNewline at hc
    simp only [Bool.or_eq_false_iff, beq_eq_false_iff_ne] at hc
    rw [List.cons_append, flattenFrom, if_neg hc.2, if_neg hc.1, ih hs, List.cons_append]
    congr 2
    cases s with
    | nil => rfl
    | cons d s =>
      rw [List.getLast?_cons_cons]
      cases h : (d :: s).getLast? with
      | none => simp at h
      | some e => rfl

/-- **The line breaks of a document go.** -/
theorem flattenExecScript_joinSentences {l : List Text} (hl : Document l) :
    flattenExecScript (joinSentences l) = l.flatten := by
  have hfrom (last : Option Char) : flattenFrom last (joinSentences l) = l.flatten := by
    induction l generalizing last with
    | nil => rfl
    | cons s l ih =>
      obtain ⟨hs, hl, hterminated⟩ := document_cons hl
      have hline : ∀ c ∈ s, isNewline c = false := hs.line
      by_cases hne : l = []
      · subst hne
        have hone := flattenFrom_append hline last []
        simpa [joinSentences, flattenFrom] using hone
      · obtain ⟨c, hlast, hdelim⟩ : ∃ c, s.getLast? = some c ∧ isExecDelimChar c = true := by
          have h := hterminated hne
          unfold Terminated at h
          cases hc : s.getLast? with
          | none =>
            rw [hc] at h
            cases h
          | some c =>
            rw [hc] at h
            exact ⟨c, rfl, h⟩
        rw [joinSentences_cons s hne, flattenFrom_append hline, hlast, Option.some_or, flattenFrom, if_neg (by decide),
          if_pos rfl, Option.any_some, hdelim, if_pos rfl, ih hl, List.flatten_cons]
  exact hfrom none

/-! ## Blanks behind delimiters -/

/-- The text without the blanks behind delimiters, and in front if `after` is true. -/
def squeeze (after : Bool) : Text → Text
  | [] => []
  | c :: s => if after && isBlank c then squeeze true s else c :: squeeze (isSentenceDelimChar c) s

theorem flatten_flushSentence (b : Text) : (flushSentence b).flatten = trimSpaces b := by
  unfold flushSentence
  split
  · next h => rw [List.isEmpty_iff.1 h]; rfl
  · simp

/-- A text with no blank at either end is not trimmed. -/
theorem trimSpaces_eq_self {b : Text} (hhead : ∀ c ∈ b.head?, isBlank c = false)
    (hlast : ∀ c ∈ b.getLast?, isBlank c = false) : trimSpaces b = b := by
  have hright : b.rdropWhile isBlank = b := by
    cases hb : b.getLast? with
    | none => rw [List.getLast?_eq_none_iff.1 hb]; rfl
    | some c =>
      obtain ⟨t, rfl⟩ := List.getLast?_eq_some_iff.1 hb
      exact List.rdropWhile_concat_neg _ _ _ (by simp [hlast c hb])
  rw [trimSpaces, hright]
  cases b with
  | nil => rfl
  | cons c b => rw [List.dropWhile_cons_of_neg (by simp [hhead c rfl])]

/-- What is flushed of a text without line breaks: the buffer goes on, or a sentence begins. -/
theorem flatten_splitSentencesFrom (b s : Text) (hb : ∀ c ∈ b.head?, isBlank c = false)
    (hlast : ∀ c ∈ (b ++ s).getLast?, isBlank c = false) (hline : ∀ c ∈ s, isNewline c = false) :
    (splitSentencesFrom b s).flatten = b ++ squeeze b.isEmpty s := by
  induction s generalizing b with
  | nil =>
    rw [List.append_nil] at hlast
    rw [splitSentencesFrom, flatten_flushSentence, trimSpaces_eq_self hb hlast]
    exact (List.append_nil b).symm
  | cons c s ih =>
    obtain ⟨hc, hline⟩ := List.forall_mem_cons.1 hline
    have hlast' : ∀ d ∈ ((b ++ [c]) ++ s).getLast?, isBlank d = false := by
      rw [List.append_assoc]
      exact hlast
    rw [splitSentencesFrom]
    simp only [hc, Bool.false_eq_true, if_false]
    by_cases hdelim : isSentenceDelimChar c = true
    · -- the sentence ends, and blanks in front of the next one are dropped
      have hblank := isBlank_of_delim hdelim
      have hhead : ∀ d ∈ (b ++ [c]).head?, isBlank d = false := by
        cases b with
        | nil => simpa using hblank
        | cons d b => exact hb
      have hend : ∀ d ∈ (b ++ [c]).getLast?, isBlank d = false := by simpa using hblank
      have hrest : ∀ d ∈ ([] ++ s).getLast?, isBlank d = false := by
        intro d hd
        refine hlast' d ?_
        rw [List.nil_append] at hd
        rw [List.getLast?_append, hd]
        rfl
      rw [if_pos hdelim, List.flatten_append, flatten_flushSentence, trimSpaces_eq_self hhead hend,
        ih [] (by simp) hrest hline, squeeze, hblank, Bool.and_false, if_neg Bool.false_ne_true, hdelim]
      simp
    · rw [if_neg hdelim]
      by_cases hskip : b = [] ∧ isBlank c = true
      · -- a blank in front of a sentence
        obtain ⟨rfl, hblank⟩ := hskip
        have hskipped : splitSentencesFrom ([] ++ [c]) s = splitSentencesFrom [] s :=
          splitSentencesFrom_blank (w := [c]) (by simpa using hblank) [] s
        have hrest : ∀ d ∈ ([] ++ s).getLast?, isBlank d = false := by
          intro d hd
          refine hlast' d ?_
          rw [List.nil_append] at hd
          rw [List.getLast?_append, hd]
          rfl
        rw [hskipped, ih [] (by simp) hrest hline, squeeze, hblank]
        rfl
      · have hhead : ∀ d ∈ (b ++ [c]).head?, isBlank d = false := by
          cases b with
          | nil => simpa using hskip
          | cons d b => exact hb
        have hempty : (b ++ [c]).isEmpty = false := by simp
        have hkept : (b.isEmpty && isBlank c) = false := by
          cases b with
          | nil => simpa using hskip
          | cons d b => rfl
        rw [ih (b ++ [c]) hhead hlast' hline, hempty, squeeze, hkept, if_neg Bool.false_ne_true,
          Bool.eq_false_iff.2 hdelim]
        simp

/-- **Splitting drops the blanks behind delimiters.** -/
theorem flatten_splitSentences {t : Text} (hlast : ∀ c ∈ t.getLast?, isBlank c = false)
    (hline : ∀ c ∈ t, isNewline c = false) : (splitSentences t).flatten = squeeze true t :=
  flatten_splitSentencesFrom [] t (by simp) hlast hline

/-! ## Words -/

/-- The words of an author. -/
def IsWord (w : Text) : Prop := w ≠ [] ∧ ∀ c ∈ w, isBlank c = false

instance (w : Text) : Decidable (IsWord w) :=
  decidable_of_iff (w ≠ [] ∧ (w.all fun c => !isBlank c) = true) (by simp [IsWord])

theorem length_squeeze_le (after : Bool) (s : Text) : (squeeze after s).length ≤ s.length := by
  induction s generalizing after with
  | nil => exact Nat.le_refl _
  | cons c s ih =>
    unfold squeeze
    split
    · exact (ih true).trans (Nat.le_succ _)
    · exact Nat.succ_le_succ (ih _)

/-- A word stays as it is. -/
theorem squeeze_word {w : Text} (hw : IsWord w) (after : Bool) (s : Text) :
    squeeze after (w ++ s) = w ++ squeeze (Terminated w) s := by
  have hfrom (w : Text) (hblank : ∀ c ∈ w, isBlank c = false) (after : Bool) :
      squeeze after (w ++ s) = w ++ squeeze ((w.getLast?.map isSentenceDelimChar).getD after) s := by
    induction w generalizing after with
    | nil => rfl
    | cons c w ih =>
      obtain ⟨hc, hblank⟩ := List.forall_mem_cons.1 hblank
      rw [List.cons_append, squeeze, hc, Bool.and_false, if_neg Bool.false_ne_true, ih hblank, List.cons_append]
      congr 2
      cases w with
      | nil => rfl
      | cons d w =>
        rw [List.getLast?_cons_cons]
        cases h : (d :: w).getLast? with
        | none => simp at h
        | some e => rfl
  rw [hfrom w hw.2]
  congr 2
  unfold Terminated
  cases h : w.getLast? with
  | none => exact absurd (List.getLast?_eq_none_iff.1 h) hw.1
  | some c => rfl

/-- The blanks between words stay, but those behind a delimiter. -/
theorem squeeze_joinWords_iff {words : List Text} (h : ∀ w ∈ words, IsWord w) (after : Bool) :
    squeeze after (joinWords words) = joinWords words ↔ ∀ w ∈ words.dropLast, Terminated w = false := by
  induction words generalizing after with
  | nil => simp [joinWords, squeeze]
  | cons w words ih =>
    obtain ⟨hw, h⟩ := List.forall_mem_cons.1 h
    cases words with
    | nil =>
      have hone := squeeze_word hw after []
      simpa [joinWords, squeeze] using hone
    | cons v words =>
      have hjoin : joinWords (w :: v :: words) = w ++ ' ' :: joinWords (v :: words) := by
        simp [joinWords, List.intercalate_cons_cons]
      rw [hjoin, squeeze_word hw, List.append_cancel_left_eq, List.dropLast_cons_cons, List.forall_mem_cons]
      cases hterminated : Terminated w with
      | true =>
        refine iff_of_false ?_ (by simp)
        intro heq
        have hlen := length_squeeze_le true (joinWords (v :: words))
        have hblank : squeeze true (' ' :: joinWords (v :: words)) = squeeze true (joinWords (v :: words)) := by
          rw [squeeze, if_pos (by decide)]
        rw [hblank] at heq
        rw [heq, List.length_cons] at hlen
        omega
      | false =>
        have hblank : squeeze false (' ' :: joinWords (v :: words)) = ' ' :: squeeze false (joinWords (v :: words)) := by
          rw [squeeze, if_neg (by decide)]
          rfl
        rw [hblank, List.cons.injEq, ih h false]
        simp

theorem newline_of_isWord {words : List Text} (h : ∀ w ∈ words, IsWord w) :
    ∀ c ∈ joinWords words, isNewline c = false := by
  have hchar {c : Char} (hc : isBlank c = false) : isNewline c = false := by
    cases hnewline : isNewline c with
    | false => rfl
    | true =>
      unfold isNewline at hnewline
      rcases Bool.or_eq_true_iff.1 hnewline with hnewline | hnewline
      · rw [eq_of_beq hnewline] at hc
        cases hc
      · rw [eq_of_beq hnewline] at hc
        cases hc
  exact forall_mem_spaced (P := fun c => isNewline c = false) (by decide) fun w hw c hc => hchar ((h w hw).2 c hc)

theorem last_joinWords {words : List Text} (h : ∀ w ∈ words, IsWord w) :
    ∀ c ∈ (joinWords words).getLast?, isBlank c = false := by
  induction words with
  | nil => simp [joinWords]
  | cons w words ih =>
    obtain ⟨hw, h⟩ := List.forall_mem_cons.1 h
    cases words with
    | nil =>
      have hjoin : joinWords [w] = w := by simp [joinWords]
      rw [hjoin]
      exact fun c hc => hw.2 c (List.mem_of_getLast? hc)
    | cons v words =>
      have hjoin : joinWords (w :: v :: words) = (w ++ [' ']) ++ joinWords (v :: words) := by
        simp [joinWords, List.intercalate_cons_cons]
      obtain ⟨c, hc⟩ : ∃ c, (joinWords (v :: words)).getLast? = some c := by
        cases hlast : (joinWords (v :: words)).getLast? with
        | some c => exact ⟨c, rfl⟩
        | none =>
          -- the next word is not empty
          have hnil := List.getLast?_eq_none_iff.1 hlast
          have hv : v = [] := by
            cases words with
            | nil => simpa [joinWords] using hnil
            | cons u words => simp [joinWords, List.intercalate_cons_cons] at hnil
          exact absurd hv (h v List.mem_cons_self).1
      rw [hjoin, List.getLast?_append, hc]
      intro d hd
      cases hd
      exact ih h c hc

/-- **A script of words comes back from the store** when no word but the last ends with a delimiter, and only then. -/
theorem flatten_words_iff (words : List Text) (h : ∀ w ∈ words, IsWord w) :
    flattenExecScript (joinSentences (splitSentences (joinWords words))) = joinWords words ↔
      ∀ w ∈ words.dropLast, Terminated w = false := by
  rw [flattenExecScript_joinSentences (document_splitSentences _),
    flatten_splitSentences (last_joinWords h) (newline_of_isWord h), squeeze_joinWords_iff h]

theorem flatten_words_path :
    flattenExecScript (joinSentences (splitSentences (joinWords [Text.lit "sh", Text.lit "./a.sh", Text.lit "b!"]))) =
      Text.lit "sh ./a.sh b!" :=
  (flatten_words_iff [Text.lit "sh", Text.lit "./a.sh", Text.lit "b!"] (by decide)).2 (by decide)

/-- A command that ends a sentence is joined to the next word. -/
theorem flatten_loses_blank :
    flattenExecScript (joinSentences (splitSentences (joinWords [Text.lit "ls", Text.lit ".", Text.lit "/tmp"]))) =
        Text.lit "ls ./tmp" ∧
      joinWords [Text.lit "ls", Text.lit ".", Text.lit "/tmp"] = Text.lit "ls . /tmp" := by
  decide

end CoWrite.Cluster
