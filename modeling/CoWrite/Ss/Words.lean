import CoWrite.Lib.Tables
import CoWrite.Ss.Normal
import CoWrite.Ss.Reading

/-!
# Edits by words

The three editors split the sentence into words, put words in and take words out, and join what is left.
`apply_words` says what the words of the new sentence are. A word that is appended takes over the delimiter of the
last one, which may be left empty: it leaves two spaces behind, and no word.
-/

namespace CoWrite.Ss

/-! ## Words of a text -/

section Split

theorem splitWordsFrom_append {t : Text} (ht : ∀ c ∈ t, isBlank c = false) (w s : Text) :
    splitWordsFrom w (t ++ s) = splitWordsFrom (w ++ t) s := by
  induction t generalizing w with
  | nil => simp
  | cons c t ih =>
    rw [List.forall_mem_cons] at ht
    rw [List.cons_append, splitWordsFrom, ht.1, if_neg Bool.false_ne_true, ih ht.2, List.append_assoc]
    rfl

theorem splitWordsFrom_space (w s : Text) : splitWordsFrom w (' ' :: s) = flushWord w ++ splitWords s := by
  rw [splitWordsFrom, if_pos (by decide)]
  rfl

theorem flushWord_eq_filter (w : Text) : flushWord w = [w].filter (· ≠ []) := by
  cases w with
  | nil => rfl
  | cons c w => simp [flushWord]

/-- A word has no spaces, and is not empty. -/
theorem mem_splitWordsFrom {w : Text} (hw : ∀ c ∈ w, isBlank c = false) (s : Text) :
    ∀ x ∈ splitWordsFrom w s, x ≠ [] ∧ ∀ c ∈ x, isBlank c = false := by
  have hflush {w : Text} (hw : ∀ c ∈ w, isBlank c = false) : ∀ x ∈ flushWord w, x ≠ [] ∧ ∀ c ∈ x, isBlank c = false := by
    intro x hx
    rw [flushWord_eq_filter, List.mem_filter, List.mem_singleton] at hx
    obtain ⟨rfl, hne⟩ := hx
    exact ⟨by simpa using hne, hw⟩
  induction s generalizing w with
  | nil => exact hflush hw
  | cons c s ih =>
    intro x hx
    rw [splitWordsFrom] at hx
    split at hx
    · rcases List.mem_append.1 hx with hx | hx
      · exact hflush hw x hx
      · exact ih (by simp) x hx
    · next hc =>
      refine ih ?_ x hx
      intro d hd
      rcases List.mem_append.1 hd with hd | hd
      · exact hw d hd
      · rw [List.mem_singleton.1 hd]
        simpa using hc

theorem mem_splitWords {s x : Text} (hx : x ∈ splitWords s) : x ≠ [] ∧ ∀ c ∈ x, isBlank c = false :=
  mem_splitWordsFrom (by simp) s x hx

theorem flatten_splitWordsFrom (w s : Text) : (splitWordsFrom w s).flatten = w ++ visible s := by
  have hflush (w : Text) : (flushWord w).flatten = w := by
    cases w with
    | nil => rfl
    | cons c w => simp [flushWord]
  induction s generalizing w with
  | nil =>
    rw [splitWordsFrom, hflush]
    exact (List.append_nil w).symm
  | cons c s ih =>
    rw [splitWordsFrom]
    split
    · next hc =>
      rw [List.flatten_append, hflush, ih, visible_blank hc]
      rfl
    · next hc =>
      have hcons : visible (c :: s) = c :: visible s := List.filter_cons_of_pos (by simpa using hc)
      rw [ih, hcons, List.append_assoc]
      rfl

/-- The words of a text are what is visible of it. -/
theorem flatten_splitWords (s : Text) : (splitWords s).flatten = visible s := flatten_splitWordsFrom [] s

/-- **The words of joined words** are the words, without the empty ones. -/
theorem splitWords_joinWords {ws : List Text} (h : ∀ w ∈ ws, ∀ c ∈ w, isBlank c = false) :
    splitWords (joinWords ws) = ws.filter (· ≠ []) := by
  induction ws with
  | nil => rfl
  | cons w ws ih =>
    rw [List.forall_mem_cons] at h
    have hsplit (s : Text) : splitWords (w ++ s) = splitWordsFrom w s := splitWordsFrom_append h.1 [] s
    have hfilter : (w :: ws).filter (· ≠ []) = flushWord w ++ ws.filter (· ≠ []) := by
      rw [flushWord_eq_filter, ← List.filter_append]
      rfl
    rw [hfilter]
    cases ws with
    | nil =>
      have hjoin : joinWords [w] = w ++ [] := by simp [joinWords]
      rw [hjoin, hsplit, splitWordsFrom]
      simp
    | cons v ws =>
      have hjoin : joinWords (w :: v :: ws) = w ++ ' ' :: joinWords (v :: ws) := by
        simp [joinWords, List.intercalate_cons_cons]
      rw [hjoin, hsplit, splitWordsFrom_space, ih h.2]

end Split

/-! ## What an edit makes of the words -/

/-- The delimiter at the end of the last word. -/
def endDelim (words : List Text) : Option Char := (words.getLast?.bind List.getLast?).filter isSentenceDelimChar

/-- The words with others behind them and their delimiter at the end of these. -/
def moveDelim (words new : List Text) (delim : Char) : List Text :=
  let words := words.dropLast ++ (words.getLast?.map List.dropLast).toList ++ new
  (words.dropLast ++ (words.getLast?.map (· ++ [delim])).toList).filter (· ≠ [])

/-- The words after an edit, if its index is one. -/
def Edit.words (words : List Text) : Edit → Option (List Text)
  | .insert index content =>
    if index < 0 ∨ index > words.length then none
    else
      match if index.toNat = words.length then endDelim words else none with
      | some delim => some (moveDelim words (splitWords content) delim)
      | none => some (words.take index.toNat ++ splitWords content ++ words.drop index.toNat)
  | .replace index content =>
    if index < 0 ∨ index ≥ words.length then none
    else some (words.take index.toNat ++ splitWords content ++ words.drop (index.toNat + 1))
  | .delete index => if index < 0 ∨ index ≥ words.length then none else some (words.eraseIdx index.toNat)

/-! ## The editors -/

theorem modify_last {α : Type*} (l : List α) (f : α → α) :
    l.modify (l.length - 1) f = l.dropLast ++ (l.getLast?.map f).toList := by
  rcases List.eq_nil_or_concat l with rfl | ⟨init, last, rfl⟩
  · rfl
  · have hmodify : (init ++ [last]).modify init.length f = init ++ [f last] := Lib.modify_append_length ..
    rw [List.concat_eq_append]
    simpa using hmodify

/-- The words that the insertion joins are these, and some that may be empty. -/
theorem insert_moveDelim {words : List Text} {delim : Char} (hdelim : endDelim words = some delim) (new : List Text) :
    (((words.modify (words.length - 1) List.dropLast).take words.length ++ new ++
        (words.modify (words.length - 1) List.dropLast).drop words.length).modify
      (if new.length > 0 then words.length + new.length - 1
        else ((words.modify (words.length - 1) List.dropLast).take words.length ++ new ++
          (words.modify (words.length - 1) List.dropLast).drop words.length).length - 1)
      (· ++ [delim])).filter (· ≠ []) = moveDelim words new delim := by
  have hlength : (words.modify (words.length - 1) List.dropLast).length = words.length := List.length_modify ..
  have hwords : words ≠ [] := by
    rintro rfl
    cases hdelim
  have hpos : 0 < words.length := List.length_pos_iff.2 hwords
  rw [List.take_of_length_le hlength.le, List.drop_eq_nil_of_le hlength.le, List.append_nil]
  -- the delimiter goes to the last word, whether there are new ones or not
  have htarget : (if new.length > 0 then words.length + new.length - 1
      else (words.modify (words.length - 1) List.dropLast ++ new).length - 1) =
      (words.modify (words.length - 1) List.dropLast ++ new).length - 1 := by
    rw [List.length_append, hlength]
    split
    · rfl
    · rfl
  rw [htarget, modify_last, modify_last]
  rfl

/-- What holds of the old words and of the new ones holds of all. -/
theorem forall_mem_put {P : Text → Prop} {words new : List Text} (hwords : ∀ w ∈ words, P w) (hnew : ∀ w ∈ new, P w)
    (i j : Nat) : ∀ w ∈ words.take i ++ new ++ words.drop j, P w := by
  intro w hw
  rcases List.mem_append.1 hw with hw | hw
  · rcases List.mem_append.1 hw with hw | hw
    · exact hwords w (List.mem_of_mem_take hw)
    · exact hnew w hw
  · exact hwords w (List.mem_of_mem_drop hw)

section Apply

variable {session : WriteSession} (hactive : session.active = true)

/-- The words that are not empty are kept by joining and splitting. -/
theorem splitWords_joinWords_self {words : List Text} (h : ∀ w ∈ words, w ≠ [] ∧ ∀ c ∈ w, isBlank c = false) :
    splitWords (joinWords words) = words := by
  rw [splitWords_joinWords fun w hw => (h w hw).2, List.filter_eq_self]
  intro w hw
  simpa using (h w hw).1

include hactive

theorem insert_words (index : Int) (content : Text) :
    (Edit.words (splitWords session.sentenceText) (.insert index content) = none →
      writeSessionApplyInsert session index content = .error .EINVAL) ∧
    ∀ words, Edit.words (splitWords session.sentenceText) (.insert index content) = some words →
      ∃ t, writeSessionApplyInsert session index content = .ok { session with sentenceText := t } ∧
        splitWords t = words := by
  have hold : ∀ w ∈ splitWords session.sentenceText, w ≠ [] ∧ ∀ c ∈ w, isBlank c = false := fun w => mem_splitWords
  have hnew : ∀ w ∈ splitWords content, w ≠ [] ∧ ∀ c ∈ w, isBlank c = false := fun w => mem_splitWords
  unfold writeSessionApplyInsert Edit.words
  dsimp only
  generalize splitWords session.sentenceText = W at hold ⊢
  generalize splitWords content = C at hnew ⊢
  rw [hactive, Bool.not_true, if_neg Bool.false_ne_true]
  by_cases hneg : index < 0
  · rw [if_pos hneg, if_pos (.inl hneg)]
    exact ⟨fun _ => rfl, nofun⟩
  rw [if_neg hneg]
  by_cases hlong : index > W.length
  · rw [if_pos (.inr hlong), if_pos (by omega)]
    exact ⟨fun _ => rfl, nofun⟩
  rw [if_neg (show ¬ (index < 0 ∨ index > W.length) by omega), if_neg (show ¬ index.toNat > W.length by omega)]
  have hsource : (W.getLast?.bind List.getLast?).filter isSentenceDelimChar = endDelim W := rfl
  rw [hsource]
  cases hdelim : (if index.toNat = W.length then endDelim W else none) with
  | none =>
    refine ⟨nofun, ?_⟩
    rintro words hwords
    cases hwords
    refine ⟨_, rfl, ?_⟩
    have hsame : (fun w : Text => w ++ (none : Option Char).toList) = id := by
      funext w
      exact List.append_nil w
    rw [Option.isSome_none, if_neg Bool.false_ne_true, hsame, List.modify_id]
    apply splitWords_joinWords_self
    exact forall_mem_put hold hnew _ _
  | some delim =>
    obtain ⟨hidx, hdelim⟩ := Option.ite_none_right_eq_some.1 hdelim
    have hblank : isBlank delim = false := isBlank_of_delim (Option.filter_eq_some_iff.1 hdelim).2
    refine ⟨nofun, ?_⟩
    rintro words hwords
    cases hwords
    refine ⟨_, rfl, ?_⟩
    rw [Option.isSome_some, if_pos rfl, hidx]
    dsimp only [Option.toList_some]
    rw [splitWords_joinWords, insert_moveDelim hdelim]
    -- no word gets a space
    have hopen : ∀ w ∈ W.modify (W.length - 1) List.dropLast, ∀ c ∈ w, isBlank c = false := by
      apply Lib.forall_mem_modify fun w hw => (hold w hw).2
      intro w hw c hc
      exact (hold w hw).2 c (List.dropLast_subset _ hc)
    have hput := forall_mem_put hopen (fun w hw => (hnew w hw).2) W.length W.length
    apply Lib.forall_mem_modify hput
    intro w hw c hc
    rcases List.mem_append.1 hc with hc | hc
    · exact hput w hw c hc
    · rw [List.mem_singleton.1 hc]
      exact hblank

theorem replace_words (index : Int) (content : Text) :
    (Edit.words (splitWords session.sentenceText) (.replace index content) = none →
      writeSessionApplyReplace session index content = .error .EINVAL) ∧
    ∀ words, Edit.words (splitWords session.sentenceText) (.replace index content) = some words →
      ∃ t, writeSessionApplyReplace session index content = .ok { session with sentenceText := t } ∧
        splitWords t = words := by
  have hold : ∀ w ∈ splitWords session.sentenceText, w ≠ [] ∧ ∀ c ∈ w, isBlank c = false := fun w => mem_splitWords
  have hnew : ∀ w ∈ splitWords content, w ≠ [] ∧ ∀ c ∈ w, isBlank c = false := fun w => mem_splitWords
  unfold writeSessionApplyReplace Edit.words
  dsimp only
  generalize splitWords session.sentenceText = W at hold ⊢
  generalize splitWords content = C at hnew ⊢
  rw [hactive, Bool.not_true, if_neg Bool.false_ne_true]
  by_cases hneg : index < 0
  · rw [if_pos hneg, if_pos (.inl hneg)]
    exact ⟨fun _ => rfl, nofun⟩
  rw [if_neg hneg]
  by_cases hlong : index ≥ W.length
  · rw [if_pos (.inr hlong), if_pos (by omega)]
    exact ⟨fun _ => rfl, nofun⟩
  rw [if_neg (by omega), if_neg (by omega)]
  refine ⟨nofun, ?_⟩
  rintro words hwords
  cases hwords
  refine ⟨_, rfl, ?_⟩
  have hsplit : (W.eraseIdx index.toNat).take index.toNat ++ C ++ (W.eraseIdx index.toNat).drop index.toNat =
      W.take index.toNat ++ C ++ W.drop (index.toNat + 1) := by
    have hlength : (W.take index.toNat).length = index.toNat := by
      rw [List.length_take]
      omega
    rw [List.eraseIdx_eq_take_drop_succ, List.take_left' hlength, List.drop_left' hlength]
  rw [hsplit]
  apply splitWords_joinWords_self
  exact forall_mem_put hold hnew _ _

theorem delete_words (index : Int) :
    (Edit.words (splitWords session.sentenceText) (.delete index) = none →
      writeSessionApplyDelete session index = .error .EINVAL) ∧
    ∀ words, Edit.words (splitWords session.sentenceText) (.delete index) = some words →
      ∃ t, writeSessionApplyDelete session index = .ok { session with sentenceText := t } ∧ splitWords t = words := by
  have hold : ∀ w ∈ splitWords session.sentenceText, w ≠ [] ∧ ∀ c ∈ w, isBlank c = false := fun w => mem_splitWords
  unfold writeSessionApplyDelete Edit.words
  dsimp only
  generalize splitWords session.sentenceText = W at hold ⊢
  rw [hactive, Bool.not_true, if_neg Bool.false_ne_true]
  by_cases hneg : index < 0
  · rw [if_pos hneg, if_pos (.inl hneg)]
    exact ⟨fun _ => rfl, nofun⟩
  rw [if_neg hneg]
  by_cases hlong : index ≥ W.length
  · rw [if_pos (.inr hlong), if_pos (by omega)]
    exact ⟨fun _ => rfl, nofun⟩
  rw [if_neg (by omega), if_neg (by omega)]
  refine ⟨nofun, ?_⟩
  rintro words hwords
  cases hwords
  refine ⟨_, rfl, ?_⟩
  apply splitWords_joinWords_self
  intro w hw
  exact hold w (List.mem_of_mem_eraseIdx hw)

/-- **What an edit makes of the words.** It is refused, and the session left as it is, exactly if its index is none;
otherwise the words of the new sentence are those of `Edit.words`, and nothing else is visible of it. -/
theorem apply_words (e : Edit) :
    (Edit.words (splitWords session.sentenceText) e = none ↔ session.apply e = .error .EINVAL) ∧
    (Edit.words (splitWords session.sentenceText) e = none → session.edit e = session) ∧
    ∀ words, Edit.words (splitWords session.sentenceText) e = some words →
      ∃ t, session.apply e = .ok { session with sentenceText := t } ∧ splitWords t = words ∧
        visible t = words.flatten := by
  have hcases : (Edit.words (splitWords session.sentenceText) e = none → session.apply e = .error .EINVAL) ∧
      ∀ words, Edit.words (splitWords session.sentenceText) e = some words →
        ∃ t, session.apply e = .ok { session with sentenceText := t } ∧ splitWords t = words := by
    cases e with
    | insert index content => exact insert_words hactive index content
    | replace index content => exact replace_words hactive index content
    | delete index => exact delete_words hactive index
  obtain ⟨hnone, hsome⟩ := hcases
  refine ⟨⟨hnone, ?_⟩, ?_, ?_⟩
  · intro hrefused
    cases hwords : Edit.words (splitWords session.sentenceText) e with
    | none => rfl
    | some words =>
      obtain ⟨t, hok, -⟩ := hsome words hwords
      rw [hok] at hrefused
      cases hrefused
  · intro hwords
    rw [WriteSession.edit, hnone hwords]
  · intro words hwords
    obtain ⟨t, hok, hsplit⟩ := hsome words hwords
    refine ⟨t, hok, hsplit, ?_⟩
    rw [← flatten_splitWords, hsplit]

end Apply

/-- A word behind the last one takes over its delimiter. -/
theorem apply_words_appended : ∃ t, (writeOf (Text.lit "Hi.")).apply (.insert 1 (Text.lit "there")) =
      .ok { writeOf (Text.lit "Hi.") with sentenceText := t } ∧
    splitWords t = [Text.lit "Hi", Text.lit "there."] ∧ visible t = Text.lit "Hithere." := by
  have hactive : (writeOf (Text.lit "Hi.")).active = true := rfl
  exact (apply_words hactive (.insert 1 (Text.lit "there"))).2.2 _ (by decide)

end CoWrite.Ss
