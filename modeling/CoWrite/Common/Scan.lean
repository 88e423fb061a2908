import CoWrite.Common.Number

/-!
# Lines and fields

What `fgets`, `strtok_r` and `sscanf` read of a text that was printed as lines of fields with a blank
between them: the lines (`readLines_lines`), all fields of a line (`strtok_spaced`), the next field
(`scanToken_append`).
-/

namespace CoWrite

/-- Fields with a blank between them. -/
def spaced (fields : List Text) : Text := List.intercalate [' '] fields

/-! ## Reading lines -/

/-- `fgets` into 512 bytes, the newline cut off: the line and the rest of the file. -/
def fgets (s : Text) : Text × Text :=
  let chunk := s.take 511
  let line := chunk.takeWhile (· != '\n')
  (line, s.drop (if '\n' ∈ chunk then line.length + 1 else 511))

/-- The lines `fgets` returns, for a file of at most `fuel` bytes. -/
def readLinesFrom : Nat → Text → List Text
  | 0, _ => []
  | _, [] => []
  | fuel + 1, s => (fgets s).1 :: readLinesFrom fuel (fgets s).2

def readLines (s : Text) : List Text := readLinesFrom s.length s

/-! ## Reading fields -/

/-- `%<width>s` of `sscanf`: the field and the rest. -/
def scanToken (width : Nat) (s : Text) : Option (Text × Text) :=
  let s := s.dropWhile isSpace
  let token := (s.takeWhile fun c => !isSpace c).take width
  if token.isEmpty then none else some (token, s.drop token.length)

/-- The tokens of `strtok_r(s, " ", ..)`. -/
def strtok (s : Text) : List Text := (s.splitOn ' ').filter fun t => !t.isEmpty

/-- White space, or nothing, comes next. -/
def SpaceHead (s : Text) : Prop := ∀ c ∈ s.head?, isSpace c = true

/-- A field for `sscanf`. -/
def Word (t : Text) : Prop := t ≠ [] ∧ ∀ c ∈ t, isSpace c = false

/-- A field for `strtok_r` in a line. -/
def Token (t : Text) : Prop := t ≠ [] ∧ ' ' ∉ t ∧ '\n' ∉ t

theorem Word.token {t : Text} (h : Word t) : Token t :=
  ⟨h.1, fun hm => by simpa [isSpace] using h.2 _ hm, fun hm => by simpa [isSpace] using h.2 _ hm⟩

theorem Token.newline {t : Text} (h : Token t) : '\n' ∉ t := h.2.2

theorem Word.newline {t : Text} (h : Word t) : '\n' ∉ t := h.token.newline

/-! ## Fields with blanks between them -/

theorem spaced_singleton (t : Text) : spaced [t] = t := List.intercalate_singleton

theorem spaced_cons_cons (t u : Text) (ts : List Text) :
    spaced (t :: u :: ts) = t ++ ' ' :: spaced (u :: ts) := by
  simp [spaced, List.intercalate_cons_cons]

theorem forall_mem_spaced {P : Char → Prop} (hb : P ' ') :
    ∀ {ts : List Text}, (∀ t ∈ ts, ∀ c ∈ t, P c) → ∀ c ∈ spaced ts, P c
  | [], _ => by simp [spaced]
  | [t], h => by simpa [spaced_singleton] using h
  | t :: u :: ts, h => by
    rw [List.forall_mem_cons] at h
    rw [spaced_cons_cons, List.forall_mem_append, List.forall_mem_cons]
    exact ⟨h.1, hb, forall_mem_spaced hb h.2⟩

theorem length_spaced_le : ∀ ts : List Text, (spaced ts).length ≤ (ts.map List.length).sum + ts.length
  | [] => by simp [spaced]
  | [t] => by simp [spaced_singleton]
  | t :: u :: ts => by
    have := length_spaced_le (u :: ts)
    simp only [spaced_cons_cons, List.length_append, List.length_cons, List.map_cons, List.sum_cons] at *
    omega

theorem strtok_spaced {ts : List Text} (h : ∀ t ∈ ts, Token t) (hts : ts ≠ []) :
    strtok (spaced ts) = ts := by
  unfold strtok spaced
  rw [List.splitOn_intercalate ' ' (fun t ht => (h t ht).2.1) hts, List.filter_eq_self]
  intro t ht
  simpa using (h t ht).1

theorem mem_splitOn {a : Char} {s t : Text} (h : t ∈ s.splitOn a) : a ∉ t ∧ ∀ c ∈ t, c ∈ s := by
  induction s generalizing t with
  | nil => simp_all
  | cons x s ih =>
    rw [List.splitOn_cons_eq_if_modifyHead] at h
    split at h
    · rcases List.mem_cons.1 h with rfl | h
      · simp
      · exact ⟨(ih h).1, fun c hc => List.mem_cons_of_mem _ ((ih h).2 c hc)⟩
    · next hx =>
      obtain ⟨u, us, hu⟩ := List.exists_cons_of_ne_nil (List.splitOn_ne_nil a s)
      rw [hu, List.modifyHead_cons] at h
      rcases List.mem_cons.1 h with rfl | h
      · have := ih (t := u) (by simp [hu])
        simp_all
        grind
      · have := ih (t := t) (by simp [hu, h])
        exact ⟨this.1, fun c hc => List.mem_cons_of_mem _ (this.2 c hc)⟩

/-- Every token of a line is one in the sense of `Token`. -/
theorem token_of_mem_strtok {s t : Text} (hs : '\n' ∉ s) (h : t ∈ strtok s) : Token t := by
  simp only [strtok, List.mem_filter] at h
  obtain ⟨hm, hne⟩ := h
  obtain ⟨hb, hsub⟩ := mem_splitOn hm
  exact ⟨by simpa using hne, hb, fun hn => hs (hsub _ hn)⟩

/-! ## The next field -/

theorem spaceHead_blank (s : Text) : SpaceHead (' ' :: s) := by simp [SpaceHead, isSpace]

theorem scanToken_blank (width : Nat) (s : Text) : scanToken width (' ' :: s) = scanToken width s := by
  have hdrop : (' ' :: s).dropWhile isSpace = s.dropWhile isSpace := List.dropWhile_cons_of_pos rfl
  simp only [scanToken, hdrop]

theorem strtol_blank (s : Text) : strtol (' ' :: s) = strtol s := by
  have hdrop : (' ' :: s).dropWhile isSpace = s.dropWhile isSpace := List.dropWhile_cons_of_pos rfl
  simp only [strtol, scanInt, hdrop]

/-- A word that fits the field is read up to what follows it. -/
theorem scanToken_append {t : Text} (ht : Word t) {width : Nat} (hw : t.length ≤ width) {rest : Text}
    (hr : SpaceHead rest) : scanToken width (t ++ rest) = some (t, rest) := by
  obtain ⟨c, t, rfl⟩ := List.exists_cons_of_ne_nil ht.1
  have hdrop : (c :: t ++ rest).dropWhile isSpace = c :: t ++ rest := by
    simp [ht.2 c (by simp)]
  have htake : (c :: t ++ rest).takeWhile (fun c => !isSpace c) = c :: t := by
    rw [List.takeWhile_append_of_pos fun a ha => by simp [ht.2 a ha]]
    cases rest with
    | nil => simp
    | cons a rest =>
      have ha : isSpace a = true := hr a (by simp)
      simp [ha]
  simp only [scanToken, hdrop, htake, List.take_of_length_le hw, List.isEmpty_cons, Bool.false_eq_true,
    ↓reduceIte, List.drop_left]

/-- What a field reads is a word. -/
theorem word_of_scanToken {width : Nat} {s t rest : Text} (h : scanToken width s = some (t, rest)) :
    Word t := by
  simp only [scanToken] at h
  split at h
  · cases h
  · next hne =>
    cases h
    refine ⟨by simpa using hne, fun c hc => ?_⟩
    have := List.all_eq_true.1 List.all_takeWhile c (List.mem_of_mem_take hc)
    simpa using this

/-! ## Lines -/

/-- A line that `fgets` reads in one go. -/
def Fits (line : Text) : Prop := '\n' ∉ line ∧ line.length ≤ 510

theorem fits_spaced {ts : List Text} (hn : ∀ t ∈ ts, '\n' ∉ t)
    (hl : (ts.map List.length).sum + ts.length ≤ 510) : Fits (spaced ts) := by
  refine ⟨fun hm => ?_, Nat.le_trans (length_spaced_le ts) hl⟩
  refine forall_mem_spaced (P := (· ≠ '\n')) (by decide) (fun t ht c hc => ?_) _ hm rfl
  exact ne_of_mem_of_not_mem hc (hn t ht)

theorem fgets_line {line : Text} (h : Fits line) (rest : Text) :
    fgets (line ++ '\n' :: rest) = (line, rest) := by
  obtain ⟨hn, hlen⟩ := h
  have htake : (line ++ '\n' :: rest).take 511 = line ++ '\n' :: rest.take (510 - line.length) := by
    rw [List.take_append, List.take_of_length_le (by omega)]
    obtain ⟨k, hk⟩ : ∃ k, 511 - line.length = k + 1 := ⟨510 - line.length, by omega⟩
    rw [hk, List.take_succ_cons]
    congr 3
    omega
  have hline : (line ++ '\n' :: rest.take (510 - line.length)).takeWhile (· != '\n') = line := by
    have hall : ∀ c ∈ line, (c != '\n') = true := fun c hc => by
      simpa using ne_of_mem_of_not_mem hc hn
    simp [List.takeWhile_append_of_pos hall]
  simp [fgets, htake, hline]

theorem readLinesFrom_lines {lines : List Text} (h : ∀ l ∈ lines, Fits l) {fuel : Nat}
    (hf : lines.length ≤ fuel) : readLinesFrom fuel (lines.flatMap (· ++ ['\n'])) = lines := by
  induction lines generalizing fuel with
  | nil => cases fuel <;> rfl
  | cons l lines ih =>
    rw [List.forall_mem_cons] at h
    obtain ⟨fuel, rfl⟩ : ∃ k, fuel = k + 1 := ⟨fuel - 1, by simp at hf; omega⟩
    have heq : (l :: lines).flatMap (· ++ ['\n']) = l ++ '\n' :: lines.flatMap (· ++ ['\n']) := by simp
    have hne : l ++ '\n' :: lines.flatMap (· ++ ['\n']) ≠ [] := by simp
    rw [heq, readLinesFrom, fgets_line h.1]
    · simp [ih h.2 (by simpa using hf)]
    · exact hne

/-- Short lines, each ended by a newline, are read back. -/
theorem readLines_lines {lines : List Text} (h : ∀ l ∈ lines, Fits l) :
    readLines (lines.flatMap (· ++ ['\n'])) = lines := by
  refine readLinesFrom_lines h ?_
  induction lines with
  | nil => simp
  | cons l lines ih =>
    have := ih (List.forall_mem_cons.1 h).2
    simp only [List.flatMap_cons, List.length_append, List.length_cons, List.length_nil]
    omega

theorem newline_not_mem_readLinesFrom (fuel : Nat) (s : Text) : ∀ l ∈ readLinesFrom fuel s, '\n' ∉ l := by
  induction fuel generalizing s with
  | zero => simp [readLinesFrom]
  | succ fuel ih =>
    cases s with
    | nil => simp [readLinesFrom]
    | cons c s =>
      rw [readLinesFrom, List.forall_mem_cons]
      · refine ⟨fun hn => ?_, ih _⟩
        simpa using List.all_eq_true.1 List.all_takeWhile _ hn
      · simp

/-- No line has a newline of its own. -/
theorem newline_not_mem_readLines (s : Text) : ∀ l ∈ readLines s, '\n' ∉ l :=
  newline_not_mem_readLinesFrom _ s

end CoWrite
