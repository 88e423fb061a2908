import CoWrite.Common.Json

/-!
# Flat messages

Every frame the program formats is one object without nesting, `{"key":value,…}`, whose values are
strings or numbers. What the readers of `CoWrite.Common.Json` find in such a frame:

* `exists_strstr_printFields`: the search for a key stops at the first field with that key if the
  fields before it are well formed, whatever stands behind.
* `strstr_printFields_eq_none`: in a well-formed message the search for a key it does not have fails,
  whatever text the values carry.
-/

namespace CoWrite

/-- What stands behind a key: a string, printed between quotes as it is, or a number. -/
inductive Value where
  | string (text : Text)
  | number (text : Text)
deriving DecidableEq, Repr

def Value.print : Value → Text
  | .string text => '"' :: text ++ ['"']
  | .number text => text

abbrev Field := Text × Value

def printField (f : Field) : Text := '"' :: f.1 ++ '"' :: ':' :: f.2.print

def printFields (fs : List Field) : Text := List.intercalate [','] (fs.map printField)

def printMessage (fs : List Field) : Text := '{' :: printFields fs ++ ['}']

/-- A key of the protocol: letters only. -/
def IsKey (key : Text) : Prop := key ≠ [] ∧ ∀ c ∈ key, c.isAlpha

instance (key : Text) : Decidable (IsKey key) :=
  decidable_of_iff (key ≠ [] ∧ key.all Char.isAlpha = true) (by simp [IsKey])

/-- A value that a reader cannot mistake for the end of the string. -/
def Value.WellFormed : Value → Prop
  | .string text => Escaped text
  | .number text => '"' ∉ text

instance : DecidablePred Value.WellFormed
  | .string text => inferInstanceAs (Decidable (Escaped text = true))
  | .number text => inferInstanceAs (Decidable ('"' ∉ text))

def WellFormed (fs : List Field) : Prop := ∀ f ∈ fs, IsKey f.1 ∧ f.2.WellFormed

/-! ## Searching -/

theorem strstr_cons_of_ne {c : Char} (hc : c ≠ '"') (pattern s : Text) :
    strstr ('"' :: pattern) (c :: s) = strstr ('"' :: pattern) s := by
  have : ('"' :: pattern).isPrefixOf (c :: s) = false := by simp [List.isPrefixOf, Ne.symm hc]
  simp [strstr, this]

theorem strstr_append_of_not_mem {x : Text} (hx : '"' ∉ x) (pattern s : Text) :
    strstr ('"' :: pattern) (x ++ s) = strstr ('"' :: pattern) s := by
  induction x with
  | nil => rfl
  | cons c x ih =>
    simp only [List.mem_cons, not_or] at hx
    rw [List.cons_append, strstr_cons_of_ne (Ne.symm hx.1), ih hx.2]

theorem strstr_of_not_isPrefix {c : Char} {pattern s : Text} (h : ¬ pattern <+: c :: s) :
    strstr pattern (c :: s) = strstr pattern s := by
  rw [← List.isPrefixOf_iff_prefix] at h
  simp [strstr, h]

/-- The search ends at once at a text that starts with the pattern. -/
theorem strstr_append (pattern s : Text) : strstr pattern (pattern ++ s) = some s := by
  cases pattern with
  | nil => cases s <;> simp [strstr]
  | cons c pattern =>
    have hmatch : (c :: pattern).isPrefixOf (c :: (pattern ++ s)) = true :=
      List.isPrefixOf_iff_prefix.2 ⟨s, rfl⟩
    rw [List.cons_append, strstr, if_pos hmatch]
    simp

/-- The pattern the readers search for, up to what has to follow the colon. -/
def keyColon (key : Text) : Text := '"' :: key ++ ['"', ':']

theorem IsKey.ne {key : Text} (h : IsKey key) {c : Char} (hc : c.isAlpha = false) : c ∉ key :=
  fun hm => by simp [h.2 c hm] at hc

theorem IsKey.plain {key : Text} (h : IsKey key) : Plain key := ⟨h.ne (by decide), h.ne (by decide)⟩

/-- Nothing that starts with a character other than a letter follows the quote of a match. -/
theorem IsKey.not_isPrefix {key : Text} (hkey : IsKey key) {c : Char} (hc : c.isAlpha = false) (t s : Text) :
    ¬ keyColon key ++ t <+: '"' :: c :: s := by
  obtain ⟨hne, ha⟩ := hkey
  cases key with
  | nil => exact absurd rfl hne
  | cons k key =>
    intro h
    simp only [keyColon, List.cons_append, List.cons_prefix_cons, true_and] at h
    simp [← h.1, ha k (by simp)] at hc

section Key

variable {key : Text} (hkey : Plain key)

include hkey

/-- Neither the quote that opens an escaped string nor one inside it starts a match. -/
theorem not_keyColon_isPrefix_escaped {e : Text} (he : Escaped e) {c : Char} (hc : c ≠ ':')
    (s : Text) : ¬ keyColon key <+: '"' :: (e ++ '"' :: c :: s) := by
  obtain ⟨hq, hb⟩ := hkey
  intro h
  simp only [keyColon, List.cons_append, List.cons_prefix_cons, true_and] at h
  induction key generalizing e with
  | nil =>
    cases e with
    | nil => simp [Ne.symm hc] at h
    | cons d e =>
      simp only [List.nil_append, List.cons_append, List.cons_prefix_cons] at h
      obtain ⟨rfl, -⟩ := h
      simp [Escaped] at he
  | cons k key ih =>
    simp only [List.mem_cons, not_or] at hq hb
    cases e with
    | nil => simp [Ne.symm hq.1] at h
    | cons d e =>
      simp only [List.cons_append, List.cons_prefix_cons] at h
      obtain ⟨rfl, h⟩ := h
      rw [escaped_cons (Ne.symm hq.1) (Ne.symm hb.1)] at he
      exact ih he hq.2 hb.2 h

/-- Between two quotes the readers look for exactly their key, and for the colon behind. -/
theorem keyColon_append_isPrefix {k : Text} (hk : '"' ∉ k) (t s : Text) :
    keyColon key ++ t <+: '"' :: (k ++ '"' :: s) ↔ k = key ∧ ':' :: t <+: s := by
  obtain ⟨hq, -⟩ := hkey
  simp only [keyColon, List.cons_append, List.cons_prefix_cons, true_and, List.append_assoc,
    List.nil_append]
  induction key generalizing k with
  | nil =>
    cases k with
    | nil => simp
    | cons c k => simp_all
  | cons d key ih =>
    simp only [List.mem_cons, not_or] at hq
    cases k with
    | nil => simp [Ne.symm hq.1]
    | cons c k =>
      simp only [List.mem_cons, not_or] at hk
      rw [List.cons_append, List.cons_append, List.cons_prefix_cons, List.cons.injEq, and_assoc]
      exact and_congr eq_comm (ih hk.2 hq.2)

/-- The search runs past a string whose quotes are escaped, unless the one that closes it starts a match. -/
theorem strstr_escaped {e : Text} (he : Escaped e) {c : Char} (hc : c ≠ ':') {t s : Text}
    (hend : ¬ keyColon key ++ t <+: '"' :: c :: s) :
    strstr (keyColon key ++ t) ('"' :: (e ++ '"' :: c :: s)) =
      strstr (keyColon key ++ t) (c :: s) := by
  have hpre {x : Text} (h : ¬ keyColon key <+: '"' :: x) :
      strstr (keyColon key ++ t) ('"' :: x) = strstr (keyColon key ++ t) x :=
    strstr_of_not_isPrefix fun hp => h ((List.prefix_append _ _).trans hp)
  refine (hpre (not_keyColon_isPrefix_escaped hkey he hc s)).trans ?_
  induction e using Escaped.induct with
  | case1 => exact strstr_of_not_isPrefix hend
  | case2 => simp [Escaped] at he
  | case3 => simp [Escaped] at he
  | case4 d e ih =>
    simp only [Escaped] at he
    rw [List.cons_append, List.cons_append, keyColon, List.cons_append, List.cons_append,
      strstr_cons_of_ne (by decide)]
    by_cases hd : d = '"'
    · subst hd
      exact (hpre (not_keyColon_isPrefix_escaped hkey he hc s)).trans (ih he)
    · rw [strstr_cons_of_ne hd]
      exact ih he
  | case5 d e hq h1 h2 ih =>
    have hb : d ≠ '\\' := by
      rintro rfl
      cases e with
      | nil => exact h1 rfl rfl
      | cons d e => exact h2 d e rfl rfl
    rw [escaped_cons (fun e => hq e) hb] at he
    rw [List.cons_append, keyColon, List.cons_append, List.cons_append,
      strstr_cons_of_ne (fun e => hq e)]
    exact ih he

/-- Where the search stands after the key of a field and its colon. -/
theorem strstr_printField {k : Text} (hk : '"' ∉ k) (t s : Text)
    (hclose : ¬ keyColon key ++ t <+: '"' :: ':' :: s) (h : ¬ (k = key ∧ t <+: s)) :
    strstr (keyColon key ++ t) ('"' :: (k ++ '"' :: ':' :: s)) = strstr (keyColon key ++ t) s := by
  have hopen : ¬ keyColon key ++ t <+: '"' :: (k ++ '"' :: ':' :: s) := by
    rw [keyColon_append_isPrefix hkey hk, List.cons_prefix_cons]
    rintro ⟨hk, -, ht⟩
    exact h ⟨hk, ht⟩
  rw [strstr_of_not_isPrefix hopen, keyColon, List.cons_append, List.cons_append,
    strstr_append_of_not_mem hk]
  exact (strstr_of_not_isPrefix hclose).trans (strstr_cons_of_ne (by decide) _ _)

/-- The search passes a well-formed field that is not a match, nor either quote at its ends. -/
theorem strstr_skip_field {f : Field} (hk : '"' ∉ f.1) (hv : f.2.WellFormed) {t : Text} {c : Char}
    (hc : c ≠ ':') {s : Text} (hclose : ¬ keyColon key ++ t <+: '"' :: ':' :: (f.2.print ++ c :: s))
    (hend : ¬ keyColon key ++ t <+: '"' :: c :: s) (h : ¬ (f.1 = key ∧ t <+: f.2.print ++ c :: s)) :
    strstr (keyColon key ++ t) (printField f ++ c :: s) = strstr (keyColon key ++ t) (c :: s) := by
  obtain ⟨k, v⟩ := f
  have hkey' := strstr_printField hkey hk t (v.print ++ c :: s) hclose h
  cases v with
  | string e =>
    have he : Escaped e := hv
    have hval := strstr_escaped hkey he hc hend
    simp only [printField, Value.print, List.cons_append, List.append_assoc, List.nil_append] at *
    exact hkey'.trans hval
  | number n =>
    have hn : '"' ∉ n := hv
    have hval : strstr (keyColon key ++ t) (n ++ c :: s) = strstr (keyColon key ++ t) (c :: s) :=
      strstr_append_of_not_mem hn _ _
    simp only [printField, Value.print, List.cons_append, List.append_assoc] at *
    exact hkey'.trans hval

end Key

/-! ## Messages -/

/-- The fields carry no string under the key. -/
def NoString (key : Text) (fs : List Field) : Prop := ∀ f ∈ fs, f.1 = key → ∀ v, f.2 ≠ .string v

theorem noString_nil {key : Text} : NoString key [] := by simp [NoString]

theorem noString_cons {key : Text} {f : Field} {fs : List Field} :
    NoString key (f :: fs) ↔ (f.1 = key → ∀ v, f.2 ≠ .string v) ∧ NoString key fs :=
  List.forall_mem_cons

theorem wellFormed_cons {f : Field} {fs : List Field} :
    WellFormed (f :: fs) ↔ (IsKey f.1 ∧ f.2.WellFormed) ∧ WellFormed fs :=
  List.forall_mem_cons

theorem printFields_cons_cons (f g : Field) (fs : List Field) :
    printFields (f :: g :: fs) = printField f ++ ',' :: printFields (g :: fs) := by
  simp [printFields, List.intercalate_cons_cons]

/-- The value of a number does not start with a quote, and neither does what follows it. -/
theorem not_quote_isPrefix_print {f : Field} {key : Text} (hv : f.2.WellFormed)
    (hno : f.1 = key → ∀ v, f.2 ≠ .string v) {c : Char} (hc : c ≠ '"') (s : Text) :
    ¬ (f.1 = key ∧ ['"'] <+: f.2.print ++ c :: s) := by
  rintro ⟨hk, hp⟩
  have hno := hno hk
  obtain ⟨k, v⟩ := f
  cases v with
  | string e => exact hno e rfl
  | number n =>
    have hn : '"' ∉ n := hv
    cases n with
    | nil =>
      have hp : '"' = c := by simpa [Value.print] using hp
      exact hc hp.symm
    | cons d n => exact hn (by simp_all [Value.print])

/-- The search for a string passes the fields before it, if it passes each in front of the next. -/
theorem exists_strstr_of_skip {key v : Text} {pre : List Field}
    (hskip : ∀ f ∈ pre, ∀ g ∈ pre ++ [(key, .string v)], ∀ s,
      strstr (keyColon key ++ ['"']) (printField f ++ ',' :: (printField g ++ s)) =
        strstr (keyColon key ++ ['"']) (',' :: (printField g ++ s))) (post : List Field) :
    ∃ rest, strstr (keyColon key ++ ['"'])
      (printFields (pre ++ (key, .string v) :: post) ++ ['}']) = some (v ++ '"' :: rest) := by
  induction pre with
  | nil =>
    have hmatch (s : Text) : strstr (keyColon key ++ ['"'])
        (printField (key, .string v) ++ s) = some (v ++ '"' :: s) := by
      have hsplit : printField (key, .string v) ++ s = (keyColon key ++ ['"']) ++ (v ++ '"' :: s) := by
        simp [keyColon, printField, Value.print]
      rw [hsplit]
      exact strstr_append ..
    cases post with
    | nil => exact ⟨_, by simpa [printFields] using hmatch ['}']⟩
    | cons g post =>
      refine ⟨',' :: printFields (g :: post) ++ ['}'], ?_⟩
      rw [List.nil_append, printFields_cons_cons, List.append_assoc]
      exact hmatch _
  | cons f pre ih =>
    obtain ⟨rest, hrest⟩ := ih (by
      intro f' hf' g hg
      exact hskip f' (List.mem_cons_of_mem _ hf') g (List.mem_cons_of_mem _ hg))
    obtain ⟨g, gs, hg, hmem⟩ : ∃ g gs, pre ++ (key, Value.string v) :: post = g :: gs ∧
        g ∈ f :: pre ++ [(key, Value.string v)] := by
      cases pre <;> simp
    obtain ⟨s, hs⟩ : ∃ s, printFields (g :: gs) = printField g ++ s := by
      cases gs with
      | nil => exact ⟨[], by simp [printFields]⟩
      | cons g' gs => exact ⟨_, printFields_cons_cons g g' gs⟩
    refine ⟨rest, ?_⟩
    rw [hg, hs, List.append_assoc] at hrest
    rw [List.cons_append, hg, printFields_cons_cons, List.append_assoc, List.cons_append, hs,
      List.append_assoc, hskip f List.mem_cons_self g hmem, keyColon, List.cons_append, List.cons_append,
      strstr_cons_of_ne (by decide)]
    exact hrest

section Search

variable {key : Text} (hkey : IsKey key)

include hkey

theorem strstr_skip_noString {f : Field} (hf : IsKey f.1 ∧ f.2.WellFormed)
    (hno : f.1 = key → ∀ v, f.2 ≠ .string v) {c : Char} (hc : c ∈ [',', '}']) (s : Text) :
    strstr (keyColon key ++ ['"']) (printField f ++ c :: s) =
      strstr (keyColon key ++ ['"']) (c :: s) := by
  have hcs : c ≠ ':' ∧ c.isAlpha = false ∧ c ≠ '"' := by
    simp only [List.mem_cons, List.not_mem_nil, or_false] at hc
    rcases hc with rfl | rfl <;> decide
  exact strstr_skip_field hkey.plain hf.1.plain.1 hf.2 hcs.1 (hkey.not_isPrefix (by decide) _ _)
    (hkey.not_isPrefix hcs.2.1 _ _) (not_quote_isPrefix_print hf.2 hno hcs.2.2 s)

/-- The search for a string passes all fields before it. -/
theorem exists_strstr_printFields {pre : List Field} (hpre : WellFormed pre)
    (hno : NoString key pre) (v : Text) (post : List Field) :
    ∃ rest, strstr (keyColon key ++ ['"'])
      (printFields (pre ++ (key, .string v) :: post) ++ ['}']) = some (v ++ '"' :: rest) := by
  refine exists_strstr_of_skip ?_ post
  intro f hf g _ s
  exact strstr_skip_noString hkey (hpre f hf) (hno f hf) (by simp) _

theorem strstr_printFields_eq_none {fs : List Field} (hfs : WellFormed fs) (hno : NoString key fs) :
    strstr (keyColon key ++ ['"']) (printFields fs ++ ['}']) = none := by
  have hend : strstr (keyColon key ++ ['"']) ['}'] = none := by
    simp [keyColon, strstr, List.isPrefixOf]
  induction fs with
  | nil => exact hend
  | cons f fs ih =>
    obtain ⟨hf, hfs⟩ := wellFormed_cons.1 hfs
    obtain ⟨hnf, hno⟩ := noString_cons.1 hno
    cases fs with
    | nil =>
      have := strstr_skip_noString hkey hf hnf (c := '}') (by simp) []
      simpa [printFields, hend] using this
    | cons g fs =>
      rw [printFields_cons_cons, List.append_assoc, List.cons_append,
        strstr_skip_noString hkey hf hnf (by simp), keyColon, List.cons_append, List.cons_append,
        strstr_cons_of_ne (by decide)]
      exact ih hfs hno

end Search

theorem keyPattern_eq {key : Text} (h : key.length < 124) (t : Text) (ht : t.length ≤ 1) :
    keyPattern key t = some (keyColon key ++ t) := by
  have : ('"' :: key ++ '"' :: ':' :: t).length < 128 := by
    simp only [List.length_append, List.length_cons]
    omega
  simp only [keyPattern, if_pos this]
  simp [keyColon]

/-- **A string comes out of a message as it is scanned**: the search stops at the first field with
the key, if the fields before it are well formed. -/
theorem exists_jsonGetString {key : Text} (hkey : IsKey key) (hlen : key.length < 124) {n : Nat}
    (hn : 0 < n) {pre : List Field} (hpre : WellFormed pre) (hno : NoString key pre) (v : Text)
    (post : List Field) :
    ∃ rest, jsonGetString (printMessage (pre ++ (key, .string v) :: post)) key n =
      scanString (n - 1) (v ++ '"' :: rest) := by
  obtain ⟨rest, h⟩ := exists_strstr_printFields hkey hpre hno v post
  refine ⟨rest, ?_⟩
  have h' : strstr (keyColon key ++ ['"']) (printMessage (pre ++ (key, .string v) :: post)) =
      some (v ++ '"' :: rest) := by
    rw [← h, printMessage, List.cons_append, keyColon, List.cons_append, List.cons_append,
      strstr_cons_of_ne (by decide)]
  simp [jsonGetString, Nat.ne_of_gt hn, keyPattern_eq hlen, h']

/-- A value that was escaped is read back. -/
theorem jsonGetString_escaped {key : Text} (hkey : IsKey key) (hlen : key.length < 124) {n : Nat}
    {pre : List Field} (hpre : WellFormed pre) (hno : NoString key pre) {v : Text}
    (hv : List.length v < n) (post : List Field) :
    jsonGetString (printMessage (pre ++ (key, .string (jsonEscape v)) :: post)) key n = some v := by
  have hn : 0 < n := Nat.zero_lt_of_lt hv
  obtain ⟨rest, h⟩ := exists_jsonGetString hkey hlen hn hpre hno (jsonEscape v) post
  rw [h, scanString_jsonEscape (Nat.le_sub_one_of_lt hv)]

/-- A value that was printed as it is is read back if nothing in it needs escaping, and only then. -/
theorem jsonGetString_raw {key : Text} (hkey : IsKey key) (hlen : key.length < 124) {n : Nat}
    {pre : List Field} (hpre : WellFormed pre) (hno : NoString key pre) {v : Text}
    (hv : List.length v < n) (post : List Field) :
    jsonGetString (printMessage (pre ++ (key, .string v) :: post)) key n = some v ↔ Plain v := by
  have hn : 0 < n := Nat.zero_lt_of_lt hv
  obtain ⟨rest, h⟩ := exists_jsonGetString hkey hlen hn hpre hno v post
  rw [h]
  constructor
  · intro hs
    by_contra hp
    exact scanString_ne hp _ _ hs
  · exact fun hp => scanString_plain hp (Nat.le_sub_one_of_lt hv) rest

/-- A well-formed message without a string under the key has none for the reader either. -/
theorem jsonGetString_printMessage_eq_none {key : Text} (hkey : IsKey key) {fs : List Field}
    (hfs : WellFormed fs) (hno : NoString key fs) (n : Nat) :
    jsonGetString (printMessage fs) key n = none := by
  have h : strstr (keyColon key ++ ['"']) (printMessage fs) = none := by
    rw [← strstr_printFields_eq_none hkey hfs hno, printMessage, List.cons_append, keyColon,
      List.cons_append, List.cons_append, strstr_cons_of_ne (by decide)]
  unfold jsonGetString
  split
  · rfl
  · simp only [keyPattern]
    split
    · have h : strstr ('"' :: key ++ '"' :: ':' :: ['"']) (printMessage fs) = none := by
        simpa [keyColon] using h
      rw [Option.bind_some, h, Option.bind_none]
    · rfl

/-! ## Numbers -/

/-- A search passes fields of other keys. -/
theorem strstr_skip_fields {key : Text} (hkey : IsKey key) {pre : List Field} (hpre : WellFormed pre)
    (hne : ∀ f ∈ pre, f.1 ≠ key) (t s : Text) :
    strstr (keyColon key ++ t) (pre.flatMap (fun f => printField f ++ [',']) ++ '"' :: s) =
      strstr (keyColon key ++ t) ('"' :: s) := by
  induction pre with
  | nil => rfl
  | cons f pre ih =>
    obtain ⟨hf, hpre⟩ := wellFormed_cons.1 hpre
    rw [List.forall_mem_cons] at hne
    have hcomma (x : Text) : strstr (keyColon key ++ t) (',' :: x) = strstr (keyColon key ++ t) x :=
      strstr_cons_of_ne (by decide) ..
    rw [List.flatMap_cons, List.append_assoc, List.append_assoc, List.singleton_append,
      strstr_skip_field hkey.plain hf.1.plain.1 hf.2 (by decide) (hkey.not_isPrefix (by decide) _ _)
        (hkey.not_isPrefix (by decide) _ _) (fun h => hne.1 h.1), hcomma]
    exact ih hpre hne.2

/-- The fields before one, the one, and a comma or the end. -/
theorem exists_printFields_append_cons (pre : List Field) (f : Field) (post : List Field) :
    ∃ c rest, (c = ',' ∨ c = '}') ∧ printFields (pre ++ f :: post) ++ ['}'] =
      pre.flatMap (fun f => printField f ++ [',']) ++ (printField f ++ c :: rest) := by
  induction pre with
  | nil =>
    cases post with
    | nil => exact ⟨'}', [], .inr rfl, by simp [printFields]⟩
    | cons g post =>
      refine ⟨',', printFields (g :: post) ++ ['}'], .inl rfl, ?_⟩
      rw [List.nil_append, printFields_cons_cons, List.flatMap_nil, List.nil_append, List.append_assoc, List.cons_append]
  | cons g pre ih =>
    obtain ⟨c, rest, hc, heq⟩ := ih
    obtain ⟨h, hs, hcons⟩ := List.exists_cons_of_ne_nil (show pre ++ f :: post ≠ [] by simp)
    refine ⟨c, rest, hc, ?_⟩
    rw [List.flatMap_cons, List.append_assoc, ← heq, List.cons_append, hcons, printFields_cons_cons]
    simp only [List.append_assoc, List.cons_append, List.nil_append]

/-- A number behind well-formed fields of other keys is found, whatever stands behind it. -/
theorem jsonGetInt_printed {key : Text} (hkey : IsKey key) (hlen : key.length < 124) {pre : List Field}
    (hpre : WellFormed pre) (hne : ∀ f ∈ pre, f.1 ≠ key) (z : Int) (post : List Field) :
    jsonGetInt (printMessage (pre ++ (key, .number (printInt z)) :: post)) key = some (toInt32 (clampLong z)) := by
  obtain ⟨c, rest, hc, heq⟩ := exists_printFields_append_cons pre (key, .number (printInt z)) post
  have hdigit : c.isDigit = false := by
    rcases hc with rfl | rfl
    · rfl
    · rfl
  have hmessage : printMessage (pre ++ (key, .number (printInt z)) :: post) =
      '{' :: (pre.flatMap (fun f => printField f ++ [',']) ++
        '"' :: (key ++ '"' :: ':' :: (printInt z ++ c :: rest))) := by
    rw [printMessage, List.cons_append, heq]
    simp [printField, Value.print]
  have hmatch : strstr (keyColon key) ('"' :: (key ++ '"' :: ':' :: (printInt z ++ c :: rest))) =
      some (printInt z ++ c :: rest) := by
    have hsplit : '"' :: (key ++ '"' :: ':' :: (printInt z ++ c :: rest)) = keyColon key ++ (printInt z ++ c :: rest) := by
      simp [keyColon]
    rw [hsplit]
    exact strstr_append ..
  have hstrstr : strstr (keyColon key ++ []) (printMessage (pre ++ (key, .number (printInt z)) :: post)) =
      some (printInt z ++ c :: rest) := by
    rw [hmessage]
    refine (strstr_cons_of_ne (by decide) ..).trans ?_
    refine (strstr_skip_fields hkey hpre hne [] _).trans ?_
    rw [List.append_nil]
    exact hmatch
  unfold jsonGetInt
  rw [keyPattern_eq hlen _ (by decide), Option.bind_some, hstrstr, Option.bind_some,
    strtol_printed z (noDigitHead_cons hdigit)]
  rfl

/-- A number that a `long` holds is read back but for its cast to an `int`. -/
theorem jsonGetInt_printInt {key : Text} (hkey : IsKey key) (hlen : key.length < 124) {pre : List Field}
    (hpre : WellFormed pre) (hne : ∀ f ∈ pre, f.1 ≠ key) {z : Int} (hz : LONG_MIN ≤ z ∧ z ≤ LONG_MAX)
    (post : List Field) :
    jsonGetInt (printMessage (pre ++ (key, .number (printInt z)) :: post)) key = some (toInt32 z) := by
  rw [jsonGetInt_printed hkey hlen hpre hne, clampLong_eq_self hz]

/-- A number behind well-formed fields of other keys is read back. -/
theorem jsonGetInt_last {key : Text} (hkey : IsKey key) (hlen : key.length < 124) {pre : List Field}
    (hpre : WellFormed pre) (hne : ∀ f ∈ pre, f.1 ≠ key) {z : Int} (hz : LONG_MIN ≤ z ∧ z ≤ LONG_MAX) :
    jsonGetInt (printMessage (pre ++ [(key, .number (printInt z))])) key = some (toInt32 z) :=
  jsonGetInt_printInt hkey hlen hpre hne hz []

end CoWrite
