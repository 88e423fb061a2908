import CoWrite.Common.Message

/-!
# Strings that come back

A sender writes an object of distinct keys, with integers and with strings that `json_escape_string` or
`json_escape_dup` has escaped. The reader does not parse it: it takes the first place in the frame where
the key stands between quotes with `:"` behind.

* `escapeValue_eq`, `jsonEscapeDup_eq`: the loop of `escape_value` is `jsonEscape`, as far as the buffer
  has room, and the buffer of `json_escape_dup` has it.
* `message_strings`: each string is read back as it was before it was escaped, if no key is a colon and
  the key fits the buffer of the pattern.
-/

namespace CoWrite

/-! ## The loops of `escape_value` -/

/-- `replacement` in `escape_value`. -/
def replacement : Char → Option Text
  | '"' => some ['\\', '"']
  | '\\' => some ['\\', '\\']
  | '\n' => some ['\\', 'n']
  | '\r' => some ['\\', 'r']
  | '\t' => some ['\\', 't']
  | _ => none

/-- The loop of `escape_value` from position `pos` on, and what it writes there up to the terminator. -/
def escapeValueFrom (dstSize : Nat) : Nat → Text → Option Text
  | pos, [] => if pos ≥ dstSize then none else some []
  | pos, c :: src =>
    match replacement c with
    | some r =>
      if pos + r.length ≥ dstSize then none
      else (escapeValueFrom dstSize (pos + r.length) src).map (r ++ ·)
    | none =>
      if pos + 1 ≥ dstSize then none
      else (escapeValueFrom dstSize (pos + 1) src).map (c :: ·)

/-- `escape_value`, `json_escape_string`. -/
def escapeValue (dstSize : Nat) (src : Text) : Option Text := escapeValueFrom dstSize 0 src

/-- The loop of `escape_length`, with `len` so far. -/
def escapeLengthFrom (len : Nat) : Text → Nat
  | [] => len
  | c :: src =>
    if c ∈ ['"', '\\', '\n', '\r', '\t'] then escapeLengthFrom (len + 2) src
    else escapeLengthFrom (len + 1) src

def escapeLength (src : Text) : Nat := escapeLengthFrom 0 src

/-- `json_escape_dup`; `alloc` is whether `malloc` succeeds. -/
def jsonEscapeDup (value : Text) (alloc : Bool) : Option Text :=
  let needed := escapeLength value
  if alloc then escapeValue (needed + 1) value else none

theorem escapeChar_eq (c : Char) : escapeChar c = (replacement c).getD [c] := by
  by_cases hc : c ∈ ['"', '\\', '\n', '\r', '\t']
  · simp only [List.mem_cons, List.not_mem_nil, or_false] at hc
    rcases hc with rfl | rfl | rfl | rfl | rfl <;> rfl
  · rw [escapeChar_of_ne hc]
    simp only [List.mem_cons, List.not_mem_nil, or_false, not_or] at hc
    have hnone : replacement c = none := by
      unfold replacement
      split <;> simp_all
    rw [hnone]
    rfl

theorem length_escapeChar (c : Char) :
    (escapeChar c).length = if c ∈ ['"', '\\', '\n', '\r', '\t'] then 2 else 1 := by
  by_cases hc : c ∈ ['"', '\\', '\n', '\r', '\t']
  · rw [if_pos hc]
    simp only [List.mem_cons, List.not_mem_nil, or_false] at hc
    rcases hc with rfl | rfl | rfl | rfl | rfl <;> rfl
  · rw [if_neg hc, escapeChar_of_ne hc, List.length_singleton]

/-- One turn of the loop writes what the character stands for, if it and the terminator still fit. -/
theorem escapeValueFrom_cons (dstSize pos : Nat) (c : Char) (src : Text) :
    escapeValueFrom dstSize pos (c :: src) =
      if pos + (escapeChar c).length ≥ dstSize then none
      else (escapeValueFrom dstSize (pos + (escapeChar c).length) src).map (escapeChar c ++ ·) := by
  rw [escapeChar_eq, escapeValueFrom]
  cases replacement c with
  | none => rfl
  | some r => rfl

theorem escapeValueFrom_eq (dstSize pos : Nat) (src : Text) :
    escapeValueFrom dstSize pos src =
      if pos + (jsonEscape src).length < dstSize then some (jsonEscape src) else none := by
  induction src generalizing pos with
  | nil =>
    rw [escapeValueFrom]
    by_cases h : pos < dstSize
    · rw [if_neg (Nat.not_le.2 h), if_pos (by simpa [jsonEscape] using h)]
      rfl
    · rw [if_pos (Nat.not_lt.1 h), if_neg (by simpa [jsonEscape] using h)]
  | cons c src ih =>
    rw [escapeValueFrom_cons, ih, jsonEscape_cons, List.length_append]
    by_cases h : pos + (escapeChar c).length ≥ dstSize
    · rw [if_pos h, if_neg (by omega)]
    · rw [if_neg h]
      by_cases hrest : pos + (escapeChar c).length + (jsonEscape src).length < dstSize
      · rw [if_pos hrest, if_pos (by omega), Option.map_some]
      · rw [if_neg hrest, if_neg (by omega), Option.map_none]

/-- **`json_escape_string` fails exactly where the escaped text and its terminator do not fit.** -/
theorem escapeValue_eq (dstSize : Nat) (src : Text) : escapeValue dstSize src = jsonEscapeString dstSize src := by
  rw [escapeValue, escapeValueFrom_eq, Nat.zero_add, jsonEscapeString]

theorem escapeLengthFrom_eq (len : Nat) (src : Text) : escapeLengthFrom len src = len + (jsonEscape src).length := by
  induction src generalizing len with
  | nil => rfl
  | cons c src ih =>
    rw [escapeLengthFrom, jsonEscape_cons, List.length_append, length_escapeChar]
    split <;> rw [ih] <;> omega

/-- **`json_escape_dup` has room.** -/
theorem jsonEscapeDup_eq (value : Text) (alloc : Bool) :
    jsonEscapeDup value alloc = if alloc then some (jsonEscape value) else none := by
  unfold jsonEscapeDup
  have hroom : (jsonEscape value).length < escapeLength value + 1 := by
    rw [escapeLength, escapeLengthFrom_eq]
    omega
  simp only [escapeValue_eq, jsonEscapeString, if_pos hroom]

/-! ## The search in a message of any keys -/

/-- `e` is the text of `v` that one of the two functions gave. -/
def Encodes (v e : Text) : Prop := (∃ n, escapeValue n v = some e) ∨ jsonEscapeDup v true = some e

theorem Encodes.eq {v e : Text} (h : Encodes v e) : e = jsonEscape v := by
  rcases h with ⟨n, h⟩ | h
  · rw [escapeValue_eq, jsonEscapeString] at h
    split at h
    · exact (Option.some.inj h).symm
    · cases h
  · rw [jsonEscapeDup_eq] at h
    exact (Option.some.inj h).symm

theorem encodes_jsonEscape (v : Text) : Encodes v (jsonEscape v) := .inr (by rw [jsonEscapeDup_eq, if_pos rfl])

/-- Integers and encoded strings, under keys without quotes and backslashes. -/
def Built (fs : List Field) : Prop :=
  ∀ f ∈ fs, Plain f.1 ∧ ((∃ z, f.2 = .number (printInt z)) ∨ ∃ v e, Encodes v e ∧ f.2 = .string e)

theorem Built.wellFormed {fs : List Field} (h : Built fs) {f : Field} (hf : f ∈ fs) : f.2.WellFormed := by
  rcases (h f hf).2 with ⟨z, hz⟩ | ⟨v, e, he, hs⟩
  · rw [hz]
    exact quote_not_mem_printInt z
  · rw [hs, he.eq]
    exact (escaped_jsonEscape v).1

theorem built_strings {kvs : List (Text × Text)} (h : ∀ p ∈ kvs, Plain p.1) :
    Built (kvs.map fun p => (p.1, .string (jsonEscape p.2))) := by
  intro f hf
  obtain ⟨p, hp, rfl⟩ := List.mem_map.1 hf
  exact ⟨h p hp, .inr ⟨p.2, _, encodes_jsonEscape p.2, rfl⟩⟩

section Search

variable {key : Text} (hkey : Plain key)

include hkey

/-- No match starts at the quote in front of what stands before the next key. -/
theorem not_isPrefix_next {x k : Text} (hx : '"' ∉ x) (hk : '"' ∉ k) (hk' : k ≠ [':']) (s : Text) :
    ¬ keyColon key ++ ['"'] <+: '"' :: (x ++ '"' :: (k ++ '"' :: ':' :: s)) := by
  rw [keyColon_append_isPrefix hkey hx]
  rintro ⟨-, h⟩
  cases k with
  | nil => simp at h
  | cons c k =>
    rw [List.cons_append, List.cons_prefix_cons] at h
    obtain ⟨rfl, h⟩ := h
    cases k with
    | nil => exact hk' rfl
    | cons d k =>
      rw [List.cons_append, List.cons_prefix_cons] at h
      exact hk (by rw [h.1]; simp)

/-- The search passes a field that is not the one it looks for, in front of a key that is no colon. -/
theorem strstr_skip_next (hcolon : key ≠ [':']) {f g : Field} (hf : '"' ∉ f.1) (hv : f.2.WellFormed)
    (hno : f.1 = key → ∀ v, f.2 ≠ .string v) (hg : '"' ∉ g.1) (hg' : g.1 ≠ [':']) (s : Text) :
    strstr (keyColon key ++ ['"']) (printField f ++ ',' :: (printField g ++ s)) =
      strstr (keyColon key ++ ['"']) (',' :: (printField g ++ s)) := by
  have hnext {x : Text} (hx : '"' ∉ x) : ¬ keyColon key ++ ['"'] <+: '"' :: (x ++ printField g ++ s) := by
    have h := not_isPrefix_next hkey hx hg hg' (g.2.print ++ s)
    simpa only [printField, List.append_assoc, List.cons_append] using h
  refine strstr_skip_field hkey hf hv (by decide) ?_ ?_ (not_quote_isPrefix_print hv hno (by decide) _)
  · -- the quote that closes the key of `f`
    obtain ⟨k, v⟩ := f
    cases v with
    | string e =>
      have h := (keyColon_append_isPrefix hkey (k := [':']) (by decide) ['"'] (e ++ '"' :: ',' :: (printField g ++ s))).not.2
        (fun h => hcolon h.1.symm)
      simpa only [Value.print, List.cons_append, List.append_assoc, List.nil_append] using h
    | number n =>
      have hn : '"' ∉ n := hv
      have h := @hnext (':' :: (n ++ [','])) (by simp [hn])
      simpa only [Value.print, List.cons_append, List.append_assoc, List.nil_append] using h
  · -- the quote that closes its value
    have h := @hnext [','] (by decide)
    simpa only [List.cons_append, List.append_assoc, List.nil_append] using h

end Search

/-- The first loop of `json_get_string_alloc` counts the characters that the second one writes. -/
theorem scanLength_escaped {e : Text} (h : Escaped e) (rest : Text) :
    scanLength (e ++ '"' :: rest) = some (unescape e).length := by
  induction e using Escaped.induct with
  | case1 => rfl
  | case2 => simp [Escaped] at h
  | case3 => simp [Escaped] at h
  | case4 c s ih =>
    rw [Escaped] at h
    rw [List.cons_append, List.cons_append, scanLength, ih h, Option.map_some, unescape, List.length_cons]
  | case5 c s hq h1 h2 ih =>
    have hb : c ≠ '\\' := by
      rintro rfl
      cases s with
      | nil => exact h1 rfl rfl
      | cons d s => exact h2 d s rfl rfl
    rw [escaped_cons (fun e => hq e) hb] at h
    have hcons : scanLength (c :: (s ++ '"' :: rest)) = (scanLength (s ++ '"' :: rest)).map (· + 1) := by
      rw [scanLength] <;> simp_all
    rw [List.cons_append, hcons, ih h, Option.map_some, unescape_cons hb, List.length_cons]

/-- Where the search for the string of `key` stops, in a message without the key `:`. -/
theorem exists_strstr_built {key e : Text} {pre post : List Field}
    (hfs : Built (pre ++ (key, .string e) :: post)) (hcolon : ∀ f ∈ pre ++ (key, .string e) :: post, f.1 ≠ [':'])
    (hno : ∀ f ∈ pre, f.1 ≠ key) :
    ∃ rest, strstr (keyColon key ++ ['"']) (printMessage (pre ++ (key, .string e) :: post)) =
      some (e ++ '"' :: rest) := by
  have hmem : (key, Value.string e) ∈ pre ++ (key, .string e) :: post := by simp
  have hkey : Plain key := (hfs _ hmem).1
  obtain ⟨rest, hrest⟩ := @exists_strstr_of_skip key e pre (by
    intro f hf g hg s
    have hf' : f ∈ pre ++ (key, Value.string e) :: post := List.mem_append_left _ hf
    have hg' : g ∈ pre ++ (key, Value.string e) :: post := by
      rcases List.mem_append.1 hg with hg | hg
      · exact List.mem_append_left _ hg
      · rw [List.mem_singleton.1 hg]
        exact hmem
    exact strstr_skip_next hkey (hcolon _ hmem) (hfs f hf').1.1 (hfs.wellFormed hf')
      (fun h => absurd h (hno f hf)) (hfs g hg').1.1 (hcolon g hg') s) post
  refine ⟨rest, ?_⟩
  rw [← hrest, printMessage, List.cons_append, keyColon, List.cons_append, List.cons_append,
    strstr_cons_of_ne (by decide)]

/-- **Every string comes back**, in a message of distinct keys none of which is a colon. -/
theorem message_strings {fs : List Field} (hfs : Built fs) (hdistinct : (fs.map Prod.fst).Nodup)
    (hcolon : ∀ f ∈ fs, f.1 ≠ [':']) :
    (∀ key e v, (key, .string e) ∈ fs → Encodes v e → key.length < 124 →
      (∀ n, jsonGetString (printMessage fs) key n = if v.length < n then some v else none) ∧
        jsonGetStringAlloc (printMessage fs) key true = some v) ∧
    (∀ v, jsonEscapeDup v true = some (jsonEscape v)) ∧
    ∀ v n, escapeValue n v = if (jsonEscape v).length + 1 ≤ n then some (jsonEscape v) else none := by
  refine ⟨?_, ?_, ?_⟩
  · intro key e v hmem he hlen
    obtain ⟨pre, post, rfl⟩ := List.append_of_mem hmem
    have hno : ∀ f ∈ pre, f.1 ≠ key := by
      intro f hf hkey
      rw [List.map_append, List.nodup_append] at hdistinct
      exact hdistinct.2.2 f.1 (List.mem_map_of_mem hf) key (by simp) hkey
    obtain ⟨rest, hrest⟩ := exists_strstr_built hfs hcolon hno
    obtain ⟨hescaped, hunescape⟩ := escaped_jsonEscape v
    rw [← he.eq] at hescaped hunescape
    have hpattern := keyPattern_eq hlen ['"'] (by decide)
    constructor
    · intro n
      rw [jsonGetString]
      by_cases hn : n = 0
      · rw [if_pos hn, if_neg (by omega)]
      · rw [if_neg hn, hpattern, Option.bind_some, hrest, Option.bind_some, scanString_escaped hescaped, hunescape]
        by_cases hv : v.length < n
        · rw [if_pos hv, if_pos (by omega)]
        · rw [if_neg hv, if_neg (by omega)]
    · rw [jsonGetStringAlloc, hpattern, Option.bind_some, hrest, Option.bind_some, scanLength_escaped hescaped,
        Option.bind_some, if_pos rfl, scanString_escaped hescaped, if_pos (Nat.le_refl _), hunescape]
  · intro v
    rw [jsonEscapeDup_eq, if_pos rfl]
  · intro v n
    rw [escapeValue_eq, jsonEscapeString]
    rfl

/-- A value that looks like a field of its own, under the key it names. -/
theorem message_strings_lookalike : jsonGetString (printMessage
    [(Text.lit "a", .string (jsonEscape (Text.lit "x\",\"b\":\"y"))), (Text.lit "b", .string (jsonEscape (Text.lit "z\n")))])
    (Text.lit "b") 64 = some (Text.lit "z\n") := by
  have hbuilt : Built ([(Text.lit "a", Text.lit "x\",\"b\":\"y"), (Text.lit "b", Text.lit "z\n")].map
      fun p => (p.1, .string (jsonEscape p.2))) := built_strings (by decide)
  have h := (message_strings hbuilt (by decide) (by decide)).1 (Text.lit "b") _ (Text.lit "z\n")
    (List.mem_cons_of_mem _ List.mem_cons_self) (encodes_jsonEscape _) (by decide)
  exact h.1 64

/-- Under a colon the reader finds what is between the value before it and its own, and under a key of 124
bytes nothing. -/
theorem colon_key :
    (∃ fs e v, Built fs ∧ (fs.map Prod.fst).Nodup ∧ ([':'], .string e) ∈ fs ∧ Encodes v e ∧
      ∀ n, jsonGetString (printMessage fs) [':'] n ≠ some v) ∧
    ∃ fs key e v, Built fs ∧ (fs.map Prod.fst).Nodup ∧ (key, .string e) ∈ fs ∧ Encodes v e ∧
      ∀ n, jsonGetString (printMessage fs) key n ≠ some v := by
  constructor
  · refine ⟨[(['a'], [':']), ([':'], ['x'])].map fun p => (p.1, .string (jsonEscape p.2)), _, ['x'],
      built_strings (by decide), by decide, List.mem_cons_of_mem _ List.mem_cons_self, encodes_jsonEscape _, ?_⟩
    intro n h
    have hstr : strstr (keyColon [':'] ++ ['"']) (printMessage ([(['a'], [':']), ([':'], ['x'])].map
        fun p => (p.1, .string (jsonEscape p.2)))) = some (',' :: Text.lit "\":\":\"x\"\x7d") := by decide
    rw [jsonGetString, keyPattern_eq (by decide) ['"'] (by decide), Option.bind_some, hstr, Option.bind_some,
      scanString_cons (by decide) (by decide)] at h
    split_ifs at h
    obtain ⟨w, -, hw⟩ := Option.map_eq_some_iff.1 h
    cases hw
  · refine ⟨[(List.replicate 124 'k', ['x'])].map fun p => (p.1, .string (jsonEscape p.2)), List.replicate 124 'k',
      _, ['x'], built_strings (by decide), by decide, List.mem_cons_self, encodes_jsonEscape _, ?_⟩
    intro n h
    have hnone : keyPattern (List.replicate 124 'k') ['"'] = none := by
      rw [keyPattern, if_neg (by simp)]
    rw [jsonGetString, hnone, Option.bind_none] at h
    split_ifs at h

end CoWrite
