import CoWrite.Common.Number

/-!
# The JSON helpers

`json_get_string` and `json_get_int` search the whole frame for the first occurrence of `"key":`; the
string runs to the next quote that no backslash precedes. `json_escape_dup` and `json_escape_string`
put a backslash before quotes, backslashes and the three control characters that have a letter.

`scanString_escape` is the round trip; `scanString_ne` says that a value with a quote or a backslash
that was *not* escaped is never read back.
-/

namespace CoWrite

/-! ## Reading -/

/-- What follows the first occurrence of `pattern` (`strstr(json, pattern) + strlen(pattern)`). -/
def strstr (pattern : Text) : Text → Option Text
  | [] => if pattern.isEmpty then some [] else none
  | c :: s =>
    if pattern.isPrefixOf (c :: s) then some ((c :: s).drop pattern.length) else strstr pattern s

/-- The character a backslash and `c` stand for. -/
def unescapeChar : Char → Char
  | 'n' => '\n'
  | 'r' => '\r'
  | 't' => '\t'
  | c => c

/-- The loop of `json_get_string` after the match, with room for `room` more characters. -/
def scanString : Nat → Text → Option Text
  | _, [] => none
  | _, '"' :: _ => some []
  | _, ['\\'] => none
  | 0, _ => none
  | room + 1, '\\' :: c :: s => (scanString room s).map (unescapeChar c :: ·)
  | room + 1, c :: s => (scanString room s).map (c :: ·)

/-- The pattern `"key":` both readers search for; it has to fit 128 bytes. -/
def keyPattern (key tail : Text) : Option Text :=
  let pattern := '"' :: key ++ '"' :: ':' :: tail
  if pattern.length < 128 then some pattern else none

/-- `json_get_string(json, key, out, out_size)`. -/
def jsonGetString (json key : Text) (outSize : Nat) : Option Text :=
  if outSize = 0 then none
  else (keyPattern key ['"']).bind fun pattern =>
    (strstr pattern json).bind fun p => scanString (outSize - 1) p

/-- The first loop of `json_get_string_alloc`: how many characters the string has, if it is closed. -/
def scanLength : Text → Option Nat
  | [] => none
  | '"' :: _ => some 0
  | ['\\'] => none
  | '\\' :: _ :: s => (scanLength s).map (· + 1)
  | _ :: s => (scanLength s).map (· + 1)

/-- `json_get_string_alloc(json, key, &out)`; `alloc` is whether `malloc` succeeds. -/
def jsonGetStringAlloc (json key : Text) (alloc : Bool) : Option Text :=
  (keyPattern key ['"']).bind fun pattern =>
    (strstr pattern json).bind fun p =>
      (scanLength p).bind fun len => if alloc then scanString len p else none

/-- `json_get_int(json, key, &out)`. -/
def jsonGetInt (json key : Text) : Option Int :=
  (keyPattern key []).bind fun pattern =>
    (strstr pattern json).bind fun p => (strtol p).map fun (n, _) => toInt32 n

/-! ## Escaping -/

/-- `escape_value` for one character. -/
def escapeChar : Char → Text
  | '"' => ['\\', '"']
  | '\\' => ['\\', '\\']
  | '\n' => ['\\', 'n']
  | '\r' => ['\\', 'r']
  | '\t' => ['\\', 't']
  | c => [c]

/-- `json_escape_dup`. -/
def jsonEscape (s : Text) : Text := s.flatMap escapeChar

/-- `json_escape_string(buf, buf_size, value)`. -/
def jsonEscapeString (bufSize : Nat) (s : Text) : Option Text :=
  if (jsonEscape s).length < bufSize then some (jsonEscape s) else none

/-- Every quote in the text has a backslash of its own before it, and every backslash something
after it: what can stand between quotes. -/
def Escaped : Text → Bool
  | [] => true
  | '"' :: _ => false
  | ['\\'] => false
  | '\\' :: _ :: s => Escaped s
  | _ :: s => Escaped s

/-- The text has no quote and no backslash: it is read back although it was not escaped. -/
def Plain (s : Text) : Prop := '"' ∉ s ∧ '\\' ∉ s

instance (s : Text) : Decidable (Plain s) := inferInstanceAs (Decidable (_ ∧ _))

/-- The characters that an escaped text stands for. -/
def unescape : Text → Text
  | [] => []
  | ['\\'] => []
  | '\\' :: c :: s => unescapeChar c :: unescape s
  | c :: s => c :: unescape s

/-- What was scanned fits the room. -/
theorem length_scanString_le {room : Nat} {s v : Text} (h : scanString room s = some v) :
    v.length ≤ room := by
  induction room, s using scanString.induct generalizing v with
  | case1 => simp [scanString] at h
  | case2 => simp_all [scanString]
  | case3 => simp [scanString] at h
  | case4 => rw [scanString] at h <;> simp_all
  | case5 room c s ih =>
    simp only [scanString, Option.map_eq_some_iff] at h
    obtain ⟨w, hw, rfl⟩ := h
    simpa using ih hw
  | case6 room c s hq hb hb' ih =>
    rw [scanString, Option.map_eq_some_iff] at h
    · obtain ⟨w, hw, rfl⟩ := h
      simpa using ih hw
    all_goals assumption

theorem length_jsonGetString_lt {json key : Text} {n : Nat} {v : Text}
    (h : jsonGetString json key n = some v) : v.length < n := by
  unfold jsonGetString at h
  split at h
  · simp at h
  · simp only [Option.bind_eq_some_iff] at h
    obtain ⟨_, _, _, _, h⟩ := h
    have := length_scanString_le h
    omega

/-! ## Strings come back -/

/-- One step of the scan over a character that is neither a quote nor a backslash. -/
theorem scanString_cons {c : Char} (hq : c ≠ '"') (hb : c ≠ '\\') (room : Nat) (s : Text) :
    scanString room (c :: s) =
      if room = 0 then none else (scanString (room - 1) s).map (c :: ·) := by
  cases room with
  | zero => rw [scanString] <;> simp_all
  | succ room => rw [scanString] <;> simp_all

theorem escaped_cons {c : Char} (hq : c ≠ '"') (hb : c ≠ '\\') (s : Text) :
    Escaped (c :: s) = Escaped s := by
  rw [Escaped] <;> simp_all

theorem unescape_cons {c : Char} (hb : c ≠ '\\') (s : Text) :
    unescape (c :: s) = c :: unescape s := by
  rw [unescape] <;> simp_all

theorem scanString_escaped {e : Text} (h : Escaped e) (room : Nat) (rest : Text) :
    scanString room (e ++ '"' :: rest) =
      if (unescape e).length ≤ room then some (unescape e) else none := by
  induction e using Escaped.induct generalizing room with
  | case1 => simp [scanString, unescape]
  | case2 => simp [Escaped] at h
  | case3 => simp [Escaped] at h
  | case4 c s ih =>
    simp only [Escaped] at h
    cases room with
    | zero => simp [scanString, unescape]
    | succ room =>
      simp only [List.cons_append, scanString, ih h room, unescape, List.length_cons]
      split <;> simp_all
  | case5 c s hq h1 h2 ih =>
    have hb : c ≠ '\\' := by
      rintro rfl
      cases s with
      | nil => exact h1 rfl rfl
      | cons d s => exact h2 d s rfl rfl
    have hq : c ≠ '"' := fun e => hq e
    rw [escaped_cons hq hb] at h
    rw [List.cons_append, scanString_cons hq hb, unescape_cons hb]
    cases room with
    | zero => simp
    | succ room => simp only [Nat.add_sub_cancel, ih h room, List.length_cons]; split <;> simp_all

theorem Plain.escaped {v : Text} (h : Plain v) : Escaped v ∧ unescape v = v := by
  induction v with
  | nil => simp [Escaped, unescape]
  | cons c v ih =>
    obtain ⟨hq, hb⟩ := h
    simp only [List.mem_cons, not_or] at hq hb
    have := ih ⟨hq.2, hb.2⟩
    rw [escaped_cons (Ne.symm hq.1) (Ne.symm hb.1), unescape_cons (Ne.symm hb.1)]
    exact ⟨this.1, by rw [this.2]⟩

theorem escapeChar_of_ne {c : Char} (h : c ∉ ['"', '\\', '\n', '\r', '\t']) :
    escapeChar c = [c] := by
  simp only [List.mem_cons, List.not_mem_nil, or_false, not_or] at h
  unfold escapeChar
  split <;> simp_all

theorem jsonEscape_cons (c : Char) (v : Text) : jsonEscape (c :: v) = escapeChar c ++ jsonEscape v :=
  List.flatMap_cons

/-- Escaping makes any text fit between quotes and loses nothing. -/
theorem escaped_jsonEscape (v : Text) : Escaped (jsonEscape v) ∧ unescape (jsonEscape v) = v := by
  induction v with
  | nil => exact ⟨rfl, rfl⟩
  | cons c v ih =>
    rw [jsonEscape_cons]
    by_cases hc : c ∈ ['"', '\\', '\n', '\r', '\t']
    · simp only [List.mem_cons, List.not_mem_nil, or_false] at hc
      rcases hc with rfl | rfl | rfl | rfl | rfl <;>
        simp [escapeChar, Escaped, unescape, unescapeChar, ih]
    · rw [escapeChar_of_ne hc]
      simp only [List.mem_cons, List.not_mem_nil, or_false, not_or] at hc
      rw [List.singleton_append, escaped_cons hc.1 hc.2.1, unescape_cons hc.2.1]
      exact ⟨ih.1, by rw [ih.2]⟩

theorem scanString_jsonEscape {v : Text} {room : Nat} (h : v.length ≤ room) (rest : Text) :
    scanString room (jsonEscape v ++ '"' :: rest) = some v := by
  obtain ⟨he, hu⟩ := escaped_jsonEscape v
  rw [scanString_escaped he, hu, if_pos h]

theorem scanString_plain {v : Text} (hv : Plain v) {room : Nat} (h : v.length ≤ room)
    (rest : Text) : scanString room (v ++ '"' :: rest) = some v := by
  obtain ⟨he, hu⟩ := hv.escaped
  rw [scanString_escaped he, hu, if_pos h]

theorem eq_of_unescapeChar {c : Char} (h : unescapeChar c = '\\') : c = '\\' := by
  unfold unescapeChar at h
  split at h <;> simp_all

/-- A scan that starts behind backslashes already read never ends with these and its own input. -/
theorem scanString_ne_replicate (n room : Nat) (b rest : Text) :
    scanString room (b ++ '"' :: rest) ≠ some (List.replicate (n + 1) '\\' ++ b) := by
  induction b using Escaped.induct generalizing n room with
  | case1 => simp [scanString, List.replicate_succ]
  | case2 => simp [scanString, List.replicate_succ]
  | case3 =>
    cases room with
    | zero => simp [scanString]
    | succ room => simp [scanString, unescapeChar, List.replicate_succ]
  | case4 c s ih =>
    cases room with
    | zero => simp [scanString]
    | succ room =>
      intro h
      simp only [List.cons_append, scanString, List.replicate_succ, Option.map_eq_some_iff,
        List.cons.injEq] at h
      obtain ⟨d, hd, hc, rfl⟩ := h
      obtain rfl := eq_of_unescapeChar hc
      -- the backslash was escaped by another one, which the claimed result still has before it
      refine ih (n + 1) room (hd.trans ?_)
      rw [← List.replicate_append_replicate (n := n) (m := 2) (a := '\\')]
      simp [List.replicate]
  | case5 c s hq h1 h2 ih =>
    have hb : c ≠ '\\' := by
      rintro rfl
      cases s with
      | nil => exact h1 rfl rfl
      | cons d s => exact h2 d s rfl rfl
    rw [List.cons_append, scanString_cons (fun e => hq e) hb]
    split
    · simp
    · simp [List.replicate_succ, hb]

/-- A text with a quote or a backslash in it that stands between quotes as it is is not read back. -/
theorem scanString_ne {v : Text} (h : ¬ Plain v) (room : Nat) (rest : Text) :
    scanString room (v ++ '"' :: rest) ≠ some v := by
  induction v generalizing room with
  | nil => simp [Plain] at h
  | cons c v ih =>
    by_cases hq : c = '"'
    · subst hq
      simp [scanString]
    by_cases hb : c = '\\'
    · subst hb
      intro hs
      cases room with
      | zero => cases v <;> simp [scanString] at hs
      | succ room =>
        cases v with
        | nil => simp [scanString, unescapeChar] at hs
        | cons d v =>
          simp only [List.cons_append, scanString, Option.map_eq_some_iff, List.cons.injEq] at hs
          obtain ⟨_, hs, hd, rfl⟩ := hs
          obtain rfl := eq_of_unescapeChar hd
          exact scanString_ne_replicate 0 room v rest hs
    rw [List.cons_append, scanString_cons hq hb]
    have hv : ¬ Plain v := fun hp => h ⟨by simp [hp.1, Ne.symm hq], by simp [hp.2, Ne.symm hb]⟩
    split
    · simp
    · simpa using ih hv _

end CoWrite
