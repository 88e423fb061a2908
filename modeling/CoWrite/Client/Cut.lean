import CoWrite.Client.Requests

/-!
# Entries that were cut

The client's listings look for the first closing brace or quote without regard to strings and escapes, so what they
read may be the beginning of an entry.

* `strstr_cut`: in an entry that was cut before a key, the key is not found.
* `readInto_cut`: what is read of the last value of a cut entry is another text.
-/

namespace CoWrite.Client

open CoWrite.Nm
open CoWrite.Cluster (isOk)
open CoWrite.Cluster.Handlers

/-! ## The first of a character -/

/-- `strchr`: what stands before the first `c`, and what behind it. -/
def strchr (c : Char) : Text → Option (Text × Text)
  | [] => none
  | d :: s => if d = c then some ([], s) else (strchr c s).map (Prod.map (d :: ·) id)

theorem strchr_eq_some {c : Char} {s lead rest : Text} (h : strchr c s = some (lead, rest)) :
    s = lead ++ c :: rest ∧ c ∉ lead := by
  induction s generalizing lead with
  | nil => cases h
  | cons d s ih =>
    unfold strchr at h
    split at h
    · next hd =>
      cases h
      exact ⟨by rw [hd]; rfl, by simp⟩
    · next hd =>
      obtain ⟨⟨lead', rest'⟩, hs, heq⟩ := Option.map_eq_some_iff.1 h
      cases heq
      obtain ⟨rfl, hlead⟩ := ih hs
      exact ⟨rfl, by simp [Ne.symm hd, hlead]⟩

theorem strchr_append {c : Char} {lead : Text} (h : c ∉ lead) (rest : Text) :
    strchr c (lead ++ c :: rest) = some (lead, rest) := by
  induction lead with
  | nil => simp [strchr]
  | cons d lead ih =>
    obtain ⟨hd, h⟩ := not_or.1 (List.mem_cons.not.1 h)
    rw [List.cons_append, strchr, if_neg (Ne.symm hd), ih h]
    rfl

theorem length_strchr {c : Char} {s lead rest : Text} (h : strchr c s = some (lead, rest)) :
    rest.length < s.length := by
  rw [(strchr_eq_some h).1, List.length_append, List.length_cons]
  omega

/-! ## Searching a text that was cut -/

section Search

variable {p s t r : Text}

theorem strstr_length (h : strstr p s = some r) : p.length + r.length ≤ s.length := by
  induction s with
  | nil =>
    obtain ⟨hp, hr⟩ := Option.ite_none_right_eq_some.1 h
    cases hr
    rw [List.isEmpty_iff.1 hp]
    rfl
  | cons c s ih =>
    unfold strstr at h
    split at h
    · next hprefix =>
      cases h
      have := (List.isPrefixOf_iff_prefix.1 hprefix).length_le
      rw [List.length_drop]
      omega
    · have := ih h
      rw [List.length_cons]
      omega

/-- What is found in a text is found in a longer one. -/
theorem strstr_append_left (h : strstr p s = some r) (t : Text) : strstr p (s ++ t) = some (r ++ t) := by
  induction s with
  | nil =>
    obtain ⟨hp, hr⟩ := Option.ite_none_right_eq_some.1 h
    cases hr
    rw [List.isEmpty_iff.1 hp]
    cases t with
    | nil => rfl
    | cons c t => simp [strstr]
  | cons c s ih =>
    unfold strstr at h
    rw [List.cons_append, strstr]
    split at h
    · next hprefix =>
      cases h
      have hprefix := List.isPrefixOf_iff_prefix.1 hprefix
      have hlong : p <+: c :: (s ++ t) := hprefix.trans (List.prefix_append (c :: s) t)
      rw [if_pos (List.isPrefixOf_iff_prefix.2 hlong), ← List.cons_append, List.drop_append_of_le_length hprefix.length_le]
    · next hprefix =>
      split
      · next hlong =>
        -- the match would end in `t`, and it was found in `s`
        have hlong := List.isPrefixOf_iff_prefix.1 hlong
        have hle : p.length ≤ (c :: s).length := by
          have := strstr_length h
          simp only [List.length_cons]
          omega
        exact absurd (List.isPrefixOf_iff_prefix.2 (List.prefix_of_prefix_length_le hlong
          (List.prefix_append (c :: s) t) hle)) hprefix
      · exact ih h

theorem strstr_none_of_append (h : strstr p (s ++ t) = none) : strstr p s = none ∧ strstr p t = none := by
  constructor
  · cases hs : strstr p s with
    | none => rfl
    | some r => cases h.symm.trans (strstr_append_left hs t)
  · induction s with
    | nil => exact h
    | cons c s ih =>
      rw [List.cons_append, strstr] at h
      split at h
      · cases h
      · exact ih h

end Search

/-- A string that is not closed has no value. -/
theorem scanString_unclosed {e t : Text} (he : Escaped (e ++ t)) (room : Nat) : scanString room e = none := by
  induction e using Escaped.induct generalizing room with
  | case1 => simp [scanString]
  | case2 => simp [Escaped] at he
  | case3 => simp [scanString]
  | case4 c s ih =>
    simp only [List.cons_append, Escaped] at he
    cases room with
    | zero => simp [scanString]
    | succ room => simp [scanString, ih he]
  | case5 c s hq h1 h2 ih =>
    have hb : c ≠ '\\' := by
      rintro rfl
      cases s with
      | nil => exact h1 rfl rfl
      | cons d s => exact h2 d s rfl rfl
    have hq : c ≠ '"' := fun e => hq e
    rw [List.cons_append, escaped_cons hq hb] at he
    rw [scanString_cons hq hb]
    cases room with
    | zero => rfl
    | succ room => simp [ih he]

theorem storedString_plain {v : Text} (hv : Plain v) {room : Nat} (h : v.length ≤ room) : storedString room v = v := by
  induction v generalizing room with
  | nil => simp [storedString]
  | cons c v ih =>
    obtain ⟨hq, hb⟩ := hv
    simp only [List.mem_cons, not_or] at hq hb
    obtain ⟨room, rfl⟩ : ∃ k, room = k + 1 := Nat.exists_eq_succ_of_ne_zero (by rintro rfl; simp at h)
    rw [storedString, ih ⟨hq.2, hb.2⟩ (Nat.le_of_succ_le_succ h)]
    · exact Ne.symm hq.1
    · exact fun hc => absurd hc.symm hb.1
    · exact fun _ _ hc => absurd hc.symm hb.1

/-- An object up to the field behind the given ones. -/
def fieldsBefore (pre : List Field) : Text := '{' :: pre.flatMap fun f => printField f ++ [',']

theorem fieldsBefore_append_cons (pre : List Field) (f : Field) (post : List Field) (s : Text) :
    fieldsBefore (pre ++ f :: post) ++ s =
      fieldsBefore pre ++ (printField f ++ ',' :: ((post.flatMap fun f => printField f ++ [',']) ++ s)) := by
  simp [fieldsBefore]

/-- An object whose last field is a string. -/
theorem printMessage_last (pre : List Field) (key v : Text) :
    printMessage (pre ++ [(key, .string v)]) = fieldsBefore pre ++ (keyColon key ++ '"' :: v) ++ ['"', '}'] := by
  have hfields : printFields (pre ++ [(key, .string v)]) =
      (pre.flatMap fun f => printField f ++ [',']) ++ printField (key, .string v) := by
    induction pre with
    | nil => simp [printFields]
    | cons f pre ih =>
      obtain ⟨g, fs, hcons⟩ := List.exists_cons_of_ne_nil (show pre ++ [(key, Value.string v)] ≠ [] by simp)
      rw [List.cons_append, hcons, printFields_cons_cons, ← hcons, ih]
      simp
  rw [printMessage, hfields]
  simp [fieldsBefore, printField, keyColon, Value.print]

section Read

variable {key : Text} {pre : List Field} {n : Nat} (hkey : IsKey key ∧ key.length < 124) (hpre : WellFormed pre)
  (hne : ∀ f ∈ pre, f.1 ≠ key)

include hkey hpre hne

/-- The search for a key stops behind the fields before it. -/
theorem strstr_fieldsBefore (t s : Text) :
    strstr (keyColon key ++ t) (fieldsBefore pre ++ (keyColon key ++ (t ++ s))) = some s := by
  have hquote : keyColon key ++ (t ++ s) = '"' :: (key ++ ['"', ':'] ++ (t ++ s)) := rfl
  rw [fieldsBefore, List.cons_append]
  refine (strstr_cons_of_ne (by decide) ..).trans ?_
  rw [hquote]
  refine (strstr_skip_fields hkey.1 hpre hne t _).trans ?_
  rw [← hquote, ← List.append_assoc]
  exact strstr_append ..

/-- In an entry that ends before the key, the key is not found. -/
theorem strstr_cut {t chunk rest : Text} (h : chunk ++ rest = fieldsBefore pre ++ (keyColon key ++ t)) (hrest : rest ≠ []) :
    strstr (keyColon key ++ t) chunk = none := by
  cases hfound : strstr (keyColon key ++ t) chunk with
  | none => rfl
  | some r =>
    have hwhole := strstr_append_left hfound rest
    have hend := strstr_fieldsBefore hkey hpre hne t []
    rw [List.append_nil] at hend
    rw [h, hend] at hwhole
    exact absurd (List.append_eq_nil_iff.1 (Option.some.inj hwhole).symm).2 hrest

theorem jsonGetString_at {v : Text} (hv : List.length v < n) (s : Text) :
    jsonGetString (fieldsBefore pre ++ (printField (key, .string (jsonEscape v)) ++ s)) key n = some v := by
  have hfield : printField (key, .string (jsonEscape v)) ++ s = keyColon key ++ (['"'] ++ (jsonEscape v ++ '"' :: s)) := by
    simp [printField, keyColon, Value.print]
  unfold jsonGetString
  rw [if_neg (by omega), keyPattern_eq hkey.2 _ (by decide), Option.bind_some, hfield,
    strstr_fieldsBefore hkey hpre hne, Option.bind_some]
  exact scanString_jsonEscape (Nat.le_sub_one_of_lt hv) s

theorem jsonGetInt_at (z : Int) {c : Char} (hc : c.isDigit = false) (s : Text) :
    jsonGetInt (fieldsBefore pre ++ (printField (key, .number (printInt z)) ++ c :: s)) key =
      some (toInt32 (clampLong z)) := by
  have hfield : printField (key, .number (printInt z)) ++ c :: s = keyColon key ++ ([] ++ (printInt z ++ c :: s)) := by
    simp [printField, keyColon, Value.print]
  have hfound := strstr_fieldsBefore hkey hpre hne [] (printInt z ++ c :: s)
  unfold jsonGetInt
  rw [keyPattern_eq hkey.2 _ (by decide), Option.bind_some, hfield, hfound, Option.bind_some,
    strtol_printed z (noDigitHead_cons hc)]
  rfl

/-- A string without its closing quote is in the buffer nevertheless. -/
theorem readInto_unclosed {v : Text} (hplain : Plain v) (hv : List.length v < n) :
    readInto [] (fieldsBefore pre ++ (keyColon key ++ '"' :: v)) key n = v := by
  have hfound := strstr_fieldsBefore hkey hpre hne ['"'] v
  rw [List.singleton_append] at hfound
  unfold readInto jsonGetString
  have hunclosed : scanString (n - 1) v = none := scanString_unclosed (t := []) (by simpa using hplain.escaped.1) _
  rw [if_neg (by omega), keyPattern_eq hkey.2 _ (by decide), Option.bind_some, hfound, Option.bind_some, hunclosed,
    Option.bind_some, hfound]
  dsimp only
  rw [storedString_plain hplain (Nat.le_sub_one_of_lt hv), List.drop_nil, List.append_nil]

/-- **A cut entry loses its last value**: what is read of it is another text. -/
theorem readInto_cut {v chunk rest : Text} (h : chunk ++ rest = fieldsBefore pre ++ (keyColon key ++ '"' :: v))
    (hrest : rest ≠ []) (hplain : Plain v) (hne' : v ≠ []) (hv : List.length v < n) : readInto [] chunk key n ≠ v := by
  have hbefore {a : Text} (ha : a ≠ []) (hchunk : chunk ++ a = fieldsBefore pre ++ (keyColon key ++ ['"'])) :
      readInto [] chunk key n ≠ v := by
    have hnone := strstr_cut hkey hpre hne hchunk ha
    unfold readInto jsonGetString
    rw [if_neg (by omega), keyPattern_eq hkey.2 _ (by decide), Option.bind_some, hnone, Option.bind_none,
      Option.bind_some, hnone]
    exact hne'.symm
  have hsplit : fieldsBefore pre ++ (keyColon key ++ '"' :: v) =
      (fieldsBefore pre ++ (keyColon key ++ ['"'])) ++ v := by simp
  rw [hsplit] at h
  obtain ⟨a, ha, hrest'⟩ | ⟨c, rfl, hc⟩ := List.append_eq_append_iff.1 h
  · by_cases hnil : a = []
    · subst hnil
      rw [List.append_nil] at ha
      subst ha
      have hread := readInto_unclosed hkey hpre hne (v := []) (n := n) (by decide) (by rw [List.length_nil]; omega)
      rw [hread]
      exact hne'.symm
    · exact hbefore hnil ha.symm
  · have hplainc : Plain c := by
      subst hc
      exact ⟨fun h => hplain.1 (List.mem_append_left _ h), fun h => hplain.2 (List.mem_append_left _ h)⟩
    have hlen : c.length < v.length := by
      rw [hc, List.length_append]
      have := List.length_pos_iff.2 hrest
      omega
    have hread := readInto_unclosed hkey hpre hne hplainc (n := n) (by omega)
    rw [List.append_assoc, List.append_assoc, List.singleton_append, hread]
    intro heq
    rw [heq] at hlen
    exact Nat.lt_irrefl _ hlen

/-- A string that is cut has no value. -/
theorem jsonGetString_cut {e chunk rest : Text} (h : chunk ++ rest = fieldsBefore pre ++ (keyColon key ++ '"' :: e))
    (he : Escaped e) : jsonGetString chunk key n = none := by
  have hsplit : fieldsBefore pre ++ (keyColon key ++ '"' :: e) =
      (fieldsBefore pre ++ (keyColon key ++ ['"'])) ++ e := by simp
  have hread {found : Option Text} (hfound : strstr (keyColon key ++ ['"']) chunk = found)
      (hscan : ∀ s, found = some s → scanString (n - 1) s = none) : jsonGetString chunk key n = none := by
    unfold jsonGetString
    split
    · rfl
    · rw [keyPattern_eq hkey.2 _ (by decide), Option.bind_some, hfound]
      cases found with
      | none => rfl
      | some s => exact hscan s rfl
  have hfound (c : Text) : strstr (keyColon key ++ ['"']) (fieldsBefore pre ++ (keyColon key ++ ['"']) ++ c) = some c := by
    have := strstr_fieldsBefore hkey hpre hne ['"'] c
    simpa using this
  rw [hsplit] at h
  obtain ⟨a, ha, hrest⟩ | ⟨c, rfl, hc⟩ := List.append_eq_append_iff.1 h
  · by_cases hnil : a = []
    · rw [hnil, List.append_nil] at ha
      have hend := hfound []
      rw [List.append_nil, ha] at hend
      refine hread hend fun s hs => ?_
      cases hs
      exact scanString_unclosed (e := []) (t := e) he _
    · exact hread (strstr_cut hkey hpre hne ha.symm hnil) (by simp)
  · refine hread (hfound c) fun s hs => ?_
    cases hs
    rw [hc] at he
    exact scanString_unclosed he _

end Read
/-! ## What a chunk holds -/

/-- The chunk that is looked at. -/
def chunkOf (entry : Text) : Text :=
  match strchr '}' entry with
  | some (lead, _) => (lead ++ ['}']).take 511
  | none => []

/-- The closing quote and brace of an entry. -/
def closing : Text := ['"', '}']

/-- The chunk of an entry ends behind its last value, or it is a part of what is before. -/
theorem chunkOf_cases (body : Text) :
    ('}' ∉ body ∧ body.length ≤ 511 ∧ chunkOf (body ++ closing) = body ++ closing.take (511 - body.length)) ∨
      ¬ ('}' ∉ body ∧ body.length ≤ 511) ∧ ∃ rest, chunkOf (body ++ closing) ++ rest = body ∧
        (body.getLast? ≠ some '}' → rest ≠ []) := by
  by_cases hbrace : '}' ∈ body
  · refine .inr ⟨fun h => h.1 hbrace, ?_⟩
    obtain ⟨lead, tail, rfl, hlead⟩ := List.eq_append_cons_of_mem hbrace
    have hsplit : lead ++ '}' :: tail ++ closing = lead ++ '}' :: (tail ++ closing) := by simp
    have hchunk : chunkOf (lead ++ '}' :: tail ++ closing) = (lead ++ ['}']).take 511 := by
      unfold chunkOf
      rw [hsplit, strchr_append hlead]
    refine ⟨(lead ++ ['}']).drop 511 ++ tail, ?_, ?_⟩
    · rw [hchunk, ← List.append_assoc, List.take_append_drop, List.append_assoc, List.singleton_append]
    · intro hlast hnil
      rw [(List.append_eq_nil_iff.1 hnil).2] at hlast
      exact hlast (by simp)
  · have hbody : '}' ∉ body ++ ['"'] := by
      rw [List.mem_append]
      exact not_or.2 ⟨hbrace, by decide⟩
    have hchunk : chunkOf (body ++ closing) = (body ++ closing).take 511 := by
      have hsplit : body ++ closing = (body ++ ['"']) ++ '}' :: [] := by simp [closing]
      unfold chunkOf
      rw [hsplit, strchr_append hbody]
    rw [hchunk, List.take_append]
    by_cases hlen : body.length ≤ 511
    · exact .inl ⟨hbrace, hlen, by rw [List.take_of_length_le hlen]⟩
    · refine .inr ⟨fun h => hlen h.2, body.drop 511, ?_, fun _ => ?_⟩
      · rw [Nat.sub_eq_zero_of_le (by omega), List.take_zero, List.append_nil, List.take_append_drop]
      · rw [ne_eq, List.drop_eq_nil_iff]
        exact hlen

theorem brace_jsonEscape {v : Text} : '}' ∈ jsonEscape v ↔ '}' ∈ v := by
  constructor
  · intro h
    obtain ⟨c, hc, hbrace⟩ := List.mem_flatMap.1 h
    by_cases hspecial : c ∈ ['"', '\\', '\n', '\r', '\t']
    · simp only [List.mem_cons, List.not_mem_nil, or_false] at hspecial
      rcases hspecial with rfl | rfl | rfl | rfl | rfl <;> simp [escapeChar] at hbrace
    · rw [escapeChar_of_ne hspecial, List.mem_singleton] at hbrace
      rw [hbrace]
      exact hc
  · intro h
    exact List.mem_flatMap.2 ⟨'}', h, by decide⟩

theorem brace_not_mem_printInt (z : Int) : '}' ∉ printInt z := by
  have hnat (n : Nat) : '}' ∉ printNat n := fun h => absurd (isDigit_of_mem_printNat h) (by decide)
  cases z with
  | ofNat n => exact hnat n
  | negSucc n => simp [printInt, hnat]

/-- The braces of an entry before its end are those of its values. -/
theorem brace_body {pre : List Field} (hpre : ∀ f ∈ pre, IsKey f.1) {key : Text} (hkey : IsKey key) (v : Text) :
    '}' ∉ fieldsBefore pre ++ (keyColon key ++ '"' :: v) ↔ (∀ f ∈ pre, '}' ∉ f.2.print) ∧ '}' ∉ v := by
  have hfield (f : Field) (hf : IsKey f.1) : '}' ∈ printField f ↔ '}' ∈ f.2.print := by
    simp [printField, hf.ne (show ('}' : Char).isAlpha = false by decide)]
  have hbefore : '}' ∉ fieldsBefore pre ↔ ∀ f ∈ pre, '}' ∉ f.2.print := by
    unfold fieldsBefore
    rw [List.mem_cons, List.mem_flatMap]
    simp only [List.mem_append, List.mem_singleton, not_or, not_exists, not_and, Char.reduceEq, not_false_eq_true,
      true_and, and_true]
    exact forall₂_congr fun f hf => by rw [hfield f (hpre f hf)]
  rw [List.mem_append, not_or, hbefore]
  simp [keyColon, hkey.ne (show ('}' : Char).isAlpha = false by decide)]

end CoWrite.Client
