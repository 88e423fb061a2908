import CoWrite.Common.Json

/-!
# The two decoders of strings

`json_get_string` copies a string into a buffer and gives up when it is full. `json_get_string_alloc` first counts the
characters, allocates, and then copies them without looking at the count.

`decoders_agree`: they read the same strings, but for the size of the buffer, and the count is what is written.
-/

namespace CoWrite

/-- The second loop of `json_get_string_alloc`: whether it comes to a closing quote, and what it writes before it ends. -/
def copyString : Text → Bool × Text
  | [] => (false, [])
  | '"' :: _ => (true, [])
  | ['\\'] => (false, [])
  | '\\' :: c :: s => ((copyString s).1, unescapeChar c :: (copyString s).2)
  | c :: s => ((copyString s).1, c :: (copyString s).2)

/-- `json_get_string_alloc` with both of its loops. -/
def jsonGetStringLoops (json key : Text) (alloc : Bool) : Option Text :=
  (keyPattern key ['"']).bind fun pattern =>
    (strstr pattern json).bind fun p =>
      (scanLength p).bind fun _ =>
        if alloc then if (copyString p).1 then some (copyString p).2 else none else none

theorem scanString_backslash (room : Nat) (c : Char) (s : Text) : scanString room ('\\' :: c :: s) =
    if room = 0 then none else (scanString (room - 1) s).map (unescapeChar c :: ·) := by
  cases room with
  | zero => rw [scanString] <;> simp
  | succ room => rw [scanString, if_neg (Nat.succ_ne_zero room), Nat.add_sub_cancel]

/-- A character is stored where there is room for it and the rest of the string. -/
theorem stored_iff {room : Nat} {s v : Text} (c : Char)
    (h : ∀ room v, scanString room s = some v ↔ copyString s = (true, v) ∧ v.length ≤ room) :
    (if room = 0 then none else (scanString (room - 1) s).map (c :: ·)) = some v ↔
      ((copyString s).1, c :: (copyString s).2) = (true, v) ∧ v.length ≤ room := by
  rw [Option.ite_none_left_eq_some, Option.map_eq_some_iff]
  constructor
  · rintro ⟨hroom, w, hw, rfl⟩
    obtain ⟨hcopy, hlen⟩ := (h _ w).1 hw
    rw [hcopy, List.length_cons]
    exact ⟨rfl, by omega⟩
  · rintro ⟨hcopy, hlen⟩
    obtain ⟨hclosed, rfl⟩ := Prod.mk.inj hcopy
    rw [List.length_cons] at hlen
    have hfits : (copyString s).2.length ≤ room - 1 := Nat.le_sub_one_of_lt hlen
    exact ⟨by omega, _, (h _ _).2 ⟨Prod.ext hclosed rfl, hfits⟩, rfl⟩

/-- A buffer takes the string if it is closed and fits. -/
theorem scanString_eq_some_iff {room : Nat} {s v : Text} :
    scanString room s = some v ↔ copyString s = (true, v) ∧ v.length ≤ room := by
  induction s using copyString.induct generalizing room v with
  | case1 => simp [scanString, copyString]
  | case2 s =>
    simp only [scanString, copyString, Option.some.injEq, Prod.mk.injEq, true_and]
    constructor
    · rintro rfl
      exact ⟨rfl, Nat.zero_le room⟩
    · exact And.left
  | case3 => simp [scanString, copyString]
  | case4 c s ih =>
    rw [scanString_backslash, copyString]
    exact stored_iff _ fun _ _ => ih
  | case5 c s hq h1 h2 ih =>
    have hb : c ≠ '\\' := by
      rintro rfl
      cases s with
      | nil => exact h1 rfl rfl
      | cons d s => exact h2 d s rfl rfl
    have hcopy : copyString (c :: s) = ((copyString s).1, c :: (copyString s).2) := by
      rw [copyString] <;> assumption
    rw [scanString_cons (fun e => hq e) hb, hcopy]
    exact stored_iff _ fun _ _ => ih

/-- The first loop counts what the second one writes. -/
theorem scanLength_eq (s : Text) : scanLength s = if (copyString s).1 then some (copyString s).2.length else none := by
  induction s using copyString.induct with
  | case1 => rfl
  | case2 s => rfl
  | case3 => rfl
  | case4 c s ih =>
    rw [scanLength, copyString, ih]
    split <;> rfl
  | case5 c s hq h1 h2 ih =>
    rw [scanLength, copyString, ih] <;> try assumption
    split <;> rfl

/-- The model that is used elsewhere reads the same. -/
theorem jsonGetStringAlloc_eq_loops (json key : Text) (alloc : Bool) :
    jsonGetStringAlloc json key alloc = jsonGetStringLoops json key alloc := by
  unfold jsonGetStringAlloc jsonGetStringLoops
  refine Option.bind_congr fun pattern _ => Option.bind_congr fun p _ => Option.bind_congr fun len hlen => ?_
  rw [scanLength_eq, Option.ite_none_right_eq_some] at hlen
  obtain ⟨hclosed, hlen⟩ := hlen
  rw [if_pos hclosed]
  split
  · exact scanString_eq_some_iff.2 ⟨Prod.ext hclosed rfl, (Option.some.inj hlen).le⟩
  · rfl

/-- **The decoders agree**, whatever the message and the key: the buffer has the string exactly when the allocated copy
has it and it fits; and the first loop counts the characters that the second one writes. -/
theorem decoders_agree (json key : Text) :
    (∀ (n : Nat) (v : Text), jsonGetString json key n = some v ↔
      jsonGetStringLoops json key true = some v ∧ v.length < n) ∧
    jsonGetStringLoops json key false = none ∧
    ∀ (p : Text) (len : Nat), scanLength p = some len → (copyString p).1 = true ∧ (copyString p).2.length = len := by
  refine ⟨?_, ?_, ?_⟩
  · intro n v
    unfold jsonGetString jsonGetStringLoops
    rw [Option.ite_none_left_eq_some]
    simp only [Option.bind_eq_some_iff, scanLength_eq, if_true, scanString_eq_some_iff]
    constructor
    · rintro ⟨hn, pattern, hpattern, p, hp, hcopy, hlen⟩
      refine ⟨⟨pattern, hpattern, p, hp, v.length, ?_, ?_⟩, by omega⟩
      · rw [hcopy, if_pos rfl]
      · rw [hcopy, if_pos rfl]
    · rintro ⟨⟨pattern, hpattern, p, hp, len, -, hcopy⟩, hlen⟩
      obtain ⟨hclosed, hv⟩ := Option.ite_none_right_eq_some.1 hcopy
      exact ⟨by omega, pattern, hpattern, p, hp, Prod.ext hclosed (Option.some.inj hv), by omega⟩
  · unfold jsonGetStringLoops
    cases keyPattern key ['"'] with
    | none => rfl
    | some pattern =>
      rw [Option.bind_some]
      cases strstr pattern json with
      | none => rfl
      | some p =>
        rw [Option.bind_some]
        cases scanLength p <;> rfl
  · intro p len h
    rw [scanLength_eq, Option.ite_none_right_eq_some] at h
    exact ⟨h.1, Option.some.inj h.2⟩

end CoWrite
