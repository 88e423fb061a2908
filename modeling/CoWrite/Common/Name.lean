import CoWrite.Common.Text

/-!
# Names

`valid_filename` of the storage server, `valid_filename` and `valid_checkpoint_tag` of the name
manager are one function. Names are checked against it and kept in buffers of fixed size, so the
types of names carry both facts.
-/

namespace CoWrite

/-- The loop of `valid_filename`, but for its test on the first character. -/
def validChars : Text → Bool
  | [] => true
  | c :: s =>
    !(c == '.' && s.head? == some '.') && !(c == '/' || c == '\\') &&
      !(c.toNat < 32 || c.toNat > 126) && validChars s

def validName : Text → Bool
  | [] => false
  | c :: s => c != '.' && validChars (c :: s)

/-- A name of a file or a tag in its buffer of 128 bytes. -/
structure FileName where
  text : Text
  valid : validName text = true
  short : text.length < 128

/-- The text as a name, if it is one. -/
def FileName.ofText (text : Text) : Option FileName :=
  if h : validName text = true ∧ text.length < 128 then some ⟨text, h.1, h.2⟩ else none

theorem FileName.text_of_ofText {text : Text} {name : FileName} (h : ofText text = some name) : name.text = text := by
  rw [ofText] at h
  split_ifs at h
  cases h
  rfl

/-- A user name in its buffer of 64 bytes. -/
structure UserName where
  text : Text
  short : text.length < 64

theorem validChars_iff {s : Text} : validChars s = true → ∀ c ∈ s,
    c ≠ '/' ∧ c ≠ '\\' ∧ 32 ≤ c.toNat ∧ c.toNat ≤ 126 := by
  induction s with
  | nil => simp
  | cons c s ih =>
    intro h
    simp only [validChars, Bool.and_eq_true, Bool.not_eq_true', Bool.or_eq_false_iff,
      beq_eq_false_iff_ne, decide_eq_false_iff_not, Nat.not_lt, gt_iff_lt] at h
    obtain ⟨⟨⟨-, h1⟩, h2⟩, h3⟩ := h
    rw [List.forall_mem_cons]
    exact ⟨⟨h1.1, h1.2, h2.1, h2.2⟩, ih h3⟩

theorem validName.chars {s : Text} (h : validName s = true) : ∀ c ∈ s,
    c ≠ '/' ∧ c ≠ '\\' ∧ 32 ≤ c.toNat ∧ c.toNat ≤ 126 := by
  cases s with
  | nil => simp
  | cons c s =>
    simp only [validName, Bool.and_eq_true] at h
    exact validChars_iff h.2

end CoWrite
