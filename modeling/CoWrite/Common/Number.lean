import CoWrite.Common.Text

/-!
# Decimal numbers

What `snprintf` prints for `%d`, `%ld`, `%u`, `%zu`, and what `strtol`, `atoi` and `strtoull` read.
Reading gives back a printed number that no further digit follows (`strtol_printInt`,
`strtoull_printNat`).
-/

namespace CoWrite

/-- `isspace` in the C locale. -/
def isSpace (c : Char) : Bool := [' ', '\t', '\n', '\x0b', '\x0c', '\r'].contains c

/-- `%u`, `%zu`. -/
def printNat (n : Nat) : Text := Nat.toDigits 10 n

/-- `%d`, `%ld`. -/
def printInt : Int → Text
  | .ofNat n => printNat n
  | .negSucc n => '-' :: printNat (n + 1)

/-- The optional sign that `strtol` reads: whether it is a minus, and the rest. -/
def takeSign : Text → Bool × Text
  | '-' :: s => (true, s)
  | '+' :: s => (false, s)
  | s => (false, s)

/-- The number `strtol(s, &end, 10)` reads before it looks at the range, and `end`; nothing when
`end == s`. -/
def scanInt (s : Text) : Option (Int × Text) :=
  let (neg, s) := takeSign (s.dropWhile isSpace)
  let ds := s.takeWhile Char.isDigit
  if ds.isEmpty then none
  else
    let n : Int := Nat.ofDigitChars 10 ds 0
    some (if neg then -n else n, s.dropWhile Char.isDigit)

def LONG_MAX : Int := 2 ^ 63 - 1
def LONG_MIN : Int := -2 ^ 63

/-- `strtol(s, &end, 10)` with `end`. -/
def strtol (s : Text) : Option (Int × Text) :=
  (scanInt s).map fun (n, rest) => (max LONG_MIN (min LONG_MAX n), rest)

/-- The cast `(int)` of a wider integer. -/
def toInt32 (z : Int) : Int := z.bmod (2 ^ 32)

/-- `atol(s)`. -/
def atol (s : Text) : Int := ((strtol s).map Prod.fst).getD 0

/-- `atoi(s)`. -/
def atoi (s : Text) : Int := toInt32 (atol s)

/-- `strtoull(s, NULL, 10)`: a negated number wraps. -/
def strtoull (s : Text) : Nat :=
  match scanInt s with
  | none => 0
  | some (n, _) => if n.natAbs < 2 ^ 64 then (n % 2 ^ 64).toNat else 2 ^ 64 - 1

/-! ## Reading what was printed -/

/-- The text goes on with something other than a digit, or ends. -/
def NoDigitHead (s : Text) : Prop := ∀ c ∈ s.head?, c.isDigit = false

theorem noDigitHead_nil : NoDigitHead [] := by simp [NoDigitHead]

theorem noDigitHead_cons {c : Char} {s : Text} (h : c.isDigit = false) : NoDigitHead (c :: s) := by
  simpa [NoDigitHead] using h

theorem isDigit_of_mem_printNat {n : Nat} {c : Char} (h : c ∈ printNat n) : c.isDigit :=
  Nat.isDigit_of_mem_toDigits (by decide) (by decide) h

theorem quote_not_mem_printNat (n : Nat) : '"' ∉ printNat n :=
  fun h => absurd (isDigit_of_mem_printNat h) (by decide)

theorem quote_not_mem_printInt (z : Int) : '"' ∉ printInt z := by
  cases z with
  | ofNat n => exact quote_not_mem_printNat n
  | negSucc n =>
    rw [printInt, List.mem_cons, not_or]
    exact ⟨by decide, quote_not_mem_printNat (n + 1)⟩

theorem printNat_ne_nil (n : Nat) : printNat n ≠ [] := Nat.toDigits_ne_nil

/-- `strlen` of a printed number is at most the number of digits of its bound. -/
theorem length_printNat_le {n k : Nat} (hk : 0 < k) (h : n < 10 ^ k) : (printNat n).length ≤ k :=
  (Nat.length_toDigits_le_iff (by decide) hk).2 h

theorem span_printNat (n : Nat) {rest : Text} (hr : NoDigitHead rest) :
    (printNat n ++ rest).takeWhile Char.isDigit = printNat n ∧
      (printNat n ++ rest).dropWhile Char.isDigit = rest := by
  have hd : ∀ c ∈ printNat n, c.isDigit := fun c hc => isDigit_of_mem_printNat hc
  rw [List.takeWhile_append_of_pos hd, List.dropWhile_append_of_pos hd]
  cases rest with
  | nil => simp
  | cons c rest =>
    have hc : c.isDigit = false := hr c (by simp)
    simp [hc]

theorem not_isSpace_of_isDigit {c : Char} (h : c.isDigit) : isSpace c = false := by
  by_contra hc
  simp only [isSpace, List.contains_eq_mem, List.mem_cons, List.not_mem_nil, or_false,
    decide_eq_true_eq, Bool.not_eq_false] at hc
  rcases hc with rfl | rfl | rfl | rfl | rfl | rfl <;> exact absurd h (by decide)

/-- A number is printed with a digit at its head. -/
theorem printNat_eq_cons (n : Nat) : ∃ c s, printNat n = c :: s ∧ c.isDigit := by
  obtain ⟨c, s, h⟩ := List.exists_cons_of_ne_nil (printNat_ne_nil n)
  exact ⟨c, s, h, isDigit_of_mem_printNat (n := n) (by simp [h])⟩

theorem takeSign_of_isDigit {c : Char} {s : Text} (h : c.isDigit) :
    takeSign (c :: s) = (false, c :: s) := by
  unfold takeSign
  split
  · next heq => cases heq; exact absurd h (by decide)
  · next heq => cases heq; exact absurd h (by decide)
  · rfl

theorem scanInt_printNat (n : Nat) {rest : Text} (hr : NoDigitHead rest) :
    scanInt (printNat n ++ rest) = some ((n : Int), rest) := by
  obtain ⟨ht, hd⟩ := span_printNat n hr
  obtain ⟨c, s, hn, hc⟩ := printNat_eq_cons n
  have hhead : (printNat n ++ rest).dropWhile isSpace = printNat n ++ rest := by
    simp [hn, not_isSpace_of_isDigit hc]
  have hsign : takeSign (printNat n ++ rest) = (false, printNat n ++ rest) := by
    rw [hn]
    exact takeSign_of_isDigit hc
  have hval : Nat.ofDigitChars 10 (printNat n) 0 = n := Nat.ofDigitChars_ten_toDigits
  simp [scanInt, hhead, hsign, ht, hd, printNat_ne_nil, hval]

theorem scanInt_printInt (z : Int) {rest : Text} (hr : NoDigitHead rest) :
    scanInt (printInt z ++ rest) = some (z, rest) := by
  cases z with
  | ofNat n => exact scanInt_printNat n hr
  | negSucc n =>
    obtain ⟨ht, hd⟩ := span_printNat (n + 1) hr
    have hval : Nat.ofDigitChars 10 (printNat (n + 1)) 0 = n + 1 := Nat.ofDigitChars_ten_toDigits
    have hspace : isSpace '-' = false := by decide
    simp [scanInt, printInt, hspace, takeSign, ht, hd, printNat_ne_nil, hval, Int.negSucc_eq]

/-- What `strtol` makes of a number: one that a `long` cannot hold is cut off. -/
def clampLong (z : Int) : Int := max LONG_MIN (min LONG_MAX z)

theorem strtol_printed (z : Int) {rest : Text} (hr : NoDigitHead rest) :
    strtol (printInt z ++ rest) = some (clampLong z, rest) := by
  rw [strtol, scanInt_printInt z hr]
  rfl

theorem clampLong_eq_self {z : Int} (h : LONG_MIN ≤ z ∧ z ≤ LONG_MAX) : clampLong z = z := by
  unfold clampLong
  omega

theorem strtol_printInt {z : Int} (h : LONG_MIN ≤ z ∧ z ≤ LONG_MAX) {rest : Text}
    (hr : NoDigitHead rest) : strtol (printInt z ++ rest) = some (z, rest) := by
  rw [strtol_printed z hr, clampLong_eq_self h]

theorem toInt32_eq_self {z : Int} (h : -2 ^ 31 ≤ z ∧ z < 2 ^ 31) : toInt32 z = z := by
  unfold toInt32
  rw [Int.bmod_def]
  omega

/-- A count that an `int` holds is read back as it is. -/
theorem toInt32_clampLong_natCast {n : Nat} (h : n < 2 ^ 31) : toInt32 (clampLong n) = n := by
  rw [clampLong_eq_self (by unfold LONG_MIN LONG_MAX; omega), toInt32_eq_self (by omega)]

theorem atol_printInt {z : Int} (h : LONG_MIN ≤ z ∧ z ≤ LONG_MAX) : atol (printInt z) = z := by
  have := strtol_printInt h noDigitHead_nil
  simp only [List.append_nil] at this
  simp [atol, this]

theorem atoi_printInt {z : Int} (h : -2 ^ 31 ≤ z ∧ z < 2 ^ 31) : atoi (printInt z) = z := by
  unfold atoi
  rw [atol_printInt (by unfold LONG_MIN LONG_MAX; omega), toInt32_eq_self h]

theorem length_printInt_le {z : Int} (h : LONG_MIN ≤ z ∧ z ≤ LONG_MAX) :
    (printInt z).length ≤ 20 := by
  unfold LONG_MIN LONG_MAX at h
  cases z with
  | ofNat n =>
    have hn : n < 10 ^ 19 := by
      rw [Int.ofNat_eq_natCast] at h
      omega
    exact Nat.le_trans (length_printNat_le (by decide) hn) (by decide)
  | negSucc n =>
    have := length_printNat_le (n := n + 1) (k := 19) (by decide) (by omega)
    simp only [printInt, List.length_cons]
    omega

theorem strtoull_printNat {n : Nat} (h : n < 2 ^ 64) : strtoull (printNat n) = n := by
  have := scanInt_printNat n noDigitHead_nil
  simp only [List.append_nil] at this
  simp only [strtoull, this, Int.natAbs_natCast, if_pos h]
  omega

end CoWrite
