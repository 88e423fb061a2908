import Mathlib.Algebra.Order.Ring.Int
import Mathlib.Data.List.Basic

/-!
# C strings

A C string is the list of its bytes before the terminator, one `Char` a byte (`(unsigned char)` casts
compare the byte values, as `Char` does). `copyTo n s` is what `snprintf(buf, n, "%s", s)` leaves in
a buffer of `n` bytes.
-/

namespace CoWrite

/-- A C string, without its terminator. -/
abbrev Text := List Char

namespace Text

/-- The string literal `s` of the source. -/
abbrev lit (s : String) : Text := s.toList

/-- The contents of a buffer of `n` bytes after `snprintf(buf, n, "%s", s)`. -/
def copyTo (n : Nat) (s : Text) : Text := s.take (n - 1)

theorem copyTo_eq_self {n : Nat} {s : Text} (h : s.length < n) : copyTo n s = s :=
  List.take_of_length_le (by omega)

theorem length_copyTo_lt {n : Nat} (s : Text) (h : 0 < n) : (copyTo n s).length < n := by
  unfold copyTo
  have := List.length_take_le (n - 1) s
  omega

end Text

end CoWrite
