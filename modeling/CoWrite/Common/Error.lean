import CoWrite.Common.Message

/-!
# Error codes

The codes of `error.h` with the names and messages a reply carries, and the values of `errno` the
program looks at.
-/

namespace CoWrite

/-- The values of `errno` that are set or tested; `other` is any other value. -/
inductive Errno where
  | ENOENT
  | EINVAL
  | ENAMETOOLONG
  | EBUSY
  | EAGAIN
  | EEXIST
  | other
deriving DecidableEq, Repr

/-- `error_code_t`. -/
inductive ErrorCode where
  | OK
  | NOAUTH
  | NOTFOUND
  | LOCKED
  | BADREQ
  | CONFLICT
  | UNAVAILABLE
  | INTERNAL
  | EXISTS
  | PERM
  | TIMEOUT
deriving DecidableEq, Repr

def errorCodeName : ErrorCode → Text
  | .OK => Text.lit "OK"
  | .NOAUTH => Text.lit "ERR_NOAUTH"
  | .NOTFOUND => Text.lit "ERR_NOTFOUND"
  | .LOCKED => Text.lit "ERR_LOCKED"
  | .BADREQ => Text.lit "ERR_BADREQ"
  | .CONFLICT => Text.lit "ERR_CONFLICT"
  | .UNAVAILABLE => Text.lit "ERR_UNAVAILABLE"
  | .INTERNAL => Text.lit "ERR_INTERNAL"
  | .EXISTS => Text.lit "ERR_EXISTS"
  | .PERM => Text.lit "ERR_PERM"
  | .TIMEOUT => Text.lit "ERR_TIMEOUT"

def errorCodeMessage : ErrorCode → Text
  | .OK => Text.lit "success"
  | .NOAUTH => Text.lit "authentication or authorization failure"
  | .NOTFOUND => Text.lit "resource not found"
  | .LOCKED => Text.lit "resource is locked"
  | .BADREQ => Text.lit "invalid request"
  | .CONFLICT => Text.lit "conflict"
  | .UNAVAILABLE => Text.lit "service unavailable"
  | .INTERNAL => Text.lit "internal error"
  | .EXISTS => Text.lit "resource already exists"
  | .PERM => Text.lit "operation not permitted"
  | .TIMEOUT => Text.lit "operation timed out"

theorem errorCodeName_plain (code : ErrorCode) :
    Plain (errorCodeName code) ∧ (errorCodeName code).length ≤ 15 := by
  cases code <;> decide

end CoWrite
