import Mathlib

/-!
# Error codes

`ztk_err_t` of `ztk_errno.h`.  The socket layer returns byte counts and error
codes through one signed type and casts a negative count back to the
enumeration, so the type has room for a code that is no enumerator, and
`Err.ofCode` is that cast.
-/

namespace Ztk

/-- `ztk_err_t`. -/
inductive Err where
  | ok
  | nomem
  | invalid
  | io
  | timeout
  | again
  | notImpl
  | platform
  | state
  | bufferTooSmall
  /-- A value of the enumeration's integer type that is no enumerator. -/
  | other (code : Int)
deriving DecidableEq, Repr

namespace Err

/-- The integer value of a code. -/
def code : Err → Int
  | ok => 0
  | nomem => -1
  | invalid => -2
  | io => -3
  | timeout => -4
  | again => -5
  | notImpl => -6
  | platform => -7
  | state => -8
  | bufferTooSmall => -9
  | other n => n

/-- The cast `(ztk_err_t)n`. -/
def ofCode (n : Int) : Err :=
  if n = 0 then ok
  else if n = -1 then nomem
  else if n = -2 then invalid
  else if n = -3 then io
  else if n = -4 then timeout
  else if n = -5 then again
  else if n = -6 then notImpl
  else if n = -7 then platform
  else if n = -8 then state
  else if n = -9 then bufferTooSmall
  else other n

theorem code_ite {n k : Int} {e f : Err} (he : e.code = k) (hf : f.code = n) :
    (if n = k then e else f).code = n := by
  split
  · next h => rw [he, h]
  · exact hf

@[simp] theorem code_ofCode (n : Int) : (ofCode n).code = n := by
  simp only [ofCode]
  iterate 10 refine code_ite rfl ?_
  rfl

/-- Only zero casts to `ZTK_OK`. -/
theorem ofCode_eq_ok {n : Int} : ofCode n = ok ↔ n = 0 := by
  constructor
  · intro h
    rw [← code_ofCode n, h, code]
  · intro h
    rw [h]
    rfl

end Err

end Ztk
