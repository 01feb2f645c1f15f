/-!
# Decimal integers in 64 bits

A run of digits of any length has a value; it is an integer of the language if, with its sign, it
fits into 64 bits. The value is counted only up to a bound beyond that range, so that a long run
of digits costs no more than its length.
-/

namespace RobotShell.Decimal

/-- The value of one decimal digit. -/
def digit (c : Char) : Nat :=
  c.toNat - '0'.toNat

/-- The value of a run of digits, the most significant first. -/
def value (ds : List Char) : Nat :=
  ds.foldl (fun n c => 10 * n + digit c) 0

/-- The value of a run of digits, or `bound` if that is smaller. -/
def valueUpTo (bound : Nat) (ds : List Char) : Nat :=
  ds.foldl (fun n c => min bound (10 * n + digit c)) 0

/-- The integer that a sign and a run of digits stand for, if it fits into 64 bits. -/
def int64? (negative : Bool) (ds : List Char) : Option Int64 :=
  let n := valueUpTo (Nat.pow 2 63 + 1) ds
  if negative then
    if n ≤ Nat.pow 2 63 then some (Int64.ofInt (-n)) else none
  else
    if n < Nat.pow 2 63 then some (Int64.ofNat n) else none

theorem foldl_min (bound : Nat) (ds : List Char) (n : Nat) :
    ds.foldl (fun n c => min bound (10 * n + digit c)) (min bound n) =
      min bound (ds.foldl (fun n c => 10 * n + digit c) n) := by
  induction ds generalizing n with
  | nil => rfl
  | cons c ds ih =>
    rw [List.foldl_cons, List.foldl_cons, ← ih]
    congr 1
    omega

theorem valueUpTo_eq (bound : Nat) (ds : List Char) :
    valueUpTo bound ds = min bound (value ds) := by
  have h := foldl_min bound ds 0
  rwa [Nat.min_zero] at h

end RobotShell.Decimal
