/-!
# Quantities for people

Counts are written with their digits in groups of three, and sizes in the largest unit that they
reach, with one decimal place. A size is first brought to 53 significant bits, which changes only
sizes from `2 ^ 53` on; the unit is chosen by that value, and its tenths are rounded only then.
So a size just below a unit can be shown as 1024.0 of the unit before.

Both roundings go to the nearest number and from the middle to the even one, as `divNearest` does.
-/

namespace Fat16.Quantity

/-- The quotient `n / d`, rounded to the nearest number and from the middle to the even one. -/
def divNearest (n d : Nat) : Nat :=
  if 2 * (n % d) < d then n / d
  else if d < 2 * (n % d) then n / d + 1
  else n / d + n / d % 2

/-- The number with at most `bits` significant bits that is nearest to `n`. -/
def significant (bits n : Nat) : Nat :=
  if n < Nat.pow 2 bits then n
  else
    let step := Nat.pow 2 (n.log2 + 1 - bits)
    divNearest n step * step

/-- Puts a space before every group of three digits but the first group. -/
def groupDigits : List Char → List Char
  | [] => []
  | digit :: rest =>
    if rest ≠ [] ∧ rest.length % 3 = 0 then digit :: ' ' :: groupDigits rest
    else digit :: groupDigits rest

/-- A count with its digits in groups of three. -/
def count (n : Nat) : String := .ofList (groupDigits (Nat.toDigits 10 n))

/-- The units of size, each 1024 times the one before. -/
def units : Vector String 7 := #v["B", "KiB", "MiB", "GiB", "TiB", "PiB", "EiB"]

/-- The place in `units` of the largest unit that `n` bytes reach. -/
def unitOf (n : Nat) : Fin 7 := ⟨min 6 (n.log2 / 10), by omega⟩

/-- How many tenths of a unit `n` bytes are. -/
def tenths (n : Nat) (unit : Fin 7) : Nat := divNearest (10 * n) (Nat.pow 1024 unit)

/-- A number of bytes in the unit that fits it; single bytes are counted exactly. -/
def byteSize (n : Nat) : String :=
  let size := significant 53 n
  let unit := unitOf size
  if unit = 0 then s!"{count n} {units[unit]}"
  else s!"{tenths size unit / 10}.{tenths size unit % 10} {units[unit]}"

end Fat16.Quantity
