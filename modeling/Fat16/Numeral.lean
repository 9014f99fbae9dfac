/-!
# Numerals

Numbers written with leading zeros, in the two bases that reports use.
-/

namespace Fat16.Numeral

/-- The digits of `n` in the given base, with zeros in front up to the given width. -/
def padded (base width n : Nat) : List Char := (Nat.toDigits base n).leftpad width '0'

/-- A hexadecimal numeral of at least `width` digits. -/
def hex (width n : Nat) : String := .ofList (padded 16 width n)

/-- A decimal numeral of at least `width` digits. -/
def decimal (width n : Nat) : String := .ofList (padded 10 width n)

end Fat16.Numeral
