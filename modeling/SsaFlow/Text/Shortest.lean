/-! # The shortest decimal of a binary number

    A 64-bit floating-point number stands for every real that rounds to it. Its
    text is the decimal with the fewest digits among those reals; of two with
    equally many digits the nearer one, and the larger one at a tie. The text is
    always positional: no exponent, and no point after a whole number.

    All arithmetic is on natural numbers: the value and the ends of its interval
    are fractions over one denominator.
-/

namespace SsaFlow.Text.Shortest

/-- A positive real and the reals that round to it, over one denominator. -/
structure Interval where
  /-- The common denominator. -/
  den : Nat
  /-- The value. -/
  mid : Nat
  /-- The lower end. -/
  low : Nat
  /-- The upper end. -/
  high : Nat
  /-- Whether the ends belong to the interval. -/
  closed : Bool

/-- The leading bit of a normal mantissa, 2^52. It is not stored: in the bits of a
    number the exponent begins there. -/
def hiddenBit : Nat := 4503599627370496

/-- The interval of `mantissa * 2 ^ (exponent - 1075)`. The neighbours are one
    unit of the mantissa away, except that below a power of two they are twice
    as dense. A tie between two neighbours goes to the even mantissa. -/
def Interval.of (mantissa exponent : Nat) : Interval :=
  let down := if mantissa = hiddenBit then 1 else 2
  let up := if exponent ≥ 1077 then Nat.pow 2 (exponent - 1077) else 1
  let den := if exponent ≥ 1077 then 1 else Nat.pow 2 (1077 - exponent)
  { den := den
    mid := 4 * mantissa * up
    low := (4 * mantissa - down) * up
    high := (4 * mantissa + 2) * up
    closed := mantissa % 2 = 0 }

/-- Every value is multiplied by this power of ten first, so that even the
    smallest has more than seventeen digits before the point. -/
def headroom : Nat := 350

/-- The number of decimal digits. -/
def digitCount (n : Nat) : Nat := (Nat.toDigits 10 n).length

/-- The best numeral with `n` digits, as a count of units of
    `10 ^ (places - n)`: none if no such numeral lies in the interval. -/
def Interval.atDigits (v : Interval) (places n : Nat) : Option Nat :=
  let unit := v.den * Nat.pow 10 (places - n)
  let mid := v.mid * Nat.pow 10 headroom
  let low := v.low * Nat.pow 10 headroom
  let high := v.high * Nat.pow 10 headroom
  let t := mid / unit
  let lower := if v.closed then low ≤ t * unit else low < t * unit
  let upper := if v.closed then (t + 1) * unit ≤ high else (t + 1) * unit < high
  if lower ∧ upper then
    if 2 * (mid - t * unit) < unit then some t else some (t + 1)
  else if lower then some t
  else if upper then some (t + 1)
  else none

/-- The number of digits before the point, after scaling by `headroom`. -/
def Interval.places (v : Interval) : Nat := digitCount (v.mid * Nat.pow 10 headroom / v.den)

/-- Drop zeros at the end of a numeral: `t * 10 ^ p` is unchanged. -/
def trim (t : Nat) (p : Int) : Nat × Int :=
  if _h : t ≠ 0 ∧ t % 10 = 0 then trim (t / 10) (p + 1) else (t, p)
termination_by t
decreasing_by omega

/-- The shortest numeral `t` and power `p` with `t * 10 ^ p` in the interval:
    try one digit, then two, up to seventeen. -/
def Interval.shortest (v : Interval) : Nat × Int :=
  let places := v.places
  let found := (List.range 17).findSome? fun i =>
    (v.atDigits places (i + 1)).map fun t => (t, i + 1)
  match found with
  | some (t, n) => trim t ((places : Int) - n - headroom)
  | none => (0, 0)

/-- The number `t * 10 ^ p` written positionally. -/
def positional (t : Nat) (p : Int) : String :=
  let digits := Nat.toDigits 10 t
  if 0 ≤ p then String.ofList (digits ++ List.replicate p.toNat '0')
  else
    let behind := (-p).toNat
    if digits.length ≤ behind then
      String.ofList ('0' :: '.' :: List.replicate (behind - digits.length) '0' ++ digits)
    else
      String.ofList
        (digits.take (digits.length - behind) ++ '.' :: digits.drop (digits.length - behind))

/-- The text of the 64-bit floating-point number with the given bits. -/
def ofBits (bits : UInt64) : String :=
  let n := bits.toNat
  let negative := n ≥ hiddenBit * 2048
  let exponent := n / hiddenBit % 2048
  let fraction := n % hiddenBit
  let sign := if negative then "-" else ""
  if exponent = 2047 then
    if fraction = 0 then sign ++ "inf" else "NaN"
  else if exponent = 0 ∧ fraction = 0 then sign ++ "0"
  else
    let v := if exponent = 0 then Interval.of fraction 1
      else Interval.of (hiddenBit + fraction) exponent
    let (t, p) := v.shortest
    sign ++ positional t p

end SsaFlow.Text.Shortest
