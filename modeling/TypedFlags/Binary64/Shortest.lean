import TypedFlags.Binary64.Basic
/-!
# The fewest digits that identify a number

`Binary64.shortest` gives, for a number other than zero, the decimal `digits · 10 ^ power` with the
fewest digits among all that are nearer to the number than to its neighbours in the format, and of
those the nearest.

The reals that round to `m · 2 ^ e` form an interval, half a unit to each side (a quarter below a
power of two), with its ends included exactly when `m` is even. For one digit, two, three and so on
the search looks at the two points of that decimal grid around the number: if any point of a grid
lies in the interval, one of these two does. All comparisons are of natural numbers, in quarters of
`2 ^ e`.

`Binary64.Layout` holds the decisions about how such a decimal is written.
-/

set_option autoImplicit false

namespace TypedFlags

namespace Binary64

/-- How many decimal digits a number has; zero has one. -/
def decimalLength (n : Nat) : Nat := (Nat.toDigits 10 n).length

/-- The exponent of the leading decimal digit of `num / den`, for a quotient of at least
    `10 ^ (-400)`. -/
def leadingPower (num den : Nat) : Int :=
  (decimalLength (num * Nat.pow 10 400 / den) : Int) - 401

/-- A bound of the rounding interval, `quarters · 2 ^ (exponent - 2)`, and a point of a decimal
    grid, `point · 10 ^ power`, on a common scale. -/
def onScale (exponent power : Int) : (quarters : Nat) → (point : Nat) → Nat × Nat :=
  fun quarters point =>
    (quarters * Nat.pow 2 (exponent - 2).toNat * Nat.pow 10 (-power).toNat,
      point * Nat.pow 10 power.toNat * Nat.pow 2 (2 - exponent).toNat)

/-- Whether `point · 10 ^ power` rounds to the magnitude of `x`. -/
def roundsTo (x : Binary64) (point : Nat) (power : Int) : Bool :=
  let below := if x.mantissa = 0x10000000000000 ∧ x.exponent ≠ -1074 then 1 else 2
  let low := onScale x.exponent power (4 * x.mantissa - below) point
  let high := onScale x.exponent power (4 * x.mantissa + 2) point
  if x.mantissa % 2 = 0 then low.1 ≤ low.2 && high.2 ≤ high.1
  else low.1 < low.2 && high.2 < high.1

/-- The point of the grid of multiples of `10 ^ power` that rounds to `x` and is nearest to it, a
    tie to the even one. -/
def gridPoint? (x : Binary64) (power : Int) : Option Nat :=
  let (value, unit) := onScale x.exponent power (4 * x.mantissa) 1
  let point := value / unit
  match roundsTo x point power, roundsTo x (point + 1) power with
  | true, true =>
    let twice := 2 * (value % unit)
    if twice < unit ∨ (twice = unit ∧ point % 2 = 0) then some point else some (point + 1)
  | true, false => some point
  | false, true => some (point + 1)
  | false, false => none

/-- A decimal without the zeros at its end. -/
def stripZeros (digits : Nat) (power : Int) : Nat × Int :=
  if h : digits ≠ 0 ∧ digits % 10 = 0 then stripZeros (digits / 10) (power + 1)
  else (digits, power)
termination_by digits
decreasing_by omega

/-- The shortest decimal that rounds to the magnitude of `x`, which is not zero: its digits and
    the power of ten they are multiplied by. Seventeen digits always suffice. -/
def shortest (x : Binary64) : Nat × Int :=
  let lead := leadingPower x.ratio.1 x.ratio.2
  let found := (List.range 17).findSome? fun (n : Nat) =>
    (gridPoint? x (lead - n)).map (·, lead - n)
  let (digits, power) := found.getD (0, 0)
  stripZeros digits power

/-- How a decimal is laid out: numbers whose leading digit stands for `10 ^ e` with
    `plainFrom ≤ e < plainBelow` are written out, all others with an exponent. -/
structure Layout where
  plainFrom : Int
  plainBelow : Int

/-- The text of `digits · 10 ^ power`. Written out, it has at least one digit on both sides of the
    point; with an exponent, it has one digit before the point, no point if that is all, and the
    exponent carries its sign. -/
def Layout.decimal (layout : Layout) (digits : Nat) (power : Int) : List Char :=
  let ds := Nat.toDigits 10 digits
  let lead := power + ds.length - 1
  if layout.plainFrom ≤ lead ∧ lead < layout.plainBelow then
    if 0 ≤ power then ds ++ List.replicate power.toNat '0' ++ ['.', '0']
    else if 0 ≤ lead then ds.take (lead + 1).toNat ++ '.' :: ds.drop (lead + 1).toNat
    else '0' :: '.' :: List.replicate (-lead - 1).toNat '0' ++ ds
  else
    let fraction := match ds.drop 1 with
      | [] => []
      | rest => '.' :: rest
    let sign := if lead < 0 then '-' else '+'
    ds.take 1 ++ fraction ++ 'e' :: sign :: Nat.toDigits 10 lead.natAbs

/-- The text of a number in a layout. -/
def Layout.text (layout : Layout) (x : Binary64) : List Char :=
  let sign := if x.negative then ['-'] else []
  if x.isZero then sign ++ ['0', '.', '0']
  else
    let (digits, power) := x.shortest
    sign ++ layout.decimal digits power

end Binary64

end TypedFlags
