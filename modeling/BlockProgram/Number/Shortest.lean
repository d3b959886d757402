import BlockProgram.Number.Binary

/-!
# The fewest decimal digits that read back

Every positive finite number owns an interval of reals that round to it. Its shortest text is
the decimal with the fewest digits in that interval and, of two such decimals, the nearer one.

* `Shortest.Interval` holds the number and the two ends as multiples of one unit;
* `Shortest.onGrid?` tests the two neighbours of the number on the grid of `n`-digit decimals;
* `Shortest.digits` takes the first grid, from one digit upward, that has a hit.

No grid with more than seventeen digits is ever needed.
-/

namespace BlockProgram.Shortest

/-- A positive number and the ends of the interval that rounds to it, counted in the same
unit `1 / unit`. The ends belong to the interval when `closed`. -/
structure Interval where
  value : Nat
  low : Nat
  high : Nat
  unit : Nat
  closed : Bool
  deriving DecidableEq, Repr

/-- The interval of `mantissa · 2 ^ exponent`. The gap below a power of two is half as wide as
the one above, except at the smallest exponent; the ends round to the even mantissa. -/
def Interval.ofParts (p : Binary.Parts) : Interval :=
  let scale := 2 ^ (p.exponent - 2).toNat
  let narrow := p.mantissa == 2 ^ 52 && p.exponent != Binary.minExponent
  { value := 4 * p.mantissa * scale
    low := (4 * p.mantissa - (if narrow then 1 else 2)) * scale
    high := (4 * p.mantissa + 2) * scale
    unit := 2 ^ (2 - p.exponent).toNat
    closed := p.mantissa % 2 == 0 }

/-- Whether the decimal `n · 10 ^ place` lies in the interval. -/
def Interval.contains (i : Interval) (n : Nat) (place : Int) : Bool :=
  let point := n * 10 ^ place.toNat * i.unit
  let scale := 10 ^ (-place).toNat
  if i.closed then decide (i.low * scale ≤ point) && decide (point ≤ i.high * scale)
  else decide (i.low * scale < point) && decide (point < i.high * scale)

/-- The value in units of `10 ^ place`: the whole part, and twice the rest compared with the
unit. -/
def Interval.onPlace (i : Interval) (place : Int) : Nat × Ordering :=
  let num := i.value * 10 ^ (-place).toNat
  let den := i.unit * 10 ^ place.toNat
  (num / den, compare (2 * (num % den)) den)

/-- The decimal exponent of the first digit: `10 ^ k ≤ value < 10 ^ (k + 1)`. The bit length
gives it up to one. -/
def Interval.leadingPlace (i : Interval) : Int :=
  let bits : Int := (i.value.log2 : Int) - i.unit.log2
  let guess := (bits * 30103).fdiv 100000
  if (i.onPlace (guess + 1)).1 ≠ 0 then guess + 1
  else if (i.onPlace guess).1 ≠ 0 then guess
  else guess - 1

/-- The multiple of `10 ^ place` nearest to the value, a tie going to the even one. -/
def Interval.nearest (i : Interval) (place : Int) : Nat :=
  match i.onPlace place with
  | (below, .lt) => below
  | (below, .gt) => below + 1
  | (below, .eq) => below + below % 2

/-- The multiple of `10 ^ place` inside the interval that is nearest to the value, if one of
the value's two neighbours is inside. -/
def Interval.onGrid? (i : Interval) (place : Int) : Option Nat :=
  let below := (i.onPlace place).1
  match i.contains below place, i.contains (below + 1) place with
  | false, false => none
  | true, false => some below
  | false, true => some (below + 1)
  | true, true => some (i.nearest place)

/-- The first hit on the grids of `17 - more` digits and up, and its place. -/
def Interval.search (i : Interval) (leading : Int) : Nat → Nat × Int
  | 0 => (i.nearest (leading - 16), leading - 16)
  | more + 1 =>
    let place := leading - 16 + (more + 1 : Nat)
    match i.onGrid? place with
    | some n => (n, place)
    | none => i.search leading more

/-- A whole number written without its trailing zeros, each of which raises the place. -/
def trimZeros (n : Nat) (place : Int) : Nat × Int :=
  if h : n ≠ 0 ∧ n % 10 = 0 then trimZeros (n / 10) (place + 1) else (n, place)
termination_by n
decreasing_by exact Nat.div_lt_self (Nat.pos_of_ne_zero h.1) (by decide)

/-- The shortest decimal `n · 10 ^ place` of a positive number, without trailing zeros. -/
def decimal (p : Binary.Parts) : Nat × Int :=
  let i := Interval.ofParts p
  let (n, place) := i.search i.leadingPlace 16
  trimZeros n place

end BlockProgram.Shortest
