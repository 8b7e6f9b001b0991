set_option autoImplicit false

/-! # Backoff

Exponential delays between attempts. The delay before the attempt after the `n`-th failure
is the initial delay times the multiplier to the power `n - 1`, capped at a longest delay.
The product is taken in 64-bit floating point, in seconds, and turned into nanoseconds
rounding to nearest, a half to the even neighbour.

`Duration.ofSecondsFloat?` reads the seconds off the bits of the float, so that the
rounding is exact whatever the size of the number.
-/

namespace IngressTls

/-- A span of time, in nanoseconds. -/
abbrev Duration : Type := Nat

namespace Duration

/-- Nanoseconds in a second. -/
def nanosPerSecond : Nat := 1000000000

theorem nanosPerSecond_pos : 0 < nanosPerSecond := Nat.succ_pos _

/-- A span of whole seconds. -/
def ofSeconds (s : Nat) : Duration := s * nanosPerSecond

/-- A span of whole milliseconds. -/
def ofMillis (ms : Nat) : Duration := ms * 1000000

/-- The span in seconds, as a float. -/
def toSecondsFloat (d : Duration) : Float :=
  Float.ofNat (d / nanosPerSecond) + Float.ofNat (d % nanosPerSecond) / 1000000000.0

/-- A quotient rounded to the nearest natural number, a half to the even one. -/
def divHalfEven (n d : Nat) : Nat :=
  let q := n / d
  let r := n % d
  if 2 * r < d then q else if d < 2 * r then q + 1 else if q % 2 = 0 then q else q + 1

/-- The span nearest to a number of seconds. There is none for a negative number, for
`2 ^ 64` seconds and more, and for what is not a number. -/
def ofSecondsFloat? (s : Float) : Option Duration :=
  if s < 0 then none
  else
    let bits := s.toBits.toNat
    let mantissa := bits % (1 <<< 52)
    let exponent := (bits >>> 52) % (1 <<< 11)
    let digits := if exponent = 0 then mantissa else (1 <<< 52) + mantissa
    let scale := Nat.max exponent 1
    if 1087 ≤ exponent then none
    else if 1075 ≤ scale then some ((digits <<< (scale - 1075)) * nanosPerSecond)
    else some (divHalfEven (digits * nanosPerSecond) (1 <<< (1075 - scale)))

end Duration

/-- How the delays between attempts grow, and how many attempts there are. -/
structure Backoff where
  /-- The attempts after which to give up; zero for never. -/
  maxAttempts : Nat
  /-- The first delay. -/
  initial : Duration
  /-- The longest delay. -/
  longest : Duration
  /-- The factor between one delay and the next. -/
  multiplier : Float

namespace Backoff

/-- A tenth of a second, doubled up to half a minute, for a number of attempts. -/
def attempts (n : Nat) : Backoff := ⟨n, Duration.ofMillis 100, Duration.ofSeconds 30, 2.0⟩

/-- The delays before a failed key is queued again: five seconds, doubled up to five
minutes. -/
def requeue (n : Nat) : Backoff := ⟨n, Duration.ofSeconds 5, Duration.ofSeconds 300, 2.0⟩

/-- A power by repeated squaring; `fuel` bounds the number of binary digits of the
exponent. -/
def powerFrom : (fuel : Nat) → Float → Float → Nat → Float
  | 0, acc, _, _ => acc
  | fuel + 1, acc, base, n =>
    let acc := if n % 2 = 1 then acc * base else acc
    if n / 2 = 0 then acc else powerFrom fuel acc (base * base) (n / 2)

/-- A float to a natural power below `2 ^ 64`, by repeated squaring. -/
def power (base : Float) (n : Nat) : Float := powerFrom 64 1.0 base n

/-- The smaller of two floats; the other one if one of them is not a number. -/
def lesser (a b : Float) : Float :=
  if a.isNaN then b else if b.isNaN then a else if b < a then b else a

/-- The delay after an attempt, counted from 1. The power stops growing at the 64th
attempt. There is no delay where the product is negative. -/
def delay? (b : Backoff) (attempt : Nat) : Option Duration :=
  let exponent := Nat.min (attempt - 1) 63
  let seconds := b.initial.toSecondsFloat * power b.multiplier exponent
  Duration.ofSecondsFloat? (lesser seconds b.longest.toSecondsFloat)

/-- Whether no attempt follows the given one. -/
def isExhausted (b : Backoff) (attempt : Nat) : Bool :=
  0 < b.maxAttempts && b.maxAttempts ≤ attempt

/-- How a series of attempts ends. -/
inductive Outcome (α ε : Type) where
  /-- An attempt succeeded. -/
  | success (calls : Nat) (value : α)
  /-- The last attempt that was allowed failed. -/
  | failure (calls : Nat) (error : ε)
  /-- The delay before the next attempt does not exist. -/
  | noDelay (calls : Nat)

/-- Makes attempts until one succeeds or none is left. `failures` are the errors of the
first attempts; the one after them succeeds with `value`, which is given its number. -/
def run {α ε : Type} (b : Backoff) (value : Nat → α) : (done : Nat) → List ε → Outcome α ε
  | done, [] => .success (done + 1) (value (done + 1))
  | done, e :: rest =>
    if b.isExhausted (done + 1) then .failure (done + 1) e
    else
      match b.delay? (done + 1) with
      | none => .noDelay (done + 1)
      | some _ => run b value (done + 1) rest

end Backoff

end IngressTls
