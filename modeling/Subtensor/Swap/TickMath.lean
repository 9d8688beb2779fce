import Subtensor.Lib.FixedPoint

/-!
# Tick math: sqrt prices and tick indexes

The conversion between a tick index and the square root of its lower price
(`pallets/swap/src/tick.rs`). A `U256` is a natural number below `2 ^ 256`,
an `I256` a bit vector of 256 bits, an `i32` an integer.
-/

namespace Subtensor.Swap

open Subtensor.Lib

abbrev SqrtPrice := U64F64

inductive TickMathError where
  | tickOutOfBounds
  | sqrtPriceOutOfBounds
  | conversionError
  | overflow
  | divisionByZero
deriving DecidableEq

/-! ## 256-bit words -/

def u256Max : ℕ := 2 ^ 256 - 1

namespace U256

def satAdd (a b : ℕ) : ℕ := min (a + b) u256Max

def satMul (a b : ℕ) : ℕ := min (a * b) u256Max

def satShl (a n : ℕ) : ℕ := min (a <<< n) u256Max

/-- `U256::from_limbs` with the two upper limbs zero. -/
def fromLimbs (l₀ l₁ : ℕ) : ℕ := l₀ + l₁ * 2 ^ 64

end U256

abbrev I256 := BitVec 256

namespace I256

def clamp (z : ℤ) : I256 := BitVec.ofInt 256 (max (-2 ^ 255) (min z (2 ^ 255 - 1)))

def satAdd (a b : I256) : I256 := clamp (a.toInt + b.toInt)

def satSub (a b : I256) : I256 := clamp (a.toInt - b.toInt)

/-- The low 32 bits, read as an `i32`. -/
def lowI32 (a : I256) : ℤ := (a.setWidth 32).toInt

end I256

/-! ## Sqrt ratio at a tick -/

def minTick : ℤ := -887272
def maxTick : ℤ := -minTick

def minSqrtRatio : ℕ := 4295128739
def maxSqrtRatio : ℕ :=
  6743328256752651558 + 17280870778742802505 * 2 ^ 64 + 4294805859 * 2 ^ 128

/-- The multipliers for the bits `2`, `4`, …, `524288` of the absolute tick. -/
def ratioFactors : List (ℕ × ℕ) :=
  [(2, U256.fromLimbs 6459403834229662010 18444899583751176498),
   (4, U256.fromLimbs 17226890335427755468 18443055278223354162),
   (8, U256.fromLimbs 2032852871939366096 18439367220385604838),
   (16, U256.fromLimbs 14545316742740207172 18431993317065449817),
   (32, U256.fromLimbs 5129152022828963008 18417254355718160513),
   (64, U256.fromLimbs 4894419605888772193 18387811781193591352),
   (128, U256.fromLimbs 1280255884321894483 18329067761203520168),
   (256, U256.fromLimbs 15924666964335305636 18212142134806087854),
   (512, U256.fromLimbs 8010504389359918676 17980523815641551639),
   (1024, U256.fromLimbs 10668036004952895731 17526086738831147013),
   (2048, U256.fromLimbs 4878133418470705625 16651378430235024244),
   (4096, U256.fromLimbs 9537173718739605541 15030750278693429944),
   (8192, U256.fromLimbs 9972618978014552549 12247334978882834399),
   (16384, U256.fromLimbs 10428997489610666743 8131365268884726200),
   (32768, U256.fromLimbs 9305304367709015974 3584323654723342297),
   (65536, U256.fromLimbs 14301143598189091785 696457651847595233),
   (131072, U256.fromLimbs 7393154844743099908 26294789957452057),
   (262144, U256.fromLimbs 2209338891292245656 37481735321082),
   (524288, U256.fromLimbs 10518117631919034274 76158723)]

/-- One `if !(abs_tick & mask).is_zero() { ratio = (ratio * factor) >> 128 }`. -/
def ratioStep (absTick ratio : ℕ) (mf : ℕ × ℕ) : ℕ :=
  if absTick &&& mf.1 ≠ 0 then U256.satMul ratio mf.2 >>> 128 else ratio

/-- The ratio of a non-positive tick in `Q128.128`. -/
def ratioAtAbsTick (absTick : ℕ) : ℕ :=
  ratioFactors.foldl (ratioStep absTick)
    (if absTick &&& 1 ≠ 0 then U256.fromLimbs 12262481743371124737 18445821805675392311
     else 2 ^ 128)

def getSqrtRatioAtTick (tick : ℤ) : Except TickMathError ℕ :=
  let absTick := tick.natAbs
  if 887272 < absTick then .error .tickOutOfBounds
  else
    let ratio :=
      if 0 < tick then u256Max / ratioAtAbsTick absTick else ratioAtAbsTick absTick
    let shifted := ratio >>> 32
    .ok (if ratio &&& (2 ^ 32 - 1) ≠ 0 then U256.satAdd shifted 1 else shifted)

/-! ## Tick at a sqrt ratio -/

/-- One step of the search for the most significant bit: `(r, msb)`. -/
def msbStep (s : ℕ × ℕ) (tf : ℕ × ℕ) : ℕ × ℕ :=
  let f := if tf.1 < s.1 then tf.2 else 0
  (s.1 >>> f, s.2 ||| f)

def msbSteps : List (ℕ × ℕ) :=
  [(U256.fromLimbs 18446744073709551615 18446744073709551615, 1 <<< 7),
   (18446744073709551615, 1 <<< 6), (4294967295, 1 <<< 5), (65535, 1 <<< 4),
   (255, 1 <<< 3), (15, 1 <<< 2), (3, 1 <<< 1), (1, 1)]

def mostSignificantBit (ratio : ℕ) : ℕ := (msbSteps.foldl msbStep (ratio, 0)).2

/-- One squaring of the binary logarithm: the bit `i` of `log_2` is the
carry of `r * r`. -/
def logStep (s : ℕ × I256) (i : ℕ) : ℕ × I256 :=
  let r := ((s.1 * s.1) % 2 ^ 256) >>> 127
  let f := r >>> 128
  (r >>> f, s.2 ||| BitVec.ofNat 256 (f <<< i))

/-- The bits `63`, `62`, …, `50`. -/
def logBits : List ℕ := (List.range 14).map (63 - ·)

def sqrt10001 : I256 := BitVec.ofNat 256 (U256.fromLimbs 11745905768312294533 13863)
def tickLowError : I256 :=
  BitVec.ofNat 256 (U256.fromLimbs 6552757943157144234 184476617836266586)
def tickHighError : I256 :=
  BitVec.ofNat 256 (U256.fromLimbs 4998474450511881007 15793544031827761793)

/-- The approximate logarithm of a ratio to the base `√1.0001`, in `Q128`. -/
def logSqrt10001 (sqrtPriceX96 : ℕ) : I256 :=
  let ratio := (sqrtPriceX96 <<< 32) % 2 ^ 256
  let msb := mostSignificantBit ratio
  let r := if 128 ≤ msb then ratio >>> (msb - 127) else (ratio <<< (127 - msb)) % 2 ^ 256
  let log2 := I256.satSub (BitVec.ofNat 256 msb) 128 <<< 64
  (logBits.foldl logStep (r, log2)).2 * sqrt10001

def getTickAtSqrtRatio (sqrtPriceX96 : ℕ) : Except TickMathError ℤ := do
  if ¬(minSqrtRatio ≤ sqrtPriceX96 ∧ sqrtPriceX96 < maxSqrtRatio) then
    throw .sqrtPriceOutOfBounds
  let log := logSqrt10001 sqrtPriceX96
  let tickLow := I256.lowI32 (I256.satSub log tickLowError >>> 128)
  let tickHigh := I256.lowI32 (I256.satAdd log tickHighError >>> 128)
  if tickLow = tickHigh then
    return tickLow
  else if (← getSqrtRatioAtTick tickHigh) ≤ sqrtPriceX96 then
    return tickHigh
  else
    return tickLow

/-! ## Fixed-point conversions -/

def u64f64ToU256 (value : U64F64) (targetFractionalBits : ℕ) : ℕ :=
  if targetFractionalBits < 64 then value.bits >>> (64 - targetFractionalBits)
  else if 64 < targetFractionalBits then
    U256.satShl value.bits (targetFractionalBits - 64)
  else value.bits

def u64f64ToU256Q6496 (value : U64F64) : ℕ := u64f64ToU256 value 96

/-- Rounds up, so that a tick's sqrt price is never below the tick. -/
def qToU64f64 (x fracBits : ℕ) : Except TickMathError U64F64 :=
  let diff := fracBits - 64
  let shifted := if diff ≠ 0 then x >>> diff else x
  let mask := if diff ≠ 0 then U256.satShl 1 diff - 1 else 0
  let rounded :=
    if diff ≠ 0 ∧ x &&& mask ≠ 0 then U256.satAdd shifted 1 else shifted
  if h : rounded >>> 128 ≠ 0 then .error .overflow
  else .ok ⟨rounded, by
    have h0 : rounded >>> 128 = 0 := not_not.mp h
    rw [Nat.shiftRight_eq_div_pow] at h0
    exact (Nat.div_eq_zero_iff_lt (Nat.two_pow_pos 128)).mp h0⟩

def u256Q6496ToU64f64 (value : ℕ) : Except TickMathError U64F64 := qToU64f64 value 96

/-! ## Tick indexes

A tick index is an `i32`, modelled as an integer; `new` is the checked
constructor. -/

namespace TickIndex

def MIN : ℤ := minTick.tdiv 2
def MAX : ℤ := maxTick.tdiv 2

/-- Offset that makes every stored tick index positive. -/
def OFFSET : ℤ := maxTick

/-- `saturating_from_num(0.0000000002328350195)`. -/
def minSqrtPrice : SqrtPrice := ⟨4295048016, by norm_num⟩

/-- `saturating_from_num(4294886577.20989222513899790805)`. -/
def maxSqrtPrice : SqrtPrice := ⟨79226673515401280874390487040, by norm_num⟩

def new (value : ℤ) : Except TickMathError ℤ :=
  if ¬(MIN ≤ value ∧ value ≤ MAX) then .error .tickOutOfBounds else .ok value

def next (t : ℤ) : Except TickMathError ℤ := new (t + 1)

def prev (t : ℤ) : Except TickMathError ℤ := new (t - 1)

@[irreducible]
def tryToSqrtPrice (t : ℤ) : Except TickMathError SqrtPrice :=
  if ¬(MIN ≤ t ∧ t ≤ MAX) then .error .tickOutOfBounds
  else getSqrtRatioAtTick t >>= u256Q6496ToU64f64

@[irreducible]
def tryFromSqrtPrice (sqrtPrice : SqrtPrice) : Except TickMathError ℤ := do
  let priceX96 := u64f64ToU256Q6496 sqrtPrice
  let tick ← getTickAtSqrtRatio priceX96
  -- the estimate of the logarithm is corrected by one tick in either direction
  if priceX96 < (← getSqrtRatioAtTick tick) then
    new (tick - 1)
  else if (← getSqrtRatioAtTick (tick + 1)) ≤ priceX96 then
    new (tick + 1)
  else
    new tick

@[irreducible]
def asSqrtPriceBounded (t : ℤ) : SqrtPrice :=
  match tryToSqrtPrice t with
  | .ok price => price
  | .error _ => if MAX ≤ t then maxSqrtPrice else minSqrtPrice

@[irreducible]
def fromSqrtPriceBounded (sqrtPrice : SqrtPrice) : ℤ :=
  match tryFromSqrtPrice sqrtPrice with
  | .ok index => index
  | .error _ => if (asSqrtPriceBounded MAX).bits < sqrtPrice.bits then MAX else MIN

end TickIndex

end Subtensor.Swap
