import ChatFabric.ByteStrings

/- X25519 as crypto/curve25519-donna.c computes it. A field element is an array of signed limbs of 26,
   25, 26, ... bits, the lowest first. Limbs 10 to 18 of an array are kept only where a function reads
   them, which is between a product and its reduction. -/
namespace Curve25519
open ByteStrings

abbrev Limbs (n : Nat) := Vector Int64 n

def fsum (output input : Limbs 10) : Limbs 10 := output.zipWith (· + ·) input

def fdifference (output input : Limbs 10) : Limbs 10 := output.zipWith (fun o i ↦ i - o) input

def fscalarProduct (input : Limbs 10) (scalar : Int64) : Limbs 10 := input.map (· * scalar)

def s32 (v : Int64) : Int64 := v.toInt32.toInt64

/-- The sums of fproduct, in any numbers. -/
def productTerms {R : Type} [Add R] [Mul R] [OfNat R 2] (in2 input : Fin 10 → R) : Vector R 19 :=
  #v[
    in2 0 * input 0,
    in2 0 * input 1 + in2 1 * input 0,
    2 * in2 1 * input 1 + in2 0 * input 2 + in2 2 * input 0,
    in2 1 * input 2 + in2 2 * input 1 + in2 0 * input 3 + in2 3 * input 0,
    in2 2 * input 2 + 2 * (in2 1 * input 3 + in2 3 * input 1) + in2 0 * input 4 + in2 4 * input 0,
    in2 2 * input 3 + in2 3 * input 2 + in2 1 * input 4 + in2 4 * input 1 + in2 0 * input 5 +
      in2 5 * input 0,
    2 * (in2 3 * input 3 + in2 1 * input 5 + in2 5 * input 1) + in2 2 * input 4 + in2 4 * input 2 +
      in2 0 * input 6 + in2 6 * input 0,
    in2 3 * input 4 + in2 4 * input 3 + in2 2 * input 5 + in2 5 * input 2 + in2 1 * input 6 +
      in2 6 * input 1 + in2 0 * input 7 + in2 7 * input 0,
    in2 4 * input 4 + 2 * (in2 3 * input 5 + in2 5 * input 3 + in2 1 * input 7 + in2 7 * input 1) +
      in2 2 * input 6 + in2 6 * input 2 + in2 0 * input 8 + in2 8 * input 0,
    in2 4 * input 5 + in2 5 * input 4 + in2 3 * input 6 + in2 6 * input 3 + in2 2 * input 7 +
      in2 7 * input 2 + in2 1 * input 8 + in2 8 * input 1 + in2 0 * input 9 + in2 9 * input 0,
    2 * (in2 5 * input 5 + in2 3 * input 7 + in2 7 * input 3 + in2 1 * input 9 + in2 9 * input 1) +
      in2 4 * input 6 + in2 6 * input 4 + in2 2 * input 8 + in2 8 * input 2,
    in2 5 * input 6 + in2 6 * input 5 + in2 4 * input 7 + in2 7 * input 4 + in2 3 * input 8 +
      in2 8 * input 3 + in2 2 * input 9 + in2 9 * input 2,
    in2 6 * input 6 + 2 * (in2 5 * input 7 + in2 7 * input 5 + in2 3 * input 9 + in2 9 * input 3) +
      in2 4 * input 8 + in2 8 * input 4,
    in2 6 * input 7 + in2 7 * input 6 + in2 5 * input 8 + in2 8 * input 5 + in2 4 * input 9 +
      in2 9 * input 4,
    2 * (in2 7 * input 7 + in2 5 * input 9 + in2 9 * input 5) + in2 6 * input 8 + in2 8 * input 6,
    in2 7 * input 8 + in2 8 * input 7 + in2 6 * input 9 + in2 9 * input 6,
    in2 8 * input 8 + 2 * (in2 7 * input 9 + in2 9 * input 7),
    in2 8 * input 9 + in2 9 * input 8,
    2 * in2 9 * input 9]

def fproduct (in2 input : Limbs 10) : Limbs 19 :=
  productTerms (fun i ↦ s32 in2[i]) (fun i ↦ s32 input[i])

/-- The sums of fsquare_inner, in any numbers. -/
def squareTerms {R : Type} [Add R] [Mul R] [OfNat R 2] [OfNat R 4] (input : Fin 10 → R) : Vector R 19 :=
  #v[
    input 0 * input 0,
    2 * input 0 * input 1,
    2 * (input 1 * input 1 + input 0 * input 2),
    2 * (input 1 * input 2 + input 0 * input 3),
    input 2 * input 2 + 4 * input 1 * input 3 + 2 * input 0 * input 4,
    2 * (input 2 * input 3 + input 1 * input 4 + input 0 * input 5),
    2 * (input 3 * input 3 + input 2 * input 4 + input 0 * input 6 + 2 * input 1 * input 5),
    2 * (input 3 * input 4 + input 2 * input 5 + input 1 * input 6 + input 0 * input 7),
    input 4 * input 4 + 2 * (input 2 * input 6 + input 0 * input 8 + 2 * (input 1 * input 7 +
      input 3 * input 5)),
    2 * (input 4 * input 5 + input 3 * input 6 + input 2 * input 7 + input 1 * input 8 +
      input 0 * input 9),
    2 * (input 5 * input 5 + input 4 * input 6 + input 2 * input 8 + 2 * (input 3 * input 7 +
      input 1 * input 9)),
    2 * (input 5 * input 6 + input 4 * input 7 + input 3 * input 8 + input 2 * input 9),
    input 6 * input 6 + 2 * (input 4 * input 8 + 2 * (input 5 * input 7 + input 3 * input 9)),
    2 * (input 6 * input 7 + input 5 * input 8 + input 4 * input 9),
    2 * (input 7 * input 7 + input 6 * input 8 + 2 * input 5 * input 9),
    2 * (input 7 * input 8 + input 6 * input 9),
    input 8 * input 8 + 4 * input 7 * input 9,
    2 * input 8 * input 9,
    2 * input 9 * input 9]

def fsquareInner (input : Limbs 10) : Limbs 19 := squareTerms fun i ↦ s32 input[i]

def foldLimb (output : Limbs 19) (i : Fin 9) : Limbs 19 :=
  let output := output.set i (output[i] + (output[i.val + 10] <<< 4))
  let output := output.set i (output[i] + (output[i.val + 10] <<< 1))
  output.set i (output[i] + output[i.val + 10])

def freduceDegree (output : Limbs 19) : Limbs 19 :=
  ([8, 7, 6, 5, 4, 3, 2, 1, 0] : List (Fin 9)).foldl foldLimb output

/-- Division by a power of two that rounds towards zero; drop cuts the sign down to what must be added
    to a negative number. -/
def divBy2 (drop : UInt32) (bits v : Int64) : Int64 :=
  let highword := (v.toUInt64 >>> 32).toUInt32
  let sign := highword.toInt32 >>> 31
  let roundoff := (sign.toUInt32 >>> drop).toInt32
  (v + roundoff.toInt64) >>> bits

def divBy2_26 (v : Int64) : Int64 := divBy2 6 26 v
def divBy2_25 (v : Int64) : Int64 := divBy2 7 25 v

def carryLimb (divide : Int64 → Int64) (bits : Int64) (output : Limbs 19) (i : Fin 18) : Limbs 19 :=
  let excess := divide output[i]
  let output := output.set i (output[i] - (excess <<< bits))
  output.set (i.val + 1) (output[i.val + 1] + excess)

def carry26 (output : Limbs 19) (i : Fin 18) : Limbs 19 := carryLimb divBy2_26 26 output i
def carry25 (output : Limbs 19) (i : Fin 18) : Limbs 19 := carryLimb divBy2_25 25 output i

/-- The body of the loop of freduce_coefficients, whose i counts in steps of two. -/
def carryPair (output : Limbs 19) (half : Fin 9) : Limbs 19 :=
  carry25 (carry26 output ⟨2 * half, by omega⟩) ⟨2 * half + 1, by omega⟩

def freduceCoefficients (output : Limbs 19) : Limbs 19 :=
  let output := output.set 10 0
  let output := ([0, 1, 2, 3, 4] : List (Fin 9)).foldl carryPair output
  let output := foldLimb output 0
  let output := output.set 10 0
  carry26 output 0

/-- The ten limbs that memcpy takes of an array. -/
def short (t : Limbs 19) : Limbs 10 := .ofFn fun i ↦ t[i.val]

def long (t : Limbs 10) : Limbs 19 := t ++ Vector.replicate 9 (0 : Int64)

def reduce (t : Limbs 19) : Limbs 10 := short (freduceCoefficients (freduceDegree t))

def fmul (input in2 : Limbs 10) : Limbs 10 := reduce (fproduct input in2)

def fsquare (input : Limbs 10) : Limbs 10 := reduce (fsquareInner input)

/-- The macro F of fexpand. -/
def expandLimb (input : Block 32) (start : Nat) (shift mask : Int64) : Int64 :=
  let byte (k : Nat) : Int64 := (input.val.getD (start + k) 0).toUInt64.toInt64
  ((byte 0 ||| byte 1 <<< 8 ||| byte 2 <<< 16 ||| byte 3 <<< 24) >>> shift) &&& mask

def fexpand (input : Block 32) : Limbs 10 :=
  #v[expandLimb input 0 0 0x3ffffff,
    expandLimb input 3 2 0x1ffffff,
    expandLimb input 6 3 0x3ffffff,
    expandLimb input 9 5 0x1ffffff,
    expandLimb input 12 6 0x3ffffff,
    expandLimb input 16 0 0x1ffffff,
    expandLimb input 19 1 0x3ffffff,
    expandLimb input 22 3 0x1ffffff,
    expandLimb input 25 4 0x3ffffff,
    expandLimb input 28 6 0x1ffffff]

def s32Eq (a b : Int32) : Int32 :=
  let a := ~~~(a ^^^ b)
  let a := a &&& (a <<< 16)
  let a := a &&& (a <<< 8)
  let a := a &&& (a <<< 4)
  let a := a &&& (a <<< 2)
  let a := a &&& (a <<< 1)
  a >>> 31

def s32Gte (a b : Int32) : Int32 := ~~~((a - b) >>> 31)

abbrev Words := Vector Int32 10

/-- 25 bits where i is odd, 26 where it is even, and the largest limb of that size. -/
def limbBits (i : Nat) : Int32 := if i % 2 = 1 then 25 else 26
def limbMask (i : Nat) : Int32 := if i % 2 = 1 then 0x1ffffff else 0x3ffffff

def borrow (input : Words) (i : Fin 9) : Words :=
  let mask := input[i] >>> 31
  let carry := -((input[i] &&& mask) >>> limbBits i)
  let input := input.set i (input[i] + (carry <<< limbBits i))
  input.set (i.val + 1) (input[i.val + 1] - carry)

def borrowAround (input : Words) : Words :=
  let mask := input[9] >>> 31
  let carry := -((input[9] &&& mask) >>> 25)
  let input := input.set 9 (input[9] + (carry <<< 25))
  input.set 0 (input[0] - carry * 19)

def borrowPass (input : Words) : Words := borrowAround ((List.finRange 9).foldl borrow input)

def carry (input : Words) (i : Fin 9) : Words :=
  let carry := input[i] >>> limbBits i
  let input := input.set i (input[i] &&& limbMask i)
  input.set (i.val + 1) (input[i.val + 1] + carry)

def carryAround (input : Words) : Words :=
  let carry := input[9] >>> 25
  let input := input.set 9 (input[9] &&& 0x1ffffff)
  input.set 0 (input[0] + 19 * carry)

def carryPass (input : Words) : Words := carryAround ((List.finRange 9).foldl carry input)

def geMask (input : Words) : Int32 :=
  (List.finRange 9).foldl (fun mask (i : Fin 9) ↦ mask &&& s32Eq input[i.val + 1] (limbMask (i + 1)))
    (s32Gte input[0] 0x3ffffed)

def subtractModulus (input : Words) (mask : Int32) : Words :=
  let input := input.set 0 (input[0] - (mask &&& 0x3ffffed))
  (List.finRange 9).foldl
    (fun (input : Words) (i : Fin 9) ↦
      input.set (i.val + 1) (input[i.val + 1] - (mask &&& limbMask (i + 1)))) input

def alignLimbs (input : Words) : Words :=
  let input := input.set 1 (input[1] <<< 2)
  let input := input.set 2 (input[2] <<< 3)
  let input := input.set 3 (input[3] <<< 5)
  let input := input.set 4 (input[4] <<< 6)
  let input := input.set 6 (input[6] <<< 1)
  let input := input.set 7 (input[7] <<< 3)
  let input := input.set 8 (input[8] <<< 4)
  input.set 9 (input[9] <<< 6)

def lowByte (v : Int32) : UInt8 := (v &&& 0xff).toUInt32.toUInt8

/-- The macro F of fcontract. -/
def storeLimb (v : Int32) (output : Vector UInt8 32) (s : Fin 29) : Vector UInt8 32 :=
  let output := output.set s (output[s.val] ||| lowByte v)
  let output := output.set (s.val + 1) (lowByte (v >>> 8))
  let output := output.set (s.val + 2) (lowByte (v >>> 16))
  output.set (s.val + 3) (lowByte (v >>> 24))

def storeLimbs (input : Words) (output : Vector UInt8 32) : Vector UInt8 32 :=
  let output := output.set 0 0
  let output := output.set 16 0
  let output := storeLimb input[0] output 0
  let output := storeLimb input[1] output 3
  let output := storeLimb input[2] output 6
  let output := storeLimb input[3] output 9
  let output := storeLimb input[4] output 12
  let output := storeLimb input[5] output 16
  let output := storeLimb input[6] output 19
  let output := storeLimb input[7] output 22
  let output := storeLimb input[8] output 25
  storeLimb input[9] output 28

def fcontract (output : Vector UInt8 32) (inputLimbs : Limbs 10) : Vector UInt8 32 :=
  let input : Words := inputLimbs.map Int64.toInt32
  let input := borrowPass (borrowPass input)
  let input := borrow input 0
  let input := carryPass (carryPass input)
  let input := subtractModulus input (geMask input)
  storeLimbs (alignLimbs input) output

structure Point where
  x : Limbs 10
  z : Limbs 10

/-- 2Q and Q + Q', from Q, Q' and the x-coordinate of Q - Q'. -/
def fmonty (q qprime : Point) (qmqp : Limbs 10) : Point × Point :=
  let x := fsum q.x q.z
  let z := fdifference q.z q.x
  let xprime := fsum qprime.x qprime.z
  let zprime := fdifference qprime.z qprime.x
  let xxprime := reduce (fproduct xprime z)
  let zzprime := reduce (fproduct x zprime)
  let sum := fsum xxprime zzprime
  let difference := fdifference zzprime xxprime
  let xxxprime := fsquare sum
  let zzzprime := fsquare difference
  let z3 := reduce (fproduct zzzprime qmqp)
  let xx := fsquare x
  let zz := fsquare z
  let x2 := reduce (fproduct xx zz)
  let zz := fdifference zz xx
  let zzz := short (freduceCoefficients (long (fscalarProduct zz 121665)))
  let zzz := fsum zzz xx
  let z2 := reduce (fproduct zz zzz)
  (⟨x2, z2⟩, ⟨xxxprime, z3⟩)

def swapConditional (a b : Limbs 10) (iswap : Int64) : Limbs 10 × Limbs 10 :=
  let swap := (-iswap).toInt32
  let x := a.zipWith (fun a b ↦ swap &&& (a.toInt32 ^^^ b.toInt32)) b
  (a.zipWith (fun a x ↦ (a.toInt32 ^^^ x).toInt64) x, b.zipWith (fun b x ↦ (b.toInt32 ^^^ x).toInt64) x)

def swapPoints (p r : Point) (bit : Int64) : Point × Point :=
  let (px, rx) := swapConditional p.x r.x bit
  let (pz, rz) := swapConditional p.z r.z bit
  (⟨px, pz⟩, ⟨rx, rz⟩)

/-- One turn of the inner loop of cmult: the points nq and nqpq after a bit of n. -/
def cmultBit (q : Limbs 10) (points : Point × Point) (bit : Int64) : Point × Point :=
  let (nq, nqpq) := swapPoints points.1 points.2 bit
  let (nq2, nqpq2) := fmonty nq nqpq q
  swapPoints nq2 nqpq2 bit

def cmultByte (q : Limbs 10) (points : Point × Point) (byte : UInt8) : Point × Point :=
  ((List.range 8).foldl (fun (s : (Point × Point) × UInt8) _ ↦
    (cmultBit q s.1 (s.2 >>> 7).toUInt64.toInt64, s.2 <<< 1)) (points, byte)).1

def limbsOf (low : Int64) : Limbs 10 := (Vector.replicate 10 0).set 0 low

def cmult (n : Block 32) (q : Limbs 10) : Point :=
  let start : Point × Point := (⟨limbsOf 1, limbsOf 0⟩, ⟨q, limbsOf 1⟩)
  ((List.range 32).foldl (fun points i ↦ cmultByte q points (n.val.getD (31 - i) 0)) start).1

def fsquareTimes (n : Nat) (z : Limbs 10) : Limbs 10 := Nat.repeat fsquare n z

def crecip (z : Limbs 10) : Limbs 10 :=
  let z2 := fsquare z
  let z9 := fmul (fsquare (fsquare z2)) z
  let z11 := fmul z9 z2
  let z2_5_0 := fmul (fsquare z11) z9
  let z2_10_0 := fmul (fsquareTimes 5 z2_5_0) z2_5_0
  let z2_20_0 := fmul (fsquareTimes 10 z2_10_0) z2_10_0
  let z2_40_0 := fmul (fsquareTimes 20 z2_20_0) z2_20_0
  let z2_50_0 := fmul (fsquareTimes 10 z2_40_0) z2_10_0
  let z2_100_0 := fmul (fsquareTimes 50 z2_50_0) z2_50_0
  let z2_200_0 := fmul (fsquareTimes 100 z2_100_0) z2_100_0
  let z2_250_0 := fmul (fsquareTimes 50 z2_200_0) z2_50_0
  fmul (fsquareTimes 5 z2_250_0) z11

def clamp (secret : Block 32) : Block 32 :=
  let e := secret.patch 0 [secret.val.getD 0 0 &&& 248]
  let e := e.patch 31 [e.val.getD 31 0 &&& 127]
  e.patch 31 [e.val.getD 31 0 ||| 64]

def curve25519Donna (mypublic : Vector UInt8 32) (secret basepoint : Block 32) : Vector UInt8 32 :=
  let e := clamp secret
  let bp := fexpand basepoint
  let p := cmult e bp
  let zmone := crecip p.z
  let z := fmul p.x zmone
  fcontract mypublic z

end Curve25519
