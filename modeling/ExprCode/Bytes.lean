/-! # Little-endian numbers

Numbers as bytes, the low byte first. `ofBytes_toBytes` says that a number is read back modulo the
range of the bytes. -/

namespace ExprCode.Bytes

/-- The low `count` bytes of a number. -/
def toBytes : (count : Nat) → Nat → List UInt8
  | 0, _ => []
  | count + 1, n => .ofNat n :: toBytes count (n / 256)

/-- The number written by bytes. -/
def ofBytes : List UInt8 → Nat
  | [] => 0
  | byte :: rest => byte.toNat + 256 * ofBytes rest

/-- A number is written in as many bytes as were asked for. -/
@[simp] theorem length_toBytes (count n : Nat) : (toBytes count n).length = count := by
  induction count generalizing n with
  | zero => rfl
  | succ count ih => simp [toBytes, ih]

/-- How many numbers can be written in `count` bytes. -/
def range (count : Nat) : Nat := 1 <<< (8 * count)

/-- Each byte multiplies the range by 256. -/
@[simp] theorem range_succ (count : Nat) : range (count + 1) = 256 * range count := by
  rw [range, range, Nat.mul_succ, Nat.shiftLeft_add, Nat.shiftLeft_eq _ 8, Nat.mul_comm]

/-- Reading what was written gives the number back, modulo the range of the bytes. -/
@[simp] theorem ofBytes_toBytes (count n : Nat) : ofBytes (toBytes count n) = n % range count := by
  induction count generalizing n with
  | zero => simp [toBytes, ofBytes, range, Nat.mod_one]
  | succ count ih =>
    rw [toBytes, ofBytes, ih, range_succ, Nat.mod_mul]
    simp

/-- The low `count` bytes of an integer in two's complement. -/
def ofInt (count : Nat) (n : Int) : List UInt8 :=
  toBytes count (n % range count).toNat

/-- The integer written by bytes in two's complement. -/
def toInt (bytes : List UInt8) : Int :=
  Int.bmod (ofBytes bytes) (range bytes.length)

end ExprCode.Bytes
