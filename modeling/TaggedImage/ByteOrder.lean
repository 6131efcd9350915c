/-!
# Runs of bytes and byte order

Runs of bytes are compared byte by byte. `Bytes.zeros n` is a run of `n` zero bytes, and
`Bytes.chunks` decodes the words of one width that follow each other in a run.

A file stores every number as base-256 digits of a fixed width, in one of two orders
(`ByteOrder`). `encode` writes the digits of a number and `decode` reads a run of digits back;
on numbers that fit the width the two are inverse (`decode_encode`, `encode_decode`).
-/

namespace TaggedImage

namespace Bytes

/-- Two runs are equal if their bytes are, so equality is decided as that of arrays. -/
instance decEq : DecidableEq ByteArray := fun _ _ =>
  decidable_of_decidable_of_iff ByteArray.ext_iff.symm

/-- A run of `n` zero bytes. -/
def zeros (n : Nat) : ByteArray :=
  if n = 0 then .empty
  else
    let half := zeros (n / 2)
    let even := half ++ half
    if n % 2 = 0 then even else even.push 0
termination_by n

/-- The list of `n` words of `width` bytes each that start at `pos`, decoded by `read`. -/
def chunks (read : (pos : Nat) → α) (pos width n : Nat) : List α :=
  (List.range n).map fun i => read (pos + i * width)

/-- As many chunks are read as are wanted. -/
@[simp] theorem length_chunks (read : Nat → α) (pos width n : Nat) :
    (chunks read pos width n).length = n := by
  simp [chunks]

/-- As many zero bytes are made as are wanted. -/
@[simp] theorem size_zeros (n : Nat) : (zeros n).size = n := by
  fun_induction zeros n with
  | case1 => rfl
  | case2 n h half even he ih => simp only [even, ByteArray.size_append, half, ih]; omega
  | case3 n h half even he ih =>
    simp only [ByteArray.size_push, even, ByteArray.size_append, half, ih]; omega

end Bytes

/-- The order in which a file stores the base-256 digits of its numbers. -/
inductive ByteOrder where
  /-- The least significant digit comes first. -/
  | little
  /-- The most significant digit comes first. -/
  | big
  deriving DecidableEq, Inhabited

namespace ByteOrder

/-- The two bytes that open a file of this order: `II` or `MM`. -/
def mark : ByteOrder → List UInt8
  | little => [0x49, 0x49]
  | big => [0x4D, 0x4D]

/-- How many numbers have at most `width` base-256 digits. -/
def capacity : (width : Nat) → Nat
  | 0 => 1
  | width + 1 => 256 * capacity width

/-- The `width` lowest base-256 digits of `n`, least significant first. -/
def digits : (width : Nat) → (n : Nat) → List UInt8
  | 0, _ => []
  | width + 1, n => UInt8.ofNat n :: digits width (n / 256)

/-- The number whose base-256 digits are given, least significant first. -/
def ofDigits : List UInt8 → Nat
  | [] => 0
  | d :: ds => d.toNat + 256 * ofDigits ds

/-- The `width` lowest base-256 digits of `n`, as a file of this order stores them. -/
def encode (order : ByteOrder) (width n : Nat) : List UInt8 :=
  match order with
  | little => digits width n
  | big => (digits width n).reverse

/-- The number that a file of this order stores as the given digits. -/
def decode (order : ByteOrder) (ds : List UInt8) : Nat :=
  match order with
  | little => ofDigits ds
  | big => ofDigits ds.reverse

/-- The number stored in the `width` bytes of `bytes` at `pos`. -/
def numberAt (order : ByteOrder) (bytes : ByteArray) (pos width : Nat) : Nat :=
  order.decode (bytes.extract pos (pos + width)).data.toList

/-- A number has as many digits as are wanted. -/
@[simp] theorem length_digits (width n : Nat) : (digits width n).length = width := by
  induction width generalizing n with
  | zero => rfl
  | succ width ih => simp [digits, ih]

/-- A number is encoded in as many bytes as are wanted, in either order. -/
@[simp] theorem length_encode (order : ByteOrder) (width n : Nat) :
    (order.encode width n).length = width := by
  cases order <;> simp [encode]

/-- The digits of a number stand for what of it they can hold. -/
theorem ofDigits_digits (width n : Nat) : ofDigits (digits width n) = n % capacity width := by
  induction width generalizing n with
  | zero => simp [digits, ofDigits, capacity, Nat.mod_one]
  | succ width ih =>
    have hd : (UInt8.ofNat n).toNat = n % 256 := UInt8.toNat_ofNat'
    rw [digits, ofDigits, ih, hd, capacity, Nat.mod_mul]

/-- The number that digits stand for has these digits. -/
theorem digits_ofDigits (ds : List UInt8) : digits ds.length (ofDigits ds) = ds := by
  induction ds with
  | nil => rfl
  | cons d ds ih =>
    have hd : d.toNat < 256 := d.toNat_lt
    have hq : (d.toNat + 256 * ofDigits ds) / 256 = ofDigits ds := by omega
    simp only [List.length_cons, digits, ofDigits, hq, ih, List.cons.injEq, and_true]
    apply UInt8.toNat_inj.mp
    rw [UInt8.toNat_ofNat']
    omega

/-- Reading back what was written gives the number, reduced to the width. -/
theorem decode_encode (order : ByteOrder) (width n : Nat) :
    order.decode (order.encode width n) = n % capacity width := by
  cases order <;> simp [encode, decode, ofDigits_digits]

/-- Writing the number that was read gives the digits back. -/
theorem encode_decode (order : ByteOrder) (ds : List UInt8) :
    order.encode ds.length (order.decode ds) = ds := by
  cases order with
  | little => exact digits_ofDigits ds
  | big =>
    have h := digits_ofDigits ds.reverse
    rw [List.length_reverse] at h
    simp [encode, decode, h]

/-- Digits stand for a number that they can hold. -/
theorem ofDigits_lt (ds : List UInt8) : ofDigits ds < capacity ds.length := by
  induction ds with
  | nil => simp [ofDigits, capacity]
  | cons d ds ih =>
    have hd : d.toNat < 256 := d.toNat_lt
    simp only [ofDigits, List.length_cons, capacity]
    omega

/-- Bytes stand for a number that they can hold, in either order. -/
theorem decode_lt (order : ByteOrder) (ds : List UInt8) : order.decode ds < capacity ds.length := by
  cases order with
  | little => exact ofDigits_lt ds
  | big => simpa [decode] using ofDigits_lt ds.reverse

end ByteOrder

end TaggedImage
