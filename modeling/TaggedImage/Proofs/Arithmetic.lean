import Mathlib.Algebra.BigOperators.Group.List.Basic
import Mathlib.Algebra.Order.Floor.Div
import TaggedImage.Proofs.Confinement

/-!
# Products, quotients and the machine that computes them

`product` is exact: it answers the product of its factors if all products of the first of them are
words (`product_eq_ok_iff`, `Fits`), and `Word.divUp` is the quotient rounded up
(`Word.divUp_eq_ceilDiv`).

Natural numbers have neither a largest word nor a division that fails. `Machine.Run` is a
computation with words: an unguarded sum or product that is no word stops it, and so does a division
by zero. `Computes` says of a computation of the library when it answers an exact result and for
which reasons it is refused otherwise, and that the machine goes through it without such a stop.
-/

namespace TaggedImage

open FileM

variable {α β : Type}

/-- A computation that begins with a value goes on with it. -/
@[simp] theorem ok_bind {ε : Type} (a : α) (f : α → Except ε β) : (Except.ok a >>= f) = f a := rfl

/-! ## Products and quotients -/

/-- The fault says that the dimensions cannot be used. -/
def Fault.IsGeometry (fault : Fault) : Prop := ∃ flaw, fault = .geometry flaw

/-- A fault with a flaw of the geometry is a fault of the geometry. -/
theorem Fault.isGeometry (flaw : GeometryFlaw) : (Fault.geometry flaw).IsGeometry := ⟨flaw, rfl⟩

namespace Word

/-- Rounding up is what the standard library calls the ceiling of a quotient. -/
theorem divUp_eq_ceilDiv (value : Nat) {divisor : Nat} (hd : divisor ≠ 0) :
    divUp value divisor = value ⌈/⌉ divisor := by
  have hpos : 0 < divisor := Nat.pos_of_ne_zero hd
  apply le_antisymm
  · rw [divUp]
    split
    · next h0 =>
      rw [Nat.add_zero]
      refine Nat.le_of_mul_le_mul_right ?_ hpos
      rw [Nat.div_mul_cancel (Nat.dvd_of_mod_eq_zero h0), Nat.mul_comm]
      exact le_smul_ceilDiv hpos
    · next h0 =>
      rw [Nat.succ_le_iff, Nat.div_lt_iff_lt_mul hpos, Nat.mul_comm]
      refine lt_of_le_of_ne (le_smul_ceilDiv hpos) fun he => h0 ?_
      rw [he]
      exact Nat.mul_mod_right _ _
  · rw [ceilDiv_le_iff_le_smul hpos, smul_eq_mul, divUp, Nat.mul_add]
    have hdiv := Nat.div_add_mod value divisor
    have hmod := Nat.mod_lt value hpos
    split <;> omega

/-- A quotient is no larger than what is divided, also when it is rounded up. -/
theorem divUp_le {value divisor : Nat} (hd : divisor ≠ 0) : divUp value divisor ≤ value := by
  have hpos : 0 < divisor := Nat.pos_of_ne_zero hd
  rw [divUp_eq_ceilDiv value hd, ceilDiv_le_iff_le_smul hpos]
  exact Nat.le_mul_of_pos_left value hpos

end Word

/-- The units that it takes to cover a value are those that start within it. -/
theorem lt_ceilDiv_iff {value divisor n : Nat} (hd : divisor ≠ 0) :
    n < value ⌈/⌉ divisor ↔ n * divisor < value := by
  rw [← not_le, ceilDiv_le_iff_le_smul (Nat.pos_of_ne_zero hd), not_le, smul_eq_mul, Nat.mul_comm]

/-- The product of `acc` and the factors, refused when a product of the first of them is no word. -/
def productFrom (quantity : String) (acc : Nat) : List Nat → Except Fault Nat
  | [] => .ok acc
  | factor :: factors =>
    if acc * factor ≤ Word.max then productFrom quantity (acc * factor) factors
    else .error (.geometry (.overflow quantity))

/-- A product is multiplied up from one. -/
theorem product_eq_productFrom (quantity : String) (factors : List Nat) :
    product quantity factors = productFrom quantity 1 factors := by
  unfold product
  generalize 1 = acc
  induction factors generalizing acc with
  | nil => rfl
  | cons factor factors ih =>
    rw [List.foldlM_cons, productFrom, Word.mul?]
    by_cases hle : acc * factor ≤ Word.max
    · rw [if_pos hle, if_pos hle]
      exact ih (acc * factor)
    · rw [if_neg hle, if_neg hle]
      rfl

/-- The factors are multiplied up just if all products on the way are words. -/
theorem productFrom_eq_ok_iff {quantity : String} {acc n : Nat} {factors : List Nat}
    (ha : acc ≤ Word.max) :
    productFrom quantity acc factors = .ok n ↔
      n = acc * factors.prod ∧ ∀ p ∈ factors.scanl (· * ·) acc, p ≤ Word.max := by
  induction factors generalizing acc with
  | nil => simp [productFrom, eq_comm, ha]
  | cons factor factors ih =>
    rw [productFrom, List.prod_cons, List.scanl_cons, List.forall_mem_cons, ← Nat.mul_assoc]
    split
    · next hle => simp [ih hle, ha]
    · next hle =>
      refine ⟨nofun, fun ⟨_, _, h⟩ => absurd (h _ ?_) hle⟩
      cases factors <;> simp

/-- The products of the first factors, up to all of them, are words. -/
def Fits (factors : List Nat) : Prop := ∀ p ∈ factors.scanl (· * ·) 1, p ≤ Word.max

/-- A product is answered, exactly, just if its factors fit. -/
theorem product_eq_ok_iff {quantity : String} {factors : List Nat} {n : Nat} :
    product quantity factors = .ok n ↔ n = factors.prod ∧ Fits factors := by
  rw [product_eq_productFrom, productFrom_eq_ok_iff (by decide), Nat.one_mul, Fits]

/-- What `productFrom` answers is a word, if it starts with one. -/
theorem productFrom_le {quantity : String} {acc n : Nat} {factors : List Nat}
    (ha : acc ≤ Word.max) (h : productFrom quantity acc factors = .ok n) : n ≤ Word.max := by
  induction factors generalizing acc with
  | nil =>
    cases h
    exact ha
  | cons factor factors ih =>
    rw [productFrom] at h
    split at h
    · exact ih ‹_› h
    · cases h

/-- A product that is answered is a word. -/
theorem product_le {quantity : String} {factors : List Nat} {n : Nat}
    (h : product quantity factors = .ok n) : n ≤ Word.max := by
  rw [product_eq_productFrom] at h
  exact productFrom_le (by decide) h

/-- Two factors fit if the first one and their product are words. -/
theorem fits_two {a b : Nat} : Fits [a, b] ↔ a ≤ Word.max ∧ a * b ≤ Word.max := by
  simp [Fits, show 1 ≤ Word.max by decide]

/-- Three fit if each product from the left is a word. -/
theorem fits_three {a b c : Nat} :
    Fits [a, b, c] ↔ a ≤ Word.max ∧ a * b ≤ Word.max ∧ a * b * c ≤ Word.max := by
  simp [Fits, show 1 ≤ Word.max by decide]

/-- A product of two factors is answered just if it and its first factor are words. -/
theorem product_two {quantity : String} {a b n : Nat} :
    product quantity [a, b] = .ok n ↔ n = a * b ∧ a ≤ Word.max ∧ a * b ≤ Word.max := by
  rw [product_eq_ok_iff, fits_two]
  simp

/-- A sum is answered, exactly, just if it is a word. -/
theorem sum_eq_ok_iff {quantity : String} {a b n : Nat} :
    sum quantity a b = .ok n ↔ n = a + b ∧ a + b ≤ Word.max := by
  rw [sum]
  cases h : Word.add? a b with
  | none => grind [Word.add?]
  | some m =>
    obtain ⟨rfl, hle⟩ := Word.add?_eq_some_iff.1 h
    simp [hle, eq_comm]

/-- A product that is not answered is refused as a flaw of the geometry. -/
theorem productFrom_refused {quantity : String} {acc : Nat} {factors : List Nat} {fault : Fault}
    (h : productFrom quantity acc factors = .error fault) : fault.IsGeometry := by
  induction factors generalizing acc with
  | nil => cases h
  | cons factor factors ih =>
    rw [productFrom] at h
    split at h
    · exact ih h
    · cases h
      exact Fault.isGeometry _

/-- A product is refused as a flaw of the dimensions. -/
theorem product_refused (quantity : String) {factors : List Nat} (h : ¬ Fits factors) :
    ∃ fault, fault.IsGeometry ∧ product quantity factors = .error fault := by
  cases hp : product quantity factors with
  | ok n => exact absurd (product_eq_ok_iff.1 hp).2 h
  | error fault =>
    rw [product_eq_productFrom] at hp
    exact ⟨fault, productFrom_refused hp, rfl⟩

/-! ## The machine -/

/-- Why a computation with words stops. -/
inductive Halt where
  /-- The computation itself refuses. -/
  | fault (fault : Fault)
  /-- A division by zero. -/
  | zeroDivisor
  /-- A sum or a product that is no word. -/
  | overflow
  deriving DecidableEq

namespace Machine

/-- A computation with words. -/
abbrev Run := Except Halt

/-- A computation that can only refuse. -/
def guarded (x : Except Fault α) : Run α := x.mapError .fault

/-- A guarded computation with a value has this value. -/
@[simp] theorem guarded_ok (a : α) : guarded (.ok a) = .ok a := rfl

/-- The sum, which has to be a word. -/
def add (a b : Nat) : Run Nat := if a + b ≤ Word.max then .ok (a + b) else .error .overflow

/-- The product, which has to be a word. -/
def mul (a b : Nat) : Run Nat := if a * b ≤ Word.max then .ok (a * b) else .error .overflow

/-- The quotient; the divisor may not be zero. -/
def div (a b : Nat) : Run Nat := if b = 0 then .error .zeroDivisor else .ok (a / b)

/-- The remainder; the divisor may not be zero. -/
def mod (a b : Nat) : Run Nat := if b = 0 then .error .zeroDivisor else .ok (a % b)

/-- The quotient rounded up. -/
def divUp (value divisor : Nat) : Run Nat := do
  add (← div value divisor) (if (← mod value divisor) = 0 then 0 else 1)

/-- A product that is a word does not overflow. -/
theorem mul_eq {a b : Nat} (h : a * b ≤ Word.max) : mul a b = .ok (a * b) := if_pos h

/-- A division by a number other than zero has a quotient. -/
theorem div_eq {a b : Nat} (hb : b ≠ 0) : div a b = .ok (a / b) := if_neg hb

/-- A division by a number other than zero has a remainder. -/
theorem mod_eq {a b : Nat} (hb : b ≠ 0) : mod a b = .ok (a % b) := if_neg hb

/-- Rounding up does not overflow, since the quotient is no larger than the word that is divided. -/
theorem divUp_eq {value divisor : Nat} (hv : value ≤ Word.max) (hd : divisor ≠ 0) :
    divUp value divisor = .ok (Word.divUp value divisor) := by
  have hle : Word.divUp value divisor ≤ Word.max := (Word.divUp_le hd).trans hv
  rw [divUp, div_eq hd, mod_eq hd]
  exact if_pos hle

end Machine

/-- The computation `x` answers `a` if `C` holds and is refused with a fault of `F` otherwise, and
the machine that runs it as `m` does the same and meets no stop of its own. -/
structure Computes (F : Fault → Prop) (C : Prop) (a : α) (x : Except Fault α) (m : Machine.Run α) :
    Prop where
  answered : C → x = .ok a
  refused : ¬ C → ∃ fault, F fault ∧ x = .error fault
  runs : m = Machine.guarded x

namespace Computes

variable {F G : Fault → Prop} {C D : Prop} {a : α} {b : β} {x : Except Fault α} {m : Machine.Run α}

/-- A value that is answered outright is computed without a condition. -/
theorem ok (F : Fault → Prop) (a : α) : Computes F True a (.ok a) (.ok a) :=
  ⟨fun _ => rfl, fun h => absurd trivial h, rfl⟩

/-- What follows a computation has its exact result to go on with. -/
theorem bind {f : α → Except Fault β} {g : α → Machine.Run β} (h : Computes F C a x m)
    (hf : C → Computes F D b (f a) (g a)) : Computes F (C ∧ D) b (x >>= f) (m >>= g) := by
  by_cases hC : C
  · have hnext := hf hC
    rw [h.runs, h.answered hC]
    refine ⟨fun hall => hnext.answered hall.2, fun hno => hnext.refused ?_, hnext.runs⟩
    exact fun hD => hno ⟨hC, hD⟩
  · obtain ⟨fault, hF, hx⟩ := h.refused hC
    rw [h.runs, hx]
    exact ⟨fun hall => absurd hall.1 hC, fun _ => ⟨fault, hF, rfl⟩, rfl⟩

/-- A check in front of a computation adds its negation to the condition, if the fault it raises is
one of the kind. -/
theorem guard {c : Prop} [Decidable c] {fault : Fault} (hc : c → F fault)
    (h : ¬ c → Computes F C a x m) :
    Computes F (¬ c ∧ C) a (if c then throw fault >>= fun _ : PUnit => x else x)
      (if c then throw (.fault fault) >>= fun _ : PUnit => m else m) := by
  by_cases hcheck : c
  · rw [if_pos hcheck, if_pos hcheck]
    exact ⟨fun hall => absurd hcheck hall.1, fun _ => ⟨fault, hc hcheck, rfl⟩, rfl⟩
  · rw [if_neg hcheck, if_neg hcheck]
    have hnext := h hcheck
    exact ⟨fun hall => hnext.answered hall.2, fun hno => hnext.refused fun hC => hno ⟨hcheck, hC⟩,
      hnext.runs⟩

/-- A computation may be said to have more faults than it has. -/
theorem mono (h : Computes F C a x m) (hF : ∀ fault, F fault → G fault) : Computes G C a x m where
  answered := h.answered
  refused hno := by
    obtain ⟨fault, hf, hx⟩ := h.refused hno
    exact ⟨fault, hF fault hf, hx⟩
  runs := h.runs

/-- Its condition may be stated in another way. -/
theorem congr (h : Computes F C a x m) (hC : C ↔ D) : Computes F D a x m := by
  rwa [← propext hC]

/-- A result is the exact one, and is answered under the condition alone. -/
theorem eq_ok_iff (h : Computes F C a x m) {a' : α} : x = .ok a' ↔ C ∧ a' = a := by
  constructor
  · intro hx
    by_cases hC : C
    · rw [h.answered hC] at hx
      cases hx
      exact ⟨hC, rfl⟩
    · obtain ⟨fault, -, he⟩ := h.refused hC
      rw [he] at hx
      cases hx
  · rintro ⟨hC, rfl⟩
    exact h.answered hC

/-- A computation raises no faults but those of its kind. -/
theorem of_error (h : Computes F C a x m) {fault : Fault} (hx : x = .error fault) : F fault := by
  by_cases hC : C
  · rw [h.answered hC] at hx
    cases hx
  · obtain ⟨fault', hF, he⟩ := h.refused hC
    rw [he] at hx
    cases hx
    exact hF

/-- A product is computed if its factors fit. -/
theorem product {quantity : String} {factors : List Nat} {n : Nat} (hn : factors.prod = n) :
    Computes Fault.IsGeometry (Fits factors) n (product quantity factors)
      (Machine.guarded (TaggedImage.product quantity factors)) where
  answered h := product_eq_ok_iff.2 ⟨hn.symm, h⟩
  refused := product_refused quantity
  runs := rfl

/-- A quotient rounded up is always computed. -/
theorem divUp {value divisor : Nat} (hv : value ≤ Word.max) (hd : divisor ≠ 0) :
    Computes F True (value ⌈/⌉ divisor) (.ok (Word.divUp value divisor))
      (Machine.divUp value divisor) where
  answered _ := congrArg _ (Word.divUp_eq_ceilDiv value hd)
  refused h := absurd trivial h
  runs := Machine.divUp_eq hv hd

end Computes

end TaggedImage
