import Mathlib.Data.Nat.Bitwise
import Mathlib.Tactic.Common
import Mathlib.Tactic.NormNum
import Mathlib.Tactic.Positivity

/-!
# Machine words as numbers

Conversions between signed and unsigned words of `w` bits, clearing the low bits of a word, and
words as little-endian bytes.
-/

namespace Words

/-- The unsigned word of an integer. -/
def toUnsigned (w : ℕ) (x : ℤ) : ℕ := (x % 2 ^ w).toNat

/-- The signed integer of an unsigned word. -/
def toSigned (w : ℕ) (x : ℕ) : ℤ := if x < 2 ^ (w - 1) then x else (x : ℤ) - 2 ^ w

/-- `x & ~(2^k - 1)` in words of `w` bits. -/
def clearLow (w k x : ℕ) : ℕ := x &&& ((2 ^ w - 1) ^^^ (2 ^ k - 1))

theorem toUnsigned_natCast {w n : ℕ} (h : n < 2 ^ w) : toUnsigned w n = n := by
  unfold toUnsigned
  have : (n : ℤ) % 2 ^ w = n := Int.emod_eq_of_lt (by omega) (by exact_mod_cast h)
  rw [this, Int.toNat_natCast]

theorem toUnsigned_lt (w : ℕ) (x : ℤ) : toUnsigned w x < 2 ^ w := by
  unfold toUnsigned
  have h0 : (0 : ℤ) < 2 ^ w := by positivity
  have h₁ := Int.emod_nonneg x h0.ne'
  have h₂ := Int.emod_lt_of_pos x h0
  have : ((x % 2 ^ w).toNat : ℤ) < ((2 ^ w : ℕ) : ℤ) := by
    rw [Int.toNat_of_nonneg h₁]
    push_cast
    exact h₂
  exact_mod_cast this

theorem toUnsigned_le {w : ℕ} {x : ℤ} (hx : 0 ≤ x) : (toUnsigned w x : ℤ) ≤ x := by
  unfold toUnsigned
  have h0 : (0 : ℤ) < 2 ^ w := by positivity
  rw [Int.toNat_of_nonneg (Int.emod_nonneg x h0.ne')]
  have h₁ := Int.mul_ediv_add_emod x (2 ^ w)
  have h₂ : 0 ≤ 2 ^ w * (x / 2 ^ w) := mul_nonneg h0.le (Int.ediv_nonneg hx h0.le)
  omega

theorem toSigned_of_lt {w n : ℕ} (h : n < 2 ^ (w - 1)) : toSigned w n = n := if_pos h

theorem clearLow_eq {w k x : ℕ} (hx : x < 2 ^ w) : clearLow w k x = x / 2 ^ k * 2 ^ k := by
  unfold clearLow
  refine Nat.eq_of_testBit_eq fun i => ?_
  rw [Nat.testBit_and, Nat.testBit_xor, Nat.testBit_two_pow_sub_one, Nat.testBit_two_pow_sub_one,
    Nat.mul_comm, Nat.testBit_two_pow_mul, Nat.testBit_div_two_pow]
  by_cases hk : i < k
  · by_cases hw : i < w
    · simp [hk, hw, Nat.not_le.mpr hk]
    · have : x.testBit i = false :=
        Nat.testBit_lt_two_pow (lt_of_lt_of_le hx (Nat.pow_le_pow_right (by norm_num)
          (not_lt.mp hw)))
      simp [this, Nat.not_le.mpr hk]
  · have hki : k ≤ i := not_lt.mp hk
    rw [Nat.sub_add_cancel hki]
    by_cases hw : i < w
    · simp [hk, hw, hki]
    · have : x.testBit i = false :=
        Nat.testBit_lt_two_pow (lt_of_lt_of_le hx (Nat.pow_le_pow_right (by norm_num)
          (not_lt.mp hw)))
      simp [this]

/-! ## Flags in the low bits of an address -/

variable {k a f g x : ℕ}

theorem mul_or_low (h : 2 ^ k ∣ a) (hf : f < 2 ^ k) : a ||| f = a + f := by
  obtain ⟨c, rfl⟩ := h
  exact (Nat.two_pow_add_eq_or_of_lt hf c).symm

theorem and_low (hg : g < 2 ^ k) : x &&& g = x % 2 ^ k &&& g := by
  refine Nat.eq_of_testBit_eq fun i => ?_
  rw [Nat.testBit_and, Nat.testBit_and, Nat.testBit_mod_two_pow]
  by_cases hi : i < k
  · simp [hi]
  · have : g.testBit i = false :=
      Nat.testBit_lt_two_pow (lt_of_lt_of_le hg (Nat.pow_le_pow_right (by norm_num) (not_lt.mp hi)))
    simp [this]

theorem add_mod_low (h : 2 ^ k ∣ a) (hf : f < 2 ^ k) : (a + f) % 2 ^ k = f := by
  rw [Nat.add_mod, Nat.mod_eq_zero_of_dvd h, Nat.zero_add, Nat.mod_mod, Nat.mod_eq_of_lt hf]

theorem add_div_low (h : 2 ^ k ∣ a) (hf : f < 2 ^ k) : (a + f) / 2 ^ k * 2 ^ k = a := by
  have := Nat.div_add_mod (a + f) (2 ^ k)
  rw [add_mod_low h hf, Nat.mul_comm] at this
  exact Nat.add_right_cancel this

theorem or_one (x : ℕ) : x ||| 1 = x / 2 * 2 + 1 := by
  have h := Nat.div_add_mod x 2
  have hd : 2 ^ 1 ∣ x / 2 * 2 := Nat.dvd_mul_left 2 _
  have hlt : x % 2 < 2 ^ 1 := Nat.mod_lt x (by norm_num)
  have hx : x / 2 * 2 ||| x % 2 = x := by
    rw [@mul_or_low 1 (x / 2 * 2) (x % 2) hd hlt, Nat.mul_comm]
    exact h
  have hr : x % 2 ||| 1 = 1 := by
    rcases Nat.mod_two_eq_zero_or_one x with e | e <;> rw [e] <;> rfl
  calc x ||| 1 = x / 2 * 2 ||| x % 2 ||| 1 := by rw [hx]
    _ = x / 2 * 2 ||| (x % 2 ||| 1) := Nat.or_assoc _ _ _
    _ = x / 2 * 2 + 1 := by rw [hr, mul_or_low hd (by norm_num)]

/-- The `n` low bytes of a number, least significant first. -/
def leBytes : ℕ → ℕ → List (BitVec 8)
  | 0, _ => []
  | n + 1, x => BitVec.ofNat 8 x :: leBytes n (x / 256)

/-- The number of a little-endian string of bytes. -/
def ofLeBytes : List (BitVec 8) → ℕ
  | [] => 0
  | b :: bs => b.toNat + 256 * ofLeBytes bs

@[simp] theorem length_leBytes (n x : ℕ) : (leBytes n x).length = n := by
  induction n generalizing x with
  | zero => rfl
  | succ n ih => rw [leBytes, List.length_cons, ih]

theorem ofLeBytes_leBytes (n : ℕ) : ∀ {x : ℕ}, x < 256 ^ n → ofLeBytes (leBytes n x) = x := by
  induction n with
  | zero => intro x h; rw [pow_zero] at h; simp [leBytes, ofLeBytes]; omega
  | succ n ih =>
    intro x h
    have : x / 256 < 256 ^ n := Nat.div_lt_of_lt_mul (by rwa [pow_succ, Nat.mul_comm] at h)
    rw [leBytes, ofLeBytes, ih this, BitVec.toNat_ofNat]
    omega

end Words
