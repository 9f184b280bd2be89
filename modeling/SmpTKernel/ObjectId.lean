import SmpTKernel.Basic

/-!
# Object IDs

`config.h`: an ID has the number of the object in its low 16 bits, the number of the domain the
object belongs to in the next 8, and the number of the processor in the 4 bits after these; nobody
looks at the last 4.
-/

namespace SmpTKernel

/-- An ID, as the unsigned word. -/
abbrev ID := ℕ

abbrev MP_PRID_MASK : ℕ := 0x0f000000
abbrev MP_PRID_SHIFT : ℕ := 24
abbrev DOMID_MASK : ℕ := 0x00ff0000
abbrev DOMID_SHIFT : ℕ := 16
abbrev OBJID_MASK : ℕ := 0x0000ffff

def GET_PRID (id : ℕ) : ℕ := (id &&& MP_PRID_MASK) >>> MP_PRID_SHIFT

def SET_PRID (id : ℕ) : ℕ := id ||| 1 <<< MP_PRID_SHIFT

def GET_DOMID (id : ℕ) : ℕ := (id &&& DOMID_MASK) >>> DOMID_SHIFT

def GET_OBJID (id : ℕ) : ℕ := id &&& OBJID_MASK

/-- Generate domain ID part from domain ID. -/
def MP_GEN_DOMIDPART (domid : ℕ) : ℕ := (GET_OBJID domid <<< DOMID_SHIFT) &&& DOMID_MASK

/-- Compare domain ID part of ID. -/
def MP_CMP_DOMIDPART (id1 id2 : ℕ) : Bool := (id1 ^^^ id2) &&& DOMID_MASK = 0

/-- Kernel domain ID. -/
abbrev MP_KDMID : ℕ := 0

abbrev MP_KDMID_SELF : ℕ := SET_PRID MP_KDMID

/-! ## The parts as remainders -/

variable {d n : ℕ}

theorem GET_OBJID_eq (id : ℕ) : GET_OBJID id = id % 2 ^ 16 := Nat.and_two_pow_sub_one_eq_mod id 16

theorem GET_DOMID_eq (id : ℕ) : GET_DOMID id = id / 2 ^ 16 % 2 ^ 8 := by
  show (id &&& DOMID_MASK) >>> 16 = _
  rw [Nat.shiftRight_and_distrib, Nat.shiftRight_eq_div_pow]
  exact Nat.and_two_pow_sub_one_eq_mod _ 8

theorem GET_PRID_eq (id : ℕ) : GET_PRID id = id / 2 ^ 24 % 2 ^ 4 := by
  show (id &&& MP_PRID_MASK) >>> 24 = _
  rw [Nat.shiftRight_and_distrib, Nat.shiftRight_eq_div_pow]
  exact Nat.and_two_pow_sub_one_eq_mod _ 4

theorem MP_GEN_DOMIDPART_eq (h : GET_OBJID d < 2 ^ 8) :
    MP_GEN_DOMIDPART d = GET_OBJID d * 2 ^ 16 := by
  show (GET_OBJID d <<< 16) &&& (0xff <<< 16) = _
  rw [← Nat.shiftLeft_and_distrib, Nat.shiftLeft_eq]
  have : GET_OBJID d &&& 0xff = GET_OBJID d := by
    rw [show (0xff : ℕ) = 2 ^ 8 - 1 from rfl, Nat.and_two_pow_sub_one_eq_mod, Nat.mod_eq_of_lt h]
  rw [this]

theorem objectId_eq (hd : GET_OBJID d < 2 ^ 8) (hn : n < 2 ^ 16) :
    MP_GEN_DOMIDPART d ||| SET_PRID n = 2 ^ 24 + GET_OBJID d * 2 ^ 16 + n := by
  have hdvd : 2 ^ 16 ∣ 2 ^ 24 + GET_OBJID d * 2 ^ 16 :=
    Nat.dvd_add (by decide) (Nat.dvd_mul_left _ _)
  rw [MP_GEN_DOMIDPART_eq hd, show SET_PRID n = n ||| 2 ^ 24 from rfl, Nat.or_comm n,
    ← Nat.or_assoc, Nat.or_comm _ (2 ^ 24), Words.mul_or_low (Nat.dvd_refl (2 ^ 24)) (by omega),
    Words.mul_or_low hdvd hn]

theorem MP_CMP_DOMIDPART_iff (id1 id2 : ℕ) :
    MP_CMP_DOMIDPART id1 id2 = true ↔ GET_DOMID id1 = GET_DOMID id2 := by
  unfold MP_CMP_DOMIDPART
  rw [decide_eq_true_iff]
  have hshift (x : ℕ) : (x &&& DOMID_MASK) >>> 16 <<< 16 = x &&& DOMID_MASK := by
    rw [Nat.shiftRight_and_distrib, Nat.shiftLeft_and_distrib]
    refine Nat.eq_of_testBit_eq fun i => ?_
    rw [Nat.testBit_and, Nat.testBit_and, Nat.testBit_shiftLeft, Nat.testBit_shiftRight,
      Nat.testBit_shiftLeft, Nat.testBit_shiftRight]
    by_cases hi : 16 ≤ i
    · simp [hi, Nat.add_sub_cancel' hi]
    · have hmask : DOMID_MASK.testBit i = false := by
        rw [show DOMID_MASK = 0xff * 2 ^ 16 from rfl, Nat.mul_comm, Nat.testBit_two_pow_mul]
        simp [hi]
      simp [hi, hmask]
  rw [Nat.and_xor_distrib_right, Nat.xor_eq_zero_iff]
  constructor
  · exact fun h => congrArg (· >>> 16) h
  · intro h
    have := congrArg (· <<< 16) h
    change (id1 &&& DOMID_MASK) >>> 16 <<< 16 = (id2 &&& DOMID_MASK) >>> 16 <<< 16 at this
    rwa [hshift, hshift] at this

end SmpTKernel
