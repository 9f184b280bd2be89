import Mathlib.Data.Nat.Bitwise
import Mathlib.Logic.Function.Basic
import Mathlib.Tactic.Common
import Mathlib.Tactic.IntervalCases
import SmpTKernel.Basic

/-!
# Bit strings of bytes

`bitop.c` (little endian): setting, clearing and searching bits of a byte string. Bit `k` of the
string is bit `k % 8` of byte `k / 8` (`bitAt`). The searches walk a byte at a time and look at
single bits only in a byte that has one at or above the starting position. They count positions in a
`W`: a search that passes the largest one goes on with negative positions, beyond the bits it was
given (`searchRight_iff`).
-/

namespace SmpTKernel

/-- Bit `k` of the string. -/
def bitAt (base : Bytes) (k : ℕ) : Bool := (base (k / 8)).getLsbD (k % 8)

/-- `_BIT_SET_N`. -/
def bitSetN (n : ℕ) : BitVec 8 := 0x01#8 <<< (n &&& 0x07)

/-- `_BIT_MSK_N`. -/
def bitMskN (n : ℕ) : BitVec 8 := 0xFF#8 <<< (n &&& 0x07)

def tstdlibBitclr (base : Bytes) (offset : ℤ) : Bytes :=
  if offset < 0 then base
  else
    let cp := offset.toNat / 8
    Function.update base cp (base cp &&& ~~~bitSetN offset.toNat)

def tstdlibBitset (base : Bytes) (offset : ℤ) : Bytes :=
  if offset < 0 then base
  else
    let cp := offset.toNat / 8
    Function.update base cp (base cp ||| bitSetN offset.toNat)

def tstdlibBittest (base : Bytes) (offset : ℤ) : Bool :=
  if offset < 0 then false
  else base (offset.toNat / 8) &&& bitSetN offset.toNat ≠ 0

/-- How a search looks at a byte: the mask it starts with at an offset, the test of a whole byte
against this mask, and the test of the bit under `mask`. -/
structure SearchTests where
  cpmask : ℕ → UB
  has : UB → UB → Bool
  hit : UB → UB → Bool

/-- What a search returns, `none` while it goes on, and the bytes it has looked at. -/
structure Searched where
  result : Option ℤ
  reads : List ℕ

/-- The inner loop of a search: the bits of one byte from `mask` on. -/
def searchInByte (k : SearchTests) (b : UB) (width : ℤ) : ℕ → UB → ℤ → Option ℤ
  | 0, _, _ => none
  | fuel + 1, mask, position =>
    if k.hit b mask then some (if position < width then position else -1)
    else searchInByte k b width fuel (mask <<< 1) (INT (UINT (position + 1)))

/-- The outer loop of a search: one byte a turn. -/
def searchBytes (k : SearchTests) (base : Bytes) (offset : ℕ) (width : ℤ) :
    ℕ → (cp : ℕ) → (position : ℤ) → (mask cpmask : UB) → Searched
  | 0, _, _, _, _ => ⟨none, []⟩
  | turns + 1, cp, position, mask, cpmask =>
    if position < width then
      let s : Searched :=
        if k.has (base cp) cpmask then ⟨searchInByte k (base cp) width 8 mask position, []⟩
        else if position ≠ 0 then
          searchBytes k base offset width turns (cp + 1) (INT (UINT (position + 8))) mask cpmask
        else
          searchBytes k base offset width turns (cp + 1) ((8 - (offset &&& 7) : ℕ) : ℤ) (bitSetN 0)
            (k.cpmask 0)
      ⟨s.result, cp :: s.reads⟩
    else ⟨some (-1), []⟩

/-- A search that makes at most `turns` turns of the outer loop. -/
def bitsearch (k : SearchTests) (turns : ℕ) (base : Bytes) (offset width : ℤ) : Searched :=
  if offset < 0 ∨ width < 0 then ⟨some (-1), []⟩
  else
    searchBytes k base offset.toNat width turns (offset.toNat / 8) 0 (bitSetN offset.toNat)
      (k.cpmask offset.toNat)

def tests0 : SearchTests where
  cpmask n := ~~~bitMskN n
  has b cpmask := b ||| cpmask ≠ 0xFF
  hit b mask := b &&& mask = 0

def tests1 : SearchTests where
  cpmask := bitMskN
  has b cpmask := b &&& cpmask ≠ 0
  hit b mask := b &&& mask ≠ 0

def tstdlibBitsearch0 : ℕ → Bytes → ℤ → ℤ → Searched := bitsearch tests0

def tstdlibBitsearch1 : ℕ → Bytes → ℤ → ℤ → Searched := bitsearch tests1

/-! ## Setting and clearing -/

theorem and_seven (n : ℕ) : n &&& 7 = n % 8 := Nat.and_two_pow_sub_one_eq_mod n 3

theorem getLsbD_bitSetN (n i : ℕ) (hi : i < 8) : (bitSetN n).getLsbD i = decide (i = n % 8) := by
  have hn : n % 8 < 8 := Nat.mod_lt _ (by norm_num)
  unfold bitSetN
  rw [and_seven]
  generalize n % 8 = k at hn ⊢
  revert i k
  decide

theorem getLsbD_bitMskN (n i : ℕ) (hi : i < 8) : (bitMskN n).getLsbD i = decide (n % 8 ≤ i) := by
  have hn : n % 8 < 8 := Nat.mod_lt _ (by norm_num)
  unfold bitMskN
  rw [and_seven]
  generalize n % 8 = k at hn ⊢
  revert i k
  decide

theorem bitAt_bitset (base : Bytes) (p k : ℕ) :
    bitAt (tstdlibBitset base p) k = (decide (k = p) || bitAt base k) := by
  have hk : k % 8 < 8 := Nat.mod_lt _ (by norm_num)
  have hp : ¬(p : ℤ) < 0 := by omega
  unfold bitAt tstdlibBitset
  rw [if_neg hp, Int.toNat_natCast]
  by_cases h : k / 8 = p / 8
  · rw [h, Function.update_self, BitVec.getLsbD_or, getLsbD_bitSetN _ _ hk, Bool.or_comm]
    congr 1
    exact decide_eq_decide.mpr (by omega)
  · have hkp : k ≠ p := by rintro rfl; exact h rfl
    rw [Function.update_of_ne h]
    simp [hkp]

theorem bitAt_bitclr (base : Bytes) (p k : ℕ) :
    bitAt (tstdlibBitclr base p) k = (decide (k ≠ p) && bitAt base k) := by
  have hk : k % 8 < 8 := Nat.mod_lt _ (by norm_num)
  have hp : ¬(p : ℤ) < 0 := by omega
  unfold bitAt tstdlibBitclr
  rw [if_neg hp, Int.toNat_natCast]
  by_cases h : k / 8 = p / 8
  · rw [h, Function.update_self, BitVec.getLsbD_and, BitVec.getLsbD_not, getLsbD_bitSetN _ _ hk,
      Bool.and_comm, decide_eq_true hk, Bool.true_and, ← decide_not]
    congr 1
    exact decide_eq_decide.mpr (by omega)
  · have hkp : k ≠ p := by rintro rfl; exact h rfl
    rw [Function.update_of_ne h]
    simp [hkp]

/-! ## Searching -/

/-- What a search for a bit `v` from `offset` over `width` bits returns. -/
def FirstBit (v : Bool) (base : Bytes) (offset width : ℕ) (r : ℤ) : Prop :=
  (r = -1 ∧ ∀ p < width, bitAt base (offset + p) = !v) ∨
    ∃ p < width, r = p ∧ bitAt base (offset + p) = v ∧ ∀ q < p, bitAt base (offset + q) = !v

/-- The search ended with the first bit `v`, and looked at no byte behind the last of the bits. -/
def SearchRight (v : Bool) (base : Bytes) (offset width : ℕ) (s : Searched) : Prop :=
  (∃ r, s.result = some r ∧ FirstBit v base offset width r) ∧ ∀ n ∈ s.reads, 8 * n < offset + width

/-- The bits end before the byte that holds position `2 ^ 31 - 1`, or a position up to there has a
bit `v`. -/
def SearchFits (v : Bool) (base : Bytes) (offset width : ℕ) : Prop :=
  offset + width ≤ 8 * ((offset + 2 ^ 31 - 1) / 8) ∨ ∃ p < 2 ^ 31, bitAt base (offset + p) = v

/-- The tests of a search for a bit `v`. -/
structure Looks (v : Bool) (k : SearchTests) : Prop where
  cpmask : ∀ n, k.cpmask n = k.cpmask (n % 8)
  hit : ∀ (b : UB) {i : ℕ}, i < 8 → (k.hit b (bitSetN i) = true ↔ b.getLsbD i = v)
  has : ∀ (b : UB) {i : ℕ}, i < 8 →
    (k.has b (k.cpmask i) = true ↔ ∃ j < 8, i ≤ j ∧ b.getLsbD j = v)

/-- Where a search stands at the start of a turn: `i` is the bit of `cp` under the masks, the
offset's own one in the first byte and `0` later on. -/
structure WalkAt (v : Bool) (base : Bytes) (offset cp p i : ℕ) : Prop where
  lt : i < 8
  place : offset + p = 8 * cp + i
  start : p = 0 ∧ i = offset % 8 ∨ p ≠ 0 ∧ i = 0
  clear : ∀ q < p, bitAt base (offset + q) = !v

theorem bitSetN_shift {i : ℕ} (hi : i + 1 < 8) : bitSetN i <<< 1 = bitSetN (i + 1) := by
  have : ∀ k < 7, bitSetN k <<< 1 = bitSetN (k + 1) := by decide
  exact this i (by omega)

theorem bitSetN_mod (n : ℕ) : bitSetN n = bitSetN (n % 8) := by
  unfold bitSetN
  rw [and_seven, and_seven, Nat.mod_mod]

theorem bitMskN_mod (n : ℕ) : bitMskN n = bitMskN (n % 8) := by
  unfold bitMskN
  rw [and_seven, and_seven, Nat.mod_mod]

section Walk

variable {v : Bool} {k : SearchTests} {base : Bytes} {offset width cp p i : ℕ}

theorem searchInByte_eq (l : Looks v k) {b : UB} {w : ℤ} {j : ℕ} (hj : j < 8)
    (hb : b.getLsbD j = v) :
    ∀ (fuel i : ℕ) (x : ℤ), 8 ≤ i + fuel → i ≤ j → (∀ n, i ≤ n → n < j → b.getLsbD n = !v) →
      searchInByte k b w fuel (bitSetN i) (INT (UINT x)) =
        some (if INT (UINT (x + (j - i))) < w then INT (UINT (x + (j - i))) else -1) := by
  intro fuel
  induction fuel with
  | zero => intro i x hf hij _; omega
  | succ fuel ih =>
    intro i x hf hij hclear
    unfold searchInByte
    by_cases e : i = j
    · subst e
      rw [if_pos ((l.hit b hj).mpr hb), sub_self, add_zero]
    · have hnot : ¬k.hit b (bitSetN i) = true := by
        rw [l.hit b (by omega), hclear i le_rfl (by omega)]
        simp
      rw [if_neg hnot, bitSetN_shift (by omega), INT_UINT_add,
        ih (i + 1) (x + 1) (by omega) (by omega) fun n hn => hclear n (by omega)]
      push_cast
      rw [show x + 1 + ((j : ℤ) - (i + 1)) = x + (j - i) by omega]

theorem WalkAt.bit (s : WalkAt v base offset cp p i) {j : ℕ} (hj : j < 8) (hij : i ≤ j) :
    bitAt base (offset + (p + (j - i))) = (base cp).getLsbD j := by
  have hplace := s.place
  unfold bitAt
  rw [show offset + (p + (j - i)) = 8 * cp + j by omega, show (8 * cp + j) / 8 = cp by omega,
    show (8 * cp + j) % 8 = j by omega]

/-- **One turn.** It ends the search at a bit of this byte, or finds none and goes on to the
next. -/
theorem WalkAt.turn (l : Looks v k) (s : WalkAt v base offset cp p i) (hp : p < width)
    (hw : width < 2 ^ 31) (turns : ℕ) :
    (∃ q, p ≤ q ∧ offset + q < 8 * (cp + 1) ∧ bitAt base (offset + q) = v ∧
        (∀ q' < q, bitAt base (offset + q') = !v) ∧
        searchBytes k base offset width (turns + 1) cp p (bitSetN i) (k.cpmask i) =
          ⟨some (if INT (UINT q) < width then INT (UINT q) else -1), [cp]⟩) ∨
      ∃ p', WalkAt v base offset (cp + 1) p' 0 ∧
        searchBytes k base offset width (turns + 1) cp p (bitSetN i) (k.cpmask i) =
          ⟨(searchBytes k base offset width turns (cp + 1) (INT (UINT p')) (bitSetN 0)
            (k.cpmask 0)).result,
          cp :: (searchBytes k base offset width turns (cp + 1) (INT (UINT p')) (bitSetN 0)
            (k.cpmask 0)).reads⟩ := by
  have hplace := s.place
  have hlt := s.lt
  have hint : INT (UINT (p : ℤ)) = p := INT_UINT (by omega) (by omega)
  rw [searchBytes, if_pos (by omega : (p : ℤ) < width)]
  dsimp only
  by_cases hb : k.has (base cp) (k.cpmask i) = true
  · refine Or.inl ?_
    have hex := (l.has _ s.lt).mp hb
    obtain ⟨hj, hij, hset⟩ := Nat.find_spec hex
    have hfirst : ∀ n, i ≤ n → n < Nat.find hex → (base cp).getLsbD n = !v := by
      intro n hn hnj
      have := fun h => Nat.find_min hex hnj ⟨by omega, hn, h⟩
      cases v <;> simpa using this
    generalize Nat.find hex = j at hj hij hset hfirst
    refine ⟨p + (j - i), by omega, by omega, (s.bit hj hij).trans hset, fun q hq => ?_, ?_⟩
    · by_cases hqp : q < p
      · exact s.clear q hqp
      · have := s.bit (j := i + (q - p)) (by omega) (by omega)
        rw [show p + (i + (q - p) - i) = q by omega] at this
        rw [this, hfirst _ (by omega) (by omega)]
    · rw [if_pos hb, ← hint, searchInByte_eq l hj hset 8 i p (by omega) hij hfirst]
      push_cast [Nat.cast_sub hij]
      rfl
  · refine Or.inr ⟨p + (8 - i), ⟨by norm_num, by omega, Or.inr ⟨by omega, rfl⟩, fun q hq => ?_⟩, ?_⟩
    · by_cases hqp : q < p
      · exact s.clear q hqp
      · have hbit := s.bit (j := i + (q - p)) (by omega) (by omega)
        rw [show p + (i + (q - p) - i) = q by omega] at hbit
        by_contra c
        refine hb ((l.has _ s.lt).mpr ⟨i + (q - p), by omega, by omega, ?_⟩)
        rw [← hbit]
        cases v <;> simpa using c
    · rw [if_neg hb]
      rcases s.start with ⟨rfl, rfl⟩ | ⟨hp0, rfl⟩
      · rw [if_neg (by simp), and_seven, zero_add]
        have : INT (UINT ((8 - offset % 8 : ℕ) : ℤ)) = (8 - offset % 8 : ℕ) :=
          INT_UINT (by omega) (by omega)
        rw [this]
      · rw [if_pos (by omega), Nat.sub_zero]
        push_cast
        rfl

/-- The search ends right while its positions stay below `2 ^ 31`. -/
theorem WalkAt.right (l : Looks v k) (hw : width < 2 ^ 31) (fits : SearchFits v base offset width) :
    ∀ turns {cp p i : ℕ}, WalkAt v base offset cp p i → p < 2 ^ 31 → width ≤ p + turns →
      SearchRight v base offset width
        (searchBytes k base offset width (turns + 1) cp p (bitSetN i) (k.cpmask i)) := by
  intro turns
  induction turns with
  | zero =>
    intro cp p i s _ hf
    unfold searchBytes
    rw [if_neg (by omega)]
    exact ⟨⟨_, rfl, Or.inl ⟨rfl, fun q hq => s.clear q (by omega)⟩⟩, by simp⟩
  | succ turns ih =>
    intro cp p i s hlt hf
    by_cases hp : p < width
    swap
    · unfold searchBytes
      rw [if_neg (by omega)]
      exact ⟨⟨_, rfl, Or.inl ⟨rfl, fun q hq => s.clear q (by omega)⟩⟩, by simp⟩
    have hplace := s.place
    rcases s.turn l hp hw (turns + 1) with ⟨q, hpq, hq, hset, hclear, e⟩ | ⟨p', s', e⟩
    · have hq31 : q < 2 ^ 31 := by
        rcases fits with h | ⟨q', hq', hset'⟩
        · omega
        · by_contra c
          rw [hclear q' (by omega)] at hset'
          exact Bool.not_ne_self v hset'
      rw [e, INT_UINT (by omega) (by omega)]
      refine ⟨⟨_, rfl, ?_⟩, fun n hn => ?_⟩
      · by_cases hqw : q < width
        · rw [if_pos (by omega)]
          exact Or.inr ⟨q, hqw, rfl, hset, hclear⟩
        · rw [if_neg (by omega)]
          exact Or.inl ⟨rfl, fun q' hq' => hclear q' (by omega)⟩
      · obtain rfl := List.mem_singleton.mp hn
        omega
    · have hplace' := s'.place
      have hp' : p' < 2 ^ 31 := by
        rcases fits with h | ⟨q', hq', hset'⟩
        · omega
        · by_contra c
          rw [s'.clear q' (by omega)] at hset'
          exact Bool.not_ne_self v hset'
      have hi := s.lt
      rw [e, INT_UINT (by omega) (by omega)]
      obtain ⟨hres, hreads⟩ := ih s' hp' (by omega)
      refine ⟨hres, fun n hn => ?_⟩
      rcases List.mem_cons.mp hn with rfl | hn
      · omega
      · exact hreads n hn

/-- Past position `2 ^ 31 - 1` the search ends wrong or looks at a byte it was not given. -/
theorem WalkAt.wrong (l : Looks v k) (hw : width < 2 ^ 31)
    (hwide : 8 * ((offset + 2 ^ 31 - 1) / 8) < offset + width)
    (hclear : ∀ q < 2 ^ 31, bitAt base (offset + q) = !v) :
    ∀ turns {cp p i : ℕ}, WalkAt v base offset cp p i →
      offset + p ≤ 8 * ((offset + 2 ^ 31 - 1) / 8) →
      ¬SearchRight v base offset width
        (searchBytes k base offset width turns cp p (bitSetN i) (k.cpmask i)) := by
  intro turns
  induction turns with
  | zero =>
    rintro cp p i - - ⟨⟨r, hr, -⟩, -⟩
    cases hr
  | succ turns ih =>
    rintro cp p i s hp ⟨⟨r, hr, hfirst⟩, hreads⟩
    have hplace := s.place
    rcases s.turn l (by omega) hw turns with ⟨q, hpq, hq, hset, -, e⟩ | ⟨p', s', e⟩
    · have hq31 : 2 ^ 31 ≤ q := by
        by_contra c
        rw [hclear q (by omega)] at hset
        exact Bool.not_ne_self v hset
      rw [e, INT_UINT_of_ge (by omega) (by omega), if_pos (by omega)] at hr
      have hrq : (q : ℤ) - 2 ^ 32 = r := Option.some.inj hr
      rcases hfirst with ⟨hr1, -⟩ | ⟨n, -, hrn, -⟩ <;> omega
    · have hplace' := s'.place
      rw [e] at hr hreads
      by_cases hcp : cp + 1 ≤ (offset + 2 ^ 31 - 1) / 8
      · rw [INT_UINT (by omega) (by omega)] at hr hreads
        exact ih s' (by omega) ⟨⟨r, hr, hfirst⟩, fun n hn => hreads n (List.mem_cons_of_mem _ hn)⟩
      · -- the next position is negative, so the byte behind the last one is read
        rw [INT_UINT_of_ge (by omega) (by omega)] at hr hreads
        cases turns with
        | zero => cases hr
        | succ turns =>
          have hnext := hreads (cp + 1) (by
            unfold searchBytes
            rw [if_pos (by omega)]
            simp)
          omega

theorem walkAt_start : WalkAt v base offset (offset / 8) 0 (offset % 8) :=
  ⟨Nat.mod_lt _ (by norm_num), by omega, Or.inl ⟨rfl, rfl⟩, by simp⟩

theorem bitsearch_eq (l : Looks v k) (turns : ℕ) :
    bitsearch k turns base offset width =
      searchBytes k base offset width turns (offset / 8) (0 : ℕ) (bitSetN (offset % 8))
        (k.cpmask (offset % 8)) := by
  unfold bitsearch
  rw [if_neg (by omega), Int.toNat_natCast, bitSetN_mod, l.cpmask]
  rfl

theorem bitsearch_right (l : Looks v k) (hw : width < 2 ^ 31)
    (fits : SearchFits v base offset width) {turns : ℕ} (ht : width ≤ turns) :
    SearchRight v base offset width (bitsearch k (turns + 1) base offset width) := by
  rw [bitsearch_eq l]
  exact walkAt_start.right l hw fits turns (by norm_num) (by omega)

/-- **Search.** It is right exactly when its positions fit. -/
theorem searchRight_iff (l : Looks v k) (hw : width < 2 ^ 31) :
    (∃ turns, SearchRight v base offset width (bitsearch k turns base offset width)) ↔
      SearchFits v base offset width := by
  constructor
  · rintro ⟨turns, h⟩
    rw [bitsearch_eq l] at h
    by_contra c
    unfold SearchFits at c
    push Not at c
    refine walkAt_start.wrong l hw c.1 (fun q hq => ?_) turns (by omega) h
    have := c.2 q hq
    cases v <;> simpa using this
  · exact fun fits => ⟨width + 1, bitsearch_right l hw fits le_rfl⟩

end Walk

/-! ## The tests of the two searches -/

theorem and_bitSetN_ne_zero (b : UB) {i : ℕ} (hi : i < 8) :
    b &&& bitSetN i ≠ 0 ↔ b.getLsbD i = true := by
  constructor
  · intro h
    by_contra c
    apply h
    apply BitVec.eq_of_getLsbD_eq
    intro j hj
    rw [BitVec.getLsbD_and, getLsbD_bitSetN _ _ hj, Nat.mod_eq_of_lt hi]
    by_cases e : j = i
    · subst e; simpa using c
    · simp [e]
  · intro h e
    have := congrArg (·.getLsbD i) e
    simp [BitVec.getLsbD_and, getLsbD_bitSetN _ _ hi, Nat.mod_eq_of_lt hi, h] at this

theorem and_bitMskN_ne_zero (b : UB) {i : ℕ} (hi : i < 8) :
    b &&& bitMskN i ≠ 0 ↔ ∃ j < 8, i ≤ j ∧ b.getLsbD j = true := by
  constructor
  · intro h
    by_contra c
    apply h
    apply BitVec.eq_of_getLsbD_eq
    intro j hj
    rw [BitVec.getLsbD_and, getLsbD_bitMskN _ _ hj, Nat.mod_eq_of_lt hi]
    by_cases e : i ≤ j
    · have : b.getLsbD j = false := by
        by_contra hb
        exact c ⟨j, hj, e, by simpa using hb⟩
      simp [this]
    · simp [e]
  · rintro ⟨j, hj, hij, hb⟩ e
    have := congrArg (·.getLsbD j) e
    simp [BitVec.getLsbD_and, getLsbD_bitMskN _ _ hj, Nat.mod_eq_of_lt hi, hb, hij] at this

theorem looks_tests1 : Looks true tests1 where
  cpmask := bitMskN_mod
  hit b i hi := by
    rw [← and_bitSetN_ne_zero b hi]
    exact decide_eq_true_iff
  has b i hi := by
    rw [← and_bitMskN_ne_zero b hi]
    exact decide_eq_true_iff

/-- A byte that is all ones above the offset has no zero there. -/
theorem or_not_eq_allOnes (b m : UB) : b ||| ~~~m = 0xFF ↔ ~~~b &&& m = 0 := by
  have hff : (0xFF : UB) = BitVec.allOnes 8 := rfl
  rw [hff, ← BitVec.not_inj, BitVec.not_or, BitVec.not_not, BitVec.not_allOnes]
  rfl

theorem looks_tests0 : Looks false tests0 where
  cpmask n := congrArg (~~~·) (bitMskN_mod n)
  hit b i hi := by
    rw [← Bool.not_eq_true, ← and_bitSetN_ne_zero b hi, not_not]
    exact decide_eq_true_iff
  has b i hi := by
    have key := and_bitMskN_ne_zero (~~~b) hi
    rw [ne_eq, ← or_not_eq_allOnes] at key
    have hbits : ∀ j < 8, ((~~~b).getLsbD j = true ↔ b.getLsbD j = false) := by
      intro j hj
      simp [hj]
    show decide (b ||| ~~~bitMskN i ≠ 0xFF) = true ↔ _
    rw [decide_eq_true_iff, ne_eq, key]
    exact exists_congr fun j => and_congr_right fun hj => and_congr_right fun _ => hbits j hj

end SmpTKernel
