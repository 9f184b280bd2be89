import SmpTKernel.Basic
import Mathlib.Data.List.Basic

/-!
# System configuration information

`system.c`: `_tk_get_cfn` looks for a line that starts with a name and converts the words behind it
with `strtol`. A pointer into a string is the list of the characters from there to its end, so that
`*p` is the head, and nothing where the string ends. `INT` and `long` have 32 bits.
-/

namespace SmpTKernel

/-- `c > ' ' && c != '#'`: a character of a word. -/
def isWord (c : UB) : Bool := 0x20#8 < c ∧ c ≠ 0x23#8

/-- `while (*p > ' ' && *p != '#') ++p`. -/
def skipWord : List UB → List UB
  | [] => []
  | c :: p => if isWord c then skipWord p else c :: p

/-- `while (*cp != '\0' && *cp++ != '\n')`. -/
def nextLine : List UB → List UB
  | [] => []
  | c :: cp => if c ≠ 0x0A#8 then nextLine cp else cp

theorem length_nextLine (c : UB) (cp : List UB) : (nextLine (c :: cp)).length ≤ cp.length := by
  induction cp generalizing c with
  | nil =>
    unfold nextLine
    split_ifs <;> exact Nat.le_refl 0
  | cons d cp ih =>
    unfold nextLine
    split_ifs
    · exact (ih d).trans (Nat.le_succ _)
    · exact le_rfl

/-- Search `name` information. -/
def searchConf (name : List UB) : List UB → Option (List UB)
  | [] => none
  | c :: cp =>
    let len := (c :: cp).length - (skipWord (c :: cp)).length
    if name.head? = some c ∧ len = name.length ∧ (c :: cp).take name.length = name then
      some (c :: cp)
    else searchConf name (nextLine (c :: cp))
termination_by cp => cp.length
decreasing_by exact Nat.lt_succ_of_le (length_nextLine c cp)

/-- Skip reading word separators. -/
def skipSeparators : List UB → Option (List UB)
  | [] => none
  | c :: p =>
    if c = 0x0A#8 ∨ c = 0x23#8 then none
    else if 0x20#8 < c then some (c :: p)
    else skipSeparators p

/-- Skip to the next word. -/
def skipNext (p : List UB) : Option (List UB) := skipSeparators (skipWord p)

/-! ## Numbers -/

/-- `_IS_SPACE_CODE` -/
def isSpaceCode (c : UB) : Bool := c = 0x20#8 ∨ c = 0x09#8

/-- `_TO_UPPER_CASE` -/
def toUpperCase (c : UB) : UB := if 0x61#8 ≤ c ∧ c ≤ 0x7A#8 then c - 0x20#8 else c

/-- `"0123456789ABCDEFGHIJKLMNOPQRSTUVWXYZ"` -/
def numTable : List UB :=
  (List.range 10).map (fun i => BitVec.ofNat 8 (0x30 + i)) ++
    (List.range 26).map fun i => BitVec.ofNat 8 (0x41 + i)

/-- The index of a digit: the first `i < base` with the character in `num_table`. -/
def digitIndex (base : ℕ) (c : UB) : Option ℕ := (numTable.take base).findIdx? (· = toUpperCase c)

/-- The sign, and what follows it. -/
def strtolSign (nptr : List UB) : ℤ × List UB :=
  if nptr.head? = some 0x2D#8 then (-1, nptr.tail)
  else if nptr.head? = some 0x2B#8 then (1, nptr.tail)
  else (1, nptr)

/-- `_TO_UPPER_CASE(*nptr) == 'X'`. -/
def atX (nptr : List UB) : Bool := nptr.head?.map toUpperCase = some 0x58#8

/-- The base in use, and what follows the characters that show it. -/
def strtolBase (base : ℕ) (nptr : List UB) : ℕ × List UB :=
  if base = 16 then
    if nptr.head? = some 0x30#8 then (16, if atX nptr.tail then nptr.tail.tail else nptr.tail)
      else (16, nptr)
  else if base = 0 then
    if nptr.head? = some 0x30#8 then if atX nptr.tail then (16, nptr.tail.tail) else (8, nptr.tail)
    else (10, nptr)
  else if base < 2 ∨ base > 36 then (10, nptr)
  else (base, nptr)

/-- The digits. -/
def strtolDigits (base : ℕ) : ℤ → List UB → ℤ × List UB
  | value, [] => (value, [])
  | value, c :: nptr =>
    match digitIndex base c with
    | none => (value, c :: nptr)
    | some i => strtolDigits base (INT (UINT (value * base + i))) nptr

/-- The number, and the place behind it. -/
def strtol (nptr : List UB) (base : ℕ) : ℤ × List UB :=
  let s := strtolSign (nptr.dropWhile isSpaceCode)
  let b := strtolBase base s.2
  let v := strtolDigits b.1 0 b.2
  (INT (UINT (v.1 * s.1)), v.2)

/-! ## Numeric value information -/

theorem length_skipWord : ∀ p : List UB, (skipWord p).length ≤ p.length
  | [] => le_rfl
  | c :: p => by
    unfold skipWord
    split_ifs
    · exact (length_skipWord p).trans (Nat.le_succ _)
    · exact le_rfl

theorem length_skipSeparators : ∀ {p q : List UB}, skipSeparators p = some q → q.length ≤ p.length
  | [], _, h => by cases h
  | c :: p, q, h => by
    unfold skipSeparators at h
    split_ifs at h
    · exact (Option.some.inj h) ▸ le_rfl
    · exact (length_skipSeparators h).trans (Nat.le_succ _)

theorem length_skipNext {p q : List UB} (h : skipNext p = some q) : q.length < p.length := by
  cases p with
  | nil => cases h
  | cons c p =>
    unfold skipNext skipWord at h
    split_ifs at h with hc
    · exact Nat.lt_succ_of_le ((length_skipSeparators h).trans (length_skipWord p))
    · -- a character that is no part of a word and does not end the line is skipped
      unfold skipSeparators at h
      split_ifs at h with hend hblank
      · exact absurd (decide_eq_true ⟨hblank, fun e => hend (Or.inr e)⟩) hc
      · exact Nat.lt_succ_of_le (length_skipSeparators h)

theorem suffix_strtolSign (nptr : List UB) : (strtolSign nptr).2 <:+ nptr := by
  unfold strtolSign
  split_ifs
  · exact List.tail_suffix nptr
  · exact List.tail_suffix nptr
  · exact List.suffix_refl nptr

theorem suffix_strtolBase (base : ℕ) (nptr : List UB) : (strtolBase base nptr).2 <:+ nptr := by
  have h := List.tail_suffix nptr
  have h' := (List.tail_suffix nptr.tail).trans h
  unfold strtolBase
  split_ifs
  exacts [h', h, List.suffix_refl nptr, h', h, List.suffix_refl nptr, List.suffix_refl nptr,
    List.suffix_refl nptr]

theorem suffix_strtolDigits (base : ℕ) :
    ∀ (l : List UB) (value : ℤ), (strtolDigits base value l).2 <:+ l
  | [], _ => List.suffix_refl []
  | c :: l, value => by
    unfold strtolDigits
    rcases digitIndex base c with _ | i
    · exact List.suffix_refl _
    · exact (suffix_strtolDigits base l _).trans (List.suffix_cons c l)

theorem suffix_strtol (nptr : List UB) (base : ℕ) : (strtol nptr base).2 <:+ nptr :=
  (suffix_strtolDigits _ _ _).trans ((suffix_strtolBase _ _).trans
    ((suffix_strtolSign _).trans (List.dropWhile_suffix _)))

/-- The loop of `getcfn` from a place on: what it adds to `n`, and what it stores, with the offsets
from `val`. -/
def getcfnLoop (p : List UB) (val : ℕ) (max n : ℤ) : ℤ × List (ℤ × ℕ) :=
  match h : skipNext p with
  | none => (n, [])
  | some q =>
    let v := strtol q 0
    if max > 0 then
      let r := getcfnLoop v.2 (val + 1) (INT (UINT (max - 1))) (INT (UINT (n + 1)))
      (r.1, (v.1, val) :: r.2)
    else getcfnLoop v.2 val (INT (UINT (max - 1))) (INT (UINT (n + 1)))
termination_by p.length
decreasing_by
  all_goals exact ((suffix_strtol q 0).length_le).trans_lt (length_skipNext h)

/-- Get numeric value information. -/
def getcfn (conf name : List UB) (max : ℤ) : ℤ × List (ℤ × ℕ) :=
  match searchConf name conf with
  | none => (E_NOEXS, [])
  | some p => getcfnLoop p 0 max 0

/-- Get system information (numeric values). -/
def tkGetCfn (sysconf devconf name : List UB) (max : ℤ) : ℤ × List (ℤ × ℕ) :=
  let r := getcfn sysconf name max
  if r.1 < 0 then
    let r' := getcfn devconf name max
    (r'.1, r.2 ++ r'.2)
  else r

end SmpTKernel
