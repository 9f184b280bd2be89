import SmpTKernel.Lib.Words

/-!
# Basic types and constants

Error codes, timeouts, object attributes and the machine types of the source: `INT` is an integer
kept in 32 bits by the conversions below, `UINT` a natural number below `2 ^ 32`, `UB` a byte.
-/

namespace SmpTKernel

/-- A task, by its place in `tcb_table`. -/
abbrev Tsk := ℕ

abbrev UB := BitVec 8

/-- A string of bytes in memory. -/
abbrev Bytes := ℕ → UB

/-- `(UINT)x`. -/
abbrev UINT (x : ℤ) : ℕ := Words.toUnsigned 32 x

/-- `(INT)x`. -/
abbrev INT (x : ℕ) : ℤ := Words.toSigned 32 x

theorem UINT_natCast {n : ℕ} (h : n < 2 ^ 32) : UINT n = n := Words.toUnsigned_natCast h

theorem INT_natCast {n : ℕ} (h : n < 2 ^ 31) : INT n = n := Words.toSigned_of_lt h

theorem INT_UINT {x : ℤ} (h : -2 ^ 31 ≤ x) (h' : x < 2 ^ 31) : INT (UINT x) = x := by
  unfold INT UINT Words.toSigned Words.toUnsigned
  split_ifs <;> omega

theorem INT_UINT_add (x y : ℤ) : INT (UINT (INT (UINT x) + y)) = INT (UINT (x + y)) := by
  unfold INT UINT Words.toSigned Words.toUnsigned
  split_ifs <;> omega

theorem INT_UINT_of_ge {x : ℤ} (h : 2 ^ 31 ≤ x) (h' : x < 2 ^ 32) : INT (UINT x) = x - 2 ^ 32 := by
  unfold INT UINT Words.toSigned Words.toUnsigned
  split_ifs <;> omega

abbrev INT_MAX : ℤ := 2147483647

/-- `NULL` -/
abbrev nullPtr : ℕ := 0

/-- What a pointer points to, unless it is `NULL`. -/
def ptr? (p : ℕ) : Option ℕ := if p = nullPtr then none else some p

theorem ptr?_eq_some {p q : ℕ} (h : ptr? p = some q) : p = q := by
  unfold ptr? at h
  split_ifs at h
  exact Option.some.inj h

/-- `TSTAT`. -/
inductive TaskState
  | nonexist
  /-- RUN or READY. -/
  | ready
  | wait
  | suspend
  /-- Both WAIT and SUSPEND. -/
  | waitsus
  | dormant
  deriving DecidableEq, Repr

/-! ## Error codes -/

abbrev ER := ℤ

abbrev E_OK : ER := 0
abbrev E_SYS : ER := -5
abbrev E_RSATR : ER := -11
abbrev E_PAR : ER := -17
abbrev E_ID : ER := -18
abbrev E_CTX : ER := -25
abbrev E_ILUSE : ER := -28
abbrev E_NOMEM : ER := -33
abbrev E_LIMIT : ER := -34
abbrev E_OBJ : ER := -41
abbrev E_NOEXS : ER := -42
abbrev E_QOVR : ER := -43
abbrev E_RLWAI : ER := -49
abbrev E_TMOUT : ER := -50
abbrev E_DLT : ER := -51
abbrev E_DISWAI : ER := -52
abbrev E_BUSY : ER := -65
abbrev E_DACV : ER := -70

/-! ## Timeouts and attributes -/

/-- Polling. -/
abbrev TMO_POL : ℤ := 0

/-- Waiting without limit. -/
abbrev TMO_FEVR : ℤ := -1

/-- Waiting tasks are queued by priority. -/
abbrev TA_TPRI : ℕ := 0x00000001

/-- The wait cannot be disabled. -/
abbrev TA_NODISWAI : ℕ := 0x00000080

/-- `TA_ASSPRC`: the task names the processors it may run on. -/
abbrev TA_ASSPRC : ℕ := 0x00020000

/-- A mutex with priority inheritance. -/
abbrev TA_INHERIT : ℕ := 0x00000002

/-- A mutex with a priority ceiling; also the mask of the protocol. -/
abbrev TA_CEILING : ℕ := 0x00000003

/-! ## Wait factors -/

abbrev TTW_SLP : ℕ := 0x00000001
abbrev TTW_DLY : ℕ := 0x00000002
abbrev TTW_SEM : ℕ := 0x00000004
abbrev TTW_FLG : ℕ := 0x00000008
abbrev TTW_MBX : ℕ := 0x00000040
abbrev TTW_MTX : ℕ := 0x00000080
abbrev TTW_SMBF : ℕ := 0x00000100
abbrev TTW_RMBF : ℕ := 0x00000200
abbrev TTW_CAL : ℕ := 0x00000400
abbrev TTW_ACP : ℕ := 0x00000800
abbrev TTW_RDV : ℕ := 0x00001000
abbrev TTW_MPF : ℕ := 0x00002000
abbrev TTW_MPL : ℕ := 0x00004000

end SmpTKernel
