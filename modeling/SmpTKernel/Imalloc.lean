import SmpTKernel.AreaQueue

/-!
# Kernel memory allocation

`imalloc.c` for one attribute class: areas are cut from blocks of pages, which come from the system
memory and go back when they are wholly free. The flags are `AREA_USE` of an area, `AREA_TOP` of the
first area of a block and `AREA_END` of its end marker; sizes are unsigned. `imalloc` gives up the
lock while it gets pages, so that it is two steps here.
-/

namespace SmpTKernel

open LinkRing Words

abbrev AREA_TOP : ℕ := 2

abbrev AREA_END : ℕ := 4

/-- `ROUND(sz)`. -/
def ROUND (sz : ℕ) : ℕ := clearLow 32 3 ((sz + (QUEUESZ - 1)) % 2 ^ 32)

/-- Byte size -> Page number. -/
def pageCount (pagesz size : ℕ) : ℕ := (size + (pagesz - 1)) % 2 ^ 32 / pagesz

/-- The size `imalloc` works with. -/
def imSize (size : ℕ) : ℕ := ROUND (if size < MIN_FRAGMENT then MIN_FRAGMENT else size)

/-- A word with its first `k` bytes cleared. -/
def clearBytes (k x : ℕ) : ℕ := x / 256 ^ min k 4 * 256 ^ min k 4

/-- `memset(p, 0, n)`. -/
def memset (m : Mem) (p n : ℕ) : Mem := fun z =>
  if p ≤ z ∧ z < p + n then
    ⟨clearBytes (p + n - z) (m z).next, clearBytes (p + n - z - 4) (m z).prev⟩
  else m z

/-- A call of `imalloc`; `zero` if it comes from `icalloc`. -/
structure ImCall where
  size : ℕ
  zero : Bool
  deriving DecidableEq, Repr

/-- The memory allocation management information, the memory, and the calls that get pages. -/
structure Imacb where
  /-- Address of the member `areaque`, which `freeque` follows. -/
  areaque : ℕ
  pagesz : ℕ
  mem : Mem
  pending : List ImCall

/-- What happens to areas and blocks of pages. -/
inductive ImEvent
  /-- The call for `size` bytes returns `ptr`. -/
  | got (size ptr : ℕ)
  | fails (size : ℕ)
  | freed (ptr : ℕ)
  /-- `GetSysMemBlk` returned `n` pages at `q`. -/
  | getSysMemBlk (q n : ℕ)
  | relSysMemBlk (q : ℕ)
  deriving DecidableEq, Repr

variable (s : Imacb)

/-- The parameters of the shared routines. -/
def Imacb.cfg : AreaCfg where
  areaque := s.areaque
  freeque := s.areaque + QUEUESZ
  bits := 3
  toSize := fun x => UINT x
  quarter := (s.pagesz / 4 : ℕ)

/-- The end of `imalloc` and `icalloc`. -/
def imReturn (call : ImCall) (mem : ℕ × Mem) : Imacb × List ImEvent :=
  ({ s with mem := if call.zero then memset mem.2 mem.1 call.size else mem.2 },
    [.got call.size mem.1])

/-- Get memory: from a free area, unless there is none. -/
def imalloc (call : ImCall) : Imacb × List ImEvent :=
  let size := imSize call.size
  let q := searchFreeArea s.cfg s.mem size
  if q ≠ s.cfg.freeque then
    let mem := removeFreeQue s.mem q
    imReturn s call (memAlloc s.cfg mem (q - QUEUESZ) size)
  else ({ s with pending := call :: s.pending }, [])

/-- The number of pages a call gets. -/
def imPages (call : ImCall) : ℕ := pageCount s.pagesz ((imSize call.size + QUEUESZ * 2) % 2 ^ 32)

/-- Get memory: from new pages at `q`; `none` is `NULL`. -/
def imallocPages (call : ImCall) (q : Option ℕ) : Imacb × List ImEvent :=
  let s := { s with pending := s.pending.erase call }
  match q with
  | none => (s, [.fails call.size])
  | some q =>
    let n := imPages s call
    let e := q + n * s.pagesz % 2 ^ 32 - QUEUESZ
    let mem := insertAreaQue s.cfg s.mem s.areaque e
    let mem := insertAreaQue s.cfg mem s.areaque q
    let mem := setAreaFlag mem q AREA_TOP
    let mem := setAreaFlag mem e AREA_END
    let (s, ev) := imReturn s call (memAlloc s.cfg mem q (imSize call.size))
    (s, .getSysMemBlk q n :: ev)

/-- Free memory; `di` says that it is called during interrupt disable. -/
def ifree (ptr : ℕ) (di : Bool) : Imacb × List ImEvent :=
  let aq := ptr - QUEUESZ
  let mem := clrAreaFlag s.mem aq AREA_USE
  let mem := mergeNext s.cfg mem aq (AREA_END ||| AREA_USE)
  let (aq, mem) := mergePrev s.cfg mem aq AREA_TOP
  if !di && chkAreaFlag mem aq AREA_TOP && chkAreaFlag mem (mem aq).next AREA_END then
    -- free pages
    let mem := removeAreaQue s.cfg mem (mem aq).next
    let mem := removeAreaQue s.cfg mem aq
    ({ s with mem := mem }, [.freed ptr, .relSysMemBlk aq])
  else ({ s with mem := appendFreeArea s.cfg mem aq }, [.freed ptr])

/-! ## Calls -/

/-- `initIMACB`. -/
def initIMACB : Imacb :=
  { s with mem := queInit s.cfg.freeque (queInit s.cfg.areaque s.mem), pending := [] }

def IAmalloc (size : ℕ) : Imacb × List ImEvent := imalloc s ⟨size, false⟩

def IAcalloc (nmemb size : ℕ) : Imacb × List ImEvent := imalloc s ⟨nmemb * size % 2 ^ 32, true⟩

def IAfree (ptr : ℕ) (di : Bool) : Imacb × List ImEvent := ifree s ptr di

end SmpTKernel
