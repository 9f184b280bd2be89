import SmpTKernel.Imalloc

/-!
# Memory allocation library

`memalloc.c` with test mode off. The areas are those of `imalloc.c`; blocks of pages come from
`getblk`, and an area in use can change its size. What `getblk` finds is an argument of the calls,
`none` for `NULL`; each returns the state, the address of the area, 0 for `NULL`, and what happened
to blocks and areas.
-/

namespace SmpTKernel

open LinkRing Words

/-- Memory allocation control information, and the memory. -/
structure Macb where
  /-- Address of the member `areaque`, which `freeque` follows. -/
  areaque : ℕ
  /-- 0 before it is available for use. -/
  pagesz : ℕ
  mem : Mem

/-- What happens to areas and blocks of pages. -/
inductive MemEvent
  /-- `getblk` returned `n` pages at `q`. -/
  | getblk (q n : ℕ)
  | relblk (q : ℕ)
  | freed (ptr : ℕ)
  deriving DecidableEq, Repr

variable (s : Macb)

/-- The parameters of the shared routines. -/
def Macb.cfg : AreaCfg where
  areaque := s.areaque
  freeque := s.areaque + QUEUESZ
  bits := 3
  toSize := fun x => UINT x
  quarter := (s.pagesz / 4 : ℕ)

/-- Byte size --> number of pages. -/
def toPageCount (size : ℕ) : ℕ := (size + (s.pagesz - 1)) % 2 ^ 32 / s.pagesz

/-- `getblk`: `tk_get_smb` does not get 0 pages. -/
def getblk (nblk : ℕ) (q : Option ℕ) : Option ℕ := if nblk = 0 then none else q

/-- The size an area must have. -/
def memSize (size : ℕ) : ℕ := ROUND (if size > 0 ∧ size < MIN_FRAGMENT then MIN_FRAGMENT else size)

/-- The number of pages that `newPage` asks for. -/
def memPages (size : ℕ) : ℕ := toPageCount s ((size + QUEUESZ * 2) % 2 ^ 32)

/-- Allocate new page capable of allocating a contiguous area at least as big as `size` byte. -/
def newPage (size : ℕ) (q : Option ℕ) : Macb × Option ℕ × List MemEvent :=
  if s.pagesz = 0 then (s, none, [])
  else
    let nblk := memPages s size
    match getblk nblk q with
    | none => (s, none, [])
    | some top =>
      let e := top + nblk * s.pagesz % 2 ^ 32 - QUEUESZ
      let mem := insertAreaQue s.cfg s.mem s.areaque e
      let mem := insertAreaQue s.cfg mem s.areaque top
      let mem := setAreaFlag mem top AREA_TOP
      let mem := setAreaFlag mem e AREA_END
      ({ s with mem := mem }, some top, [.getblk top nblk])

/-- Fragment and allocate. -/
def allocate (aq : ℕ) (size : ℤ) : Macb × ℕ :=
  let (ptr, mem) := memAlloc s.cfg s.mem aq size
  ({ s with mem := mem }, ptr)

/-- Memory allocate. -/
def memMalloc (size : ℕ) (q : Option ℕ) : Macb × ℕ × List MemEvent :=
  let size := memSize size
  if size ≤ 0 then (s, 0, [])
  else
    let fq := searchFreeArea s.cfg s.mem size
    if fq ≠ s.cfg.freeque then
      let (s, ptr) := allocate { s with mem := removeFreeQue s.mem fq } (fq - QUEUESZ) size
      (s, ptr, [])
    else
      match newPage s size q with
      | (s, none, ev) => (s, 0, ev)
      | (s, some top, ev) =>
        let (s, ptr) := allocate s top size
        (s, ptr, ev)

/-- Memory allocate and clear. -/
def memCalloc (nmemb size : ℕ) (q : Option ℕ) : Macb × ℕ × List MemEvent :=
  let sz := nmemb * size % 2 ^ 32
  let (s, p, ev) := memMalloc s sz q
  if p = 0 then (s, 0, ev) else ({ s with mem := memset s.mem p sz }, p, ev)

/-- Free memory. -/
def memFree (ptr : ℕ) : Macb × List MemEvent :=
  if ptr = 0 then (s, [])
  else
    let aq := ptr - QUEUESZ
    let mem := clrAreaFlag s.mem aq AREA_USE
    let mem := mergeNext s.cfg mem aq (AREA_END ||| AREA_USE)
    let (aq, mem) := mergePrev s.cfg mem aq AREA_TOP
    if chkAreaFlag mem aq AREA_TOP && chkAreaFlag mem (mem aq).next AREA_END then
      -- page release
      let mem := removeAreaQue s.cfg mem (mem aq).next
      let mem := removeAreaQue s.cfg mem aq
      ({ s with mem := mem }, [.freed ptr, .relblk aq])
    else ({ s with mem := appendFreeArea s.cfg mem aq }, [.freed ptr])

/-- `memcpy(dst, src, n)` of `n / 8` cells. -/
def memcpyCells (m : Mem) (dst src : ℕ) (n : ℤ) : Mem := fun z =>
  if dst ≤ z ∧ (z : ℤ) < dst + n then m (src + (z - dst)) else m z

/-- The area at `ptr` takes in the free area behind it: its old size, its size, and the state. -/
def mergeArea (ptr : ℕ) : ℤ × ℤ × Macb :=
  if ptr ≠ 0 then
    let mem := mergeNext s.cfg s.mem (ptr - QUEUESZ) (AREA_END ||| AREA_USE)
    (areaSize s.cfg s.mem (ptr - QUEUESZ), areaSize s.cfg mem (ptr - QUEUESZ),
      { s with mem := mem })
  else (0, 0, s)

/-- Memory allocation size change. -/
def memRealloc (ptr size : ℕ) (q : Option ℕ) : Macb × ℕ × List MemEvent :=
  let size := memSize size
  let aq := ptr - QUEUESZ
  let (oldsz, sz, s) := mergeArea s ptr
  if (size : ℤ) ≤ sz then
    if size > 0 then ((allocate s aq size).1, ptr, [])
    else
      -- release area
      let (s, ev) := memFree s ptr
      (s, 0, ev)
  else
    let (s, newptr, ev) := memMalloc s size q
    if newptr = 0 then
      -- reallocate original area at original size
      if ptr ≠ 0 then ((allocate s aq oldsz).1, 0, ev) else (s, 0, ev)
    else if ptr ≠ 0 then
      let (s, ev') := memFree { s with mem := memcpyCells s.mem newptr ptr oldsz } ptr
      (s, newptr, ev ++ ev')
    else (s, newptr, ev)

/-- `QueInit` of the two queues, as `_tkm_init` has it. -/
def tkmInit : Macb := { s with mem := queInit s.cfg.freeque (queInit s.cfg.areaque s.mem) }

end SmpTKernel
