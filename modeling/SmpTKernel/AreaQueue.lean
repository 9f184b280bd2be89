import SmpTKernel.Lib.Words
import SmpTKernel.Queue
import SmpTKernel.Basic

/-!
# Areas and free areas

The routines that `mempool.c` and `imalloc.c` share. Memory is a map from addresses to `QUEUE`
cells. Every area starts with a cell of the ring `areaque`, in address order; flags of the area lie
in the low bits of `prev`. Behind it a free area has a cell of the ring `freeque`, which links one
area of each size in ascending order, and the head of a ring of the others of this size.
-/

namespace SmpTKernel

open LinkRing Words

/-- Memory, by the addresses of its `QUEUE` cells. -/
abbrev Mem := Links ℕ

/-- `sizeof(QUEUE)`. -/
abbrev QUEUESZ : ℕ := 8

abbrev MIN_FRAGMENT : ℕ := QUEUESZ * 2

/-- `QUEUE` cells in the address space: no ring is longer. -/
abbrev CELLS : ℕ := 2 ^ 29

abbrev AREA_USE : ℕ := 1

/-- What differs between the two files. -/
structure AreaCfg where
  /-- Address of `areaque`. -/
  areaque : ℕ
  /-- Address of `freeque`. -/
  freeque : ℕ
  /-- Number of flag bits: `AREA_MASK` is `2 ^ bits - 1`. -/
  bits : ℕ
  /-- The type of sizes, as the conversion to it. -/
  toSize : ℤ → ℤ
  /-- Larger areas are searched from the larger size. -/
  quarter : ℤ

variable (cfg : AreaCfg) (m : Mem)

def setAreaFlag (m : Mem) (q f : ℕ) : Mem := setPrev m q ((m q).prev ||| f)

def clrAreaFlag (m : Mem) (q f : ℕ) : Mem := setPrev m q ((m q).prev &&& (2 ^ 32 - 1 ^^^ f))

def chkAreaFlag (q f : ℕ) : Bool := (m q).prev &&& f ≠ 0

/-- `Mask(x)`. -/
def mask (x : ℕ) : ℕ := clearLow 32 cfg.bits x

/-- `Assign(q->prev, y)`. -/
def assignPrev (q y : ℕ) : Mem := setPrev m q (((m q).prev &&& (2 ^ cfg.bits - 1)) ||| y)

/-- `AreaSize(aq)`. -/
def areaSize (aq : ℕ) : ℤ := cfg.toSize ((m aq).next - (aq + QUEUESZ : ℕ))

/-- `FreeSize(fq)`. -/
def freeSize (fq : ℕ) : ℤ := cfg.toSize ((m (fq - QUEUESZ)).next - fq)

/-- The loop from the larger size; `fsz` is the size of `q`. -/
def searchFromLarger (blksz : ℤ) : ℕ → ℕ → ℤ → ℕ
  | 0, q, _ => q
  | fuel + 1, q, fsz =>
    let q := (m q).prev
    if q ≠ cfg.freeque then
      let fsz := freeSize cfg m q
      if fsz ≤ blksz then if fsz < blksz then (m q).next else q
      else searchFromLarger blksz fuel q fsz
    else if fsz ≥ blksz then (m q).next else q

/-- The loop from the smaller size. -/
def searchFromSmaller (blksz : ℤ) : ℕ → ℕ → ℕ
  | 0, q => q
  | fuel + 1, q =>
    let q := (m q).next
    if q ≠ cfg.freeque then
      if freeSize cfg m q ≥ blksz then q else searchFromSmaller blksz fuel q
    else q

/-- Search the free area whose size is equal to `blksz`, or larger but closest; `freeque` if there
is none. -/
def searchFreeArea (blksz : ℤ) : ℕ :=
  if blksz > cfg.quarter then searchFromLarger cfg m blksz CELLS cfg.freeque 0
  else searchFromSmaller cfg m blksz CELLS cfg.freeque

/-- Registration of free area on FreeQue. -/
def appendFreeArea (aq : ℕ) : Mem :=
  let size := areaSize cfg m aq
  let fq := searchFreeArea cfg m size
  let m := clrAreaFlag m aq AREA_USE
  let m :=
    if fq ≠ cfg.freeque ∧ freeSize cfg m fq = size then queInsert (aq + QUEUESZ) (fq + QUEUESZ) m
    else queInsert (aq + QUEUESZ) fq m
  queInit (aq + 2 * QUEUESZ) m

/-- Delete from FreeQue. -/
def removeFreeQue (fq : ℕ) : Mem :=
  let m :=
    if !isQueEmpty (fq + QUEUESZ) m then
      let nq := (m (fq + QUEUESZ)).next
      let m := queRemove (fq + QUEUESZ) m
      let m := queInsert (nq + QUEUESZ) nq m
      let m := queRemove nq m
      queInsert nq fq m
    else m
  queRemove fq m

/-- Insert `ent` just after `que`. -/
def insertAreaQue (que ent : ℕ) : Mem :=
  let m := setPrev m ent que
  let m := setNext m ent (m que).next
  let m := assignPrev cfg m (m que).next ent
  setNext m que ent

/-- Delete area. -/
def removeAreaQue (aq : ℕ) : Mem :=
  let m := setNext m (mask cfg (m aq).prev) (m aq).next
  assignPrev cfg m (m aq).next (mask cfg (m aq).prev)

/-- Allocate from an area that is not in FreeQue: the end of `get_blk`, and `mem_alloc`. -/
def memAlloc (aq : ℕ) (blksz : ℤ) : ℕ × Mem :=
  let m :=
    if UINT (areaSize cfg m aq - blksz) ≥ MIN_FRAGMENT + QUEUESZ then
      -- divide the area into 2
      let q := UINT (aq + QUEUESZ + blksz)
      let m := insertAreaQue cfg m aq q
      appendFreeArea cfg m q
    else m
  (aq + QUEUESZ, setAreaFlag m aq AREA_USE)

/-- Merge with the next area unless one of the flags `f` is set there. -/
def mergeNext (aq f : ℕ) : Mem :=
  if !chkAreaFlag m (m aq).next f then
    let m := removeFreeQue m ((m aq).next + QUEUESZ)
    removeAreaQue cfg m (m aq).next
  else m

/-- Merge with the previous area unless one of the flags `top` is set here or that area is in use:
the area that results. -/
def mergePrev (aq top : ℕ) : ℕ × Mem :=
  if !chkAreaFlag m aq top && !chkAreaFlag m (m aq).prev AREA_USE then
    let aq := (m aq).prev
    let m := removeFreeQue m (aq + QUEUESZ)
    (aq, removeAreaQue cfg m (m aq).next)
  else (aq, m)

end SmpTKernel
