import SmpTKernel.Queue
import SmpTKernel.Basic

/-!
# System memory pages

`smpmemmgr.c`: the table `pageque` has an entry for each page, 1 to `maxpage`, and entry 0 is the
head of the queue of free runs, in ascending order of their lengths. The first entry of a run says
whether it is in use and, with the second, how long it is; the last entry says the same to the run
behind it.
-/

namespace SmpTKernel

open LinkRing Words

/-- `sizeof(PAGE)`. -/
abbrev PAGESZ : ℕ := 2048

/-- Page numbers have 30 bits: no queue is longer. -/
abbrev PAGENUMBERS : ℕ := 2 ^ 30

/-- Page management queue. -/
structure PageQue where
  cont : Bool
  use : Bool
  next : ℕ
  atr : ℕ
  prev : ℕ
  deriving DecidableEq, Repr

/-- `sizeof(PAGEQUE)`. -/
abbrev PAGEQUESZ : ℕ := 8

/-- Page management table. -/
structure PageTbl where
  maxpage : ℤ
  freepage : ℤ
  pageque : ℕ → PageQue
  top_page : ℕ

def clrPageQue : PageQue := ⟨false, false, 0, 0, 0⟩

/-- `pageque[x].next = y`. -/
def setPageNext (q : ℕ → PageQue) (x y : ℕ) : ℕ → PageQue :=
  Function.update q x { q x with next := y }

/-- `pageque[x].prev = y`. -/
def setPagePrev (q : ℕ → PageQue) (x y : ℕ) : ℕ → PageQue :=
  Function.update q x { q x with prev := y }

/-- Number of successive pages. -/
def NumOfPages (q : ℕ → PageQue) (pn : ℕ) : ℕ := if (q pn).cont then (q (pn + 1)).next else 1

def pageAdr (pn : ℕ) (pt : PageTbl) : ℕ := UINT (pt.top_page + (pn - 1) * PAGESZ)

def pageNo (adr : ℕ) (pt : PageTbl) : ℕ := UINT ((adr : ℤ) - pt.top_page) / PAGESZ + 1

variable (q : ℕ → PageQue)

/-- Page queue initialization. -/
def initPageQue (pn : ℕ) : ℕ → PageQue := setPageNext (setPagePrev q pn pn) pn pn

/-- Insert page queue, directly prior to `que`. -/
def insertPageQue (que ent : ℕ) : ℕ → PageQue :=
  let q := setPagePrev q ent (q que).prev
  let q := setPageNext q ent que
  let q := setPageNext q (q que).prev ent
  setPagePrev q que ent

/-- Isolate page queue. -/
def removePageQue (ent : ℕ) : ℕ → PageQue :=
  if (q ent).next ≠ ent then
    let q := setPageNext q (q ent).prev (q ent).next
    setPagePrev q (q ent).next (q ent).prev
  else q

/-- The loop of the search, at `pn`. -/
def searchFreeQueLoop (n : ℕ) : ℕ → ℕ → ℕ
  | 0, _ => 0
  | fuel + 1, pn =>
    let pn := (q pn).next
    if pn > 0 then if NumOfPages q pn ≥ n then pn else searchFreeQueLoop n fuel pn else 0

/-- Free page queue search: the first run of `n` pages or more, 0 if there is none. -/
def searchFreeQue (n : ℕ) : ℕ := searchFreeQueLoop q n PAGENUMBERS 0

/-- The entries of a run of `n` pages, but for the links of the first one. -/
def setRun (pn n : ℕ) (use : Bool) (atr : ℕ) : ℕ → PageQue :=
  let q := Function.update q pn { q pn with use := use, cont := n > 1, atr := atr }
  let q := if n > 1 then Function.update q (pn + 1) ⟨true, use, n, 0, 0⟩ else q
  if n > 2 then Function.update q (pn + n - 1) ⟨true, use, n, 0, 0⟩ else q

/-- Append free pages. -/
def appendFreePages (pn n : ℕ) : ℕ → PageQue :=
  let q := setRun q pn n false 0
  let ins := searchFreeQue q n
  insertPageQue q ins pn

/-- Set queue for using page. -/
def setUsePages (pn n atr : ℕ) : ℕ → PageQue := initPageQue (setRun q pn n true atr) pn

/-- Allocate pages: the address, `none` for `NULL`. -/
def getPage (nblk atr : ℕ) (pt : PageTbl) : Option ℕ × PageTbl :=
  let pn := searchFreeQue pt.pageque nblk
  if pn = 0 then (none, pt)
  else
    let free := NumOfPages pt.pageque pn
    let q := removePageQue pt.pageque pn
    let q := setUsePages q pn nblk atr
    let free := free - nblk
    -- return remaining pages to the free queue
    let q := if free > 0 then appendFreePages q (pn + nblk) free else q
    let pt := { pt with pageque := q, freepage := pt.freepage - nblk }
    (some (pageAdr pn pt), pt)

/-- Merge free pages next to the released pages `pn` to `pn + nblk - 1`: the number of pages
then. -/
def mergeNextPages (maxpage pn nblk : ℕ) : ℕ × (ℕ → PageQue) :=
  if pn + nblk ≤ maxpage ∧ (q (pn + nblk)).use = false then
    let q := removePageQue q (pn + nblk)
    (nblk + NumOfPages q (pn + nblk), q)
  else (nblk, q)

/-- Merge free pages previous to the released pages: the first page and the number of pages then. -/
def mergePrevPages (pn nblk : ℕ) : ℕ × ℕ × (ℕ → PageQue) :=
  if pn > 1 ∧ (q (pn - 1)).use = false then
    let n := if (q (pn - 1)).cont then (q (pn - 1)).next else 1
    let q := removePageQue q (pn - n)
    (pn - n, nblk + n, Function.update q pn { q pn with use := false })
  else (pn, nblk, q)

/-- Page release: the number of pages released. -/
def relPage (adr : ℕ) (pt : PageTbl) : ℤ × PageTbl :=
  let pn := pageNo adr pt
  if (pt.pageque pn).use = false then (E_PAR, pt)
  else
    let free := NumOfPages pt.pageque pn
    let (nblk, q) := mergeNextPages pt.pageque (UINT pt.maxpage) pn free
    let (pn, nblk, q) := mergePrevPages q pn nblk
    (free, { pt with pageque := appendFreePages q pn nblk, freepage := pt.freepage + free })

/-- The address of the first page, behind a table for the provisional number of pages. -/
def topPage (top memend : ℕ) : ℕ :=
  let top := clearLow 32 3 ((top + 7) % 2 ^ 32)
  let npage := UINT ((memend : ℤ) - top - PAGEQUESZ) / (PAGESZ + PAGEQUESZ)
  UINT (top + (npage + 1) * PAGEQUESZ + (PAGESZ - 1)) / PAGESZ * PAGESZ

/-- Memory management table initialization; `mem` is what the memory holds. -/
def initPageTbl (top memend : ℕ) (mem : ℕ → PageQue) : PageTbl :=
  let top_page := topPage top memend
  let npage := UINT ((memend : ℤ) - top_page) / PAGESZ
  { maxpage := npage, freepage := npage, top_page := top_page
    pageque := appendFreePages (Function.update mem 0 clrPageQue) 1 npage }

end SmpTKernel
