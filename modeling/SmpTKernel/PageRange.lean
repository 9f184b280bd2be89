import SmpTKernel.PageTable

/-!
# The table in front of its pages

`initPageTbl` places the table at the aligned start of the memory and the pages behind it. It finds
the number of pages with a table of that size first, aligns the first page, and counts the pages
again. The second count can be one more than the first, and the entry of the last page then lies in
the first page.
-/

namespace SmpTKernel

open Words

/-- Where the table starts: `top` in units of 8 bytes. -/
def tableTop (top : ℕ) : ℕ := clearLow 32 3 ((top + 7) % 2 ^ 32)

/-- The provisional number of pages. -/
def provisionalPages (top memend : ℕ) : ℕ :=
  UINT ((memend : ℤ) - tableTop top - PAGEQUESZ) / (PAGESZ + PAGEQUESZ)

theorem topPage_eq (top memend : ℕ) : topPage top memend =
    UINT (tableTop top + (provisionalPages top
      memend + 1) * PAGEQUESZ + (PAGESZ - 1)) / PAGESZ * PAGESZ :=
  rfl

/-- The range has room for a table and at least one page: somewhere in it there is a place for the
two entries of such a table, and behind them for an aligned page. -/
def HasRoom (top memend : ℕ) : Prop :=
  memend < 2 ^ 32 ∧ ∃ table page, top ≤ table ∧ 8 ∣ table ∧ table + 2 * PAGEQUESZ ≤ page ∧
    PAGESZ ∣ page ∧ page + PAGESZ ≤ memend

/-- The table and the pages do not overlap, and the pages are aligned and in the range. -/
structure Laid (top memend : ℕ) (pt : PageTbl) : Prop where
  table : (tableTop top : ℤ) + (pt.maxpage + 1) * PAGEQUESZ ≤ pt.top_page
  pages : ∀ pn : ℕ, 1 ≤ pn → (pn : ℤ) ≤ pt.maxpage →
    PAGESZ ∣ pageAdr pn pt ∧ pt.top_page ≤ pageAdr pn pt ∧ pageAdr pn pt + PAGESZ ≤ memend

/-- Beside the entries and pages of as many pages as fit, less than a page is left over, or their
table does not end at a page boundary. -/
def LeavesLittle (top memend : ℕ) : Prop :=
  let table := (top + 7) / 8 * 8
  let room := memend - table - PAGEQUESZ
  room % (PAGESZ + PAGEQUESZ) < PAGESZ ∨
    ¬PAGESZ ∣ table + (room / (PAGESZ + PAGEQUESZ) + 1) * PAGEQUESZ

variable {top memend : ℕ}

/-! ## Without wraps -/

/-- In a range with room the aligned start is the next multiple of 8. -/
theorem HasRoom.tableTop_eq (h : HasRoom top memend) : tableTop top = (top + 7) / 8 * 8 := by
  obtain ⟨hend, table, page, htop, htable, hpage, -, hroom⟩ := h
  have hlt : (top + 7) % 2 ^ 32 = top + 7 := Nat.mod_eq_of_lt (by omega)
  unfold tableTop
  rw [hlt]
  exact clearLow_eq (by omega)

/-- The two entries and the page have their place behind the aligned start. -/
theorem HasRoom.place (h : HasRoom top memend) :
    ∃ page, tableTop top + 16 ≤ page ∧ 2048 ∣ page ∧ page + 2048 ≤ memend := by
  have htop := h.tableTop_eq
  obtain ⟨-, table, page, hle, htable, hpage, hdvd, hroom⟩ := h
  have hP : page + 2048 ≤ memend := hroom
  have hQ : table + 16 ≤ page := hpage
  exact ⟨page, by omega, hdvd, hP⟩

theorem HasRoom.provisionalPages_eq (h : HasRoom top memend) :
    provisionalPages top memend = (memend - tableTop top - 8) / 2056 := by
  obtain ⟨page, hpage, -, hroom⟩ := h.place
  have hend := h.1
  have hsz : (memend : ℤ) - tableTop top - (8 : ℕ) = ((memend - tableTop top - 8 : ℕ) : ℤ) := by
    omega
  unfold provisionalPages
  rw [hsz, UINT_natCast (by omega)]
  rfl

/-- The first page is the next multiple of the page size behind the provisional table. -/
theorem HasRoom.topPage_eq (h : HasRoom top memend) : topPage top memend =
    (tableTop top + (provisionalPages top memend + 1) * 8 + 2047) / 2048 * 2048 := by
  obtain ⟨page, hpage, -, hroom⟩ := h.place
  have hend := h.1
  have hn := h.provisionalPages_eq
  have hcast :
    UINT (tableTop top + (provisionalPages top memend + 1) * (8 : ℕ) + ((2048 : ℕ) - 1)) =
      tableTop top + (provisionalPages top memend + 1) * 8 + 2047 := by
    rw [← UINT_natCast (n := tableTop top + (provisionalPages top memend + 1) * 8 + 2047)
      (by omega)]
    congr 1
  rw [SmpTKernel.topPage_eq, hcast]

theorem HasRoom.page (h : HasRoom top memend) : topPage top memend + 2048 ≤ memend := by
  obtain ⟨page, hpage, hdvd, hroom⟩ := h.place
  have hn := h.provisionalPages_eq
  rw [h.topPage_eq]
  omega

theorem HasRoom.maxpage (h : HasRoom top memend) (mem : ℕ → PageQue) :
    (initPageTbl top memend mem).maxpage = ((memend - topPage top memend) / 2048 : ℕ) := by
  have hpage := h.page
  have hend := h.1
  have hsz : (memend : ℤ) - topPage top memend = ((memend - topPage top memend : ℕ) : ℤ) := by omega
  show ((UINT ((memend : ℤ) - topPage top memend) / PAGESZ : ℕ) : ℤ) = _
  rw [hsz, UINT_natCast (by omega)]

/-! ## The layout -/

theorem HasRoom.pages (h : HasRoom top memend) (mem : ℕ → PageQue) {pn : ℕ} (h1 : 1 ≤ pn)
    (hpn : (pn : ℤ) ≤ (initPageTbl top memend mem).maxpage) :
    PAGESZ ∣ pageAdr pn (initPageTbl top memend mem) ∧
      (initPageTbl top memend mem).top_page ≤ pageAdr pn (initPageTbl top memend mem) ∧
      pageAdr pn (initPageTbl top memend mem) + PAGESZ ≤ memend := by
  have hpage := h.page
  have hend := h.1
  have htop := h.topPage_eq
  rw [h.maxpage] at hpn
  have hadr : pageAdr pn (initPageTbl top memend mem) = topPage top memend + (pn - 1) * 2048 := by
    show UINT (topPage top memend + ((pn : ℤ) - 1) * (2048 : ℕ)) = _
    rw [← UINT_natCast (n := topPage top memend + (pn - 1) * 2048) (by omega)]
    congr 1
    omega
  rw [hadr]
  show 2048 ∣ _ ∧ topPage top memend ≤ _ ∧ _ + 2048 ≤ memend
  omega

/-- **The layout of the memory.** In a range with room the table ends in front of the first page if
and only if the range leaves little: else the pages are one more than the table has room for, and
its last entry is the first 8 bytes of the first page. -/
theorem initPageTbl_laid_iff (h : HasRoom top memend) (mem : ℕ → PageQue) :
    Laid top memend (initPageTbl top memend mem) ↔ LeavesLittle top memend := by
  have hpage := h.page
  have hn := h.provisionalPages_eq
  have htop := h.topPage_eq
  have hmax := h.maxpage mem
  have htable := h.tableTop_eq
  have hfits : Laid top memend (initPageTbl top memend mem) ↔
      tableTop top + ((memend - topPage top memend) / 2048 + 1) * 8 ≤ topPage top memend := by
    constructor
    · intro hlaid
      have hle := hlaid.table
      rw [hmax] at hle
      exact_mod_cast hle
    · intro hle
      refine ⟨?_, fun pn h1 hpn => h.pages mem h1 hpn⟩
      rw [hmax]
      exact_mod_cast hle
  -- what the provisional number of pages leaves over
  have hleft := Nat.div_add_mod (memend - tableTop top - 8) 2056
  obtain ⟨page, hplace, -, hroom⟩ := h.place
  rw [hfits]
  show _ ↔ (memend - (top + 7) / 8 * 8 - 8) % 2056 < 2048 ∨
    ¬2048 ∣ (top + 7) / 8 * 8 + ((memend - (top + 7) / 8 * 8 - 8) / 2056 + 1) * 8
  rw [← htable]
  omega

/-- The memory from 2032 to 6142 has one page, from 2048 on. -/
theorem initPageTbl_laid_two : HasRoom 2032 6142 ∧
    Laid 2032 6142 (initPageTbl 2032 6142 fun _ => clrPageQue) :=
  have h : HasRoom 2032 6142 := ⟨by decide, 2032, 2048, by decide, by decide, by decide, by
    decide, by decide⟩
  ⟨h, (initPageTbl_laid_iff h _).mpr (Or.inl (by decide))⟩

/-- With 2 bytes more there is a second page, but no entry for it. -/
theorem initPageTbl_overlap :
    ¬∀ top memend mem, HasRoom top memend → Laid top memend (initPageTbl top memend mem) := by
  intro hall
  have hlaid := hall 2032 6144 (fun _ => clrPageQue)
    ⟨by decide, 2032, 2048, by decide, by decide, by decide, by decide, by decide⟩
  exact absurd hlaid.table (by decide)

end SmpTKernel
