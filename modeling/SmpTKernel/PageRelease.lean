import SmpTKernel.PageTableInv
import SmpTKernel.PageRange

/-!
# Releasing system memory

`RelSysMemBlk` takes any address. It checks that it is the address of a page and that the entry of
this page is not free; whether a run starts there, no entry tells. The second and the last entry of
a run in use are in use as well, and joining free runs leaves marks of former runs inside.
-/

namespace SmpTKernel

open Tiling

/-- Address check. -/
def chkadr (adr : ℕ) (pt : PageTbl) : Bool :=
  pt.top_page ≤ adr ∧ adr < UINT (pt.top_page + pt.maxpage * PAGESZ) ∧ adr % PAGESZ = 0

/-- System memory release. -/
def RelSysMemBlk (addr : ℕ) (pt : PageTbl) : ER × PageTbl :=
  if chkadr addr pt = false then (E_PAR, pt)
  else
    let (free, pt) := relPage addr pt
    if free < E_OK then (free, pt) else (E_OK, pt)

/-! ## Runs -/

/-- Calls of the allocator, with any address. -/
inductive SmbOp
  | get (nblk atr : ℕ)
  | rel (addr : ℕ)

/-- The table and the allocated runs after a call: a run is allocated by `GetSysMemBlk` until
`RelSysMemBlk` succeeds for its first page. -/
def SmbOp.exec (pt : PageTbl) (out : List PageArea) : SmbOp → PageTbl × List PageArea
  | get nblk atr =>
    match getPage nblk atr pt with
    | (none, pt') => (pt', out)
    | (some adr, pt') => (pt', if nblk = 0 then out else ⟨pageNo adr pt, nblk, true⟩ :: out)
  | rel addr =>
    ((RelSysMemBlk addr pt).2,
      if (RelSysMemBlk addr pt).1 = E_OK then out.filter fun a => pageAdr a.addr pt ≠ addr else out)

/-- The address is the first page of an allocated run. -/
def IsStart (pt : PageTbl) (out : List PageArea) (addr : ℕ) : Prop :=
  ∃ a ∈ out, pageAdr a.addr pt = addr

/-- The address is not that of a page, or it is the first page of an allocated run, or the entry of
its page is not marked as used. -/
def Unmarked (pt : PageTbl) (out : List PageArea) (addr : ℕ) : Prop :=
  chkadr addr pt = true → IsStart pt out addr ∨ (pt.pageque (pageNo addr pt)).use = false

/-- The release succeeds for the first pages of allocated runs only, and is refused without any
change else. -/
structure ReleaseRight (pt : PageTbl) (out : List PageArea) (addr : ℕ) : Prop where
  succeeds : (RelSysMemBlk addr pt).1 = E_OK ↔ IsStart pt out addr
  refused : ¬IsStart pt out addr → (RelSysMemBlk addr pt).1 < E_OK ∧ (RelSysMemBlk addr pt).2 = pt

/-- What is asked of the addresses that are released on the way. -/
def SmbOp.Plain (pt : PageTbl) (out : List PageArea) : SmbOp → Prop
  | get _ _ => True
  | rel addr => Unmarked pt out addr

/-- The tables reached by such calls, with the allocated runs. -/
inductive SmbRun (pt₀ : PageTbl) : PageTbl → List PageArea → Prop
  | init : SmbRun pt₀ pt₀ []
  | step {pt : PageTbl} {out : List PageArea} (op : SmbOp) (run : SmbRun pt₀ pt out)
      (plain : op.Plain pt out) : SmbRun pt₀ (op.exec pt out).1 (op.exec pt out).2

variable {pt : PageTbl} {a : PageArea} {out runs free : List PageArea} {max addr top memend : ℕ}

/-! ## Addresses of pages -/

/-- The pages lie in the memory. -/
structure PagesIn (max : ℕ) (pt : PageTbl) : Prop where
  aligned : PAGESZ ∣ pt.top_page
  room : pt.top_page + max * PAGESZ < 2 ^ 32

theorem PagesIn.lt (h : PagesIn max pt) : pt.top_page + max * 2048 < 2 ^ 32 := by
  have hroom := h.room
  unfold PAGESZ at hroom
  exact hroom

theorem PagesIn.pageAdr_eq (h : PagesIn max pt) {pn : ℕ} (h1 : 1 ≤ pn) (hpn : pn ≤ max) :
    pageAdr pn pt = pt.top_page + (pn - 1) * 2048 := by
  have hlt : pt.top_page + (pn - 1) * 2048 < 2 ^ 32 := lt_of_le_of_lt (by omega) h.lt
  have hcast : (pt.top_page : ℤ) + ((pn : ℤ) - 1) * (2048 : ℕ) =
      ((pt.top_page + (pn - 1) * 2048 : ℕ) : ℤ) := by
    omega
  show UINT ((pt.top_page : ℤ) + ((pn : ℤ) - 1) * (2048 : ℕ)) = _
  rw [hcast, UINT_natCast hlt]

/-- The addresses that pass the check are those of the pages. -/
theorem PagesIn.chkadr_iff (h : PagesIn max pt) (inv : PageInv max pt runs free) :
    chkadr addr pt = true ↔ ∃ pn, 1 ≤ pn ∧ pn ≤ max ∧ addr = pageAdr pn pt := by
  have hroom := h.lt
  have hal : 2048 ∣ pt.top_page := h.aligned
  have hend : UINT (pt.top_page + pt.maxpage * PAGESZ) = pt.top_page + max * 2048 := by
    rw [inv.maxpage]
    exact UINT_natCast (n := pt.top_page + max * 2048) hroom
  unfold chkadr
  rw [decide_eq_true_iff, hend]
  show _ ∧ _ ∧ addr % 2048 = 0 ↔ _
  constructor
  · rintro ⟨hlo, hhi, hmod⟩
    refine ⟨(addr - pt.top_page) / 2048 + 1, by omega, by omega, ?_⟩
    rw [h.pageAdr_eq (by omega) (by omega)]
    omega
  · rintro ⟨pn, h1, hpn, rfl⟩
    rw [h.pageAdr_eq h1 hpn]
    omega

theorem PageInv.start (inv : PageInv max pt runs free) (ha : a ∈ runs) :
    1 ≤ a.addr ∧ a.addr ≤ max := by
  have := inv.map.addr_pos ha
  have := inv.map.pos a ha
  omega

theorem PagesIn.start_inj (h : PagesIn max pt) (inv : PageInv max pt runs free) {b : PageArea}
    (ha : a ∈ runs) (hb : b ∈ runs) (heq : pageAdr a.addr pt = pageAdr b.addr pt) : a = b := by
  have hra := inv.start ha
  have hrb := inv.start hb
  rw [h.pageAdr_eq hra.1 hra.2, h.pageAdr_eq hrb.1 hrb.2] at heq
  have hpa := inv.map.pos a ha
  have hpb := inv.map.pos b hb
  rcases inv.map.tiles.eq_or_apart ha hb with rfl | h' | h'
  · rfl
  · omega
  · omega

/-! ## One release -/

/-- An entry that is not free is released, and the result is the number of its pages. -/
theorem relPage_fst (hpn : (pt.pageque (pageNo addr pt)).use = true) :
    (relPage addr pt).1 = NumOfPages pt.pageque (pageNo addr pt) := by
  unfold relPage
  rw [if_neg (by simp [hpn])]

theorem relSysMemBlk_used (hchk : chkadr addr pt = true)
    (hpn : (pt.pageque (pageNo addr pt)).use = true) :
    RelSysMemBlk addr pt = (E_OK, (relPage addr pt).2) := by
  have hfree := relPage_fst hpn
  unfold RelSysMemBlk
  rw [if_neg (by simp [hchk])]
  have hnn : ¬(relPage addr pt).1 < E_OK := by
    rw [hfree]
    exact not_lt.mpr (Int.natCast_nonneg _)
  exact if_neg hnn

theorem relSysMemBlk_free (hpn : (pt.pageque (pageNo addr pt)).use = false) :
    RelSysMemBlk addr pt = (E_PAR, pt) := by
  unfold RelSysMemBlk
  by_cases hchk : chkadr addr pt = false
  · rw [if_pos hchk]
  · have hrel : relPage addr pt = (E_PAR, pt) := by
      unfold relPage
      exact if_pos hpn
    rw [if_neg hchk, hrel]
    rfl

theorem relSysMemBlk_refused (hchk : chkadr addr pt = false) : RelSysMemBlk addr pt = (E_PAR, pt) :=
  if_pos hchk

section Invariant

variable (inv : PageInv max pt runs free) (pages : PagesIn max pt)
  (hout : out.Perm (runs.filter Area.st))

include inv pages hout

theorem start_used (ha : a ∈ out) : a ∈ runs ∧ chkadr (pageAdr a.addr pt) pt = true ∧
    (pt.pageque (pageNo (pageAdr a.addr pt) pt)).use = true := by
  obtain ⟨hrun, hst⟩ := List.mem_filter.mp (hout.subset ha)
  have hrange := inv.start hrun
  refine ⟨hrun, (pages.chkadr_iff inv).mpr ⟨a.addr, hrange.1, hrange.2, rfl⟩, ?_⟩
  have hlt := inv.page_lt hrun
  rw [pageNo_pageAdr hlt.1 hlt.2, (inv.map.runs a hrun).use]
  exact hst

/-- **One release.** It is right if and only if the address has no stale mark. -/
theorem releaseRight_iff : ReleaseRight pt out addr ↔ Unmarked pt out addr := by
  constructor
  · intro right hchk
    cases huse : (pt.pageque (pageNo addr pt)).use with
    | false => exact Or.inr rfl
    | true => exact Or.inl (right.succeeds.mp (congrArg Prod.fst (relSysMemBlk_used hchk huse)))
  · intro plain
    by_cases hstart : IsStart pt out addr
    · obtain ⟨a, ha, rfl⟩ := hstart
      obtain ⟨-, hchk, huse⟩ := start_used inv pages hout ha
      refine ⟨iff_of_true ?_ ⟨a, ha, rfl⟩, fun hn => absurd ⟨a, ha, rfl⟩ hn⟩
      rw [relSysMemBlk_used hchk huse]
    · have hrefused : RelSysMemBlk addr pt = (E_PAR, pt) := by
        cases hchk : chkadr addr pt with
        | false => exact relSysMemBlk_refused hchk
        | true => exact relSysMemBlk_free ((plain hchk).resolve_left hstart)
      refine ⟨iff_of_false ?_ hstart, fun _ => ?_⟩
      · rw [hrefused]
        exact (show (-17 : ℤ) ≠ 0 by decide)
      · rw [hrefused]
        exact ⟨show (-17 : ℤ) < 0 by decide, rfl⟩

/-- The last page of an allocated run of several pages has a mark. -/
theorem last_not_unmarked (ha : a ∈ out) (hsize : 1 < a.size) :
    ¬Unmarked pt out (pageAdr (a.addr + a.size - 1) pt) := by
  obtain ⟨hrun, hst⟩ := List.mem_filter.mp (hout.subset ha)
  have hin := inv.map.addr_pos hrun
  have hmax := inv.max_lt
  intro plain
  rcases plain ((pages.chkadr_iff inv).mpr ⟨a.addr + a.size - 1, by omega, by omega, rfl⟩) with
    hstart | huse
  · obtain ⟨b, hb, heq⟩ := hstart
    have hb := (List.mem_filter.mp (hout.subset hb)).1
    have hrb := inv.start hb
    have hpb := inv.map.pos b hb
    rw [pages.pageAdr_eq hrb.1 hrb.2, pages.pageAdr_eq (by omega) (by omega)] at heq
    rcases inv.map.tiles.eq_or_apart hrun hb with rfl | h | h <;> omega
  · rw [pageNo_pageAdr (by omega) (by omega), ((inv.map.runs a hrun).last hsize).2.1, hst] at huse
    cases huse

end Invariant

/-! ## Runs keep the books -/

variable {n atr : ℕ}

theorem relPage_frame (addr : ℕ) (pt : PageTbl) :
    (relPage addr pt).2.top_page = pt.top_page ∧ (relPage addr pt).2.maxpage = pt.maxpage := by
  unfold relPage
  dsimp only
  split_ifs
  · exact ⟨rfl, rfl⟩
  · exact ⟨rfl, rfl⟩

theorem getPage_frame (n atr : ℕ) (pt : PageTbl) :
    (getPage n atr pt).2.top_page = pt.top_page ∧ (getPage n atr pt).2.maxpage = pt.maxpage := by
  unfold getPage
  dsimp only
  split_ifs
  · exact ⟨rfl, rfl⟩
  · exact ⟨rfl, rfl⟩
  · exact ⟨rfl, rfl⟩

/-- A request for no page takes a free run out of the queue and puts all of it back. -/
theorem PageInv.getPage_zero (inv : PageInv max pt runs free) (atr : ℕ) :
    ∃ free', PageInv max (SmpTKernel.getPage 0 atr pt).2 runs free' := by
  have hmax : max + 1 < PAGENUMBERS := by
    show max + 1 < 2 ^ 30
    have := inv.max_lt
    omega
  obtain ⟨f₁, f₂, hfree, -, -, hsearch⟩ := inv.map.search hmax 0
  unfold SmpTKernel.getPage
  cases f₂ with
  | nil =>
    rw [hsearch, List.map_nil, List.headD_nil, if_pos rfl]
    exact ⟨free, inv⟩
  | cons a f₂ =>
    obtain ⟨ha, hst⟩ := inv.map.free_sub (hfree ▸ List.mem_append_right f₁ List.mem_cons_self)
    have hpos := inv.map.pos a ha
    have hnum := (inv.map.runs a ha).numOfPages hpos
    obtain ⟨l₁, l₂, rfl⟩ := List.append_of_mem ha
    obtain ⟨free', hperm, -, hand⟩ := inv.map.takeFree hst
    have hcount := inv.count
    rw [pageSum_perm hperm, pageSum_cons] at hcount
    -- only the first entry is written
    have hwritten : PageMap max (setUsePages (removePageQue pt.pageque a.addr) a.addr 0 atr)
        (l₁ ++ ⟨a.addr, a.size, a.st⟩ :: l₂) (l₁ ++ l₂) free' := by
      refine hand.write (List.Subset.refl l₂) a.st fun z hz => ?_
      have hne : z ≠ a.addr := by omega
      unfold setUsePages initPageQue setPageNext setPagePrev setRun
      simp [Function.update_of_ne hne]
    obtain ⟨free'', hperm', hmap⟩ := hwritten.appendFreePages hmax
    refine ⟨free'', ?_⟩
    have heq : (⟨a.addr, a.size, false⟩ : PageArea) = a := by rw [← hst]
    rw [heq] at hmap hperm'
    rw [hsearch, List.map_cons, List.headD_cons, if_neg (inv.page_lt ha).1.ne', hnum]
    simp only [Nat.sub_zero, hpos, if_true, Nat.add_zero]
    refine ⟨hmap, inv.maxpage, inv.max_lt, inv.quiet, ?_⟩
    rw [pageSum_perm hperm', pageSum_cons]
    show pt.freepage - ((0 : ℕ) : ℤ) = _
    omega

/-- What is left of the allocated runs when one is released. -/
theorem filter_start (inv : PageInv max pt runs free) (pages : PagesIn max pt)
    {rest : List PageArea} (hout : out.Perm (a :: rest))
    (hruns : (runs.filter Area.st).Perm (a :: rest)) :
    (out.filter fun b => pageAdr b.addr pt ≠ pageAdr a.addr pt).Perm rest := by
  have hmem {b : PageArea} (hb : b ∈ a :: rest) : b ∈ runs :=
    (List.mem_filter.mp (hruns.mem_iff.mpr hb)).1
  have hnodup : (a :: rest).Nodup := by
    refine hruns.nodup_iff.mp (List.Nodup.filter _ ?_)
    refine List.Pairwise.imp_of_mem (fun hb _ h heq => ?_) inv.map.tiles.pairwise
    have := inv.map.pos _ hb
    rw [heq] at h this
    omega
  refine (hout.filter _).trans ?_
  rw [List.filter_cons_of_neg (by simp)]
  refine List.Perm.of_eq (List.filter_eq_self.mpr fun b hb => decide_eq_true fun heq => ?_)
  rw [pages.start_inj inv (hmem (List.mem_cons_of_mem a hb)) (hmem List.mem_cons_self) heq] at hb
  exact (List.nodup_cons.mp hnodup).1 hb

/-- A call keeps the invariant. -/
theorem SmbOp.keeps (inv : PageInv max pt runs free) (pages : PagesIn max pt)
    (hout : out.Perm (runs.filter Area.st)) {op : SmbOp} (plain : op.Plain pt out) :
    ∃ runs' free', PageInv max (op.exec pt out).1 runs' free' ∧ PagesIn max (op.exec pt out).1 ∧
      (op.exec pt out).2.Perm (runs'.filter Area.st) := by
  cases op with
  | get nblk atr =>
    have hframe := getPage_frame nblk atr pt
    have hpages : PagesIn max (getPage nblk atr pt).2 :=
      ⟨by rw [hframe.1]; exact pages.aligned, by rw [hframe.1]; exact pages.room⟩
    by_cases h0 : nblk = 0
    · subst h0
      obtain ⟨free', inv'⟩ := inv.getPage_zero atr
      have hexec : (SmbOp.get 0 atr).exec pt out = ((getPage 0 atr pt).2, out) := by
        rw [SmbOp.exec]
        rcases getPage 0 atr pt with ⟨_ | adr, pt'⟩ <;> rfl
      rw [hexec]
      exact ⟨runs, free', inv', hpages, hout⟩
    · have hrun : (SmbOp.get nblk atr).exec pt out = (PageOp.get nblk atr).run pt out := by
        rw [SmbOp.exec, PageOp.run]
        rcases getPage nblk atr pt with ⟨_ | adr, pt'⟩
        · rfl
        · show (_, if nblk = 0 then out else _) = _
          rw [if_neg h0]
      have hlegal : (PageOp.get nblk atr).Legal out := Nat.pos_of_ne_zero h0
      obtain ⟨runs', free', inv', hout'⟩ := inv.run hout hlegal
      have hfst : ((PageOp.get nblk atr).run pt out).1 = (getPage nblk atr pt).2 := by
        rw [PageOp.run]
        rcases getPage nblk atr pt with ⟨_ | adr, pt'⟩ <;> rfl
      rw [hrun]
      exact ⟨runs', free', inv', hfst ▸ hpages, hout'⟩
  | rel addr =>
    have right := (releaseRight_iff inv pages hout).mpr plain
    by_cases hstart : IsStart pt out addr
    · obtain ⟨a, ha, rfl⟩ := hstart
      obtain ⟨hrun, hchk, huse⟩ := start_used inv pages hout ha
      have hst := (List.mem_filter.mp (hout.subset ha)).2
      obtain ⟨runs', free', inv', -, hperm⟩ := inv.relPage hrun hst
      have hframe := relPage_frame (pageAdr a.addr pt) pt
      have hexec : (SmbOp.rel (pageAdr a.addr pt)).exec pt out =
          ((relPage (pageAdr a.addr pt) pt).2, out.filter fun b => pageAdr b.addr pt ≠
            pageAdr a.addr pt) := by
        rw [SmbOp.exec, relSysMemBlk_used hchk huse, if_pos rfl]
      rw [hexec]
      refine ⟨runs', free', inv', ⟨?_, ?_⟩, filter_start inv pages (hout.trans hperm) hperm⟩
      · rw [hframe.1]
        exact pages.aligned
      · rw [hframe.1]
        exact pages.room
    · obtain ⟨hercd, hsame⟩ := right.refused hstart
      have hexec : (SmbOp.rel addr).exec pt out = (pt, out) := by
        rw [SmbOp.exec, hsame, if_neg hercd.ne]
      rw [hexec]
      exact ⟨runs, free, inv, pages, hout⟩

theorem SmbRun.inv {pt₀ : PageTbl} (run : SmbRun pt₀ pt out) {runs₀ free₀ : List PageArea}
    (inv : PageInv max pt₀ runs₀ free₀) (hnone : runs₀.filter Area.st = [])
    (pages : PagesIn max pt₀) :
    ∃ runs free, PageInv max pt runs free ∧ PagesIn max pt ∧ out.Perm (runs.filter Area.st) := by
  induction run with
  | init => exact ⟨runs₀, free₀, inv, pages, by rw [hnone]⟩
  | step op _ plain ih =>
    obtain ⟨runs, free, inv, pages, hout⟩ := ih
    exact SmbOp.keeps inv pages hout plain

theorem HasRoom.table (h : HasRoom top memend) (mem : ℕ → PageQue) :
    ∃ max runs free, PageInv max (initPageTbl top memend mem) runs free ∧ runs.filter Area.st = [] ∧
      PagesIn max (initPageTbl top memend mem) := by
  have hpage := h.page
  have hend := h.1
  have hsz : UINT ((memend : ℤ) - topPage top memend) = memend - topPage top memend := by
    rw [show (memend : ℤ) - topPage top memend = ((memend - topPage top memend : ℕ) : ℤ) by omega]
    exact UINT_natCast (by omega)
  obtain ⟨max, runs, free, inv, hnone⟩ := @initPageTbl_inv top memend mem (by
    rw [hsz]
    show 2048 ≤ _
    omega)
  have hmax : ((memend - topPage top memend) / 2048 : ℕ) = (max : ℤ) :=
    (h.maxpage mem).symm.trans inv.maxpage
  refine ⟨max, runs, free, inv, hnone, ⟨Nat.dvd_mul_left _ _, ?_⟩⟩
  unfold PAGESZ
  show topPage top memend + max * 2048 < 2 ^ 32
  have hle : topPage top memend + max * 2048 ≤ memend := by omega
  exact hle.trans_lt hend

/-- **Releases.** In every state that is reached by calls none of which releases a page with a stale
mark, the release of an address is right if and only if it has no stale mark. -/
theorem smbRun_release_iff (h : HasRoom top memend) (mem : ℕ → PageQue)
    (run : SmbRun (initPageTbl top memend mem) pt out) (addr : ℕ) :
    ReleaseRight pt out addr ↔ Unmarked pt out addr := by
  obtain ⟨max, runs₀, free₀, inv₀, hnone, pages₀⟩ := h.table mem
  obtain ⟨runs, free, inv, pages, hout⟩ := run.inv inv₀ hnone pages₀
  exact releaseRight_iff inv pages hout

/-- Three pages from 2048 on, of which the first two are allocated. -/
def twoPages : PageTbl × List PageArea :=
  (SmbOp.get 2 0).exec (initPageTbl 0 8192 fun _ => clrPageQue) []

theorem twoPages_room : HasRoom 0 8192 := ⟨by decide, 0, 2048, by decide, by decide, by decide, by
      decide, by decide⟩

theorem twoPages_run : SmbRun (initPageTbl 0 8192 fun _ => clrPageQue) twoPages.1 twoPages.2 :=
  .step (.get 2 0) .init trivial

/-- The first page can be released. -/
theorem smbRun_release_first : ReleaseRight twoPages.1 twoPages.2 2048 :=
  (smbRun_release_iff twoPages_room _ twoPages_run 2048).mpr fun _ =>
    Or.inl ⟨⟨1, 2, true⟩, by decide +kernel, by decide +kernel⟩

/-- So can the second one. -/
theorem smbRun_release_second :
    ¬∀ top memend mem pt out addr, HasRoom top memend → SmbRun (initPageTbl top memend mem) pt out →
      ReleaseRight pt out addr := by
  intro hall
  obtain ⟨max, runs₀, free₀, inv₀, hnone, pages₀⟩ := twoPages_room.table fun _ => clrPageQue
  obtain ⟨runs, free, inv, pages, hout⟩ := twoPages_run.inv inv₀ hnone pages₀
  have hmem : (⟨1, 2, true⟩ : PageArea) ∈ twoPages.2 := by decide +kernel
  have hadr : pageAdr 2 twoPages.1 = 4096 := by decide +kernel
  refine last_not_unmarked inv pages hout hmem (by decide) ((releaseRight_iff inv pages hout).mp ?_)
  show ReleaseRight twoPages.1 twoPages.2 (pageAdr 2 twoPages.1)
  rw [hadr]
  exact hall 0 8192 _ _ _ 4096 twoPages_room twoPages_run

end SmpTKernel
