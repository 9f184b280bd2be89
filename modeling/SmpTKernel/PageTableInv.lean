import SmpTKernel.PageMap

/-!
# The page allocator keeps its books

Between two calls every run can be trusted, no two neighbours are free, and `freepage` counts the
free pages. `getPage` takes the first run that is long enough, `relPage` joins the released run with
its free neighbours. This holds of every table with a page; `initPageTbl` does not check that there
is one, and queues a run of no pages if there is not.
-/

namespace SmpTKernel

open LinkRing Tiling

/-- Of two neighbours one is in use. -/
abbrev NoFreePair (l : List PageArea) : Prop :=
  List.IsChain (fun a b => a.st = true ∨ b.st = true) l

/-- The first one is in use, if there is one. -/
def StartsUsed (l : List PageArea) : Prop := ∀ a ∈ l.head?, a.st = true

/-- The last one is in use, if there is one. -/
def EndsUsed (l : List PageArea) : Prop := ∀ a ∈ l.getLast?, a.st = true

variable {q q' : ℕ → PageQue} {a : PageArea} {all known free runs l₁ l₂ : List PageArea} {max n : ℕ}

theorem noFreePair_middle : NoFreePair (l₁ ++ a :: l₂) ↔
    NoFreePair l₁ ∧ NoFreePair l₂ ∧ (a.st = false → EndsUsed l₁ ∧ StartsUsed l₂) := by
  unfold NoFreePair EndsUsed StartsUsed
  rw [List.isChain_append, List.isChain_cons]
  simp only [List.head?_cons, Option.mem_some_iff, forall_eq']
  cases a.st <;> simp
  tauto

/-- The lengths of the runs together. -/
def pageSum (l : List PageArea) : ℕ := (l.map Area.size).sum

theorem pageSum_perm {l l' : List PageArea} (h : l.Perm l') : pageSum l = pageSum l' :=
  (h.map Area.size).sum_eq

theorem pageSum_cons (a : PageArea) (l : List PageArea) : pageSum (a :: l) = a.size + pageSum l :=
  List.sum_cons

/-! ## Merging -/

/-- The run behind the one in hand joins it if it is free. -/
theorem PageMap.mergeNext (h : PageMap max q (l₁ ++ a :: l₂) (l₁ ++ l₂) free) (hl : NoFreePair l₂) :
    ∃ n q' r free', mergeNextPages q max a.addr a.size = (a.size + n, q') ∧
      PageMap max q' (l₁ ++ ⟨a.addr, a.size + n, a.st⟩ :: r) (l₁ ++ r) free' ∧ NoFreePair r ∧
      StartsUsed r ∧ pageSum free = n + pageSum free' ∧ l₂.filter Area.st = r.filter Area.st := by
  unfold mergeNextPages
  cases l₂ with
  | nil =>
    -- the run in hand is the last one
    have hlast := h.tiles.last
    refine ⟨0, q, [], free, ?_, h, hl, nofun, (Nat.zero_add _).symm, rfl⟩
    rw [if_neg (by omega)]
    rfl
  | cons b r =>
    have hb : b ∈ l₁ ++ b :: r := List.mem_append_right _ List.mem_cons_self
    have hnext : b.addr = a.addr + a.size := h.tiles.next
    have hend := (h.addr_pos (h.sub hb)).2
    have hpos := h.pos b (h.sub hb)
    obtain ⟨-, hr, hsides⟩ := noFreePair_middle.mp (show NoFreePair ([] ++ b :: r) from hl)
    rw [← hnext]
    cases hst : b.st with
    | false =>
      rw [if_pos ⟨by omega, (h.runs b hb).use.trans hst⟩]
      obtain ⟨free', hfree, hrun, h'⟩ := h.takeFree hst
      refine ⟨b.size, _, r, free', ?_, h'.join a.st, hr, (hsides hst).2, ?_, ?_⟩
      · show (a.size + NumOfPages (removePageQue q b.addr) b.addr, _) = _
        rw [hrun.numOfPages hpos]
      · rw [pageSum_perm hfree, pageSum_cons]
      · rw [List.filter_cons_of_neg (by simp [hst])]
    | true =>
      rw [if_neg fun hc => by simp [(h.runs b hb).use, hst] at hc]
      refine ⟨0, q, b :: r, free, rfl, h, hl, ?_, (Nat.zero_add _).symm, rfl⟩
      intro x hx
      cases hx
      exact hst

/-- The run in front of the one in hand joins it if it is free. -/
theorem PageMap.mergePrev (h : PageMap max q (l₁ ++ a :: l₂) (l₁ ++ l₂) free) (hl : NoFreePair l₁) :
    ∃ n q' l free', mergePrevPages q a.addr a.size = (a.addr - n, a.size + n, q') ∧
      PageMap max q' (l ++ ⟨a.addr - n, a.size + n, a.st⟩ :: l₂) (l ++ l₂) free' ∧ NoFreePair l ∧
      EndsUsed l ∧ pageSum free = n + pageSum free' ∧ l₁.filter Area.st = l.filter Area.st := by
  unfold mergePrevPages
  rcases List.eq_nil_or_concat' l₁ with rfl | ⟨l, c, rfl⟩
  · -- the run in hand is the first one
    have hfirst : a.addr = 1 := (tiles_middle.mp h.tiles).1.symm
    refine ⟨0, q, [], free, ?_, h, hl, nofun, (Nat.zero_add _).symm, rfl⟩
    rw [if_neg (by omega)]
    rfl
  · rw [List.append_assoc, List.append_assoc] at h
    have hc : c ∈ l ++ ([c] ++ l₂) := List.mem_append_right _ List.mem_cons_self
    have hnext : a.addr = c.addr + c.size := h.tiles.next
    have hcpos := h.pos c (h.sub hc)
    have hstart := (h.addr_pos (h.sub hc)).1
    obtain ⟨hlc, -, hsides⟩ := noFreePair_middle.mp hl
    obtain ⟨huse, hn⟩ := (h.runs c hc).back hcpos
    rw [hnext]
    cases hst : c.st with
    | false =>
      have hback : c.addr + c.size - c.size = c.addr := Nat.add_sub_cancel c.addr c.size
      rw [if_pos ⟨by omega, huse.trans hst⟩, hn]
      obtain ⟨free', hfree, -, h'⟩ := h.takeFree hst
      refine ⟨c.size, _, l, free', rfl, ?_, hlc, (hsides hst).1, ?_, ?_⟩
      · -- the entry that is set to free lies in the joined run
        rw [hback, Nat.add_comm a.size]
        have hapos := h.pos a (List.mem_append_right _ (List.mem_cons_of_mem _ List.mem_cons_self))
        refine (h'.join a.st).write (List.Subset.refl _) a.st fun z hz =>
          Function.update_of_ne ?_ _ _
        show z ≠ c.addr + c.size
        change z < c.addr ∨ c.addr + (c.size + a.size) ≤ z at hz
        omega
      · rw [pageSum_perm hfree, pageSum_cons]
      · rw [List.filter_append, List.filter_cons_of_neg (by simp [hst]), List.filter_nil,
          List.append_nil]
    | true =>
      rw [if_neg fun hc' => by simp [huse, hst] at hc']
      refine ⟨0, q, l ++ [c], free, rfl, ?_, hl, ?_, (Nat.zero_add _).symm, rfl⟩
      · rw [Nat.sub_zero, Nat.add_zero, ← hnext, List.append_assoc, List.append_assoc]
        exact h
      · intro x hx
        rw [List.getLast?_concat] at hx
        cases hx
        exact hst

/-! ## The invariant -/

/-- The invariant of a table of `max` pages. -/
structure PageInv (max : ℕ) (pt : PageTbl) (runs free : List PageArea) : Prop where
  map : PageMap max pt.pageque runs runs free
  maxpage : pt.maxpage = max
  max_lt : max < 2 ^ 21
  quiet : NoFreePair runs
  count : pt.freepage = pageSum free

variable {pt : PageTbl}

theorem pageNo_pageAdr {pn : ℕ} (h0 : 0 < pn) (h : pn < 2 ^ 21) :
    pageNo (pageAdr pn pt) pt = pn := by
  show (((((pt.top_page : ℤ) + ((pn : ℤ) - 1) * 2048) % 2 ^ 32).toNat - (pt.top_page : ℤ)) % 2
    ^ 32).toNat /
    2048 + 1 = pn
  omega

theorem PageInv.page_lt (inv : PageInv max pt runs free) (ha : a ∈ runs) :
    0 < a.addr ∧ a.addr < 2 ^ 21 := by
  have := inv.map.addr_pos ha
  have := inv.map.pos a ha
  have := inv.max_lt
  omega

/-- **Allocation.** The first run that is long enough is used from its first page on, and the rest
stays free; without such a run nothing changes. -/
theorem PageInv.getPage (inv : PageInv max pt runs free) (h1 : 1 ≤ n) (atr : ℕ) :
    (getPage n atr pt = (none, pt) ∧ ∀ a ∈ runs, a.st = false → a.size < n) ∨
    ∃ l₁ a l₂ rest free', runs = l₁ ++ a :: l₂ ∧ a.st = false ∧ n ≤ a.size ∧
      (getPage n atr pt).1 = some (pageAdr a.addr pt) ∧
      PageInv max (getPage n atr pt).2 (l₁ ++ ⟨a.addr, n, true⟩ :: (rest ++ l₂)) free' ∧
      ∀ b ∈ rest, b.st = false := by
  have hmax : max + 1 < PAGENUMBERS := by
    show max + 1 < 2 ^ 30
    have := inv.max_lt
    omega
  obtain ⟨f₁, f₂, hfree, hshort, hlong, hsearch⟩ := inv.map.search hmax n
  unfold SmpTKernel.getPage
  cases f₂ with
  | nil =>
    left
    rw [hsearch, List.map_nil, List.headD_nil, if_pos rfl]
    refine ⟨rfl, fun a ha hst => hshort a ?_⟩
    rw [List.append_nil] at hfree
    rw [← hfree]
    exact inv.map.perm.mem_iff.mpr (List.mem_filter.mpr ⟨ha, by rw [hst]; rfl⟩)
  | cons a f₂ =>
    right
    obtain ⟨ha, hst⟩ := inv.map.free_sub (hfree ▸ List.mem_append_right f₁ List.mem_cons_self)
    have hsize : n ≤ a.size := hlong a List.mem_cons_self
    have hpos := inv.map.pos a ha
    have hnum := (inv.map.runs a ha).numOfPages hpos
    obtain ⟨l₁, l₂, rfl⟩ := List.append_of_mem ha
    obtain ⟨free', hperm, -, hand⟩ := inv.map.takeFree hst
    obtain ⟨hq₁, hq₂, hsides⟩ := noFreePair_middle.mp inv.quiet
    have hcount := inv.count
    rw [pageSum_perm hperm, pageSum_cons] at hcount
    rw [hsearch, List.map_cons, List.headD_cons, if_neg (inv.page_lt ha).1.ne', hnum]
    by_cases hn : n = a.size
    · -- the whole run
      subst hn
      refine ⟨l₁, a, l₂, [], free', rfl, hst, Nat.le_refl _, rfl, ?_, nofun⟩
      have hmap := hand.setUsePages (List.Subset.refl l₂) atr
      simp only [Nat.sub_self, Nat.lt_irrefl, if_false]
      exact ⟨hmap, inv.maxpage, inv.max_lt, noFreePair_middle.mpr ⟨hq₁, hq₂, nofun⟩, by
        show pt.freepage - _ = _
        omega⟩
    · -- the rest of the run is free again
      have hlt : n < a.size := lt_of_le_of_ne hsize hn
      have hcut : PageMap max (setUsePages (removePageQue pt.pageque a.addr) a.addr n atr)
          ((l₁ ++ [⟨a.addr, n, true⟩]) ++ ⟨a.addr + n, a.size - n, false⟩ :: l₂)
          ((l₁ ++ [⟨a.addr, n, true⟩]) ++ l₂) free' := by
        rw [← List.append_cons, ← List.append_cons]
        exact (hand.cut h1 hlt false false).setUsePages (List.subset_cons_self _ _) atr
      obtain ⟨free'', hperm', hmap⟩ := hcut.appendFreePages hmax
      refine ⟨l₁, a, l₂, [⟨a.addr + n, a.size - n, false⟩], free'', rfl, hst, hsize, rfl, ?_, ?_⟩
      · simp only [Nat.sub_pos_of_lt hlt, if_true]
        rw [← List.append_cons] at hmap
        refine ⟨hmap, inv.maxpage, inv.max_lt, ?_, ?_⟩
        · have hrest : NoFreePair (⟨a.addr + n, a.size - n, false⟩ :: l₂) :=
            noFreePair_middle.mpr ⟨List.isChain_nil, hq₂, fun _ => ⟨nofun, (hsides hst).2⟩⟩
          exact noFreePair_middle.mpr ⟨hq₁, hrest, nofun⟩
        · rw [pageSum_perm hperm', pageSum_cons]
          show pt.freepage - _ = _
          push_cast
          omega
      · intro b hb
        cases List.mem_singleton.mp hb
        rfl

/-- **Release.** A run in use becomes free and joins its free neighbours; the others stay in use. -/
theorem PageInv.relPage (inv : PageInv max pt runs free) (ha : a ∈ runs) (hst : a.st = true) :
    ∃ runs' free', PageInv max (relPage (pageAdr a.addr pt) pt).2 runs' free' ∧
      (relPage (pageAdr a.addr pt) pt).1 = a.size ∧
      (runs.filter Area.st).Perm (a :: runs'.filter Area.st) := by
  have hmax : max + 1 < PAGENUMBERS := by
    show max + 1 < 2 ^ 30
    have := inv.max_lt
    omega
  have hlt := inv.page_lt ha
  have hnum := (inv.map.runs a ha).numOfPages (inv.map.pos a ha)
  have huse : (pt.pageque a.addr).use = true := (inv.map.runs a ha).use.trans hst
  have hmaxpage : UINT pt.maxpage = max := by
    rw [inv.maxpage]
    exact UINT_natCast (by have := inv.max_lt; omega)
  obtain ⟨l₁, l₂, rfl⟩ := List.append_of_mem ha
  obtain ⟨hq₁, hq₂, -⟩ := noFreePair_middle.mp inv.quiet
  obtain ⟨n, q₁, r, f₁, hnext, hmap₁, hr, hrs, hsum₁, hfil₁⟩ := (inv.map.takeUsed hst).mergeNext hq₂
  obtain ⟨n', q₂, l, f₂, hprev, hmap₂, hl, hle, hsum₂, hfil₂⟩ := hmap₁.mergePrev hq₁
  obtain ⟨f₃, hperm, hmap₃⟩ := hmap₂.appendFreePages hmax
  have hrel : SmpTKernel.relPage (pageAdr a.addr pt) pt = (↑a.size,
      { pt with
        pageque := appendFreePages q₂ (a.addr - n') (a.size + n + n')
        freepage := pt.freepage + a.size }) := by
    unfold SmpTKernel.relPage
    simp only [pageNo_pageAdr hlt.1 hlt.2, huse, Bool.true_eq_false, if_false, hnum, hmaxpage,
      hnext, hprev]
  rw [hrel]
  refine ⟨_, f₃, ⟨hmap₃, inv.maxpage, inv.max_lt, ?_, ?_⟩, rfl, ?_⟩
  · exact noFreePair_middle.mpr ⟨hl, hr, fun _ => ⟨hle, hrs⟩⟩
  · have hcount := inv.count
    rw [pageSum_perm hperm, pageSum_cons]
    show pt.freepage + _ = _
    push_cast
    omega
  · rw [List.filter_append, List.filter_cons_of_pos hst, hfil₁, hfil₂, List.filter_append,
      List.filter_cons_of_neg (by exact Bool.false_ne_true)]
    exact List.perm_middle

/-! ## A new table -/

theorem initPageTbl_inv {top memend : ℕ} (mem : ℕ → PageQue)
    (h : PAGESZ ≤ UINT ((memend : ℤ) - topPage top memend)) :
    ∃ max runs free, PageInv max (initPageTbl top memend mem) runs free ∧
      runs.filter Area.st = [] := by
  have hlt : UINT ((memend : ℤ) - topPage top memend) < 2 ^ 32 := Words.toUnsigned_lt 32 _
  have hP : PAGESZ = 2048 := rfl
  have hpos : 0 < UINT ((memend : ℤ) - topPage top memend) / PAGESZ := Nat.div_pos h (by decide)
  have hmax : UINT ((memend : ℤ) - topPage top memend) / PAGESZ < 2 ^ 21 := by
    rw [hP]
    omega
  have hempty : PageMap (UINT ((memend : ℤ) - topPage top memend) / PAGESZ)
      (Function.update mem 0 clrPageQue)
      ([] ++ [⟨1, UINT ((memend : ℤ) - topPage top memend) / PAGESZ, false⟩]) ([] ++ []) [] := by
    refine ⟨⟨rfl, Nat.add_comm 1 _⟩, fun a ha => ?_, nofun, nofun, isRing_nil.mpr ?_, List.Perm.nil,
      List.Pairwise.nil⟩
    · cases List.mem_singleton.mp ha
      exact hpos
    · unfold pageLinks
      rw [Function.update_self]
      rfl
  obtain ⟨free, hperm, hmap⟩ := hempty.appendFreePages (by
    show _ + 1 < 2 ^ 30
    omega)
  refine ⟨_, _, free, ⟨hmap, rfl, hmax, List.isChain_singleton _, ?_⟩, rfl⟩
  rw [pageSum_perm hperm]
  rfl

/-! ## Runs -/

/-- Calls of the allocator. -/
inductive PageOp
  | get (nblk atr : ℕ)
  | rel (a : PageArea)

/-- The table and the outstanding runs after a call. -/
def PageOp.run (pt : PageTbl) (out : List PageArea) : PageOp → PageTbl × List PageArea
  | get nblk atr =>
    match getPage nblk atr pt with
    | (none, pt') => (pt', out)
    | (some adr, pt') => (pt', ⟨pageNo adr pt, nblk, true⟩ :: out)
  | rel a => ((relPage (pageAdr a.addr pt) pt).2, out.erase a)

/-- Callers ask for at least one page and release what they have. -/
def PageOp.Legal (out : List PageArea) : PageOp → Prop
  | get nblk _ => 1 ≤ nblk
  | rel a => a ∈ out

/-- Runs of a table, with the outstanding runs of pages. -/
inductive PageRun (pt₀ : PageTbl) : PageTbl → List PageArea → Prop
  | init : PageRun pt₀ pt₀ []
  | step {pt : PageTbl} {out : List PageArea} (op : PageOp) : PageRun pt₀ pt out → op.Legal out →
      PageRun pt₀ (op.run pt out).1 (op.run pt out).2

variable {out : List PageArea}

/-- A call keeps the invariant, and the outstanding runs are those in use. -/
theorem PageInv.run (inv : PageInv max pt runs free) (hout : out.Perm (runs.filter Area.st))
    {op : PageOp} (hop : op.Legal out) : ∃ runs' free', PageInv max (op.run pt out).1 runs' free' ∧
      (op.run pt out).2.Perm (runs'.filter Area.st) := by
  cases op with
  | get nblk atr =>
    rw [PageOp.run]
    rcases inv.getPage hop atr with ⟨hnone, -⟩ | ⟨l₁, a, l₂, rest, free', rfl, hst, -, hadr,
      inv', hrest⟩
    · rw [hnone]
      exact ⟨runs, free, inv, hout⟩
    · have hlt := inv.page_lt (List.mem_append_right l₁ (@List.mem_cons_self _ a l₂))
      obtain ⟨pt', hget⟩ : ∃ pt', SmpTKernel.getPage nblk atr pt =
          (some (pageAdr a.addr pt), pt') :=
        ⟨_, Prod.ext hadr rfl⟩
      rw [hget] at inv' ⊢
      refine ⟨_, free', inv', ?_⟩
      have hnil : rest.filter Area.st = [] :=
        List.filter_eq_nil_iff.mpr fun b hb => by simp [hrest b hb]
      rw [List.filter_append, List.filter_cons_of_neg (by simp [hst])] at hout
      rw [List.filter_append, List.filter_cons_of_pos rfl, List.filter_append, hnil,
        List.nil_append]
      show (⟨pageNo (pageAdr a.addr pt) pt, nblk, true⟩ :: out).Perm _
      rw [pageNo_pageAdr hlt.1 hlt.2]
      exact (hout.cons _).trans List.perm_middle.symm
  | rel a =>
    have ha := List.mem_filter.mp (hout.subset hop)
    obtain ⟨runs', free', inv', -, hperm⟩ := inv.relPage ha.1 ha.2
    refine ⟨runs', free', inv', ?_⟩
    have := (hout.trans hperm).erase a
    rwa [List.erase_cons_head] at this

/-- What the books of the allocator say: the runs tile the pages, each of them tells its state and
length at both ends, no two neighbours are free, the queue has the free ones in ascending order,
each once, `freepage` counts their pages, the outstanding runs are those in use; a call that
succeeds gives a run of its own, and a call fails only if no free run is long enough. -/
structure PageBooks (pt : PageTbl) (out runs free : List PageArea) : Prop where
  tiles : Tiles 0 1 runs (pt.maxpage.toNat + 1)
  pos : ∀ a ∈ runs, 0 < a.size
  first : ∀ a ∈ runs, (pt.pageque a.addr).use = a.st ∧ NumOfPages pt.pageque a.addr = a.size
  last : ∀ a ∈ runs, (pt.pageque (a.addr + a.size - 1)).use = a.st ∧
    (1 < a.size → (pt.pageque (a.addr + a.size - 1)).next = a.size)
  quiet : NoFreePair runs
  queue : IsRing (pageLinks pt.pageque) 0 (free.map Area.addr)
  sorted : free.Pairwise fun a b => a.size ≤ b.size
  exact : free.Perm (runs.filter fun a => !a.st)
  freepage : pt.freepage = pageSum free
  outstanding : out.Perm (runs.filter Area.st)
  gets : ∀ n atr adr, 1 ≤ n → (getPage n atr pt).1 = some adr →
    1 ≤ pageNo adr pt ∧ pageNo adr pt + n ≤ pt.maxpage.toNat + 1 ∧
      ∀ b ∈ out, pageNo adr pt + n ≤ b.addr ∨ b.addr + b.size ≤ pageNo adr pt
  fails : ∀ n atr, 1 ≤ n → (getPage n atr pt).1 = none → ∀ a ∈ runs, a.st = false → a.size < n

theorem PageInv.books (inv : PageInv max pt runs free) (hout : out.Perm (runs.filter Area.st)) :
    PageBooks pt out runs free := by
  have hmax : pt.maxpage.toNat = max := by rw [inv.maxpage, Int.toNat_natCast]
  refine ⟨hmax ▸ inv.map.tiles, inv.map.pos, fun a ha => ?_, fun a ha => ?_, inv.quiet,
    inv.map.ring, inv.map.sorted, inv.map.perm, inv.count, hout, fun n atr adr h1 hadr => ?_,
    fun n atr h1 hnone => ?_⟩
  · exact ⟨(inv.map.runs a ha).use, (inv.map.runs a ha).numOfPages (inv.map.pos a ha)⟩
  · exact ⟨((inv.map.runs a ha).back (inv.map.pos a ha)).1, fun h1 =>
      ((inv.map.runs a ha).last h1).2.2⟩
  · rcases inv.getPage h1 atr with ⟨hnone, -⟩ | ⟨l₁, a, l₂, rest, free', rfl, hst, hle, hsome, -⟩
    · rw [hnone] at hadr
      cases hadr
    · have ha : a ∈ l₁ ++ a :: l₂ := List.mem_append_right l₁ List.mem_cons_self
      have hlt := inv.page_lt ha
      have hin := inv.map.addr_pos ha
      rw [hsome] at hadr
      cases hadr
      rw [pageNo_pageAdr hlt.1 hlt.2, hmax]
      refine ⟨hlt.1, by omega, fun b hb => ?_⟩
      have hb := List.mem_filter.mp (hout.subset hb)
      rcases inv.map.tiles.eq_or_apart ha hb.1 with rfl | h | h
      · rw [hst] at hb
        cases hb.2
      · exact Or.inl (by omega)
      · exact Or.inr h
  · rcases inv.getPage h1 atr with ⟨-, hall⟩ | ⟨l₁, a, l₂, rest, free', rfl, hst, hle, hsome, -⟩
    · exact hall
    · rw [hsome] at hnone
      cases hnone

/-- A table without a page has the free run 1 of no pages in its queue. -/
theorem initPageTbl_no_page {top memend : ℕ} (mem : ℕ → PageQue)
    (h : UINT ((memend : ℤ) - topPage top memend) < PAGESZ) :
    ¬∃ runs free, PageBooks (initPageTbl top memend mem) [] runs free := by
  rintro ⟨runs, free, books⟩
  have hzero : UINT ((memend : ℤ) - topPage top memend) / PAGESZ = 0 := Nat.div_eq_of_lt h
  have hmax : (initPageTbl top memend mem).maxpage.toNat = 0 := by
    show ((UINT ((memend : ℤ) - topPage top memend) / PAGESZ : ℕ) : ℤ).toNat = 0
    rw [hzero]
    rfl
  have hnext : (pageLinks (initPageTbl top memend mem).pageque 0).next = 1 := by
    show (appendFreePages _ 1 (UINT ((memend : ℤ) - topPage top memend) / PAGESZ) 0).next = 1
    rw [hzero]
    rfl
  have hhead := books.queue.next_head
  rw [hnext] at hhead
  cases free with
  | nil => cases hhead
  | cons a free =>
    have ha := (List.mem_filter.mp (books.exact.subset List.mem_cons_self)).1
    have hin := books.tiles.bounds ha
    have := books.pos a ha
    omega

/-- **The page allocator.** The books are right in every state reached from a new table if and only
if at least one page lies between the end of the page table and the end of the memory. -/
theorem pageRun_books_iff (top memend : ℕ) (mem : ℕ → PageQue) :
    (∀ pt out, PageRun (initPageTbl top memend mem) pt out →
      ∃ runs free, PageBooks pt out runs free) ↔
      PAGESZ ≤ UINT ((memend : ℤ) - topPage top memend) := by
  constructor
  · intro hall
    by_contra hlt
    exact initPageTbl_no_page mem (not_le.mp hlt) (hall _ _ .init)
  · intro h pt out run
    obtain ⟨max, runs₀, free₀, inv₀, hnone⟩ := initPageTbl_inv mem h
    have hinv : ∃ runs free, PageInv max pt runs free ∧ out.Perm (runs.filter Area.st) := by
      induction run with
      | init => exact ⟨runs₀, free₀, inv₀, by rw [hnone]⟩
      | step op _ hop ih =>
        obtain ⟨runs, free, inv, hout⟩ := ih
        exact inv.run hout hop
    obtain ⟨runs, free, inv, hout⟩ := hinv
    exact ⟨runs, free, inv.books hout⟩

/-- The table of 904 bytes behind a table of one entry is wrong from the start. -/
theorem pageRun_no_page :
    ¬∀ top memend mem pt out, PageRun (initPageTbl top memend mem) pt out →
      ∃ runs free, PageBooks pt out runs free :=
  fun hall => initPageTbl_no_page (fun _ => clrPageQue) (by decide)
    (hall 4088 5000 (fun _ => clrPageQue) _ _ .init)

end SmpTKernel
