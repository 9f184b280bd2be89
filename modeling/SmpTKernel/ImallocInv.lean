import SmpTKernel.AreaOwners
import SmpTKernel.Imalloc

/-!
# The kernel heap

`ImInv` says that the blocks of pages got and not given back are a heap whose areas in use are the
outstanding ones. It is kept by the calls and by the owners of the memory. `ImRun` is any sequence
of the critical sections of the calls, in any order of the processors.
-/

namespace SmpTKernel

open LinkRing Words Tiling

def imTags : BlockTags := ⟨0, AREA_TOP, AREA_END⟩

/-- Rounding the size to areas and to pages does not overflow. -/
def SizeOk (pagesz size : ℕ) : Prop := max size MIN_FRAGMENT + 2 * QUEUESZ + pagesz ≤ 2 ^ 32

/-- The address range of `b.2` pages at `b.1`, up to the end marker. -/
def pageSpan (pagesz : ℕ) (b : ℕ × ℕ) : ℕ × ℕ := (b.1, b.1 + b.2 * pagesz - QUEUESZ)

/-- The queue heads, the pages and the calls that get pages. -/
structure ImBase (s : Imacb) (held : List (ℕ × ℕ)) : Prop where
  dvd : QUEUESZ ∣ s.areaque
  lt : s.areaque + 2 * QUEUESZ ≤ 2 ^ 32
  page : QUEUESZ ∣ s.pagesz
  page_pos : 0 < s.pagesz
  pending : ∀ call ∈ s.pending, SizeOk s.pagesz call.size
  full : ∀ b ∈ held, MIN_FRAGMENT + 2 * QUEUESZ ≤ b.2 * s.pagesz

/-- The blocks `held` of pages, cut into areas of which `out` are outstanding. -/
structure ImInv (s : Imacb) (out : List (ℕ × ℤ)) (held : List (ℕ × ℕ)) :
    Prop extends ImBase s held where
  heap : ∃ B, OwnedHeap s.cfg imTags s.mem B out ∧ spans B = held.map (pageSpan s.pagesz)

variable {s : Imacb} {out : List (ℕ × ℤ)} {held : List (ℕ × ℕ)} {call : ImCall} {B : List Block}
  {c : Place} {x : HeapArea} {m m' : Mem} {cfg : AreaCfg} {G : List (ℕ × List ℕ)} {ptr q : ℕ}

theorem imCfgOk (h₁ : QUEUESZ ∣ s.areaque) (h₂ : s.areaque + 2 * QUEUESZ ≤ 2 ^ 32) :
    CfgOk s.cfg imTags := by
  have hq : QUEUESZ = 8 := rfl
  refine ⟨le_rfl, show 0 < 3 by decide, by decide, fun y hy => ?_, h₁, ?_, ?_, Or.inl le_rfl⟩
  · show ((UINT y : ℕ) : ℤ) = y
    rw [UINT_natCast hy]
  · show s.areaque < _
    omega
  · show s.areaque + QUEUESZ < _
    omega

theorem ImBase.cfgOk (inv : ImBase s held) : CfgOk s.cfg imTags := imCfgOk inv.dvd inv.lt

/-! ## Sizes -/

theorem imSize_eq {pagesz size : ℕ} (h : SizeOk pagesz size) :
    imSize size = (max size MIN_FRAGMENT + 7) / 8 * 8 := by
  have hq : QUEUESZ = 8 := rfl
  have hmf : MIN_FRAGMENT = 16 := rfl
  unfold SizeOk at h
  have hmax : (if size < MIN_FRAGMENT then MIN_FRAGMENT else size) = max size MIN_FRAGMENT := by
    split_ifs <;> omega
  rw [imSize, hmax, ROUND, clearLow_eq (Nat.mod_lt _ (by norm_num)), Nat.mod_eq_of_lt (by omega)]
  rfl

theorem imSize_spec {pagesz size : ℕ} (h : SizeOk pagesz size) :
    (MIN_FRAGMENT : ℤ) ≤ imSize size ∧ (QUEUESZ : ℤ) ∣ imSize size ∧ (size : ℤ) ≤ imSize size := by
  have hmf : MIN_FRAGMENT = 16 := rfl
  rw [imSize_eq h]
  refine ⟨by omega, ?_, by omega⟩
  exact Int.natCast_dvd_natCast.mpr (Nat.dvd_mul_left 8 _)

/-- The pages got for a call have room for the size, the first cell and the end marker. -/
theorem imPages_spec (inv : ImBase s held) (h : SizeOk s.pagesz call.size) :
    imSize call.size + 2 * QUEUESZ ≤ imPages s call * s.pagesz ∧
      imPages s call * s.pagesz < 2 ^ 32 := by
  have hq : QUEUESZ = 8 := rfl
  have hmf : MIN_FRAGMENT = 16 := rfl
  have hpos := inv.page_pos
  have hpage : 8 ∣ s.pagesz := inv.page
  have hs := imSize_eq h
  unfold SizeOk at h
  unfold imPages pageCount
  have hlt : imSize call.size + QUEUESZ * 2 + s.pagesz ≤ 2 ^ 32 := by omega
  rw [Nat.mod_eq_of_lt (a := imSize call.size + QUEUESZ * 2) (by omega),
    Nat.mod_eq_of_lt (by omega)]
  set n := imSize call.size + QUEUESZ * 2 with hn
  have hdiv := Nat.div_add_mod (n + (s.pagesz - 1)) s.pagesz
  have hmod := Nat.mod_lt (n + (s.pagesz - 1)) hpos
  rw [Nat.mul_comm] at hdiv
  omega

/-! ## Whole blocks -/

theorem WorkingHeap.chk_top (w : WorkingHeap s.cfg imTags m c x out) :
    chkAreaFlag m x.addr AREA_TOP = true ↔ c.left = [] := by
  obtain ⟨G, h⟩ := w.heap
  have h2 : AREA_TOP < 2 ^ s.cfg.bits := show 2 < 2 ^ 3 by norm_num
  rw [chkAreaFlag_eq h2, h.tag_fill, areaTag, w.loose, ← w.base_iff, decide_eq_true_iff]
  by_cases hx : x.addr = c.base
  · rw [if_pos hx]
    exact iff_of_true (by decide) hx
  · rw [if_neg hx]
    exact iff_of_false (by decide) hx

theorem WorkingHeap.chk_end (w : WorkingHeap s.cfg imTags m c x out) :
    chkAreaFlag m (m x.addr).next AREA_END = true ↔ c.right = [] := by
  obtain ⟨G, h⟩ := w.heap
  have h4 : AREA_END < 2 ^ s.cfg.bits := show 4 < 2 ^ 3 by norm_num
  have hn : (m x.addr).next = _ := h.ring_fill.next_mid
  rw [chkAreaFlag_eq h4, hn, decide_eq_true_iff]
  rcases hr : c.right with _ | ⟨n, l⟩
  · refine iff_of_true ?_ rfl
    show tagAt s.cfg.bits m c.fin &&& AREA_END ≠ 0
    rw [h.finTag _ (@block_mem_fill c [x])]
    decide
  · refine iff_of_false ?_ (List.cons_ne_nil n l)
    show ¬tagAt s.cfg.bits m n.addr &&& AREA_END ≠ 0
    rw [h.tag_right (hr ▸ List.mem_cons_self) (List.cons_ne_nil x [])]
    split_ifs <;> decide

/-! ## Steps -/

/-- The effect of an event on the outstanding areas. -/
def ImEvent.track (out : List (ℕ × ℤ)) : ImEvent → List (ℕ × ℤ)
  | got size ptr => (ptr, size) :: out
  | freed ptr => out.filter fun o => o.1 ≠ ptr
  | fails _ | getSysMemBlk .. | relSysMemBlk _ => out

/-- The effect of an event on the blocks of pages. -/
def ImEvent.trackPages (held : List (ℕ × ℕ)) : ImEvent → List (ℕ × ℕ)
  | getSysMemBlk q n => (q, n) :: held
  | relSysMemBlk q => held.filter fun b => b.1 ≠ q
  | got .. | fails _ | freed _ => held

theorem memset_frame {p n z : ℕ} (h : z < p ∨ p + n ≤ z) : memset m p n z = m z :=
  if_neg (by omega)

theorem OwnedHeap.memset {t : BlockTags} {p n : ℕ} (o : OwnedHeap cfg t m B out)
    (hp : (p, (n : ℤ)) ∈ out) :
    OwnedHeap cfg t (memset m p n) B out :=
  o.write fun z _ hz => memset_frame (by have := hz _ hp; simp only at this; omega)

/-- **A call returns** with memory from a loose area. -/
theorem ImBase.ret (inv : ImBase s held) (w : WorkingHeap s.cfg imTags m c x out)
    (hspans : spans (c.fill [x]) = held.map (pageSpan s.pagesz)) (hsize : SizeOk s.pagesz call.size)
    (hle : (imSize call.size : ℤ) ≤ x.size) :
    let r := imReturn s call (memAlloc s.cfg m x.addr (imSize call.size))
    ImInv r.1 (r.2.foldl ImEvent.track out) held ∧ r.2 = [.got call.size (x.addr + QUEUESZ)] := by
  obtain ⟨h16, hdvd, hask⟩ := imSize_spec hsize
  obtain ⟨hptr, ⟨B, o, hB⟩, -⟩ := w.alloc inv.cfgOk h16 hdvd hle hask
  have hr : (imReturn s call (memAlloc s.cfg m x.addr (imSize call.size))).2 =
      [.got call.size (x.addr + QUEUESZ)] := by
    rw [imReturn, hptr]
  refine ⟨?_, hr⟩
  rw [hr]
  refine ⟨⟨inv.dvd, inv.lt, inv.page, inv.page_pos, inv.pending, inv.full⟩, B, ?_, hB.trans hspans⟩
  unfold imReturn
  rw [hptr]
  cases call.zero with
  | false => exact o
  | true => exact o.memset List.mem_cons_self

/-- **Allocation**, up to the pages. -/
theorem ImInv.imalloc (inv : ImInv s out held) (hsize : SizeOk s.pagesz call.size) :
    ImInv (imalloc s call).1 ((imalloc s call).2.foldl ImEvent.track out) held ∧
      ∀ e ∈ (imalloc s call).2, ∃ ptr, e = .got call.size ptr := by
  obtain ⟨B, o, hB⟩ := inv.heap
  unfold SmpTKernel.imalloc
  by_cases hne : searchFreeArea s.cfg s.mem (imSize call.size) = s.cfg.freeque
  · -- the call goes for pages
    simp only [hne, ne_eq, not_true_eq_false, if_false]
    refine ⟨⟨⟨inv.dvd, inv.lt, inv.page, inv.page_pos, fun c hc => ?_, inv.full⟩, inv.heap⟩, nofun⟩
    rcases List.mem_cons.mp hc with rfl | hc
    · exact hsize
    · exact inv.pending c hc
  · obtain ⟨c, x, w, hx, hle, hspans, -⟩ := o.take inv.cfgOk hne
    obtain ⟨hinv, hev⟩ := inv.toImBase.ret w (hspans.trans hB) hsize hle
    simp only [ne_eq, hne, not_false_eq_true, if_true]
    rw [hx] at w hinv hev ⊢
    rw [Nat.add_sub_cancel]
    refine ⟨hinv, fun e he => ⟨x.addr + QUEUESZ, ?_⟩⟩
    rw [hev] at he
    exact List.mem_singleton.mp he

/-- What `GetSysMemBlk` returns: aligned pages apart from the blocks held and from the queue
heads. -/
structure Fresh (s : Imacb) (held : List (ℕ × ℕ)) (q n : ℕ) : Prop where
  aligned : QUEUESZ ∣ q
  le : q + n * s.pagesz ≤ 2 ^ 32
  apart : ∀ b ∈ held, q + n * s.pagesz ≤ b.1 ∨ b.1 + b.2 * s.pagesz ≤ q
  heads : q + n * s.pagesz ≤ s.areaque ∨ s.areaque + 2 * QUEUESZ ≤ q

theorem pagesLinked {l : List ℕ} {e : ℕ} (ring : IsRing (untag s.cfg.bits m) s.areaque l)
    (htag : tagAt s.cfg.bits m s.areaque = 0) (h₁ : QUEUESZ ∣ s.areaque) (h₂ : QUEUESZ ∣ q)
    (h₃ : QUEUESZ ∣ e) (hq : q ∉ s.areaque :: l) (he : e ∉ s.areaque :: l) (hne : q ≠ e) :
    BlockLinked s.cfg imTags m
      (setAreaFlag (setAreaFlag
        (insertAreaQue s.cfg (insertAreaQue s.cfg m s.areaque e) s.areaque q) q AREA_TOP) e
          AREA_END) l q e := by
  have ring : IsRing (untag s.cfg.bits m) s.cfg.areaque l := ring
  have linked := blockLinked_insert ring h₁ h₂ h₃ hq he hne
  have hqa : q ≠ s.areaque := fun c => hq (c ▸ List.mem_cons_self)
  have hea : e ≠ s.areaque := fun c => he (c ▸ List.mem_cons_self)
  have linked₁ := linked.flag (f := AREA_TOP) (Or.inr (Or.inl rfl)) linked.topTag (show 2 < 2 ^ 3 by
    norm_num)
  have linked₂ := linked₁.flag (x := e) (f := AREA_END) (Or.inr (Or.inr rfl))
    (linked₁.finTag.trans (if_neg hne)) (show 4 < 2 ^ 3 by norm_num)
  have hqa' : q ≠ s.cfg.areaque := hqa
  have hea' : e ≠ s.cfg.areaque := hea
  have htag' : tagAt s.cfg.bits m s.cfg.areaque = 0 := htag
  simp only [if_neg hqa', if_neg hea', if_neg hne, if_neg hne.symm, ite_true, htag'] at linked₂
  exact linked₂

theorem ImBase.exists_held (inv : ImBase s held) (hB : spans B = held.map (pageSpan s.pagesz))
    {b : Block} (hb : b ∈ B) :
    ∃ p ∈ held, b.base = p.1 ∧ b.fin + QUEUESZ = p.1 + p.2 * s.pagesz := by
  have hspan : (b.base, b.fin) ∈ held.map (pageSpan s.pagesz) := hB ▸ List.mem_map.mpr ⟨b, hb, rfl⟩
  obtain ⟨p, hp, e⟩ := List.mem_map.mp hspan
  have hfull := inv.full p hp
  have hq : QUEUESZ = 8 := rfl
  obtain ⟨hbase, hfin⟩ := Prod.mk.inj e
  exact ⟨p, hp, hbase.symm, by omega⟩

theorem ImBase.exists_block (inv : ImBase s held) (hB : spans B = held.map (pageSpan s.pagesz))
    {p : ℕ × ℕ} (hp : p ∈ held) :
    ∃ b ∈ B, b.base = p.1 ∧ b.fin + QUEUESZ = p.1 + p.2 * s.pagesz := by
  have hspan : pageSpan s.pagesz p ∈ spans B := hB ▸ List.mem_map.mpr ⟨p, hp, rfl⟩
  obtain ⟨b, hb, e⟩ := List.mem_map.mp hspan
  have hfull := inv.full p hp
  have hq : QUEUESZ = 8 := rfl
  obtain ⟨hbase, hfin⟩ := Prod.mk.inj e
  exact ⟨b, hb, hbase, by omega⟩

theorem Fresh.lt {n : ℕ} (fresh : Fresh s held q n) (inv : ImBase s held) :
    n * s.pagesz < 2 ^ 32 := by
  have hlt := inv.lt
  have hle := fresh.le
  have hq : QUEUESZ = 8 := rfl
  rcases fresh.heads with h | h <;> omega

/-- New pages are one loose area. -/
theorem ImBase.newPages (inv : ImBase s held) (o : OwnedHeap s.cfg imTags s.mem B out)
    (hB : spans B = held.map (pageSpan s.pagesz)) {n : ℕ} (fresh : Fresh s held q n)
    (hroom : MIN_FRAGMENT + 2 * QUEUESZ ≤ n * s.pagesz) :
    let e := q + n * s.pagesz % 2 ^ 32 - QUEUESZ
    let mem := setAreaFlag (setAreaFlag
      (insertAreaQue s.cfg (insertAreaQue s.cfg s.mem s.areaque e) s.areaque q) q AREA_TOP)
        e AREA_END
    ∃ c x, WorkingHeap s.cfg imTags mem c x out ∧ x.addr = q ∧ x.size = n * s.pagesz - 2 * QUEUESZ ∧
      spans (c.fill [x]) = ((q, n) :: held).map (pageSpan s.pagesz) ∧ ∀ z, InBlock out z →
      mem z = s.mem z := by
  intro e mem
  have hq8 : QUEUESZ = 8 := rfl
  have hmf : MIN_FRAGMENT = 16 := rfl
  obtain ⟨hal, hle, hapart, hheads⟩ := fresh
  have hlt := Fresh.lt ⟨hal, hle, hapart, hheads⟩ inv
  have hpd : 8 ∣ n * s.pagesz := inv.page.mul_left _
  have hal8 : 8 ∣ q := hal
  set size := n * s.pagesz - 2 * QUEUESZ with hsz
  have he : e = q + QUEUESZ + size := by
    show q + n * s.pagesz % 2 ^ 32 - QUEUESZ = _
    rw [Nat.mod_eq_of_lt hlt]
    omega
  obtain ⟨G, h⟩ := o.heap
  have hblock (b : Block) (hb : b ∈ B) : q + n * s.pagesz ≤ b.base ∨ b.fin + QUEUESZ ≤ q := by
    obtain ⟨p, hp, hbase, hfin⟩ := inv.exists_held hB hb
    have := hapart p hp
    omega
  have hfresh (z : ℕ) (hz : z = q ∨ z = q + QUEUESZ + size) : z ∉ s.areaque :: cellsOf B := by
    intro hc
    rcases List.mem_cons.mp hc with rfl | hc
    · omega
    · obtain ⟨b, hb, hc⟩ := mem_cellsOf.mp hc
      have h₁ := hblock b hb
      have h₂ := (h.tiles b hb).le
      rcases hc with rfl | ⟨a, ha, rfl⟩
      · omega
      · have h₃ := (h.tiles b hb).bounds ha
        omega
  have linked := pagesLinked (q := q) (e := q + QUEUESZ + size) h.ring h.headTag inv.dvd hal
    (by rw [hq8]; omega) (hfresh _ (Or.inl rfl)) (hfresh _ (Or.inr rfl)) (by omega)
  have w := o.addBlock inv.cfgOk (rfl : imTags.top = imTags.top) rfl ⟨by omega, by rw [hq8]; omega⟩
    hal (by omega) (fun b hb => by have := hblock b hb; omega)
    (show s.areaque + QUEUESZ ≤ q ∨ q + QUEUESZ + size + QUEUESZ ≤ s.areaque by omega)
    (show s.areaque + QUEUESZ + QUEUESZ ≤ q ∨ q + QUEUESZ + size + QUEUESZ ≤ s.areaque + QUEUESZ by
      omega)
    linked
  rw [← he] at linked w
  refine ⟨_, _, w, rfl, rfl, ?_, fun z hz => ?_⟩
  · rw [List.map_cons, ← hB]
    show (q, e) :: spans B = (q, q + n * s.pagesz - QUEUESZ) :: spans B
    rw [he, show q + QUEUESZ + size = q + n * s.pagesz - QUEUESZ by omega]
  · obtain ⟨G', h'⟩ := w.heap
    exact linked.frame z (w.handed.not_cell h' hz)

/-- **Allocation** from new pages. -/
theorem ImInv.pages (inv : ImInv s out held) (hcall : call ∈ s.pending) {q : Option ℕ}
    (hq : ∀ a ∈ q, Fresh s held a (imPages s call)) :
    ImInv (imallocPages s call q).1 ((imallocPages s call q).2.foldl ImEvent.track out)
        ((imallocPages s call q).2.foldl ImEvent.trackPages held) ∧
      ∀ z, .relSysMemBlk z ∉ (imallocPages s call q).2 := by
  have hsize := inv.pending call hcall
  have hpending : ∀ c ∈ s.pending.erase call, SizeOk s.pagesz c.size :=
    fun c hc => inv.pending c (List.mem_of_mem_erase hc)
  cases q with
  | none => exact ⟨⟨⟨inv.dvd, inv.lt, inv.page, inv.page_pos, hpending, inv.full⟩, inv.heap⟩, by
      simp [imallocPages]⟩
  | some q =>
    obtain ⟨B, o, hB⟩ := inv.heap
    obtain ⟨hroom, -⟩ := imPages_spec inv.toImBase hsize
    obtain ⟨h16, -, -⟩ := imSize_spec hsize
    have hmf : (MIN_FRAGMENT : ℤ) = 16 := rfl
    have hmf' : MIN_FRAGMENT = 16 := rfl
    have hq8 : QUEUESZ = 8 := rfl
    obtain ⟨c, x, w, rfl, hx, hspans, -⟩ := inv.toImBase.newPages o hB (hq _ rfl) (by omega)
    set n := imPages s call with hn
    set e := x.addr + n * s.pagesz % 2 ^ 32 - QUEUESZ with he
    have base : ImBase { s with pending := s.pending.erase call } ((x.addr, n) :: held) := by
      refine ⟨inv.dvd, inv.lt, inv.page, inv.page_pos, hpending, List.forall_mem_cons.mpr
        ⟨?_, inv.full⟩⟩
      show MIN_FRAGMENT + 2 * QUEUESZ ≤ n * s.pagesz
      omega
    obtain ⟨hinv, hev⟩ := base.ret w hspans hsize (by omega)
    set r := imReturn { s with pending := s.pending.erase call } call
      (memAlloc s.cfg
        (setAreaFlag (setAreaFlag (insertAreaQue s.cfg (insertAreaQue s.cfg s.mem s.areaque
        e) s.areaque x.addr) x.addr AREA_TOP) e AREA_END) x.addr (imSize call.size)) with hr
    have hinv : ImInv r.1 (r.2.foldl ImEvent.track out) ((x.addr, n) :: held) := hinv
    have hev : r.2 = [.got call.size (x.addr + QUEUESZ)] := hev
    have hcode : imallocPages s call (some x.addr) = (r.1, .getSysMemBlk x.addr n :: r.2) := rfl
    rw [hcode]
    refine ⟨?_, fun z hz => ?_⟩
    · show ImInv r.1 (r.2.foldl ImEvent.track out) (r.2.foldl ImEvent.trackPages
        ((x.addr, n) :: held))
      rw [hev] at hinv ⊢
      exact hinv
    · rw [hev] at hz
      simp at hz

theorem spans_erase {f : ℕ × ℕ → ℕ × ℕ} (hf : ∀ b, (f b).1 = b.1) (L : BlockLayout cfg (c.fill [x]))
    (h : spans (c.fill [x]) = held.map f) :
    spans (c.before ++ c.after) = (held.filter fun b => b.1 ≠ c.base).map f := by
  have hnd := L.bases_nodup
  rw [Place.fill, List.map_append, List.map_cons] at hnd
  have hout := (List.nodup_cons.mp (List.perm_middle.nodup_iff.mp hnd)).1
  rw [← List.map_append] at hout
  have hkeep (l : List Block) (hl : ∀ b ∈ l, b ∈ c.before ++ c.after) :
      (spans l).filter (fun sp => sp.1 ≠ c.base) = spans l := by
    refine List.filter_eq_self.mpr fun sp hsp => decide_eq_true ?_
    obtain ⟨b, hb, rfl⟩ := List.mem_map.mp hsp
    exact fun e => hout (List.mem_map.mpr ⟨b, hl b hb, e⟩)
  have hfilter : (held.map f).filter (fun sp => sp.1 ≠ c.base) =
      (held.filter fun b => b.1 ≠ c.base).map f := by
    rw [List.filter_map]
    refine congrArg (List.map f) (List.filter_congr fun b _ => ?_)
    simp only [Function.comp_apply, hf]
  rw [← hfilter, ← h, spans_fill, List.filter_append, List.filter_cons_of_neg (by simp),
    hkeep _ fun b hb => List.mem_append_left _ hb, hkeep _ fun b hb => List.mem_append_right _ hb]
  exact List.map_append

/-- **Release.** The block goes back exactly if interrupts are enabled and nothing else of it is
outstanding. -/
theorem ImInv.ifree (inv : ImInv s out held) (hptr : ptr ∈ out.map Prod.fst) (di : Bool) :
    (ImInv (ifree s ptr di).1 ((ifree s ptr di).2.foldl ImEvent.track out)
        ((ifree s ptr di).2.foldl ImEvent.trackPages held) ∧
      ∀ q, .relSysMemBlk q ∈ (ifree s ptr di).2 ↔ di = false ∧ ∃ n, (q, n) ∈ held ∧
        (q ≤ ptr ∧ ptr < q + n * s.pagesz) ∧
        ∀ o ∈ out, q ≤ o.1 → o.1 < q + n * s.pagesz → o.1 = ptr) ∧
      ∀ z, InBlock (out.filter fun o => o.1 ≠ ptr) z → (ifree s ptr di).1.mem z = s.mem z := by
  obtain ⟨B, o, hB⟩ := inv.heap
  obtain ⟨c, x, w, hx, hspans, ⟨hptr₁, hptr₂⟩, hframe, -⟩ := o.release inv.cfgOk hptr
    (show AREA_END ||| AREA_USE < 2 ^ 3 by decide) (by decide) (by decide) (show AREA_TOP < 2 ^ 3 by
      norm_num)
    (Or.inl (by decide))
  set mem :=
    (mergePrev s.cfg (mergeNext s.cfg (clrAreaFlag s.mem (ptr - QUEUESZ) AREA_USE) (ptr - QUEUESZ)
    (AREA_END ||| AREA_USE)) (ptr - QUEUESZ) AREA_TOP).2 with hmem
  -- the block of the area
  rw [hB] at hspans
  obtain ⟨p, hp, hbase, hfin⟩ := inv.exists_held hspans (@block_mem_fill c [x])
  have hbase : c.base = p.1 := hbase
  have hfin : c.fin + QUEUESZ = p.1 + p.2 * s.pagesz := hfin
  have hwhole : (c.left = [] ∧ c.right = []) ↔
      ∀ o ∈ out, p.1 ≤ o.1 → o.1 < p.1 + p.2 * s.pagesz → o.1 = ptr := by
    rw [w.whole_iff, hfin, hbase]
    constructor
    · intro h o ho h₁ h₂
      by_contra hne
      exact h o (List.mem_filter.mpr ⟨ho, decide_eq_true hne⟩) ⟨h₁, h₂⟩
    · rintro h o ho ⟨h₁, h₂⟩
      obtain ⟨ho, hne⟩ := List.mem_filter.mp ho
      exact of_decide_eq_true hne (h o ho h₁ h₂)
  obtain ⟨G, h⟩ := w.heap
  -- no other block contains the area
  have huniq (b : ℕ × ℕ) (hb : b ∈ held) (h₁ : b.1 ≤ ptr) (h₂ : ptr < b.1 + b.2 * s.pagesz) :
      b.1 = p.1 ∧ b.2 * s.pagesz = p.2 * s.pagesz := by
    obtain ⟨b', hb', hbase', hfin'⟩ := inv.exists_block hspans hb
    have hq : QUEUESZ = 8 := rfl
    rcases h.eq_or_apart hb' (@block_mem_fill c [x]) with rfl | hab | hab
    · have hfin' : c.fin + QUEUESZ = b.1 + b.2 * s.pagesz := hfin'
      exact ⟨hbase'.symm.trans hbase, by have : c.base = b.1 := hbase'; omega⟩
    · have hab : b'.fin + QUEUESZ ≤ c.base := hab
      omega
    · have hab : c.fin + QUEUESZ ≤ b'.base := hab
      omega
  have hgone (q : ℕ) : (di = false ∧ ∃ n, (q, n) ∈ held ∧ (q ≤ ptr ∧ ptr < q + n * s.pagesz) ∧
      ∀ o ∈ out, q ≤ o.1 → o.1 < q + n * s.pagesz → o.1 = ptr) ↔
      (di = false ∧ c.left = [] ∧ c.right = []) ∧ q = p.1 := by
    rw [hwhole, and_assoc]
    refine and_congr_right fun _ => ⟨?_, ?_⟩
    · rintro ⟨n, hn, ⟨h₁, h₂⟩, hall⟩
      obtain ⟨e₁, e₂⟩ := huniq (q, n) hn h₁ h₂
      have e₁ : q = p.1 := e₁
      have e₂ : n * s.pagesz = p.2 * s.pagesz := e₂
      rw [e₁, e₂] at hall
      exact ⟨hall, e₁⟩
    · rintro ⟨hall, rfl⟩
      have hq : QUEUESZ = 8 := rfl
      exact ⟨p.2, hp, ⟨by omega, by omega⟩, hall⟩
  have hcond :
    (!di && chkAreaFlag mem x.addr AREA_TOP && chkAreaFlag mem (mem x.addr).next AREA_END) = true ↔
      di = false ∧ c.left = [] ∧ c.right = [] := by
    rw [Bool.and_eq_true, Bool.and_eq_true, w.chk_top, w.chk_end, Bool.not_eq_true', and_assoc]
  have hcode : SmpTKernel.ifree s ptr di =
      if !di && chkAreaFlag mem x.addr AREA_TOP && chkAreaFlag mem (mem x.addr).next AREA_END then
        ({ s with mem := removeAreaQue s.cfg (removeAreaQue s.cfg mem (mem x.addr).next) x.addr },
          [.freed ptr, .relSysMemBlk x.addr])
      else ({ s with mem := appendFreeArea s.cfg mem x.addr }, [.freed ptr]) := by
    rw [← hx]
    rfl
  rw [hcode]
  by_cases hgo : di = false ∧ c.left = [] ∧ c.right = []
  · -- free pages
    rw [if_pos (hcond.mpr hgo)]
    have hxp : x.addr = p.1 := (w.base_iff.mpr hgo.2.1).trans hbase
    obtain ⟨hdrop, hframe'⟩ := w.dropBlock inv.cfgOk hgo.2.1 hgo.2.2
    refine ⟨⟨⟨⟨inv.dvd, inv.lt, inv.page, inv.page_pos, inv.pending, fun b hb => ?_⟩,
      c.before ++ c.after, hdrop, ?_⟩, fun q => ?_⟩, fun z hz => (hframe' z hz).trans (hframe z hz)⟩
    · exact inv.full b (List.mem_of_mem_filter hb)
    · have he := spans_erase (f := pageSpan s.pagesz) (fun _ => rfl) h.toBlockLayout hspans
      rw [he, hbase, ← hxp]
      rfl
    · rw [hgone]
      simp [hgo, hxp, eq_comm]
  · -- register the area
    rw [if_neg fun hc => hgo (hcond.mp hc)]
    obtain ⟨⟨B', o', hB', -⟩, hframe'⟩ := w.put inv.cfgOk
    refine ⟨⟨⟨⟨inv.dvd, inv.lt, inv.page, inv.page_pos, inv.pending, inv.full⟩, B', o',
      hB'.trans hspans⟩, fun q => ?_⟩, fun z hz => (hframe' z hz).trans (hframe z hz)⟩
    rw [hgone]
    simp [hgo]

/-! ## Runs -/

/-- The critical sections of the calls, and the use of the memory. -/
inductive ImOp
  | malloc (size : ℕ)
  | calloc (nmemb size : ℕ)
  /-- `GetSysMemBlk` returned `q` for a call. -/
  | pages (call : ImCall) (q : Option ℕ)
  | free (ptr : ℕ) (di : Bool)
  | write (mem : Mem)

/-- The state after an operation, and what happened. -/
def ImOp.run (s : Imacb) : ImOp → Imacb × List ImEvent
  | malloc size => IAmalloc s size
  | calloc nmemb size => IAcalloc s nmemb size
  | pages call q => imallocPages s call q
  | free ptr di => IAfree s ptr di
  | write mem => ({ s with mem := mem }, [])

/-- Sizes can be rounded, pages are fresh, only outstanding areas are freed; the queue heads and
what is held of the system memory, outstanding areas apart, are not written to. -/
def ImOp.Legal (s : Imacb) (out : List (ℕ × ℤ)) (held : List (ℕ × ℕ)) : ImOp → Prop
  | malloc size => SizeOk s.pagesz size
  | calloc nmemb size => SizeOk s.pagesz (nmemb * size)
  | pages call q => call ∈ s.pending ∧ ∀ a ∈ q, Fresh s held a (imPages s call)
  | free ptr _ => ptr ∈ out.map Prod.fst
  | write mem => ∀ z,
      (z = s.areaque ∨ z = s.areaque + QUEUESZ ∨ ∃ b ∈ held, b.1 ≤ z ∧ z < b.1 + b.2 * s.pagesz) →
      (∀ o ∈ out, z < o.1 ∨ (o.1 : ℤ) + o.2 ≤ z) → mem z = s.mem z

/-- The outstanding areas after a history. -/
def outAreas (h : List ImEvent) : List (ℕ × ℤ) := h.foldl ImEvent.track []

/-- The blocks of pages held after a history. -/
def heldBlocks (h : List ImEvent) : List (ℕ × ℕ) := h.foldl ImEvent.trackPages []

/-- Runs, with their history. -/
inductive ImRun (s₀ : Imacb) : Imacb → List ImEvent → Prop
  | init : ImRun s₀ s₀ []
  | step {s : Imacb} {h : List ImEvent} (op : ImOp) : ImRun s₀ s h →
      op.Legal s (outAreas h) (heldBlocks h) → ImRun s₀ (op.run s).1 (h ++ (op.run s).2)

/-- The operation makes the block of pages at `q` wholly free while interrupts are enabled. -/
def FreesBlock (s : Imacb) (out : List (ℕ × ℤ)) (held : List (ℕ × ℕ)) (op : ImOp) (q : ℕ) : Prop :=
  ∃ ptr, op = .free ptr false ∧ ∃ n, (q, n) ∈ held ∧ (q ≤ ptr ∧ ptr < q + n * s.pagesz) ∧
    ∀ o ∈ out, q ≤ o.1 → o.1 < q + n * s.pagesz → o.1 = ptr

theorem ImInv.write (inv : ImInv s out held) {mem : Mem} (hm : ∀ z,
    (z = s.areaque ∨ z = s.areaque + QUEUESZ ∨ ∃ b ∈ held, b.1 ≤ z ∧ z < b.1 + b.2 * s.pagesz) →
      (∀ o ∈ out, z < o.1 ∨ (o.1 : ℤ) + o.2 ≤ z) → mem z = s.mem z) :
    ImInv { s with mem := mem } out held := by
  obtain ⟨B, o, hB⟩ := inv.heap
  refine ⟨⟨inv.dvd, inv.lt, inv.page, inv.page_pos, inv.pending, inv.full⟩, B, o.write fun z hz =>
    hm z ?_, hB⟩
  rcases hz with e | e | ⟨b, hb, h₁, h₂⟩
  · exact Or.inl e
  · exact Or.inr (Or.inl e)
  · obtain ⟨p, hp, hbase, hfin⟩ := inv.exists_held hB hb
    exact Or.inr (Or.inr ⟨p, hp, by omega, by omega⟩)

theorem trackPages_got {size : ℕ} {ev : List ImEvent} (h : ∀ e ∈ ev, ∃ ptr, e = .got size ptr) :
    ev.foldl ImEvent.trackPages held = held := by
  induction ev with
  | nil => rfl
  | cons e ev ih =>
    obtain ⟨ptr, rfl⟩ := h e List.mem_cons_self
    exact ih fun e he => h e (List.mem_cons_of_mem _ he)

/-- **One step** keeps the heap, and gives back exactly the block it makes wholly free. -/
theorem ImInv.run (inv : ImInv s out held) {op : ImOp} (hop : op.Legal s out held) :
    ImInv (op.run s).1 ((op.run s).2.foldl ImEvent.track out)
      ((op.run s).2.foldl ImEvent.trackPages held) ∧
      ∀ q, .relSysMemBlk q ∈ (op.run s).2 ↔ FreesBlock s out held op q := by
  have hmalloc (call : ImCall) (hsize : SizeOk s.pagesz call.size) :
      ImInv (SmpTKernel.imalloc s call).1 ((SmpTKernel.imalloc s call).2.foldl ImEvent.track out)
        ((SmpTKernel.imalloc s call).2.foldl ImEvent.trackPages held) ∧
      ∀ q, .relSysMemBlk q ∉ (SmpTKernel.imalloc s call).2 := by
    obtain ⟨hinv, hev⟩ := inv.imalloc hsize
    rw [trackPages_got hev]
    refine ⟨hinv, fun q hq => ?_⟩
    obtain ⟨ptr, e⟩ := hev _ hq
    cases e
  have hno {op : ImOp} {ev : List ImEvent} (hev : ∀ q, .relSysMemBlk q ∉ ev)
      (hop : ∀ ptr, op ≠ .free ptr false) (q : ℕ) : .relSysMemBlk q ∈ ev ↔
      FreesBlock s out held op q :=
    iff_of_false (hev q) fun ⟨ptr, e, _⟩ => hop ptr e
  cases op with
  | malloc size =>
    obtain ⟨h₁, h₂⟩ := hmalloc ⟨size, false⟩ hop
    exact ⟨h₁, hno h₂ nofun⟩
  | calloc nmemb size =>
    have hsize : SizeOk s.pagesz (nmemb * size) := hop
    have hmod : nmemb * size % 2 ^ 32 = nmemb * size := by
      unfold SizeOk at hsize
      have hq : QUEUESZ = 8 := rfl
      exact Nat.mod_eq_of_lt (by omega)
    obtain ⟨h₁, h₂⟩ := hmalloc ⟨nmemb * size % 2 ^ 32, true⟩ (by rw [hmod]; exact hsize)
    exact ⟨h₁, hno h₂ nofun⟩
  | pages call q =>
    obtain ⟨h₁, h₂⟩ := inv.pages hop.1 hop.2
    exact ⟨h₁, hno h₂ nofun⟩
  | free ptr di =>
    obtain ⟨⟨h₁, h₂⟩, -⟩ := inv.ifree hop di
    refine ⟨h₁, fun q => (h₂ q).trans ?_⟩
    constructor
    · rintro ⟨rfl, hq⟩
      exact ⟨ptr, rfl, hq⟩
    · rintro ⟨ptr', e, hq⟩
      cases e
      exact ⟨rfl, hq⟩
  | write mem => exact ⟨inv.write hop, hno nofun nofun⟩

theorem initIMACB_inv (h₁ : QUEUESZ ∣ s.areaque) (h₂ : s.areaque + 2 * QUEUESZ ≤ 2 ^ 32)
    (h₃ : QUEUESZ ∣ s.pagesz) (h₄ : 0 < s.pagesz) : ImInv (initIMACB s) [] [] :=
  ⟨⟨h₁, h₂, h₃, h₄, nofun, nofun⟩, [], ⟨⟨[], heap_init (imCfgOk h₁ h₂) rfl s.mem⟩, nofun,
    List.Perm.refl _, nofun⟩, rfl⟩

theorem ImRun.inv {s₀ : Imacb} {h : List ImEvent} (inv : ImInv s₀ [] []) (run : ImRun s₀ s h) :
    ImInv s (outAreas h) (heldBlocks h) := by
  induction run with
  | init => exact inv
  | step op _ hop ih =>
    unfold outAreas heldBlocks
    rw [List.foldl_append, List.foldl_append]
    exact (ih.run hop).1

/-- The areas and the queues of a heap of pages. -/
theorem OwnedHeap.shape (o : OwnedHeap s.cfg imTags m B out)
    (hB : spans B = held.map (pageSpan s.pagesz)) :
    ∃ G : List (ℕ × List ℕ),
      (IsRing (untag 3 m) s.areaque (cellsOf B) ∧ spans B = held.map (pageSpan s.pagesz) ∧
        ∀ b ∈ B, Tiles QUEUESZ b.base b.areas b.fin ∧ tagAt 3 m b.fin = AREA_END ∧
          ∀ a ∈ b.areas, a.st ≠ .loose ∧ tagAt 3 m a.addr =
            (if a.addr = b.base then AREA_TOP else 0) + if a.st = .used then AREA_USE else 0) ∧
      (∀ b ∈ B, b.areas.IsChain fun a b => ¬(a.st = .free ∧ b.st = .free)) ∧
      ((out.map Prod.fst).Perm (((areasOf B).filter fun a => a.st = .used).map fun a =>
        a.addr + QUEUESZ) ∧
        (∀ o ∈ out, QUEUESZ ∣ o.1 ∧ ∃ a ∈ areasOf B, a.st = .used ∧ a.addr + QUEUESZ = o.1 ∧
          o.2 ≤ a.size) ∧
        out.Pairwise fun o p => (o.1 : ℤ) + o.2 ≤ p.1 ∨ (p.1 : ℤ) + p.2 ≤ o.1) ∧
      RingSet m (queueRings (· + QUEUESZ) (s.areaque + QUEUESZ) G) ∧
        (G.map fun g => sizeAt m g.1).Pairwise (· < ·) ∧
        (∀ g ∈ G, ∀ x ∈ g.2, sizeAt m x = sizeAt m g.1) ∧ (members G).Nodup ∧
        (members G).Perm (((areasOf B).filter fun a => a.st = .free).map fun a =>
          a.addr + QUEUESZ) ∧
        ∀ a ∈ areasOf B, sizeAt m (a.addr + QUEUESZ) = a.size := by
  obtain ⟨⟨G, heap⟩, hquiet, ho⟩ := o
  refine ⟨G, ⟨heap.ring, hB, fun b hb => ⟨heap.tiles b hb, heap.finTag b hb, fun a ha =>
    ⟨(hquiet b hb).settled a ha, heap.tag b hb a ha⟩⟩⟩, fun b hb => (hquiet b hb).chain,
    ⟨ho.perm, fun o hmo => ?_, ho.apart heap⟩,
    heap.buckets.rings, heap.buckets.sorted, heap.buckets.same, heap.buckets.nodup, heap.free,
    fun a ha => heap.sizeAt_eq ha⟩
  obtain ⟨a, ha, hu, hao, hle⟩ := ho.large o hmo
  refine ⟨?_, a, ha, hu, hao, hle⟩
  rw [← hao]
  exact Nat.dvd_add (heap.addr_dvd ha) (dvd_refl _)

/-- **The kernel heap.** After any run the blocks of pages held are the blocks in `areaque`; the
areas of each fill it up to the end marker, with the flags saying which is the first and which are
in use, and no two neighbours are free. The outstanding areas are the areas in use, each aligned, at
least as large as asked for and apart from the others. `freeque` links one free area of each size in
ascending order, each with the others of its size, and these are the free areas. The next operation
gives back a block exactly if it makes the block wholly free while interrupts are enabled. -/
theorem imRun_heap {s₀ : Imacb} {h : List ImEvent} (h₁ : QUEUESZ ∣ s₀.areaque)
    (h₂ : s₀.areaque + 2 * QUEUESZ ≤ 2 ^ 32) (h₃ : QUEUESZ ∣ s₀.pagesz) (h₄ : 0 < s₀.pagesz)
    (run : ImRun (initIMACB s₀) s h) :
    ∃ (B : List Block) (G : List (ℕ × List ℕ)),
      (IsRing (untag 3 s.mem) s.areaque (cellsOf B) ∧
        spans B = (heldBlocks h).map (pageSpan s.pagesz) ∧
        ∀ b ∈ B, Tiles QUEUESZ b.base b.areas b.fin ∧ tagAt 3 s.mem b.fin = AREA_END ∧
          ∀ a ∈ b.areas, a.st ≠ .loose ∧ tagAt 3 s.mem a.addr =
            (if a.addr = b.base then AREA_TOP else 0) + if a.st = .used then AREA_USE else 0) ∧
      (∀ b ∈ B, b.areas.IsChain fun a b => ¬(a.st = .free ∧ b.st = .free)) ∧
      (((outAreas h).map Prod.fst).Perm
          (((areasOf B).filter fun a => a.st = .used).map fun a => a.addr + QUEUESZ) ∧
        (∀ o ∈ outAreas h, QUEUESZ ∣ o.1 ∧
          ∃ a ∈ areasOf B, a.st = .used ∧ a.addr + QUEUESZ = o.1 ∧ o.2 ≤ a.size) ∧
        (outAreas h).Pairwise fun o p => (o.1 : ℤ) + o.2 ≤ p.1 ∨ (p.1 : ℤ) + p.2 ≤ o.1) ∧
      (RingSet s.mem (queueRings (· + QUEUESZ) (s.areaque + QUEUESZ) G) ∧
        (G.map fun g => sizeAt s.mem g.1).Pairwise (· < ·) ∧
        (∀ g ∈ G, ∀ x ∈ g.2, sizeAt s.mem x = sizeAt s.mem g.1) ∧ (members G).Nodup ∧
        (members G).Perm (((areasOf B).filter fun a => a.st = .free).map fun a =>
          a.addr + QUEUESZ) ∧
        ∀ a ∈ areasOf B, sizeAt s.mem (a.addr + QUEUESZ) = a.size) ∧
      ∀ op : ImOp, op.Legal s (outAreas h) (heldBlocks h) →
        ∀ q, .relSysMemBlk q ∈ (op.run s).2 ↔ FreesBlock s (outAreas h) (heldBlocks h) op q := by
  have inv := run.inv (initIMACB_inv h₁ h₂ h₃ h₄)
  obtain ⟨B, o, hB⟩ := inv.heap
  obtain ⟨G, hareas, hchain, hout, hfree⟩ := o.shape hB
  exact ⟨B, G, hareas, hchain, hout, hfree, fun op hop => (inv.run hop).2⟩

/-- Nothing is held yet, pages have 256 bytes. -/
def newImacb : Imacb := initIMACB ⟨1000, 256, fun _ => ⟨0, 0⟩, []⟩

/-- A call gets pages; freeing its area gives them back, but not while interrupts are disabled. -/
theorem imRun_heap_pages :
    let r₁ := (ImOp.malloc 20).run newImacb
    let r₂ := (ImOp.pages ⟨20, false⟩ (some 4096)).run r₁.1
    .relSysMemBlk 4096 ∈ ((ImOp.free 4104 false).run r₂.1).2 ∧
      .relSysMemBlk 4096 ∉ ((ImOp.free 4104 true).run r₂.1).2 := by
  intro r₁ r₂
  have run₁ := ImRun.init.step (.malloc 20) (s := newImacb) (by unfold ImOp.Legal SizeOk; decide)
  have hfresh : Fresh r₁.1 [] 4096 1 := by
    constructor <;> decide +kernel
  have run₂ := run₁.step (.pages ⟨20, false⟩ (some 4096)) ⟨by decide +kernel, fun a ha => by
    cases ha
    exact hfresh⟩
  have hback := (imRun_heap (by decide) (by decide) (by decide) (by decide) run₂)
  obtain ⟨-, -, -, -, -, -, hback⟩ := hback
  have hout : 4104 ∈ (outAreas (([] ++ r₁.2) ++ r₂.2)).map Prod.fst := by decide +kernel
  refine ⟨(hback (.free 4104 false) hout 4096).mpr ⟨4104, rfl, 1, by decide +kernel, by
    decide +kernel, ?_⟩, fun hc => ?_⟩
  · decide +kernel
  · obtain ⟨ptr, e, -⟩ := (hback (.free 4104 true) hout 4096).mp hc
    cases e

end SmpTKernel
