import SmpTKernel.PageTable
import SmpTKernel.Lib.Tiling

/-!
# The pages as runs

What the page table says, as lists: the runs in page order, those of them whose entries can be
trusted at the moment, and the free ones in the order of the queue. While a routine cuts or joins a
run, that run is the one that is not trusted; `setRun` writes only its entries, and the queue
routines write only the links of first entries, so that everything else is kept.
-/

namespace SmpTKernel

open LinkRing Tiling

/-- Consecutive pages; the state says whether they are in use. -/
abbrev PageArea := Area Bool

/-- The entries as the nodes of the queue. -/
def pageLinks (q : ℕ → PageQue) : Links ℕ := fun pn => ⟨(q pn).next, (q pn).prev⟩

variable {q q' : ℕ → PageQue} {x y z pn n : ℕ} {use : Bool} {atr : ℕ} {a r : PageArea}

/-! ## The queue routines on the links -/

theorem pageLinks_setNext (q : ℕ → PageQue) (x y : ℕ) :
    pageLinks (setPageNext q x y) = setNext (pageLinks q) x y := by
  funext z
  unfold pageLinks setPageNext setNext
  by_cases h : z = x
  · subst h
    rw [Function.update_self, Function.update_self]
  · rw [Function.update_of_ne h, Function.update_of_ne h]

theorem pageLinks_setPrev (q : ℕ → PageQue) (x y : ℕ) :
    pageLinks (setPagePrev q x y) = setPrev (pageLinks q) x y := by
  funext z
  unfold pageLinks setPagePrev setPrev
  by_cases h : z = x
  · subst h
    rw [Function.update_self, Function.update_self]
  · rw [Function.update_of_ne h, Function.update_of_ne h]

theorem pageLinks_insert (q : ℕ → PageQue) (que ent : ℕ) :
    pageLinks (insertPageQue q que ent) = insertBefore ent que (pageLinks q) := by
  have hprev (q : ℕ → PageQue) (x : ℕ) : (q x).prev = (pageLinks q x).prev := rfl
  unfold insertPageQue insertBefore
  simp only [hprev, pageLinks_setPrev, pageLinks_setNext]

theorem pageLinks_remove (q : ℕ → PageQue) (ent : ℕ) :
    pageLinks (removePageQue q ent) = unlink ent (pageLinks q) := by
  have hprev (q : ℕ → PageQue) (x : ℕ) : (q x).prev = (pageLinks q x).prev := rfl
  have hnext (q : ℕ → PageQue) (x : ℕ) : (q x).next = (pageLinks q x).next := rfl
  unfold removePageQue unlink
  rw [ite_not, hnext]
  by_cases h : (pageLinks q ent).next = ent
  · rw [if_pos h, if_pos h]
  · rw [if_neg h, if_neg h]
    simp only [hprev, hnext, pageLinks_setPrev, pageLinks_setNext]

/-- What an entry says apart from its links. -/
def PageQue.kind (e : PageQue) : Bool × Bool × ℕ := (e.cont, e.use, e.atr)

theorem kind_setNext (q : ℕ → PageQue) (x y z : ℕ) : (setPageNext q x y z).kind = (q z).kind := by
  unfold setPageNext
  by_cases h : z = x
  · subst h
    rw [Function.update_self]
    rfl
  · rw [Function.update_of_ne h]

theorem kind_setPrev (q : ℕ → PageQue) (x y z : ℕ) : (setPagePrev q x y z).kind = (q z).kind := by
  unfold setPagePrev
  by_cases h : z = x
  · subst h
    rw [Function.update_self]
    rfl
  · rw [Function.update_of_ne h]

theorem kind_insert (q : ℕ → PageQue) (que ent z : ℕ) :
    (insertPageQue q que ent z).kind = (q z).kind := by
  unfold insertPageQue
  rw [kind_setPrev, kind_setNext, kind_setNext, kind_setPrev]

theorem kind_remove (q : ℕ → PageQue) (ent z : ℕ) : (removePageQue q ent z).kind = (q z).kind := by
  unfold removePageQue
  split_ifs
  · rw [kind_setPrev, kind_setNext]
  · rfl

theorem pageQue_eq (hk : (q' z).kind = (q z).kind) (hl : pageLinks q' z = pageLinks q z) :
    q' z = q z := by
  unfold PageQue.kind at hk
  unfold pageLinks at hl
  cases hq : q z
  cases hq' : q' z
  rw [hq, hq'] at hk hl
  simp_all

/-! ## The entries of a run -/

/-- The entries tell the state and the length of the run at both of its ends. -/
structure RunAt (q : ℕ → PageQue) (a : PageArea) : Prop where
  use : (q a.addr).use = a.st
  cont : (q a.addr).cont = decide (1 < a.size)
  second : 1 < a.size → (q (a.addr + 1)).next = a.size
  last : 1 < a.size → (q (a.addr + a.size - 1)).cont = true ∧ (q (a.addr + a.size - 1)).use = a.st ∧
    (q (a.addr + a.size - 1)).next = a.size

theorem RunAt.numOfPages (h : RunAt q a) (hpos : 0 < a.size) : NumOfPages q a.addr = a.size := by
  unfold NumOfPages
  rw [h.cont]
  by_cases h1 : 1 < a.size
  · rw [decide_eq_true h1, if_pos rfl]
    exact h.second h1
  · rw [decide_eq_false h1, if_neg Bool.false_ne_true]
    omega

/-- What the run behind it reads: state and length at the last page. -/
theorem RunAt.back (h : RunAt q a) (hpos : 0 < a.size) :
    (q (a.addr + a.size - 1)).use = a.st ∧
      (if (q (a.addr + a.size - 1)).cont then (q (a.addr + a.size - 1)).next else 1) = a.size := by
  by_cases h1 : 1 < a.size
  · obtain ⟨hc, hu, hn⟩ := h.last h1
    exact ⟨hu, by rw [hc, if_pos rfl, hn]⟩
  · have he : a.size = 1 := by omega
    rw [he, Nat.add_sub_cancel, h.cont, he]
    exact ⟨h.use, rfl⟩

/-- The entries of a run are read but for the links of the first one. -/
theorem RunAt.congr (h : RunAt q a) (hk : (q' a.addr).kind = (q a.addr).kind)
    (hin : ∀ z, a.addr < z → z < a.addr + a.size → q' z = q z) : RunAt q' a := by
  obtain ⟨hcont, huse, -⟩ := Prod.mk.inj hk |>.imp_right Prod.mk.inj
  refine ⟨huse.trans h.use, hcont.trans h.cont, fun h1 => ?_, fun h1 => ?_⟩
  · rw [hin _ (by omega) (by omega)]
    exact h.second h1
  · rw [hin _ (by omega) (by omega)]
    exact h.last h1

theorem setRun_of_not_mem (hz : z < pn ∨ pn + n ≤ z) (hn : 0 < n) :
    setRun q pn n use atr z = q z := by
  unfold setRun
  have h0 : z ≠ pn := by omega
  have h1 (h : n > 1) : z ≠ pn + 1 := by omega
  have h2 : z ≠ pn + n - 1 := by omega
  by_cases hn1 : n > 1
  · by_cases hn2 : n > 2
    · rw [if_pos hn2, if_pos hn1, Function.update_of_ne h2, Function.update_of_ne (h1 hn1),
        Function.update_of_ne h0]
    · rw [if_neg hn2, if_pos hn1, Function.update_of_ne (h1 hn1), Function.update_of_ne h0]
  · rw [if_neg (by omega), if_neg hn1, Function.update_of_ne h0]

theorem runAt_setRun (q : ℕ → PageQue) (pn : ℕ) (hn : 0 < n) (use : Bool) (atr : ℕ) :
    RunAt (setRun q pn n use atr) ⟨pn, n, use⟩ := by
  have hfirst : setRun q pn n use atr pn = { q pn with use := use, cont := n > 1, atr := atr } := by
    unfold setRun
    have h1 : pn ≠ pn + 1 := by omega
    by_cases hn1 : n > 1
    · have h2 : pn ≠ pn + n - 1 := by omega
      by_cases hn2 : n > 2
      · rw [if_pos hn2, if_pos hn1, Function.update_of_ne h2, Function.update_of_ne h1,
          Function.update_self]
      · rw [if_neg hn2, if_pos hn1, Function.update_of_ne h1, Function.update_self]
    · rw [if_neg (by omega), if_neg hn1, Function.update_self]
  have hsecond (hn1 : n > 1) : setRun q pn n use atr (pn + 1) = ⟨true, use, n, 0, 0⟩ := by
    unfold setRun
    by_cases hn2 : n > 2
    · rw [if_pos hn2, if_pos hn1, Function.update_of_ne (by omega), Function.update_self]
    · rw [if_neg hn2, if_pos hn1, Function.update_self]
  have hlast (hn1 : n > 1) : setRun q pn n use atr (pn + n - 1) = ⟨true, use, n, 0, 0⟩ := by
    by_cases hn2 : n > 2
    · unfold setRun
      rw [if_pos hn2, Function.update_self]
    · have : pn + n - 1 = pn + 1 := by omega
      rw [this, hsecond hn1]
  refine ⟨?_, ?_, fun h1 => ?_, fun h1 => ?_⟩
  · show (setRun q pn n use atr pn).use = use
    rw [hfirst]
  · show (setRun q pn n use atr pn).cont = _
    rw [hfirst]
  · show (setRun q pn n use atr (pn + 1)).next = n
    rw [hsecond h1]
  · show (setRun q pn n use atr (pn + n - 1)).cont = true ∧ _
    rw [hlast h1]
    exact ⟨rfl, rfl, rfl⟩

/-! ## The table -/

/-- The table of `max` pages: the runs `all` tile them, the entries of the runs `known` can be
trusted, and the free ones among these are queued as `free`. -/
structure PageMap (max : ℕ) (q : ℕ → PageQue) (all known free : List PageArea) : Prop where
  tiles : Tiles 0 1 all (max + 1)
  pos : ∀ a ∈ all, 0 < a.size
  sub : known ⊆ all
  runs : ∀ a ∈ known, RunAt q a
  ring : IsRing (pageLinks q) 0 (free.map Area.addr)
  perm : free.Perm (known.filter fun a => !a.st)
  sorted : free.Pairwise fun a b => a.size ≤ b.size

variable {max : ℕ} {all known free l₁ l₂ l₃ : List PageArea}

theorem PageMap.free_sub (h : PageMap max q all known free) (ha : a ∈ free) :
    a ∈ known ∧ a.st = false := by
  have := List.mem_filter.mp (h.perm.subset ha)
  simpa using this

theorem PageMap.addr_pos (h : PageMap max q all known free) (ha : a ∈ all) :
    0 < a.addr ∧ a.addr + a.size ≤ max + 1 := by
  have := h.tiles.bounds ha
  omega

theorem PageMap.inside (h : PageMap max q all known free) (ha : a ∈ all) (hz : a.addr < z)
    (hz' : z < a.addr + a.size) : z ∉ 0 :: all.map Area.addr := by
  intro hm
  rcases List.mem_cons.mp hm with rfl | hm
  · exact absurd hz (Nat.not_lt_zero _)
  · obtain ⟨b, hb, rfl⟩ := List.mem_map.mp hm
    have hpos := h.pos b hb
    rcases h.tiles.eq_or_apart ha hb with rfl | h' | h' <;> omega

/-- The queue routines write links at the starts of runs only. -/
theorem PageMap.runs_congr (h : PageMap max q all known free) (hk : ∀ z, (q' z).kind = (q z).kind)
    (hl : ∀ z, z ∉ 0 :: all.map Area.addr → pageLinks q' z = pageLinks q z) (ha : a ∈ all)
    (hr : RunAt q a) : RunAt q' a :=
  hr.congr (hk _) fun z hz hz' => pageQue_eq (hk z) (hl z (h.inside ha hz hz'))

theorem PageMap.ring_sub (h : PageMap max q all known free) :
    ∀ z ∈ 0 :: free.map Area.addr, z ∈ 0 :: all.map Area.addr := by
  intro z hz
  rcases List.mem_cons.mp hz with rfl | hz
  · exact List.mem_cons_self
  · obtain ⟨b, hb, rfl⟩ := List.mem_map.mp hz
    exact List.mem_cons_of_mem 0 (List.mem_map.mpr ⟨b, h.sub (h.free_sub hb).1, rfl⟩)

theorem PageMap.takeUsed (h : PageMap max q all (l₁ ++ a :: l₂) free) (ha : a.st = true) :
    PageMap max q all (l₁ ++ l₂) free := by
  have hsub : l₁ ++ l₂ ⊆ l₁ ++ a :: l₂ :=
    (List.Sublist.append (List.Sublist.refl l₁) (List.sublist_cons_self a l₂)).subset
  refine ⟨h.tiles, h.pos, fun x hx => h.sub (hsub hx), fun x hx => h.runs x (hsub hx), h.ring,
    ?_, h.sorted⟩
  have := h.perm
  rw [List.filter_append, List.filter_cons_of_neg (by simp [ha]), ← List.filter_append] at this
  exact this

/-- A free run leaves the queue. -/
theorem PageMap.takeFree (h : PageMap max q all (l₁ ++ a :: l₂) free) (ha : a.st = false) :
    ∃ free', free.Perm (a :: free') ∧ RunAt (removePageQue q a.addr) a ∧
      PageMap max (removePageQue q a.addr) all (l₁ ++ l₂) free' := by
  have hmid : a ∈ l₁ ++ a :: l₂ := List.mem_append_right l₁ List.mem_cons_self
  have hsub : l₁ ++ l₂ ⊆ l₁ ++ a :: l₂ :=
    (List.Sublist.append (List.Sublist.refl l₁) (List.sublist_cons_self a l₂)).subset
  have hfree : a ∈ free := h.perm.mem_iff.mpr (List.mem_filter.mpr ⟨hmid, by rw [ha]; rfl⟩)
  obtain ⟨f₁, f₂, rfl⟩ := List.append_of_mem hfree
  have hring := h.ring
  rw [List.map_append, List.map_cons] at hring
  have hruns (x : PageArea) (hx : x ∈ l₁ ++ a :: l₂) : RunAt (removePageQue q a.addr) x := by
    refine h.runs_congr (kind_remove q a.addr) (fun z hz => ?_) (h.sub hx) (h.runs x hx)
    rw [pageLinks_remove]
    refine hring.unlink_frame fun hm => hz (h.ring_sub z ?_)
    rw [← List.map_append] at hm
    rcases List.mem_cons.mp hm with rfl | hm
    · exact List.mem_cons_self
    · refine List.mem_cons_of_mem 0 (List.map_subset _ ?_ hm)
      exact (List.Sublist.append (List.Sublist.refl f₁) (List.sublist_cons_self a f₂)).subset
  refine ⟨f₁ ++ f₂, List.perm_middle, hruns a hmid, ⟨h.tiles, h.pos, fun x hx => h.sub (hsub hx),
    fun x hx => hruns x (hsub hx), ?_, ?_,
    h.sorted.sublist (List.Sublist.append (List.Sublist.refl f₁) (List.sublist_cons_self a f₂))⟩⟩
  · rw [pageLinks_remove, List.map_append]
    exact hring.unlink
  · have hp := h.perm
    rw [List.filter_append, List.filter_cons_of_pos (by rw [ha]; rfl)] at hp
    rw [List.filter_append]
    exact ((List.perm_middle.symm.trans hp).trans List.perm_middle).cons_inv

theorem PageMap.join {b : PageArea} (h : PageMap max q (l₁ ++ a :: b :: l₂) (l₁ ++ l₂) free)
    (st : Bool) :
    PageMap max q (l₁ ++ ⟨a.addr, a.size + b.size, st⟩ :: l₂) (l₁ ++ l₂) free := by
  refine ⟨h.tiles.join st, fun x hx => ?_, fun x hx => ?_, h.runs, h.ring, h.perm, h.sorted⟩
  · rcases List.mem_append.mp hx with hx | hx
    · exact h.pos x (List.mem_append_left _ hx)
    · rcases List.mem_cons.mp hx with rfl | hx
      · have := h.pos a (List.mem_append_right _ List.mem_cons_self)
        exact Nat.add_pos_left this _
      · exact h.pos x (List.mem_append_right _ (List.mem_cons_of_mem _ (List.mem_cons_of_mem _ hx)))
  · rcases List.mem_append.mp hx with hx | hx
    · exact List.mem_append_left _ hx
    · exact List.mem_append_right _ (List.mem_cons_of_mem _ hx)

theorem PageMap.cut (h : PageMap max q (l₁ ++ a :: l₂) (l₁ ++ l₂) free) (h0 : 0 < n)
    (hn : n < a.size) (st st' : Bool) :
    PageMap max q (l₁ ++ ⟨a.addr, n, st⟩ :: ⟨a.addr + n, a.size - n, st'⟩ :: l₂)
      (l₁ ++ l₂) free := by
  have hsize : a.size = n + 0 + (a.size - n) := by omega
  refine ⟨h.tiles.split hsize st st', fun x hx => ?_, fun x hx => ?_, h.runs, h.ring,
    h.perm, h.sorted⟩
  · rcases List.mem_append.mp hx with hx | hx
    · exact h.pos x (List.mem_append_left _ hx)
    · rcases List.mem_cons.mp hx with rfl | hx
      · exact h0
      rcases List.mem_cons.mp hx with rfl | hx
      · exact Nat.sub_pos_of_lt hn
      · exact h.pos x (List.mem_append_right _ (List.mem_cons_of_mem _ hx))
  · rcases List.mem_append.mp hx with hx | hx
    · exact List.mem_append_left _ hx
    · exact List.mem_append_right _ (List.mem_cons_of_mem _ (List.mem_cons_of_mem _ hx))

/-! ## Entries are written -/

theorem PageMap.around (h : PageMap max q (l₁ ++ r :: l₃) (l₁ ++ l₂) free) (hl : l₂ ⊆ l₃)
    (ha : a ∈ l₁ ++ l₂) : a.addr + a.size ≤ r.addr ∨ r.addr + r.size ≤ a.addr := by
  obtain ⟨h₁, h₂⟩ := tiles_middle.mp h.tiles
  rcases List.mem_append.mp ha with ha | ha
  · exact Or.inl (h₁.bounds ha).2
  · exact Or.inr (h₂.bounds (hl ha)).1

/-- Only the run in hand is written; all others are kept. -/
theorem PageMap.write (h : PageMap max q (l₁ ++ r :: l₃) (l₁ ++ l₂) free) (hl : l₂ ⊆ l₃)
    (use : Bool) (hq : ∀ z, z < r.addr ∨ r.addr + r.size ≤ z → q' z = q z) :
    PageMap max q' (l₁ ++ { r with st := use } :: l₃) (l₁ ++ l₂) free := by
  have hpos := h.pos r (List.mem_append_right _ List.mem_cons_self)
  refine ⟨h.tiles.setState use, fun x hx => ?_, fun x hx => ?_, fun x hx => ?_, ?_,
    h.perm, h.sorted⟩
  · rcases List.mem_append.mp hx with hx | hx
    · exact h.pos x (List.mem_append_left _ hx)
    rcases List.mem_cons.mp hx with rfl | hx
    · exact hpos
    · exact h.pos x (List.mem_append_right _ (List.mem_cons_of_mem _ hx))
  · rcases List.mem_append.mp hx with hx | hx
    · exact List.mem_append_left _ hx
    · exact List.mem_append_right _ (List.mem_cons_of_mem _ (hl hx))
  · have hxpos := h.pos x (h.sub hx)
    have hor := h.around hl hx
    exact (h.runs x hx).congr (by rw [hq x.addr (by omega)]) fun z h₁ h₂ => hq z (by omega)
  · refine h.ring.congr fun z hz => ?_
    have hr := h.addr_pos (List.mem_append_right l₁ (@List.mem_cons_self _ r l₃))
    have hz' : z < r.addr ∨ r.addr + r.size ≤ z := by
      rcases List.mem_cons.mp hz with rfl | hz
      · exact Or.inl hr.1
      · obtain ⟨b, hb, rfl⟩ := List.mem_map.mp hz
        have hbk := (h.free_sub hb).1
        have := h.pos b (h.sub hbk)
        have := h.around hl hbk
        omega
    unfold pageLinks
    rw [hq z hz']

theorem PageMap.trust (h : PageMap max q (l₁ ++ r :: l₃) (l₁ ++ l₂) free) (hr : RunAt q r)
    (hst : r.st = true) : PageMap max q (l₁ ++ r :: l₃) (l₁ ++ r :: l₂) free := by
  refine ⟨h.tiles, h.pos, fun x hx => ?_, fun x hx => ?_, h.ring, ?_, h.sorted⟩
  · rcases List.mem_append.mp hx with hx | hx
    · exact h.sub (List.mem_append_left _ hx)
    rcases List.mem_cons.mp hx with rfl | hx
    · exact List.mem_append_right _ List.mem_cons_self
    · exact h.sub (List.mem_append_right _ hx)
  · rcases List.mem_append.mp hx with hx | hx
    · exact h.runs x (List.mem_append_left _ hx)
    rcases List.mem_cons.mp hx with rfl | hx
    · exact hr
    · exact h.runs x (List.mem_append_right _ hx)
  · rw [List.filter_append, List.filter_cons_of_neg (by simp [hst]), ← List.filter_append]
    exact h.perm

theorem PageMap.setUsePages (h : PageMap max q (l₁ ++ r :: l₃) (l₁ ++ l₂) free) (hl : l₂ ⊆ l₃)
    (atr : ℕ) :
    PageMap max (setUsePages q r.addr r.size atr) (l₁ ++ ⟨r.addr, r.size, true⟩ :: l₃)
      (l₁ ++ ⟨r.addr, r.size, true⟩ :: l₂) free := by
  have hpos := h.pos r (List.mem_append_right _ List.mem_cons_self)
  -- the links of the first entry are in no queue
  have hother (z : ℕ) (hz : z ≠ r.addr) :
      SmpTKernel.setUsePages q r.addr r.size atr z = setRun q r.addr r.size true atr z := by
    unfold SmpTKernel.setUsePages initPageQue setPageNext setPagePrev
    rw [Function.update_of_ne hz, Function.update_of_ne hz]
  have hk : (SmpTKernel.setUsePages q r.addr r.size atr r.addr).kind =
      (setRun q r.addr r.size true atr r.addr).kind := by
    unfold SmpTKernel.setUsePages initPageQue
    rw [kind_setNext, kind_setPrev]
  have hrun := (runAt_setRun q r.addr hpos true atr).congr hk fun z h₁ _ => hother z h₁.ne'
  refine (h.write hl true fun z hz => ?_).trust hrun rfl
  rw [hother z (by omega), setRun_of_not_mem hz hpos]

/-! ## The queue of free runs -/

section Search

variable (ring : IsRing (pageLinks q) 0 (free.map Area.addr))
  (sizes : ∀ a ∈ free, 0 < a.addr ∧ NumOfPages q a.addr = a.size)
  (sorted : free.Pairwise fun a b => a.size ≤ b.size)

include ring sizes sorted

theorem searchFreeQueLoop_eq (n : ℕ) {fuel : ℕ} : ∀ {l r : List PageArea}, free = l ++ r →
    (∀ a ∈ l, a.size < n) → r.length < fuel →
    ∃ l' r', free = l' ++ r' ∧ (∀ a ∈ l', a.size < n) ∧ (∀ a ∈ r', n ≤ a.size) ∧
      searchFreeQueLoop q n fuel ((l.map Area.addr).getLastD 0) = (r'.map Area.addr).headD 0 := by
  induction fuel with
  | zero => exact fun _ _ hf => absurd hf (Nat.not_lt_zero _)
  | succ fuel ih =>
    intro l r e hl hf
    rw [e, List.map_append] at ring
    have hn : (q ((l.map Area.addr).getLastD 0)).next = (r.map Area.addr).headD 0 := ring.linked.1
    rw [searchFreeQueLoop]
    simp only [hn]
    cases r with
    | nil => exact ⟨l, [], e, hl, nofun, if_neg (Nat.lt_irrefl 0)⟩
    | cons b r =>
      obtain ⟨hpos, hsize⟩ := sizes b (e ▸ List.mem_append_right l List.mem_cons_self)
      rw [List.map_cons, List.headD_cons, if_pos hpos, hsize]
      by_cases hle : b.size ≥ n
      · -- the others are no smaller
        refine ⟨l, b :: r, e, hl, fun a ha => ?_, if_pos hle⟩
        rcases List.mem_cons.mp ha with rfl | ha
        · exact hle
        · rw [e, List.pairwise_append, List.pairwise_cons] at sorted
          exact hle.le.trans (sorted.2.1.1 a ha)
      · rw [if_neg hle]
        have e' : free = (l ++ [b]) ++ r := by
          rw [e, List.append_assoc]
          rfl
        have hl' (a : PageArea) (ha : a ∈ l ++ [b]) : a.size < n := by
          rcases List.mem_append.mp ha with ha | ha
          · exact hl a ha
          · rw [List.mem_singleton.mp ha]
            exact not_le.mp hle
        have h := ih e' hl' (Nat.lt_of_succ_lt_succ hf)
        rwa [List.map_append, List.map_singleton, List.getLastD_concat] at h

/-- **The search** splits the queue into the runs that are too short and the others, and gives the
first of the others. -/
theorem searchFreeQue_eq (n : ℕ) (hlen : free.length < PAGENUMBERS) :
    ∃ l r, free = l ++ r ∧ (∀ a ∈ l, a.size < n) ∧ (∀ a ∈ r, n ≤ a.size) ∧
      searchFreeQue q n = (r.map Area.addr).headD 0 :=
  searchFreeQueLoop_eq ring sizes sorted n (l := []) rfl nofun hlen

end Search

theorem PageMap.length_le (h : PageMap max q all known free) : free.length ≤ max + 1 := by
  have hsub : free.map Area.addr ⊆ List.range (max + 1) := by
    intro z hz
    obtain ⟨a, ha, rfl⟩ := List.mem_map.mp hz
    have hall := h.sub (h.free_sub ha).1
    have := h.addr_pos hall
    have := h.pos a hall
    exact List.mem_range.mpr (by omega)
  have hlen := (List.Nodup.subperm (List.nodup_cons.mp h.ring.nodup).2 hsub).length_le
  rwa [List.length_map, List.length_range] at hlen

theorem PageMap.search (h : PageMap max q all known free) (hmax : max + 1 < PAGENUMBERS) (n : ℕ) :
    ∃ l r, free = l ++ r ∧ (∀ a ∈ l, a.size < n) ∧ (∀ a ∈ r, n ≤ a.size) ∧
      searchFreeQue q n = (r.map Area.addr).headD 0 := by
  refine searchFreeQue_eq h.ring (fun a ha => ?_) h.sorted n (h.length_le.trans_lt hmax)
  have hk := (h.free_sub ha).1
  exact ⟨(h.addr_pos (h.sub hk)).1, (h.runs a hk).numOfPages (h.pos a (h.sub hk))⟩

/-- **The run in hand is free.** It is queued by its length. -/
theorem PageMap.appendFreePages (h : PageMap max q (l₁ ++ r :: l₂) (l₁ ++ l₂) free)
    (hmax : max + 1 < PAGENUMBERS) :
    ∃ free', free'.Perm (⟨r.addr, r.size, false⟩ :: free) ∧
      PageMap max (appendFreePages q r.addr r.size) (l₁ ++ ⟨r.addr, r.size, false⟩ :: l₂)
        (l₁ ++ ⟨r.addr, r.size, false⟩ :: l₂) free' := by
  have hpos := h.pos r (List.mem_append_right _ List.mem_cons_self)
  have hset : PageMap max (setRun q r.addr r.size false 0) (l₁ ++ { r with st := false } ::
      l₂) _ _ :=
    h.write (List.Subset.refl l₂) false fun z hz => setRun_of_not_mem hz hpos
  have hrun := runAt_setRun q r.addr hpos false 0
  obtain ⟨f₁, f₂, rfl, h₁, h₂, hins⟩ := hset.search hmax r.size
  have hmem : ({ r with st := false } : PageArea) ∈ l₁ ++ { r with st := false } :: l₂ :=
    List.mem_append_right _ List.mem_cons_self
  -- the run is not queued yet
  have hnew : r.addr ∉ 0 :: (f₁.map Area.addr ++ f₂.map Area.addr) := by
    rw [← List.map_append]
    intro hm
    rcases List.mem_cons.mp hm with hm | hm
    · exact absurd hm (hset.addr_pos hmem).1.ne'
    · obtain ⟨b, hb, hb'⟩ := List.mem_map.mp hm
      have hbk := (hset.free_sub hb).1
      have hbpos := h.pos b (h.sub hbk)
      have := h.around (List.Subset.refl l₂) hbk
      omega
  have hring := hset.ring
  rw [List.map_append] at hring
  have hk := kind_insert (setRun q r.addr r.size false 0)
    ((f₂.map Area.addr).headD 0) r.addr
  have hl (z : ℕ) (hz : z ∉ 0 :: (l₁ ++ { r with st := false } :: l₂).map Area.addr) :
      pageLinks (insertPageQue (setRun q r.addr r.size false 0)
        ((f₂.map Area.addr).headD 0) r.addr) z =
      pageLinks (setRun q r.addr r.size false 0) z := by
    rw [pageLinks_insert]
    refine hring.insertBefore_frame hnew (fun hm => hz (hset.ring_sub z ?_)) fun e => hz ?_
    · rwa [List.map_append]
    · exact List.mem_cons_of_mem 0 (List.mem_map.mpr ⟨_, hmem, e.symm⟩)
  have heq : SmpTKernel.appendFreePages q r.addr r.size =
      insertPageQue (setRun q r.addr r.size false 0) ((f₂.map Area.addr).headD 0) r.addr := by
    show insertPageQue _ (searchFreeQue _ _) _ = _
    rw [hins]
  refine ⟨f₁ ++ ⟨r.addr, r.size, false⟩ :: f₂, List.perm_middle, ⟨hset.tiles, hset.pos,
    List.Subset.refl _, fun x hx => ?_, ?_, ?_, ?_⟩⟩
  · rw [heq]
    refine hset.runs_congr hk hl hx ?_
    rcases List.mem_append.mp hx with hx | hx
    · exact hset.runs x (List.mem_append_left _ hx)
    rcases List.mem_cons.mp hx with rfl | hx
    · exact hrun
    · exact hset.runs x (List.mem_append_right _ hx)
  · rw [heq, pageLinks_insert, List.map_append, List.map_cons]
    exact hring.insertBefore hnew
  · rw [List.filter_append, List.filter_cons_of_pos (by rfl)]
    refine (List.perm_middle.trans ?_).trans List.perm_middle.symm
    rw [← List.filter_append]
    exact hset.perm.cons _
  · have hsorted := List.pairwise_append.mp hset.sorted
    refine List.pairwise_append.mpr ⟨hsorted.1, List.pairwise_cons.mpr ⟨h₂, hsorted.2.1⟩, ?_⟩
    intro a ha b hb
    rcases List.mem_cons.mp hb with rfl | hb
    · exact (h₁ a ha).le
    · exact hsorted.2.2 a ha b hb

end SmpTKernel
