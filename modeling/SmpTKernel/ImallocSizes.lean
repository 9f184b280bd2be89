import SmpTKernel.ImallocRoom

/-!
# Sizes of kernel areas

What the kernel allocation returns for sizes near the top of `size_t`. A call is safe if the area it
returns has room for all bytes that were asked for; which calls are safe depends on the size and on
what is free.
-/

namespace SmpTKernel

open LinkRing Words Tiling

variable {s s₀ : Imacb} {asked : List (ℕ × Bool)} {out : List (ℕ × ℤ)} {held : List (ℕ × ℕ)}
  {b : ℕ × ℕ} {call : ImCall} {ptr q n : ℕ} {z : ℤ}

/-! ## Operations -/

/-- The critical sections of the calls for any size. -/
inductive ImSizeOp
  | malloc (size : ℕ)
  | calloc (nmemb size : ℕ)
  /-- `GetSysMemBlk` returned `q` for a call for `n` bytes. -/
  | pages (n : ℕ) (zero : Bool) (q : Option ℕ)
  | free (ptr : ℕ) (di : Bool)
  | write (mem : Mem)

namespace ImSizeOp

/-- The operation of the model. -/
def op : ImSizeOp → ImOp
  | malloc size => .malloc size
  | calloc nmemb size => .calloc nmemb size
  | pages n zero q => .pages ⟨n % 2 ^ 32, zero⟩ q
  | free ptr di => .free ptr di
  | write mem => .write mem

/-- The number of bytes that the caller wants. -/
def bytes : ImSizeOp → ℕ
  | malloc size => size
  | calloc nmemb size => nmemb * size
  | pages n _ _ => n
  | free _ _ | write _ => 0

/-- The calls that get pages. -/
def trackAsked (asked : List (ℕ × Bool)) (ev : List ImEvent) : ImSizeOp → List (ℕ × Bool)
  | malloc size => if ev = [] then (size, false) :: asked else asked
  | calloc nmemb size => if ev = [] then (nmemb * size, true) :: asked else asked
  | pages n zero _ => asked.erase (n, zero)
  | free _ _ | write _ => asked

/-- Sizes are 32-bit. `GetSysMemBlk` returns fresh pages, for 0 pages any address outside the
heap. -/
def Legal (s : Imacb) (asked : List (ℕ × Bool)) (out : List (ℕ × ℤ)) (held : List (ℕ × ℕ)) :
    ImSizeOp → Prop
  | malloc size => size < 2 ^ 32
  | calloc nmemb size => nmemb < 2 ^ 32 ∧ size < 2 ^ 32
  | pages n zero q => (n, zero) ∈ asked ∧ ∀ a ∈ q, Fresh s held a (imPages s ⟨n % 2 ^ 32, zero⟩)
  | free ptr _ => ptr ∈ out.map Prod.fst
  | write mem => (ImOp.write mem).Legal s out held

/-- The bytes can be rounded to areas and pages, or nothing is found for what they are rounded
to. -/
def Fits (s : Imacb) : ImSizeOp → Prop
  | malloc size => SizeOk s.pagesz size ∨ searchFreeArea s.cfg s.mem (imSize size) = s.cfg.freeque
  | calloc nmemb size =>
    SizeOk s.pagesz (nmemb * size) ∨
      searchFreeArea s.cfg s.mem (imSize (nmemb * size % 2 ^ 32)) = s.cfg.freeque
  | pages n _ q => SizeOk s.pagesz n ∨ q = none
  | free _ _ | write _ => True

/-- An area that is returned has room for the bytes. -/
def Safe (s : Imacb) (out : List (ℕ × ℤ)) (held : List (ℕ × ℕ)) (o : ImSizeOp) : Prop :=
  let r := o.op.run s
  ∀ size ptr, .got size ptr ∈ r.2 →
    AreaRoom r.1 (r.2.foldl ImEvent.track out) (r.2.foldl ImEvent.trackPages held) ptr o.bytes

end ImSizeOp

/-- Runs of operations that fit: the state, the calls that get pages, the outstanding areas and the
blocks of pages. -/
inductive ImSizeRun (s₀ : Imacb) : Imacb → List (ℕ × Bool) → List (ℕ × ℤ) → List (ℕ × ℕ) → Prop
  | init : ImSizeRun s₀ s₀ [] [] []
  | step {s : Imacb} {asked : List (ℕ × Bool)} {out : List (ℕ × ℤ)} {held : List (ℕ × ℕ)}
      (o : ImSizeOp) :
      ImSizeRun s₀ s asked out held → o.Legal s asked out held → o.Fits s →
      ImSizeRun s₀ (o.op.run s).1 (o.trackAsked asked (o.op.run s).2)
        ((o.op.run s).2.foldl ImEvent.track out)
        ((o.op.run s).2.foldl ImEvent.trackPages held)

/-! ## Blocks of pages -/

/-- Blocks of pages do not reach around the address space, and none is the whole of it. -/
theorem ImInv.block_le (inv : ImInv s out held) (hb : b ∈ held) :
    b.1 + b.2 * s.pagesz ≤ 2 ^ 32 ∧ b.2 * s.pagesz < 2 ^ 32 := by
  obtain ⟨B, ⟨⟨G, heap⟩, -, -⟩, hB⟩ := inv.heap
  obtain ⟨b', hb', hbase, hfin⟩ := inv.exists_block hB hb
  have hle := heap.fin_le b' hb'
  have hlt := inv.lt
  have hq : QUEUESZ = 8 := rfl
  have havoid : s.areaque + QUEUESZ ≤ b'.base ∨ b'.fin + QUEUESZ ≤ s.areaque := heap.areaque b' hb'
  omega

/-- Sizes that cannot be rounded have no room in whole pages. -/
theorem not_areaRoom (hdvd : s.pagesz ∣ 2 ^ 32) (hlt : s.pagesz < 2 ^ 32) (hn : ¬SizeOk s.pagesz n)
    (hblock : ∀ b ∈ held, b.2 * s.pagesz < 2 ^ 32) : ¬AreaRoom s out held ptr n := by
  rintro ⟨⟨b, hb, h₁, h₂⟩, -⟩
  have hq : QUEUESZ = 8 := rfl
  have hmf : MIN_FRAGMENT = 16 := rfl
  obtain ⟨k, hk⟩ := hdvd
  have hpage : s.pagesz ≤ 2 ^ 31 := by
    have hk1 : k ≠ 1 := fun e => by rw [e] at hk; omega
    have hk0 : k ≠ 0 := fun e => by rw [e] at hk; omega
    have := Nat.mul_le_mul_left s.pagesz (show 2 ≤ k by omega)
    omega
  -- what a block leaves of the address space is at least a page
  have hle : b.2 * s.pagesz + s.pagesz ≤ 2 ^ 32 := by
    have hlt := hblock b hb
    rw [hk, Nat.mul_comm s.pagesz] at hlt ⊢
    have := Nat.lt_of_mul_lt_mul_right hlt
    rw [← Nat.succ_mul]
    exact Nat.mul_le_mul_right _ this
  unfold SizeOk at hn
  have h₂ : (ptr : ℤ) + n + QUEUESZ ≤ b.1 + (b.2 * s.pagesz : ℕ) := by exact_mod_cast h₂
  omega

/-! ## The invariant -/

/-- Without the calls that get pages. -/
def Imacb.idle (s : Imacb) : Imacb := { s with pending := [] }

/-- Which calls get pages does not matter to the first half of a call. -/
theorem imalloc_idle (s : Imacb) (call : ImCall) :
    (imalloc s.idle call).2 = (imalloc s call).2 ∧
    (imalloc s.idle call).1.idle = (imalloc s call).1.idle := by
  unfold imalloc
  dsimp only
  have hcfg : s.idle.cfg = s.cfg := rfl
  have hmem : s.idle.mem = s.mem := rfl
  rw [hcfg, hmem]
  split_ifs <;> exact ⟨rfl, rfl⟩

theorem ifree_idle (s : Imacb) (ptr : ℕ) (di : Bool) :
    (ifree s.idle ptr di).2 = (ifree s ptr di).2 ∧
      (ifree s.idle ptr di).1.idle = (ifree s ptr di).1.idle ∧
      ∀ size p, .got size p ∉ (ifree s ptr di).2 := by
  unfold ifree
  dsimp only
  have hcfg : s.idle.cfg = s.cfg := rfl
  have hmem : s.idle.mem = s.mem := rfl
  rw [hcfg, hmem]
  split_ifs
  · exact ⟨rfl, rfl, by simp⟩
  · exact ⟨rfl, rfl, by simp⟩

theorem ImInv.to_idle (inv : ImInv s out held) : ImInv s.idle out held :=
  ⟨⟨inv.dvd, inv.lt, inv.page, inv.page_pos, nofun, inv.full⟩, inv.heap⟩

theorem mod_of_sizeOk {pagesz : ℕ} (h : SizeOk pagesz n) : n % 2 ^ 32 = n := by
  unfold SizeOk at h
  have hq : QUEUESZ = 8 := rfl
  exact Nat.mod_eq_of_lt (by omega)

/-- What one operation comes to: the invariant, and an area for the bytes if one is returned. -/
theorem malloc_size (inv : ImInv s.idle out held)
    (hfit : SizeOk s.pagesz n ∨ searchFreeArea s.cfg s.mem (imSize (n % 2 ^ 32)) = s.cfg.freeque)
    (zero : Bool) :
    let r := imalloc s ⟨n % 2 ^ 32, zero⟩
    ImInv r.1.idle (r.2.foldl ImEvent.track out) (r.2.foldl ImEvent.trackPages held) ∧
      ∀ size ptr, .got size ptr ∈ r.2 → (ptr, (n : ℤ)) ∈ r.2.foldl ImEvent.track out := by
  intro r
  obtain ⟨hev, hidle⟩ := imalloc_idle s ⟨n % 2 ^ 32, zero⟩
  by_cases hs : searchFreeArea s.cfg s.mem (imSize (n % 2 ^ 32)) = s.cfg.freeque
  · -- nothing is returned yet
    have hr : r = ({ s with pending := ⟨n % 2 ^ 32, zero⟩ :: s.pending }, []) :=
      if_neg (not_not_intro hs)
    rw [hr]
    exact ⟨inv, nofun⟩
  · have hsize := hfit.resolve_right hs
    have hmod := mod_of_sizeOk hsize
    have hround : SizeOk s.idle.pagesz (⟨n % 2 ^ 32, zero⟩ : ImCall).size := by
      rw [hmod]
      exact hsize
    obtain ⟨hinv, hgot⟩ := inv.imalloc hround
    rw [hev] at hinv hgot
    have hpages : (imalloc s ⟨n % 2 ^ 32, zero⟩).2.foldl ImEvent.trackPages held = held :=
      trackPages_got hgot
    rw [hpages]
    refine ⟨hidle ▸ hinv.to_idle, fun size ptr h => ?_⟩
    rcases imalloc_events s ⟨n % 2 ^ 32, zero⟩ with e | ⟨ptr', e⟩
    · rw [show r.2 = [] from e] at h
      exact absurd h List.not_mem_nil
    · rw [show r.2 = [.got (n % 2 ^ 32) ptr'] from e] at h ⊢
      cases List.mem_singleton.mp h
      rw [hmod]
      exact List.mem_cons_self

theorem pages_size (inv : ImInv s.idle out held) {zero : Bool} {q : Option ℕ}
    (hfit : SizeOk s.pagesz n ∨ q = none)
    (hq : ∀ a ∈ q, Fresh s held a (imPages s ⟨n % 2 ^ 32, zero⟩)) :
    let r := imallocPages s ⟨n % 2 ^ 32, zero⟩ q
    ImInv r.1.idle (r.2.foldl ImEvent.track out) (r.2.foldl ImEvent.trackPages held) ∧
      ∀ size ptr, .got size ptr ∈ r.2 → (ptr, (n : ℤ)) ∈ r.2.foldl ImEvent.track out := by
  intro r
  cases q with
  | none => exact ⟨inv, by simp [r, imallocPages]⟩
  | some q =>
    have hsize := hfit.resolve_right (Option.some_ne_none q)
    have hmod := mod_of_sizeOk hsize
    -- the same call, as the only one
    set s₁ : Imacb := { s with pending := [⟨n % 2 ^ 32, zero⟩] } with hs₁
    have inv₁ : ImInv s₁ out held := by
      refine ⟨⟨inv.dvd, inv.lt, inv.page, inv.page_pos, fun c hc => ?_, inv.full⟩, inv.heap⟩
      rw [List.mem_singleton.mp hc, hmod]
      exact hsize
    have hinv := (inv₁.pages List.mem_cons_self fun a ha =>
      ⟨(hq a ha).aligned, (hq a ha).le, (hq a ha).apart, (hq a ha).heads⟩).1
    refine ⟨hinv.to_idle, fun size ptr h => ?_⟩
    obtain ⟨ptr', e⟩ := imallocPages_some s ⟨n % 2 ^ 32, zero⟩ q
    rw [show r.2 = [.getSysMemBlk q (imPages s ⟨n % 2 ^ 32, zero⟩), .got (n % 2 ^ 32) ptr'] from
      e] at h ⊢
    rw [hmod] at h ⊢
    simp only [List.mem_cons, reduceCtorEq, ImEvent.got.injEq, false_or, List.not_mem_nil,
      or_false] at h
    rw [h.2]
    exact List.mem_cons_self

/-- **One operation that fits** keeps the heap and is safe. -/
theorem sizeOp_step {o : ImSizeOp} (inv : ImInv s.idle out held) (hop : o.Legal s asked out held)
    (hfit : o.Fits s) :
    let r := o.op.run s
    ImInv r.1.idle (r.2.foldl ImEvent.track out) (r.2.foldl ImEvent.trackPages held) ∧
    o.Safe s out held := by
  -- an outstanding area has room
  have hroom {r : Imacb × List ImEvent}
      (hinv : ImInv r.1.idle (r.2.foldl ImEvent.track out) (r.2.foldl ImEvent.trackPages held))
      {ptr k : ℕ} (h : (ptr, (k : ℤ)) ∈ r.2.foldl ImEvent.track out) :
      AreaRoom r.1 (r.2.foldl ImEvent.track out) (r.2.foldl ImEvent.trackPages held) ptr k := by
    obtain ⟨inside, apart⟩ := hinv.room h le_rfl
    exact ⟨inside, apart⟩
  cases o with
  | malloc size =>
    have hmod : size % 2 ^ 32 = size := Nat.mod_eq_of_lt hop
    obtain ⟨hinv, hgot⟩ := malloc_size inv (n := size) (by rw [hmod]; exact hfit) false
    rw [hmod] at hinv hgot
    exact ⟨hinv, fun size' ptr h => hroom hinv (hgot size' ptr h)⟩
  | calloc nmemb size =>
    obtain ⟨hinv, hgot⟩ := malloc_size inv hfit true
    exact ⟨hinv, fun size' ptr h => hroom hinv (hgot size' ptr h)⟩
  | pages n zero q =>
    obtain ⟨hinv, hgot⟩ := pages_size inv hfit hop.2
    exact ⟨hinv, fun size' ptr h => hroom hinv (hgot size' ptr h)⟩
  | free ptr di =>
    obtain ⟨⟨hinv, -⟩, -⟩ := inv.ifree hop di
    obtain ⟨hev, hidle, hgot⟩ := ifree_idle s ptr di
    rw [hev] at hinv
    exact ⟨hidle ▸ hinv.to_idle, fun size' ptr' h => absurd h (hgot size' ptr')⟩
  | write mem => exact ⟨inv.write hop, nofun⟩

/-- **One operation that does not fit** is not safe. -/
theorem not_safe {o : ImSizeOp} (inv : ImInv s.idle out held) (hdvd : s.pagesz ∣ 2 ^ 32)
    (hlt : s.pagesz < 2 ^ 32) (hop : o.Legal s asked out held) (hfit : ¬o.Fits s) :
    ¬o.Safe s out held := by
  have hblock (b : ℕ × ℕ) (hb : b ∈ held) : b.2 * s.pagesz < 2 ^ 32 := (inv.block_le hb).2
  have hmalloc (n : ℕ) (zero : Bool) (hsize : ¬SizeOk s.pagesz n)
      (hs : searchFreeArea s.cfg s.mem (imSize (n % 2 ^ 32)) ≠ s.cfg.freeque) :
      ∃ size ptr, .got size ptr ∈ (imalloc s ⟨n % 2 ^ 32, zero⟩).2 ∧
        ¬AreaRoom (imalloc s ⟨n % 2 ^ 32, zero⟩).1
          ((imalloc s ⟨n % 2 ^ 32, zero⟩).2.foldl ImEvent.track out)
          ((imalloc s ⟨n % 2 ^ 32, zero⟩).2.foldl ImEvent.trackPages held) ptr n := by
    have hr : imalloc s ⟨n % 2 ^ 32, zero⟩ = imReturn s ⟨n % 2 ^ 32, zero⟩ (memAlloc s.cfg
        (removeFreeQue s.mem (searchFreeArea s.cfg s.mem (imSize (n % 2 ^ 32))))
        (searchFreeArea s.cfg s.mem (imSize (n % 2 ^ 32)) - QUEUESZ) (imSize (n % 2 ^ 32))) :=
          if_pos hs
    rw [hr]
    exact ⟨_, _, List.mem_cons_self, not_areaRoom hdvd hlt hsize hblock⟩
  intro hsafe
  cases o with
  | malloc size =>
    obtain ⟨hsize, hs⟩ := not_or.mp hfit
    have hmod : size % 2 ^ 32 = size := Nat.mod_eq_of_lt hop
    obtain ⟨size', ptr, h, hroom⟩ := hmalloc size false hsize (by rwa [hmod])
    rw [hmod] at h hroom
    exact hroom (hsafe size' ptr h)
  | calloc nmemb size =>
    obtain ⟨hsize, hs⟩ := not_or.mp hfit
    obtain ⟨size', ptr, h, hroom⟩ := hmalloc _ true hsize hs
    exact hroom (hsafe size' ptr h)
  | pages n zero q =>
    obtain ⟨hsize, hq⟩ := not_or.mp hfit
    obtain ⟨q, rfl⟩ := Option.ne_none_iff_exists'.mp hq
    have hfresh := hop.2 q rfl
    have hpages : imPages s ⟨n % 2 ^ 32, zero⟩ * s.pagesz < 2 ^ 32 := by
      have hle := hfresh.le
      have hlt' : s.areaque + 2 * QUEUESZ ≤ 2 ^ 32 := inv.lt
      have hq8 : QUEUESZ = 8 := rfl
      rcases hfresh.heads with h | h <;> omega
    have hroom := hsafe (n % 2 ^ 32) (q + QUEUESZ) (List.mem_cons_of_mem _ List.mem_cons_self)
    refine @not_areaRoom (imallocPages s ⟨n % 2 ^ 32, zero⟩ (some q)).1 _ _ _ _ hdvd hlt
      hsize ?_ hroom
    exact List.forall_mem_cons.mpr ⟨hpages, hblock⟩
  | free ptr di => exact hfit trivial
  | write mem => exact hfit trivial

theorem initIMACB_idle (h₁ : QUEUESZ ∣ s.areaque) (h₂ : s.areaque + 2 * QUEUESZ ≤ 2 ^ 32)
    (h₃ : QUEUESZ ∣ s.pagesz) (h₄ : 0 < s.pagesz) :
    ImInv (initIMACB s).idle [] [] := (initIMACB_inv h₁ h₂ h₃ h₄).to_idle

theorem ImSizeRun.inv (inv : ImInv s₀.idle [] []) (run : ImSizeRun s₀ s asked out held) :
    ImInv s.idle out held ∧ s.pagesz = s₀.pagesz := by
  induction run with
  | init => exact ⟨inv, rfl⟩
  | step o _ hop hfit ih => exact ⟨(sizeOp_step ih.1 hop hfit).1, (o.op.run_pagesz _).trans ih.2⟩

end SmpTKernel
