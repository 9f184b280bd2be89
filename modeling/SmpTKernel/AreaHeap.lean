import SmpTKernel.FreeQueue
import SmpTKernel.Lib.Tiling
import Mathlib.Tactic.IntervalCases

/-!
# The heap invariant

`Heap` ties the memory to blocks of areas: `areaque` links the areas of every block in address order
and behind them the end marker, the areas fill the block, and `freeque` holds exactly the free areas
in buckets of one size. Areas that are being worked on are `loose`: neither in use nor in `freeque`.
The two files change the heap in a few moves on one block, each with a lemma here.
-/

namespace SmpTKernel

open LinkRing Words Tiling

/-! ## Tagged links -/

/-- The links without the flags. -/
def untag (bits : ℕ) (m : Mem) : Links ℕ := fun x => ⟨(m x).next, (m x).prev / 2 ^ bits * 2 ^ bits⟩

/-- The flags. -/
def tagAt (bits : ℕ) (m : Mem) (x : ℕ) : ℕ := (m x).prev % 2 ^ bits

variable {cfg : AreaCfg} {m m' : Mem} {que ent aq x z f : ℕ}

@[simp] theorem untag_next (bits : ℕ) (m : Mem) (x : ℕ) : (untag bits m x).next = (m x).next := rfl

@[simp] theorem untag_prev (bits : ℕ) (m : Mem) (x : ℕ) :
    (untag bits m x).prev = (m x).prev / 2 ^ bits * 2 ^ bits := rfl

theorem prev_eq (bits : ℕ) (m : Mem) (x : ℕ) :
    (m x).prev = (untag bits m x).prev + tagAt bits m x := by
  have := Nat.div_add_mod (m x).prev (2 ^ bits)
  rw [untag_prev, tagAt, Nat.mul_comm]
  exact this.symm

theorem tagAt_lt (bits : ℕ) (m : Mem) (x : ℕ) : tagAt bits m x < 2 ^ bits :=
  Nat.mod_lt _ (Nat.two_pow_pos bits)

theorem untag_eq_of_eq {bits : ℕ} (h : m' x = m x) : untag bits m' x = untag bits m x := by
  unfold untag
  rw [h]

theorem tagAt_eq_of_eq {bits : ℕ} (h : m' x = m x) : tagAt bits m' x = tagAt bits m x := by
  unfold tagAt
  rw [h]

theorem assign_untag {bits y p : ℕ} (hy : 2 ^ bits ∣ y) :
    ((p &&& (2 ^ bits - 1)) ||| y) / 2 ^ bits * 2 ^ bits = y ∧
      ((p &&& (2 ^ bits - 1)) ||| y) % 2 ^ bits = p % 2 ^ bits := by
  have hlt : p % 2 ^ bits < 2 ^ bits := Nat.mod_lt _ (Nat.two_pow_pos bits)
  rw [Nat.and_two_pow_sub_one_eq_mod, Nat.or_comm, mul_or_low hy hlt]
  exact ⟨add_div_low hy hlt, add_mod_low hy hlt⟩

section insertAreaQue

variable (hque : 2 ^ cfg.bits ∣ que) (hent : 2 ^ cfg.bits ∣ ent) (hne : ent ≠ que)
  (hnx : ent ≠ (m que).next)

theorem insertAreaQue_next (hne : ent ≠ que) (z : ℕ) :
    (insertAreaQue cfg m que ent z).next =
      if z = que then ent else if z = ent then (m que).next else (m z).next := by
  simp [insertAreaQue, assignPrev, hne.symm]

include hne hnx in
theorem insertAreaQue_prev (z : ℕ) :
    (insertAreaQue cfg m que ent z).prev =
      if z = (m que).next then ((m z).prev &&& (2 ^ cfg.bits - 1)) ||| ent
      else if z = ent then que else (m z).prev := by
  simp only [insertAreaQue, assignPrev, setNext_prev, setPrev_prev, setNext_next, setPrev_next,
    if_neg hne.symm, if_neg hnx.symm]
  by_cases h : z = (m que).next
  · rw [if_pos h, if_pos h, h]
  · rw [if_neg h, if_neg h]

include hque hent hne hnx in
/-- Without the flags it is the insertion before the next area. -/
theorem untag_insertAreaQue (hp : (untag cfg.bits m (m que).next).prev = que) :
    untag cfg.bits (insertAreaQue cfg m que ent) =
      insertBefore ent (m que).next (untag cfg.bits m) := by
  funext z
  have hq : que / 2 ^ cfg.bits * 2 ^ cfg.bits = que := Nat.div_mul_cancel hque
  ext
  · rw [untag_next, insertAreaQue_next hne, insertBefore_next hnx, hp, untag_next]
  · rw [untag_prev, insertAreaQue_prev hne hnx, insertBefore_prev, hp, untag_prev]
    split_ifs
    · exact (assign_untag hent).1
    · exact hq
    · rfl

include hque hent hne hnx in
theorem tagAt_insertAreaQue (z : ℕ) :
    tagAt cfg.bits (insertAreaQue cfg m que ent) z = if z = ent then 0 else tagAt cfg.bits m z := by
  unfold tagAt
  rw [insertAreaQue_prev hne hnx]
  by_cases h₁ : z = (m que).next
  · rw [if_pos h₁, if_neg (h₁ ▸ hnx.symm)]
    exact (assign_untag hent).2
  · rw [if_neg h₁]
    split_ifs
    · exact Nat.mod_eq_zero_of_dvd hque
    · rfl

include hne hnx in
theorem insertAreaQue_frame (h₁ : z ≠ que) (h₂ : z ≠ ent) (h₃ : z ≠ (m que).next) :
    insertAreaQue cfg m que ent z = m z := by
  ext
  · rw [insertAreaQue_next hne, if_neg h₁, if_neg h₂]
  · rw [insertAreaQue_prev hne hnx, if_neg h₃, if_neg h₂]

end insertAreaQue

section removeAreaQue

variable (hlt : (m aq).prev < 2 ^ 32) (hnx : (m aq).next ≠ aq)
  (hp : (untag cfg.bits m aq).prev ≠ aq)

include hlt in
theorem mask_prev : mask cfg (m aq).prev = (untag cfg.bits m aq).prev := clearLow_eq hlt

include hlt in
theorem removeAreaQue_next (z : ℕ) :
    (removeAreaQue cfg m aq z).next =
      if z = (untag cfg.bits m aq).prev then (m aq).next else (m z).next := by
  simp only [removeAreaQue, assignPrev, setPrev_next, setNext_next]
  rw [mask_prev hlt]

include hlt hp in
theorem removeAreaQue_prev (z : ℕ) :
    (removeAreaQue cfg m aq z).prev =
      if z = (m aq).next then ((m z).prev &&& (2 ^ cfg.bits - 1)) ||| (untag cfg.bits m aq).prev
      else (m z).prev := by
  simp only [removeAreaQue, assignPrev, setPrev_prev, setNext_prev, setNext_next, mask_prev hlt,
    if_neg hp.symm]
  by_cases h : z = (m aq).next
  · rw [if_pos h, if_pos h, h]
  · rw [if_neg h, if_neg h]

include hlt hnx hp in
theorem untag_removeAreaQue :
    untag cfg.bits (removeAreaQue cfg m aq) = unlink aq (untag cfg.bits m) := by
  funext z
  have hnx' : (untag cfg.bits m aq).next ≠ aq := hnx
  ext
  · rw [untag_next, removeAreaQue_next hlt, unlink_next hnx', untag_next, untag_next]
  · rw [untag_prev, removeAreaQue_prev hlt hp, unlink_prev hnx' hp, untag_next]
    split_ifs
    · exact (assign_untag (Nat.dvd_mul_left _ _)).1
    · rfl

include hlt hp in
theorem tagAt_removeAreaQue (z : ℕ) :
    tagAt cfg.bits (removeAreaQue cfg m aq) z = tagAt cfg.bits m z := by
  unfold tagAt
  rw [removeAreaQue_prev hlt hp]
  split_ifs
  · exact (assign_untag (Nat.dvd_mul_left _ _)).2
  · rfl

include hlt hp in
theorem removeAreaQue_frame (h₁ : z ≠ (untag cfg.bits m aq).prev) (h₂ : z ≠ (m aq).next) :
    removeAreaQue cfg m aq z = m z := by
  ext
  · rw [removeAreaQue_next hlt, if_neg h₁]
  · rw [removeAreaQue_prev hlt hp, if_neg h₂]

end removeAreaQue

/-! ## The heap -/

inductive AreaState
  /-- In `freeque`. -/
  | free
  /-- Not in use, and not in `freeque`. -/
  | loose
  | used
  deriving DecidableEq, Repr

abbrev HeapArea := Area AreaState

/-- A stretch of memory from `base` to the end marker at `fin`, cut into areas. -/
structure Block where
  base : ℕ
  areas : List HeapArea
  fin : ℕ
  deriving DecidableEq, Repr

/-- The cells of a block in `areaque`. -/
def Block.cells (b : Block) : List ℕ := b.areas.map Area.addr ++ [b.fin]

/-- The flags of `areaque`, of the first area of a block and of the end marker. -/
structure BlockTags where
  head : ℕ
  top : ℕ
  fin : ℕ

/-- The flags of an area. -/
def areaTag (t : BlockTags) (base : ℕ) (a : HeapArea) : ℕ :=
  (if a.addr = base then t.top else 0) + if a.st = .used then AREA_USE else 0

/-- The areas of all blocks. -/
def areasOf (B : List Block) : List HeapArea := B.flatMap Block.areas

/-- The cells of all blocks in `areaque`. -/
def cellsOf (B : List Block) : List ℕ := B.flatMap Block.cells

/-- The cells in `freeque` of the free areas. -/
def freeCells (B : List Block) : List ℕ :=
  ((areasOf B).filter fun a => a.st = .free).map fun a => a.addr + QUEUESZ

/-- The configuration makes sense: the flags fit in the low bits and the conversion to the type of
sizes is exact. -/
structure CfgOk (cfg : AreaCfg) (t : BlockTags) : Prop where
  bits : cfg.bits ≤ 3
  bits_pos : 0 < cfg.bits
  top_even : 2 ∣ t.top
  toSize : ∀ x : ℕ, x < 2 ^ 32 → cfg.toSize x = x
  areaque_dvd : 2 ^ cfg.bits ∣ cfg.areaque
  areaque_lt : cfg.areaque < 2 ^ 32
  freeque_lt : cfg.freeque < 2 ^ 32
  heads : cfg.areaque + QUEUESZ ≤ cfg.freeque ∨ cfg.freeque + QUEUESZ ≤ cfg.areaque

/-- A cell at `x` does not meet the block. -/
def Block.Avoids (b : Block) (x : ℕ) : Prop := x + QUEUESZ ≤ b.base ∨ b.fin + QUEUESZ ≤ x

/-- Where the blocks lie and how they are cut. -/
structure BlockLayout (cfg : AreaCfg) (B : List Block) : Prop where
  tiles : ∀ b ∈ B, Tiles QUEUESZ b.base b.areas b.fin
  dvd : ∀ b ∈ B, QUEUESZ ∣ b.base
  fin_le : ∀ b ∈ B, b.fin + QUEUESZ ≤ 2 ^ 32
  sizes : ∀ a ∈ areasOf B, MIN_FRAGMENT ≤ a.size ∧ QUEUESZ ∣ a.size
  apart : B.Pairwise fun b c => b.fin + QUEUESZ ≤ c.base ∨ c.fin + QUEUESZ ≤ b.base
  areaque : ∀ b ∈ B, b.Avoids cfg.areaque
  freeque : ∀ b ∈ B, b.Avoids cfg.freeque

/-- The heap with the blocks `B`, whose free areas are in the buckets `G`. -/
structure Heap (cfg : AreaCfg) (t : BlockTags) (m : Mem) (B : List Block) (G : List (ℕ × List ℕ)) :
    Prop extends BlockLayout cfg B where
  ring : IsRing (untag cfg.bits m) cfg.areaque (cellsOf B)
  headTag : tagAt cfg.bits m cfg.areaque = t.head
  tag : ∀ b ∈ B, ∀ a ∈ b.areas, tagAt cfg.bits m a.addr = areaTag t b.base a
  finTag : ∀ b ∈ B, tagAt cfg.bits m b.fin = t.fin
  buckets : Buckets (· + QUEUESZ) (sizeAt m) cfg.freeque m G
  free : (members G).Perm (freeCells B)

/-! ## Where areas lie -/

variable {t : BlockTags} {B : List Block} {G G' : List (ℕ × List ℕ)} {a a' : HeapArea}
  {b b' : Block}

theorem mem_areasOf : a ∈ areasOf B ↔ ∃ b ∈ B, a ∈ b.areas := List.mem_flatMap

theorem mem_cellsOf : x ∈ cellsOf B ↔ ∃ b ∈ B, x = b.fin ∨ ∃ a ∈ b.areas, x = a.addr := by
  unfold cellsOf Block.cells
  simp only [List.mem_flatMap, List.mem_append, List.mem_map, List.mem_singleton]
  constructor
  · rintro ⟨b, hb, ⟨a, ha, rfl⟩ | rfl⟩
    · exact ⟨b, hb, Or.inr ⟨a, ha, rfl⟩⟩
    · exact ⟨b, hb, Or.inl rfl⟩
  · rintro ⟨b, hb, rfl | ⟨a, ha, rfl⟩⟩
    · exact ⟨b, hb, Or.inr rfl⟩
    · exact ⟨b, hb, Or.inl ⟨a, ha, rfl⟩⟩

theorem BlockLayout.eq_or_apart (L : BlockLayout cfg B) (hb : b ∈ B) (hb' : b' ∈ B) :
    b = b' ∨ b.fin + QUEUESZ ≤ b'.base ∨ b'.fin + QUEUESZ ≤ b.base :=
  pairwise_eq_or_apart L.apart hb hb'

theorem BlockLayout.area_eq_or_apart (L : BlockLayout cfg B) (ha : a ∈ areasOf B)
    (ha' : a' ∈ areasOf B) :
    a = a' ∨ a.addr + QUEUESZ + a.size ≤ a'.addr ∨ a'.addr + QUEUESZ + a'.size ≤ a.addr := by
  obtain ⟨b, hb, ha⟩ := mem_areasOf.mp ha
  obtain ⟨b', hb', ha'⟩ := mem_areasOf.mp ha'
  have h₁ := (L.tiles b hb).bounds ha
  have h₂ := (L.tiles b' hb').bounds ha'
  rcases L.eq_or_apart hb hb' with rfl | h | h
  · exact (L.tiles b hb).eq_or_apart ha ha'
  · omega
  · omega

theorem BlockLayout.fin_apart (L : BlockLayout cfg B) (ha : a ∈ areasOf B) (hb : b ∈ B) :
    a.addr + QUEUESZ + a.size ≤ b.fin ∨ b.fin + QUEUESZ ≤ a.addr := by
  obtain ⟨b', hb', ha⟩ := mem_areasOf.mp ha
  have h₁ := (L.tiles b' hb').bounds ha
  rcases L.eq_or_apart hb hb' with rfl | h | h
  · exact Or.inl h₁.2
  · omega
  · have := (L.tiles b hb).le
    omega

theorem BlockLayout.inside (L : BlockLayout cfg B) (ha : a ∈ areasOf B) (h₁ : a.addr < x)
    (h₂ : x < a.addr + QUEUESZ + a.size) : x ≠ cfg.areaque ∧ x ≠ cfg.freeque ∧ x ∉ cellsOf B := by
  obtain ⟨b, hb, hab⟩ := mem_areasOf.mp ha
  have hin := (L.tiles b hb).bounds hab
  refine ⟨?_, ?_, fun hc => ?_⟩
  · rintro rfl
    have := L.areaque b hb
    unfold Block.Avoids at this
    omega
  · rintro rfl
    have := L.freeque b hb
    unfold Block.Avoids at this
    omega
  · obtain ⟨b', hb', rfl | ⟨a', ha', rfl⟩⟩ := mem_cellsOf.mp hc
    · have := L.fin_apart ha hb'
      omega
    · rcases L.area_eq_or_apart ha (mem_areasOf.mpr ⟨b', hb', ha'⟩) with rfl | h | h <;> omega

theorem BlockLayout.area_eq (L : BlockLayout cfg B) (ha : a ∈ areasOf B) (ha' : a' ∈ areasOf B)
    {d f : ℕ} (hd : d < QUEUESZ + a.size) (hf : f < QUEUESZ + a'.size)
    (e : a.addr + d = a'.addr + f) : a = a' := by
  rcases L.area_eq_or_apart ha ha' with h | h | h
  · exact h
  · omega
  · omega

theorem BlockLayout.addr_dvd (L : BlockLayout cfg B) (ha : a ∈ areasOf B) : QUEUESZ ∣ a.addr := by
  obtain ⟨b, hb, ha'⟩ := mem_areasOf.mp ha
  exact ((L.tiles b hb).dvd (L.dvd b hb) (dvd_refl _)
    fun a ha => (L.sizes a (mem_areasOf.mpr ⟨b, hb, ha⟩)).2).2 a ha'

theorem BlockLayout.fin_dvd (L : BlockLayout cfg B) (hb : b ∈ B) : QUEUESZ ∣ b.fin :=
  ((L.tiles b hb).dvd (L.dvd b hb) (dvd_refl _)
    fun a ha => (L.sizes a (mem_areasOf.mpr ⟨b, hb, ha⟩)).2).1

theorem BlockLayout.cell_dvd (L : BlockLayout cfg B) (hx : x ∈ cellsOf B) : QUEUESZ ∣ x := by
  obtain ⟨b, hb, rfl | ⟨a, ha, rfl⟩⟩ := mem_cellsOf.mp hx
  · exact L.fin_dvd hb
  · exact L.addr_dvd (mem_areasOf.mpr ⟨b, hb, ha⟩)

theorem BlockLayout.area_lt (L : BlockLayout cfg B) (ha : a ∈ areasOf B) :
    a.addr + 2 * QUEUESZ + a.size ≤ 2 ^ 32 := by
  obtain ⟨b, hb, ha'⟩ := mem_areasOf.mp ha
  have := (L.tiles b hb).bounds ha'
  have := L.fin_le b hb
  omega

theorem BlockLayout.cell_lt (L : BlockLayout cfg B) (hx : x ∈ cellsOf B) :
    x + QUEUESZ ≤ 2 ^ 32 := by
  obtain ⟨b, hb, rfl | ⟨a, ha, rfl⟩⟩ := mem_cellsOf.mp hx
  · exact L.fin_le b hb
  · have := L.area_lt (mem_areasOf.mpr ⟨b, hb, ha⟩)
    omega

theorem BlockLayout.freeque_not_mem (L : BlockLayout cfg B) : cfg.freeque ∉ cellsOf B := by
  intro hc
  have hq : QUEUESZ = 8 := rfl
  obtain ⟨b, hb, h | ⟨a, ha, h⟩⟩ := mem_cellsOf.mp hc
  · have h₁ := L.freeque b hb
    have h₂ := (L.tiles b hb).le
    unfold Block.Avoids at h₁
    omega
  · have h₁ := L.freeque b hb
    have h₂ := (L.tiles b hb).bounds ha
    unfold Block.Avoids at h₁
    omega

/-! ## A place in the heap -/

/-- The blocks and areas around some areas of one block. -/
structure Place where
  before : List Block
  base : ℕ
  left : List HeapArea
  right : List HeapArea
  fin : ℕ
  after : List Block

/-- The blocks with `mid` at this place. -/
def Place.fill (c : Place) (mid : List HeapArea) : List Block :=
  c.before ++ ⟨c.base, c.left ++ mid ++ c.right, c.fin⟩ :: c.after

theorem exists_place (ha : a ∈ areasOf B) : ∃ c : Place, B = c.fill [a] := by
  obtain ⟨b, hb, hab⟩ := mem_areasOf.mp ha
  obtain ⟨B₁, B₂, rfl⟩ := List.append_of_mem hb
  obtain ⟨l₁, l₂, e⟩ := List.append_of_mem hab
  refine ⟨⟨B₁, b.base, l₁, l₂, b.fin, B₂⟩, ?_⟩
  unfold Place.fill
  rw [List.append_assoc, List.singleton_append, ← e]

variable {c : Place} {mid mid' : List HeapArea}

theorem areasOf_fill :
    areasOf (c.fill mid) = (areasOf c.before ++ c.left) ++ mid ++ (c.right ++ areasOf c.after) := by
  simp [areasOf, Place.fill]

theorem cellsOf_fill : cellsOf (c.fill mid) =
    (cellsOf c.before ++ c.left.map Area.addr) ++ mid.map Area.addr ++
      (c.right.map Area.addr ++ c.fin :: cellsOf c.after) := by
  simp [cellsOf, Place.fill, Block.cells]

theorem mem_fill (ha : a ∈ mid) : a ∈ areasOf (c.fill mid) := by
  rw [areasOf_fill]
  exact List.mem_append_left _ (List.mem_append_right _ ha)

theorem block_mem_fill : (⟨c.base, c.left ++ mid ++ c.right, c.fin⟩ : Block) ∈ c.fill mid :=
  List.mem_append_right _ List.mem_cons_self

theorem freeCells_fill : freeCells (c.fill mid) =
    ((areasOf c.before ++ c.left).filter fun a => a.st = .free).map (fun a => a.addr + QUEUESZ) ++
      (mid.filter fun a => a.st = .free).map (fun a => a.addr + QUEUESZ) ++
      ((c.right ++ areasOf c.after).filter fun a => a.st = .free).map fun a =>
      a.addr + QUEUESZ := by
  rw [freeCells, areasOf_fill, List.filter_append, List.filter_append, List.map_append,
    List.map_append]

theorem freeCells_fill_congr
    (h : mid.filter (fun a => a.st = .free) = mid'.filter fun a => a.st = .free) :
    freeCells (c.fill mid) = freeCells (c.fill mid') := by
  rw [freeCells_fill, freeCells_fill, h]

theorem freeCells_fill_free (ha : a.st = .free) (ha' : a'.st ≠ .free) :
    (freeCells (c.fill [a])).Perm ((a.addr + QUEUESZ) :: freeCells (c.fill [a'])) := by
  rw [freeCells_fill, freeCells_fill, List.filter_singleton, List.filter_singleton]
  rw [show (decide (a.st = .free)) = true from decide_eq_true ha,
    show (decide (a'.st = .free)) = false from decide_eq_false ha']
  simp only [Bool.cond_true, Bool.cond_false, List.map_cons, List.map_nil, List.append_nil,
    List.append_assoc, List.singleton_append]
  exact List.perm_middle

/-- A change at one place keeps the layout. -/
theorem BlockLayout.fill (L : BlockLayout cfg (c.fill mid))
    (ht : Tiles QUEUESZ c.base (c.left ++ mid' ++ c.right) c.fin)
    (hs : ∀ a ∈ mid', MIN_FRAGMENT ≤ a.size ∧ QUEUESZ ∣ a.size) :
    BlockLayout cfg (c.fill mid') := by
  -- a statement about base and end of every block
  have hall (P : ℕ → ℕ → Prop) (h : ∀ b ∈ c.fill mid, P b.base b.fin) :
      ∀ b ∈ c.fill mid', P b.base b.fin := by
    intro b hb
    rcases List.mem_append.mp hb with hb | hb
    · exact h b (List.mem_append_left _ hb)
    · rcases List.mem_cons.mp hb with rfl | hb
      · exact h ⟨c.base, c.left ++ mid ++ c.right, c.fin⟩ block_mem_fill
      · exact h b (List.mem_append_right _ (List.mem_cons_of_mem _ hb))
  refine ⟨?_, hall (fun base _ => QUEUESZ ∣ base) L.dvd, hall (fun _ fin => fin + QUEUESZ ≤
    2 ^ 32) L.fin_le, ?_, ?_, hall (fun base fin => cfg.areaque + QUEUESZ ≤ base ∨
    fin + QUEUESZ ≤ cfg.areaque)
    L.areaque, hall (fun base fin => cfg.freeque + QUEUESZ ≤ base ∨ fin + QUEUESZ ≤ cfg.freeque)
    L.freeque⟩
  · intro b hb
    rcases List.mem_append.mp hb with hb | hb
    · exact L.tiles b (List.mem_append_left _ hb)
    · rcases List.mem_cons.mp hb with rfl | hb
      · exact ht
      · exact L.tiles b (List.mem_append_right _ (List.mem_cons_of_mem _ hb))
  · intro a ha
    have hsz := L.sizes
    rw [areasOf_fill] at ha hsz
    simp only [List.mem_append] at ha hsz
    rcases ha with (ha | ha) | ha
    · exact hsz a (Or.inl (Or.inl ha))
    · exact hs a ha
    · exact hsz a (Or.inr ha)
  · have hp := L.apart
    unfold Place.fill at hp ⊢
    rw [List.pairwise_append, List.pairwise_cons] at hp ⊢
    refine ⟨hp.1, ⟨hp.2.1.1, hp.2.1.2⟩, fun b hb b' hb' => ?_⟩
    rcases List.mem_cons.mp hb' with rfl | hb'
    · exact hp.2.2 b hb ⟨c.base, c.left ++ mid ++ c.right, c.fin⟩ List.mem_cons_self
    · exact hp.2.2 b hb b' (List.mem_cons_of_mem _ hb')

/-! ## Reading the heap -/

theorem Heap.next_fill (h : Heap cfg t m (c.fill [a]) G) :
    (m a.addr).next = a.addr + QUEUESZ + a.size := by
  have r := h.ring
  have ht := h.tiles _ block_mem_fill
  rw [cellsOf_fill, List.map_singleton, List.append_assoc, List.singleton_append] at r
  rw [List.append_assoc, List.singleton_append] at ht
  have hn : (m a.addr).next = _ := r.next_mid
  rw [hn]
  rcases hr : c.right with _ | ⟨n, l⟩
  · rw [hr] at ht
    exact ht.last
  · rw [hr] at ht
    exact ht.next

theorem Heap.next (h : Heap cfg t m B G) (ha : a ∈ areasOf B) :
    (m a.addr).next = a.addr + QUEUESZ + a.size := by
  obtain ⟨c, rfl⟩ := exists_place ha
  exact h.next_fill

theorem Heap.sizeAt_eq (h : Heap cfg t m B G) (ha : a ∈ areasOf B) :
    sizeAt m (a.addr + QUEUESZ) = a.size := by
  unfold sizeAt
  rw [Nat.add_sub_cancel, h.next ha, Nat.add_sub_cancel_left]

theorem Heap.areaSize_eq (h : Heap cfg t m B G) (ok : CfgOk cfg t) (ha : a ∈ areasOf B) :
    areaSize cfg m a.addr = a.size := by
  have hlt := h.area_lt ha
  have hq : QUEUESZ = 8 := rfl
  have e : ((m a.addr).next : ℤ) - (a.addr + QUEUESZ : ℕ) = (a.size : ℕ) := by
    rw [h.next ha]
    omega
  rw [areaSize, e, ok.toSize a.size (by omega)]

theorem Heap.freeSize_eq (h : Heap cfg t m B G) (ok : CfgOk cfg t) (ha : a ∈ areasOf B) :
    freeSize cfg m (a.addr + QUEUESZ) = a.size := by
  have := h.areaSize_eq ok ha
  rwa [freeSize, Nat.add_sub_cancel]

theorem Heap.mem_members (h : Heap cfg t m B G) :
    x ∈ members G ↔ ∃ a ∈ areasOf B, a.st = .free ∧ x = a.addr + QUEUESZ := by
  rw [h.free.mem_iff, freeCells, List.mem_map]
  simp only [List.mem_filter, decide_eq_true_eq]
  constructor
  · rintro ⟨a, ⟨ha, hf⟩, rfl⟩
    exact ⟨a, ha, hf, rfl⟩
  · rintro ⟨a, ha, hf, rfl⟩
    exact ⟨a, ⟨ha, hf⟩, rfl⟩

theorem Heap.mem_queue_nodes (h : Heap cfg t m B G) :
    z ∈ nodes (queueRings (· + QUEUESZ) cfg.freeque G) ↔ z = cfg.freeque ∨
      ∃ a ∈ areasOf B, a.st = .free ∧ (z = a.addr + QUEUESZ ∨ z = a.addr + 2 * QUEUESZ) := by
  rw [mem_nodes_queueRings]
  simp only [h.mem_members]
  constructor
  · rintro (rfl | ⟨a, ha, hf, rfl⟩ | ⟨y, ⟨a, ha, hf, rfl⟩, rfl⟩)
    · exact Or.inl rfl
    · exact Or.inr ⟨a, ha, hf, Or.inl rfl⟩
    · exact Or.inr ⟨a, ha, hf, Or.inr (by omega)⟩
  · rintro (rfl | ⟨a, ha, hf, rfl | rfl⟩)
    · exact Or.inl rfl
    · exact Or.inr (Or.inl ⟨a, ha, hf, rfl⟩)
    · exact Or.inr (Or.inr ⟨_, ⟨a, ha, hf, rfl⟩, by omega⟩)

/-- `freeque` does not run through the cells of `areaque`. -/
theorem Heap.node_not_cell (h : Heap cfg t m B G) (ok : CfgOk cfg t)
    (hz : z ∈ nodes (queueRings (· + QUEUESZ) cfg.freeque G)) : z ∉ cfg.areaque :: cellsOf B := by
  rcases h.mem_queue_nodes.mp hz with rfl | ⟨a, ha, -, hz⟩
  · intro hc
    rcases List.mem_cons.mp hc with hc | hc
    · have := ok.heads
      have hq : QUEUESZ = 8 := rfl
      omega
    · exact h.freeque_not_mem hc
  · have hs := (h.sizes a ha).1
    have hq : QUEUESZ = 8 := rfl
    have hm : MIN_FRAGMENT = 16 := rfl
    have hin := h.inside (x := z) ha (by omega) (by omega)
    exact fun hc => (List.mem_cons.mp hc).elim hin.1 hin.2.2

/-- The cells of an area that is not free are no cells of `freeque`. -/
theorem Heap.not_node (h : Heap cfg t m B G) (ha : a ∈ areasOf B) (hf : a.st ≠ .free)
    (h₁ : a.addr < z) (h₂ : z < a.addr + QUEUESZ + a.size) :
    z ∉ nodes (queueRings (· + QUEUESZ) cfg.freeque G) := by
  intro hc
  rcases h.mem_queue_nodes.mp hc with hz | ⟨a', ha', hf', hz⟩
  · exact (h.inside ha h₁ h₂).2.1 hz
  · have hs := (h.sizes a' ha').1
    have hq : QUEUESZ = 8 := rfl
    have hm : MIN_FRAGMENT = 16 := rfl
    have e : a = a' := by
      refine h.area_eq ha ha' (d := z - a.addr) (f := z - a'.addr) (by omega) ?_ (by omega)
      omega
    exact hf (e ▸ hf')

theorem Heap.cell_aligned (h : Heap cfg t m B G) (ok : CfgOk cfg t)
    (hx : x ∈ cfg.areaque :: cellsOf B) :
    2 ^ cfg.bits ∣ x ∧ x + 2 ^ cfg.bits ≤ 2 ^ 32 := by
  have hb := ok.bits
  have hq : QUEUESZ = 8 := rfl
  rcases List.mem_cons.mp hx with rfl | hx
  · have h₁ := ok.areaque_dvd
    have h₂ := ok.areaque_lt
    refine ⟨h₁, ?_⟩
    generalize cfg.bits = k at hb h₁
    interval_cases k <;> omega
  · have h₁ : 8 ∣ x := h.cell_dvd hx
    have h₂ := h.cell_lt hx
    generalize cfg.bits = k at hb
    interval_cases k <;> omega

/-- The links of a cell of `areaque` lead to cells of `areaque`. -/
theorem Heap.prev_mem (h : Heap cfg t m B G) (hx : x ∈ cellsOf B) :
    (untag cfg.bits m x).prev ∈ cfg.areaque :: cellsOf B ∧
    (m x).next ∈ cfg.areaque :: cellsOf B := by
  obtain ⟨u, v, e⟩ := List.append_of_mem hx
  have r := h.ring
  rw [e] at r ⊢
  have hn : (m x).next = _ := r.next_mid
  rw [r.prev_mid, hn]
  constructor
  · exact (List.cons_sublist_cons.mpr (List.sublist_append_left u _)).subset (getLastD_mem_cons _ u)
  · have := headD_mem_concat cfg.areaque v
    simp only [List.mem_append, List.mem_cons, List.not_mem_nil, or_false] at this ⊢
    tauto

theorem Heap.prev_lt (h : Heap cfg t m B G) (ok : CfgOk cfg t) (hx : x ∈ cellsOf B) :
    (m x).prev < 2 ^ 32 := by
  have h₁ := (h.cell_aligned ok (h.prev_mem hx).1).2
  have h₂ := tagAt_lt cfg.bits m x
  rw [prev_eq cfg.bits m x]
  omega

/-! ## Changes at one place -/

/-- The buckets are read through their own cells and the sizes of the free areas. -/
theorem Heap.buckets_congr (h : Heap cfg t m B G)
    (hm : ∀ z ∈ nodes (queueRings (· + QUEUESZ) cfg.freeque G), m' z = m z)
    (hn : ∀ a ∈ areasOf B, a.st = .free → (m' a.addr).next = (m a.addr).next) :
    Buckets (· + QUEUESZ) (sizeAt m') cfg.freeque m' G := by
  refine h.buckets.congr hm fun x hx => ?_
  obtain ⟨a, ha, hf, rfl⟩ := h.mem_members.mp hx
  unfold sizeAt
  rw [Nat.add_sub_cancel, hn a ha hf]

/-- A change of the areas at one place, with the flags of all other cells kept. -/
theorem Heap.edit (h : Heap cfg t m (c.fill mid) G)
    (ht : Tiles QUEUESZ c.base (c.left ++ mid' ++ c.right) c.fin)
    (hs : ∀ a ∈ mid', MIN_FRAGMENT ≤ a.size ∧ QUEUESZ ∣ a.size)
    (hr : IsRing (untag cfg.bits m') cfg.areaque (cellsOf (c.fill mid')))
    (htag : ∀ a ∈ mid', tagAt cfg.bits m' a.addr = areaTag t c.base a)
    (hsame : ∀ z ∈ cfg.areaque :: cellsOf (c.fill mid), z ∉ mid.map Area.addr →
      tagAt cfg.bits m' z = tagAt cfg.bits m z)
    (hb : Buckets (· + QUEUESZ) (sizeAt m') cfg.freeque m' G')
    (hf : (members G').Perm (freeCells (c.fill mid'))) : Heap cfg t m' (c.fill mid') G' := by
  obtain ⟨hhead, hnd⟩ := List.nodup_cons.mp h.ring.nodup
  have hcells := @cellsOf_fill c mid
  -- cells outside the place
  have hout (z : ℕ) (hz : z ∈ (cellsOf c.before ++ c.left.map Area.addr) ++
      (c.right.map Area.addr ++ c.fin :: cellsOf c.after)) :
      tagAt cfg.bits m' z = tagAt cfg.bits m z := by
    rw [hcells] at hnd hsame
    have hp : ((cellsOf c.before ++ c.left.map Area.addr) ++ mid.map Area.addr ++
        (c.right.map Area.addr ++ c.fin :: cellsOf c.after)).Perm (mid.map Area.addr ++
        ((cellsOf c.before ++ c.left.map Area.addr) ++ (c.right.map Area.addr ++ c.fin ::
          cellsOf c.after))) := by
      rw [← List.append_assoc (mid.map Area.addr)]
      exact List.perm_append_comm.append_right _
    refine hsame z (List.mem_cons_of_mem _ (hp.symm.subset (List.mem_append_right _ hz)))
      fun hc => ?_
    exact (List.nodup_append.mp (hp.nodup_iff.mp hnd)).2.2 z hc z hz rfl
  refine ⟨h.fill ht hs, hr, ?_, ?_, ?_, hb, hf⟩
  · rw [hsame cfg.areaque List.mem_cons_self, h.headTag]
    rw [hcells] at hhead
    exact fun hc => hhead (List.mem_append_left _ (List.mem_append_right _ hc))
  · intro b hb a ha
    rcases List.mem_append.mp hb with hb | hb
    · rw [hout, h.tag b (List.mem_append_left _ hb) a ha]
      exact List.mem_append_left _ (List.mem_append_left _
        (mem_cellsOf.mpr ⟨b, hb, Or.inr ⟨a, ha, rfl⟩⟩))
    · rcases List.mem_cons.mp hb with rfl | hb
      · have hold := h.tag _ block_mem_fill a
        rcases List.mem_append.mp ha with ha | ha
        · rcases List.mem_append.mp ha with ha | ha
          · rw [hout, hold (List.mem_append_left _ (List.mem_append_left _ ha))]
            exact List.mem_append_left _ (List.mem_append_right _ (List.mem_map.mpr ⟨a, ha, rfl⟩))
          · exact htag a ha
        · rw [hout, hold (List.mem_append_right _ ha)]
          exact List.mem_append_right _ (List.mem_append_left _ (List.mem_map.mpr ⟨a, ha, rfl⟩))
      · rw [hout, h.tag b (List.mem_append_right _ (List.mem_cons_of_mem _ hb)) a ha]
        exact List.mem_append_right _ (List.mem_append_right _
          (List.mem_cons_of_mem _ (mem_cellsOf.mpr ⟨b, hb, Or.inr ⟨a, ha, rfl⟩⟩)))
  · intro b hb
    rcases List.mem_append.mp hb with hb | hb
    · rw [hout, h.finTag b (List.mem_append_left _ hb)]
      exact List.mem_append_left _ (List.mem_append_left _ (mem_cellsOf.mpr ⟨b, hb, Or.inl rfl⟩))
    · rcases List.mem_cons.mp hb with rfl | hb
      · have hold := h.finTag _ block_mem_fill
        rw [hout _ (List.mem_append_right _ (List.mem_append_right _ List.mem_cons_self))]
        exact hold
      · rw [hout, h.finTag b (List.mem_append_right _ (List.mem_cons_of_mem _ hb))]
        exact List.mem_append_right _ (List.mem_append_right _
          (List.mem_cons_of_mem _ (mem_cellsOf.mpr ⟨b, hb, Or.inl rfl⟩)))

/-- The owners of areas in use write to them, and others to memory outside the heap. -/
theorem Heap.write (h : Heap cfg t m B G)
    (hm : ∀ z, z = cfg.areaque ∨ z = cfg.freeque ∨ (∃ b ∈ B, b.base ≤ z ∧ z < b.fin + QUEUESZ) →
      (∀ a ∈ areasOf B, a.st = .used → z < a.addr + QUEUESZ ∨ a.addr + QUEUESZ + a.size ≤ z) →
      m' z = m z) : Heap cfg t m' B G := by
  have hq : QUEUESZ = 8 := rfl
  have hcell (z : ℕ) (hz : z ∈ cfg.areaque :: cellsOf B) : m' z = m z := by
    refine hm z ?_ fun a ha _ => ?_
    · rcases List.mem_cons.mp hz with e | hz
      · exact Or.inl e
      · obtain ⟨b, hb, rfl | ⟨a, ha, rfl⟩⟩ := mem_cellsOf.mp hz
        · exact Or.inr (Or.inr ⟨b, hb, (h.tiles b hb).le, by omega⟩)
        · have := (h.tiles b hb).bounds ha
          exact Or.inr (Or.inr ⟨b, hb, this.1, by omega⟩)
    · by_contra hc
      have hin := h.inside (x := z) ha (by omega) (by omega)
      exact (List.mem_cons.mp hz).elim hin.1 hin.2.2
  have hnode (z : ℕ) (hz : z ∈ nodes (queueRings (· + QUEUESZ) cfg.freeque G)) : m' z = m z := by
    refine hm z ?_ fun a ha hu => ?_
    · rcases h.mem_queue_nodes.mp hz with e | ⟨a, ha, -, hz⟩
      · exact Or.inr (Or.inl e)
      · obtain ⟨b, hb, hab⟩ := mem_areasOf.mp ha
        have h₁ := (h.tiles b hb).bounds hab
        have h₂ := (h.sizes a ha).1
        have hmf : MIN_FRAGMENT = 16 := rfl
        exact Or.inr (Or.inr ⟨b, hb, by omega, by omega⟩)
    · by_contra hc
      exact h.not_node ha (by rw [hu]; decide) (by omega) (by omega) hz
  have hmem {b : Block} (hb : b ∈ B) {a : HeapArea} (ha : a ∈ b.areas) :
      a.addr ∈ cfg.areaque :: cellsOf B :=
    List.mem_cons_of_mem _ (mem_cellsOf.mpr ⟨b, hb, Or.inr ⟨a, ha, rfl⟩⟩)
  refine ⟨h.toBlockLayout, h.ring.congr fun z hz => untag_eq_of_eq (hcell z hz), ?_, ?_, ?_,
    ?_, h.free⟩
  · exact (tagAt_eq_of_eq (hcell _ List.mem_cons_self)).trans h.headTag
  · exact fun b hb a ha => (tagAt_eq_of_eq (hcell _ (hmem hb ha))).trans (h.tag b hb a ha)
  · refine fun b hb => (tagAt_eq_of_eq (hcell _ ?_)).trans (h.finTag b hb)
    exact List.mem_cons_of_mem _ (mem_cellsOf.mpr ⟨b, hb, Or.inl rfl⟩)
  · refine h.buckets_congr hnode fun a ha _ => ?_
    obtain ⟨b, hb, hab⟩ := mem_areasOf.mp ha
    rw [hcell _ (hmem hb hab)]

end SmpTKernel
