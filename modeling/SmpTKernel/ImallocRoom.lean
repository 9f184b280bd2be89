import SmpTKernel.ImallocInv

/-!
# The areas of the kernel heap

What an outstanding area gives its owner: its bytes lie in one block of pages and meet no other
outstanding area. Each operation adds at most one outstanding area, which is new, or removes the one
it frees.
-/

namespace SmpTKernel

variable {s : Imacb} {h : List ImEvent} {out : List (ℕ × ℤ)} {held : List (ℕ × ℕ)} {call : ImCall}
  {ptr : ℕ} {n sz : ℤ}

/-- `n` bytes at `ptr` lie in one of the blocks of pages, between its first cell and its end marker,
and apart from the outstanding areas at other addresses. -/
structure AreaRoom (s : Imacb) (out : List (ℕ × ℤ)) (held : List (ℕ × ℕ)) (ptr : ℕ) (n : ℤ) :
    Prop where
  inside : ∃ b ∈ held, b.1 + QUEUESZ ≤ ptr ∧ (ptr : ℤ) + n + QUEUESZ ≤ b.1 + b.2 * s.pagesz
  apart : ∀ o ∈ out, o.1 ≠ ptr → (o.1 : ℤ) + o.2 ≤ ptr ∨ (ptr : ℤ) + n ≤ o.1

theorem ImInv.nodup (inv : ImInv s out held) : (out.map Prod.fst).Nodup := by
  obtain ⟨B, ⟨⟨G, heap⟩, -, handed⟩, -⟩ := inv.heap
  exact handed.nodup heap

theorem ImInv.ptr_lt (inv : ImInv s out held) (hp : ptr ∈ out.map Prod.fst) : ptr < 2 ^ 32 := by
  obtain ⟨B, ⟨⟨G, heap⟩, -, handed⟩, -⟩ := inv.heap
  obtain ⟨o, ho, rfl⟩ := List.mem_map.mp hp
  obtain ⟨a, ha, -, hao, -⟩ := handed.large o ho
  have := heap.area_lt ha
  have hmf : (MIN_FRAGMENT : ℤ) = 16 := rfl
  have := (heap.sizes a ha).1
  omega

/-- An outstanding area has room for what was asked for. -/
theorem ImInv.room (inv : ImInv s out held) (hp : (ptr, sz) ∈ out) (hn : n ≤ sz) :
    AreaRoom s out held ptr n := by
  obtain ⟨B, ⟨⟨G, heap⟩, -, handed⟩, hB⟩ := inv.heap
  constructor
  · obtain ⟨a, ha, -, hap, hle⟩ := handed.large _ hp
    obtain ⟨b, hb, hab⟩ := mem_areasOf.mp ha
    obtain ⟨p, hmem, hbase, hfin⟩ := inv.exists_held hB hb
    have hbounds := (heap.tiles b hb).bounds hab
    have hap : a.addr + QUEUESZ = ptr := hap
    have hle : sz ≤ a.size := hle
    refine ⟨p, hmem, by omega, ?_⟩
    have hfin' : ((b.fin + QUEUESZ : ℕ) : ℤ) = ((p.1 + p.2 * s.pagesz : ℕ) : ℤ) :=
      congrArg Nat.cast hfin
    push_cast at hfin' ⊢
    omega
  · intro o ho hne
    have hsymm : Std.Symm fun o p : ℕ × ℤ => (o.1 : ℤ) + o.2 ≤ p.1 ∨ (p.1 : ℤ) + p.2 ≤ o.1 :=
      ⟨fun _ _ => Or.symm⟩
    rcases (handed.apart heap).forall ho hp fun e => hne (congrArg Prod.fst e) with h | h
    · exact Or.inl h
    · have h : (ptr : ℤ) + sz ≤ o.1 := h
      exact Or.inr (by omega)

/-! ## What the operations return -/

theorem imalloc_events (s : Imacb) (call : ImCall) :
    (imalloc s call).2 = [] ∨ ∃ ptr, (imalloc s call).2 = [.got call.size ptr] := by
  unfold imalloc
  dsimp only
  split_ifs
  · exact Or.inr ⟨_, rfl⟩
  · exact Or.inl rfl

theorem imallocPages_none (s : Imacb) (call : ImCall) :
    (imallocPages s call none).2 = [.fails call.size] := rfl

theorem imallocPages_some (s : Imacb) (call : ImCall) (q : ℕ) :
    ∃ ptr, (imallocPages s call (some q)).2 = [.getSysMemBlk q (imPages s call),
      .got call.size ptr] := ⟨_, rfl⟩

theorem ImOp.run_pagesz (s : Imacb) (op : ImOp) : (op.run s).1.pagesz = s.pagesz := by
  have hmalloc (call : ImCall) : (imalloc s call).1.pagesz = s.pagesz := by
    unfold imalloc
    dsimp only
    split_ifs <;> rfl
  cases op with
  | malloc size => exact hmalloc _
  | calloc nmemb size => exact hmalloc _
  | pages call q => cases q <;> rfl
  | free ptr di =>
    unfold ImOp.run IAfree ifree
    dsimp only
    split_ifs <;> rfl
  | write mem => rfl

theorem ImRun.pagesz_eq {s₀ : Imacb} (run : ImRun s₀ s h) : s.pagesz = s₀.pagesz := by
  induction run with
  | init => rfl
  | step op _ _ ih => exact (op.run_pagesz _).trans ih

theorem ImInv.got_new (inv : ImInv s ((ptr, sz) :: out) held) : ptr ∉ out.map Prod.fst :=
  (List.nodup_cons.mp inv.nodup).1

end SmpTKernel
