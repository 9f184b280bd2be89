import SmpTKernel.Mempfix
import SmpTKernel.Lib.Stacks
import Mathlib.Data.List.Range

/-!
# The blocks of a fixed size memory pool

The blocks that were ever handed out are the first `k` of the pool. Each of them is in use or in the
list of free blocks, and `frbcnt` counts the list and the blocks behind `unused`. Only while it is 0
tasks wait, so that a block that goes to a waiting task changes neither.
-/

namespace SmpTKernel

open LinkedStack Words

/-! ## Sizes -/

/-- The size of a block, rounded up without a limit. -/
def roundedBlfsz (blfsz : ℤ) : ℤ := (blfsz + 3) / 4 * 4

theorem MINSZ_natCast {n : ℕ} (h : n < 2 ^ 32 - 4) : MINSZ n = (n + 3) / 4 * 4 := by
  unfold MINSZ
  rw [UINT_natCast (by omega), clearLow_eq (Nat.mod_lt _ (by norm_num)), show MINSIZE - 1 =
    3 from rfl, Nat.mod_eq_of_lt (by omega)]
  rfl

theorem INT_le (n : ℕ) (h : n < 2 ^ 32) : INT n ≤ INT_MAX := by
  show toSigned 32 n ≤ INT_MAX
  unfold toSigned INT_MAX
  split_ifs <;> omega

theorem tkCreMpf_ok {chk rest : ER} {mpfatr : ℕ} {mpfcnt blfsz : ℤ} {iamalloc : ℕ → Option ℕ}
    {s₀ s : Mpfcb} (h : tkCreMpf chk mpfatr mpfcnt blfsz iamalloc rest s₀ = .ok s) :
    0 < mpfcnt ∧ 0 < blfsz ∧ s.mpfcnt = mpfcnt ∧ s.frbcnt = mpfcnt ∧ s.blfsz = INT (MINSZ blfsz) ∧
      s.mpfsz = INT (UINT (s.blfsz * mpfcnt)) ∧ iamalloc (UINT s.mpfsz) = some s.mempool ∧
      s.unused = s.mempool ∧ s.freelist = nullPtr ∧ s.wait_queue = [] := by
  unfold tkCreMpf at h
  split at h
  · cases h
  next hcnt =>
  split at h
  · cases h
  next hsz =>
  split at h
  · cases h
  dsimp only at h
  split at h
  · cases h
  next mempool halloc =>
  split at h
  · cases h
  obtain rfl := Except.ok.inj h
  exact ⟨not_not.mp hcnt, not_not.mp hsz, rfl, rfl, rfl, rfl, halloc, rfl, rfl, rfl⟩

/-- `n` blocks of `b` bytes from `mempool` on: where they may be. -/
structure BlfMem (mempool n b : ℕ) : Prop where
  pos : 0 < b
  /-- Memory neither begins at `NULL` nor reaches to the end of the addresses. -/
  notNull : 0 < mempool
  below : mempool + b * n < 2 ^ 32
  int : b * n < 2 ^ 31

/-- What `IAmalloc` returns for `size` bytes is memory. -/
def AllocatesMemory (iamalloc : ℕ → Option ℕ) (size : ℕ) : Prop :=
  ∀ p, iamalloc size = some p → 0 < p ∧ p + size < 2 ^ 32

/-- What `_tk_cre_mpf` asks for. -/
def sizeAsked (mpfcnt blfsz : ℤ) : ℕ := UINT (INT (UINT (INT (MINSZ blfsz) * mpfcnt)))

/-- The first `k` blocks. -/
def blfs (mempool b k : ℕ) : List ℕ := (List.range k).map fun i => mempool + i * b

variable {mempool n b k : ℕ} {s s' : Mpfcb} {out : List ℕ} {log : List MpfEvent} {blf : ℕ} {t : Tsk}

theorem mem_blfs : blf ∈ blfs mempool b k ↔ ∃ i < k, blf = mempool + i * b := by
  unfold blfs
  rw [List.mem_map]
  constructor
  · rintro ⟨i, hi, rfl⟩
    exact ⟨i, List.mem_range.mp hi, rfl⟩
  · rintro ⟨i, hi, rfl⟩
    exact ⟨i, List.mem_range.mpr hi, rfl⟩

theorem blfs_succ (mempool b k : ℕ) :
    blfs mempool b (k + 1) = blfs mempool b k ++ [mempool + k * b] := by
  unfold blfs
  rw [List.range_succ, List.map_append, List.map_singleton]

theorem blfs_pairwise (mempool b k : ℕ) :
    (blfs mempool b k).Pairwise fun x y => x + b ≤ y ∨ y + b ≤ x := by
  unfold blfs
  refine List.pairwise_map.mpr (List.pairwise_lt_range.imp fun {i j} hij => Or.inl ?_)
  have := Nat.mul_le_mul_right b hij
  rw [Nat.succ_mul] at this
  omega

/-! ## The invariant -/

/-- The blocks in the list of free blocks. -/
def Mpfcb.FreeList (s : Mpfcb) (free : List ℕ) : Prop :=
  IsStack (fun blf => ptr? (s.next blf)) (ptr? s.freelist) free

/-- The first `k` blocks are in the list or in use. -/
structure Carved (mempool n b : ℕ) (s : Mpfcb) (out : List ℕ) (k : ℕ) (free : List ℕ) : Prop where
  le : k ≤ n
  unused : s.unused = mempool + k * b
  list : s.FreeList free
  perm : (free ++ out).Perm (blfs mempool b k)
  frbcnt : s.frbcnt = free.length + (n - k : ℕ)

/-- The pool with the blocks `out` in use. -/
structure MpfInv (mempool n b : ℕ) (s : Mpfcb) (out : List ℕ) : Prop where
  pool : s.mempool = mempool
  cnt : s.mpfcnt = n
  blfsz : s.blfsz = b
  mpfsz : s.mpfsz = (b * n : ℕ)
  carved : ∃ k free, Carved mempool n b s out k free
  waiting : s.wait_queue ≠ [] → s.frbcnt = 0

theorem mpf_end (mem : BlfMem mempool n b) (inv : MpfInv mempool n b s out) :
    s.mempoolEnd = mempool + b * n := by
  unfold Mpfcb.mempoolEnd
  rw [inv.pool, inv.mpfsz, ← Nat.cast_add]
  exact UINT_natCast mem.below

theorem MpfInv.placed (inv : MpfInv mempool n b s out) (h : blf ∈ out) :
    ∃ i < n, blf = mempool + i * b := by
  obtain ⟨k, free, c⟩ := inv.carved
  obtain ⟨i, hi, e⟩ := mem_blfs.mp (c.perm.subset (List.mem_append_right free h))
  exact ⟨i, hi.trans_le c.le, e⟩

theorem blf_le {i : ℕ} (hi : i < n) : i * b + b ≤ b * n := by
  have := Nat.mul_le_mul_right b hi
  rw [Nat.succ_mul, Nat.mul_comm n b] at this
  exact this

theorem MpfInv.relCheck (mem : BlfMem mempool n b) (inv : MpfInv mempool n b s out)
    (h : blf ∈ out) :
    s.relCheck blf = true := by
  obtain ⟨i, hi, rfl⟩ := inv.placed h
  have hle := blf_le (b := b) hi
  have hb := mem.pos
  have hint := mem.int
  unfold Mpfcb.relCheck
  rw [mpf_end mem inv, inv.pool, inv.blfsz]
  have hdiff : ((mempool + i * b : ℕ) : ℤ) - mempool = (i * b : ℕ) := by push_cast; omega
  rw [hdiff, UINT_natCast (by omega), INT_natCast (by omega)]
  have hmod : ((i * b : ℕ) : ℤ).tmod b = 0 := by
    rw [Nat.cast_mul]
    exact Int.mul_tmod_left _ _
  rw [hmod]
  refine decide_eq_true (not_or.mpr ⟨by omega, not_or.mpr ⟨by omega, fun c => c rfl⟩⟩)

/-! ## Steps -/

theorem MpfInv.congr (inv : MpfInv mempool n b s out) (hm : s'.mempool = s.mempool)
    (hc : s'.mpfcnt = s.mpfcnt) (hb : s'.blfsz = s.blfsz) (hs : s'.mpfsz = s.mpfsz)
    (hf : s'.frbcnt = s.frbcnt) (hu : s'.unused = s.unused) (hl : s'.freelist = s.freelist)
    (hn : s'.next = s.next) (hq : s'.wait_queue ≠ [] → s.frbcnt = 0) :
    MpfInv mempool n b s' out := by
  obtain ⟨k, free, c⟩ := inv.carved
  refine ⟨hm.trans inv.pool, hc.trans inv.cnt, hb.trans inv.blfsz, hs.trans inv.mpfsz,
    ⟨k, free, c.le, hu.trans c.unused, ?_, c.perm, hf.trans c.frbcnt⟩, fun h => hf.trans (hq h)⟩
  unfold Mpfcb.FreeList
  rw [hl, hn]
  exact c.list

theorem MpfInv.wait (inv : MpfInv mempool n b s out) {queue : List Tsk}
    {priority waitmask : Tsk → ℕ} {nodiswai : Tsk → Bool} (h : queue ≠ [] → s.frbcnt = 0) :
    MpfInv mempool n b
      { s with
      wait_queue := queue, priority := priority, waitmask := waitmask, nodiswai := nodiswai }
      out :=
  inv.congr rfl rfl rfl rfl rfl rfl rfl rfl h

/-- The first block of the list, or the first unused one. -/
theorem MpfInv.takeBlf (mem : BlfMem mempool n b) (inv : MpfInv mempool n b s out)
    (hfree : 0 < s.frbcnt) :
    MpfInv mempool n b s.takeBlf.2 (s.takeBlf.1 :: out) := by
  obtain ⟨k, free, c⟩ := inv.carved
  have hnone : s.wait_queue = [] := by
    by_contra hne
    exact absurd (inv.waiting hne) hfree.ne'
  unfold Mpfcb.takeBlf
  by_cases hlist : s.freelist ≠ nullPtr
  · rw [if_pos hlist]
    have htop : ptr? s.freelist = some s.freelist := if_neg hlist
    have hl := c.list
    have hperm := c.perm
    have hcnt := c.frbcnt
    cases free with
    | nil => exact absurd (htop.symm.trans hl) (Option.some_ne_none _)
    | cons x free =>
      obtain rfl := ptr?_eq_some hl.1
      refine ⟨inv.pool, inv.cnt, inv.blfsz, inv.mpfsz, ⟨k, free, c.le, c.unused, hl.2, ?_, ?_⟩,
        fun h => absurd hnone h⟩
      · exact List.perm_middle.trans hperm
      · show s.frbcnt - 1 = _
        rw [hcnt, List.length_cons]
        push_cast
        omega
  · rw [if_neg hlist]
    have hnil : free = [] := by
      have htop := c.list.top
      rw [ptr?, if_pos (not_not.mp hlist)] at htop
      exact List.head?_eq_none_iff.mp htop.symm
    subst hnil
    have hk : k < n := by
      have := c.frbcnt
      rw [List.length_nil] at this
      omega
    have hle := blf_le (b := b) hk
    have hbelow := mem.below
    refine ⟨inv.pool, inv.cnt, inv.blfsz, inv.mpfsz, ⟨k + 1, [], hk, ?_, c.list, ?_, ?_⟩, fun h =>
      absurd hnone h⟩
    · show UINT (s.unused + s.blfsz) = _
      rw [c.unused, inv.blfsz, ← Nat.cast_add, UINT_natCast (by omega), Nat.succ_mul, Nat.add_assoc]
    · show ([] ++ s.unused :: out).Perm _
      rw [blfs_succ, c.unused, List.nil_append]
      exact (c.perm.cons _).trans (List.perm_append_singleton _ _).symm
    · show s.frbcnt - 1 = _
      rw [c.frbcnt, List.length_nil]
      omega

/-- A block goes back to the list. -/
theorem MpfInv.freeBlf (mem : BlfMem mempool n b) (inv : MpfInv mempool n b s out) (h : blf ∈ out)
    (hq : s.wait_queue = []) : MpfInv mempool n b (s.freeBlf blf) (out.erase blf) := by
  obtain ⟨k, free, c⟩ := inv.carved
  have hperm : (blf :: free ++ out.erase blf).Perm (blfs mempool b k) :=
    (List.perm_middle.symm.trans ((List.perm_cons_erase h).symm.append_left free)).trans c.perm
  have hnodup : (blfs mempool b k).Nodup :=
    (blfs_pairwise mempool b k).imp fun {x y} hxy => by have := mem.pos; omega
  have hnew : blf ∉ free := by
    have := hperm.nodup_iff.mpr hnodup
    exact fun hm => (List.nodup_cons.mp this).1 (List.mem_append_left _ hm)
  have hpos : blf ≠ nullPtr := by
    obtain ⟨i, -, rfl⟩ := inv.placed h
    have := mem.notNull
    show mempool + i * b ≠ 0
    omega
  refine ⟨inv.pool, inv.cnt, inv.blfsz, inv.mpfsz, ⟨k, blf :: free, c.le, c.unused,
    ⟨if_neg hpos, ?_⟩, hperm, ?_⟩, fun hne => absurd hq hne⟩
  · show IsStack (fun x => ptr? (Function.update s.next blf s.freelist x))
      (ptr? (Function.update s.next blf s.freelist blf)) free
    rw [Function.update_self]
    refine c.list.congr fun x hx => ?_
    have hne : x ≠ blf := fun e => hnew (e ▸ hx)
    exact congrArg ptr? (Function.update_of_ne hne _ _)
  · show s.frbcnt + 1 = _
    rw [c.frbcnt, List.length_cons]
    push_cast
    omega

theorem MpfInv.write (mem : BlfMem mempool n b) (inv : MpfInv mempool n b s out) {next : ℕ → ℕ}
    (h : ∀ z : ℕ, (∀ blf ∈ out, z < blf ∨ (blf : ℤ) + s.blfsz ≤ z) → next z = s.next z) :
    MpfInv mempool n b { s with next := next } out := by
  obtain ⟨k, free, c⟩ := inv.carved
  refine ⟨inv.pool, inv.cnt, inv.blfsz, inv.mpfsz, ⟨k, free, c.le, c.unused, ?_, c.perm, c.frbcnt⟩,
    inv.waiting⟩
  refine c.list.congr fun x hx => ?_
  have hpair := (c.perm.pairwise_iff fun {x y} hxy => Or.symm hxy).mpr (blfs_pairwise mempool b k)
  show ptr? (next x) = ptr? (s.next x)
  rw [h x fun y hy => ?_]
  have hxy := (List.pairwise_append.mp hpair).2.2 x hx y hy
  have hb := mem.pos
  rw [inv.blfsz]
  omega

/-- The state after a step, and the blocks then in use. -/
structure MpfKeeps (mempool n b : ℕ) (out : List ℕ) (r : MpfResult) : Prop where
  inv : MpfInv mempool n b r.1 (r.2.1.foldl MpfEvent.track out)

theorem mpfKeeps_ite {c : Prop} [Decidable c] {r r' : MpfResult}
    (h : c → MpfKeeps mempool n b out r) (h' : ¬c → MpfKeeps mempool n b out r') :
    MpfKeeps mempool n b out (if c then r else r') := by
  split_ifs with hc
  · exact h hc
  · exact h' hc

theorem MpfInv.same (inv : MpfInv mempool n b s out) (res : Option ℤ) :
    MpfKeeps mempool n b out (s, [], res) := ⟨inv⟩

theorem MpfInv.tkGetMpf (mem : BlfMem mempool n b) (inv : MpfInv mempool n b s out) (self : Tsk)
    (idOk ddsp : Bool) (prot : ER) (tmout : ℤ) :
    MpfKeeps mempool n b out (s.tkGetMpf self idOk ddsp prot tmout) := by
  refine mpfKeeps_ite (fun _ => inv.same _) fun _ => mpfKeeps_ite (fun _ => inv.same _) fun _ =>
    mpfKeeps_ite (fun _ => inv.same _) fun _ => mpfKeeps_ite (fun _ => inv.same _) fun _ =>
    mpfKeeps_ite (fun _ => inv.same _) fun _ => mpfKeeps_ite (fun hfull => ?_) fun hfree => ?_
  · have h0 : s.frbcnt = 0 := by
      obtain ⟨k, free, c⟩ := inv.carved
      have := c.frbcnt
      omega
    exact mpfKeeps_ite (fun _ => inv.same _) fun _ => mpfKeeps_ite (fun _ => inv.same _) fun _ =>
      ⟨inv.wait fun _ => h0⟩
  · exact ⟨inv.takeBlf mem (not_le.mp hfree)⟩

/-- **A block that is released while tasks wait goes to the head waiter**, and nothing else
changes. -/
theorem MpfInv.handOver (mem : BlfMem mempool n b) (inv : MpfInv mempool n b s out) (h : blf ∈ out)
    {queue : List Tsk} (hq : s.wait_queue = t :: queue) :
    s.tkRelMpf true false E_OK blf =
      ({ s with wait_queue := queue }, [.released blf, .got t blf], some E_OK) := by
  unfold Mpfcb.tkRelMpf
  rw [inv.relCheck mem h, hq]
  rfl

theorem MpfInv.tkRelMpf (mem : BlfMem mempool n b) (inv : MpfInv mempool n b s out) (h : blf ∈ out)
    (idOk ddsp : Bool) (prot : ER) : MpfKeeps mempool n b out (s.tkRelMpf idOk ddsp prot blf) := by
  refine mpfKeeps_ite (fun _ => inv.same _) fun _ => mpfKeeps_ite (fun _ => inv.same _) fun _ =>
    mpfKeeps_ite (fun _ => inv.same _) fun _ => mpfKeeps_ite (fun _ => inv.same _) fun _ => ?_
  cases hq : s.wait_queue with
  | nil => exact ⟨inv.freeBlf mem h hq⟩
  | cons tcb queue =>
    -- the block is in use again
    have h0 : s.frbcnt = 0 := inv.waiting (by rw [hq]; exact List.cons_ne_nil tcb queue)
    have hinv : MpfInv mempool n b { s with wait_queue := queue } out := inv.wait fun _ => h0
    obtain ⟨k, free, c⟩ := hinv.carved
    exact ⟨⟨hinv.pool, hinv.cnt, hinv.blfsz, hinv.mpfsz, ⟨k, free, c.le, c.unused, c.list,
      ((List.perm_cons_erase h).symm.append_left free).trans c.perm, c.frbcnt⟩, hinv.waiting⟩⟩

theorem MpfInv.endWait (inv : MpfInv mempool n b s out) (t : Tsk) (ercd : Option ER)
    (res : Option ℤ) (hmem : t ∈ s.wait_queue) :
    MpfKeeps mempool n b out ((s.endWait t ercd).1, (s.endWait t ercd).2, res) :=
  ⟨inv.wait fun _ => inv.waiting (List.ne_nil_of_mem hmem)⟩

theorem MpfInv.changeTaskPriority (inv : MpfInv mempool n b s out) (t : Tsk) (priority : ℕ) :
    MpfInv mempool n b (s.changeTaskPriority t priority) out := by
  unfold Mpfcb.changeTaskPriority
  dsimp only
  split_ifs with h
  · exact inv.wait fun _ => inv.waiting (List.ne_nil_of_mem h.1)
  · exact inv.wait inv.waiting

theorem MpfInv.exec (mem : BlfMem mempool n b) (inv : MpfInv mempool n b s out) {op : MpfOp}
    (legal : op.Legal s out) :
    MpfKeeps mempool n b out (op.exec s) := by
  cases op with
  | getMpf self idOk ddsp prot tmout => exact inv.tkGetMpf mem self idOk ddsp prot tmout
  | relMpf idOk ddsp prot blf => exact inv.tkRelMpf mem legal idOk ddsp prot
  | timeout t => exact mpfKeeps_ite (inv.endWait t _ _) fun _ => inv.same _
  | relWai t chk =>
    exact mpfKeeps_ite (fun _ => inv.same _) fun _ => mpfKeeps_ite (inv.endWait t _ _) fun _ =>
      inv.same _
  | disWai t waitmask chk elsewhere =>
    have inv' :
        MpfInv mempool n b { s with waitmask := Function.update s.waitmask t waitmask } out :=
      inv.wait inv.waiting
    exact mpfKeeps_ite (fun _ => inv.same _) fun _ => mpfKeeps_ite
      (fun hmem => mpfKeeps_ite (fun _ => inv'.endWait t _ _ hmem) fun _ => inv'.same _) fun _ =>
        inv'.same _
  | enaWai t chk => exact mpfKeeps_ite (fun _ => inv.same _) fun _ => ⟨inv.wait inv.waiting⟩
  | terTsk t chk =>
    exact mpfKeeps_ite (fun _ => inv.same _) fun _ => mpfKeeps_ite (inv.endWait t _ _) fun _ =>
      inv.same _
  | chgPri t priority chk =>
    exact mpfKeeps_ite (fun _ => inv.same _) fun _ => ⟨inv.changeTaskPriority t priority⟩
  | write next => exact ⟨inv.write mem legal⟩

/-! ## Runs -/

/-- A new pool whose size can be computed. -/
theorem mpfInv_create {chk rest : ER} {mpfatr : ℕ} {mpfcnt blfsz : ℤ} {iamalloc : ℕ → Option ℕ}
    {s₀ : Mpfcb} (halloc : AllocatesMemory iamalloc (sizeAsked mpfcnt blfsz))
    (hsize : roundedBlfsz blfsz * mpfcnt ≤ INT_MAX)
    (h : tkCreMpf chk mpfatr mpfcnt blfsz iamalloc rest s₀ = .ok s) :
    ∃ n b : ℕ, mpfcnt = n ∧ roundedBlfsz blfsz = b ∧ BlfMem s.mempool n b ∧
      MpfInv s.mempool n b s [] := by
  obtain ⟨hcnt, hsz, ecnt, efrb, eblf, empf, emem, eunused, elist, equeue⟩ := tkCreMpf_ok h
  have hasked : sizeAsked mpfcnt blfsz = UINT s.mpfsz := by rw [empf, eblf, sizeAsked]
  rw [hasked] at halloc
  obtain ⟨n, rfl⟩ := Int.eq_ofNat_of_zero_le hcnt.le
  obtain ⟨m, rfl⟩ := Int.eq_ofNat_of_zero_le hsz.le
  have hround : roundedBlfsz m = ((m + 3) / 4 * 4 : ℕ) := rfl
  have hn : 0 < n := Int.natCast_pos.mp hcnt
  have hm : 0 < m := Int.natCast_pos.mp hsz
  rw [hround] at hsize
  refine ⟨n, (m + 3) / 4 * 4, rfl, hround, ?_⟩
  have hm' : (m + 3) / 4 * 4 * n < 2 ^ 31 := by
    rw [← Nat.cast_mul] at hsize
    have : INT_MAX = 2 ^ 31 - 1 := rfl
    omega
  have hle : (m + 3) / 4 * 4 ≤ (m + 3) / 4 * 4 * n := Nat.le_mul_of_pos_right _ hn
  rw [MINSZ_natCast (by omega), INT_natCast (by omega)] at eblf
  rw [eblf, ← Nat.cast_mul, UINT_natCast (by omega), INT_natCast hm'] at empf
  obtain ⟨hnull, hbelow⟩ := halloc _ emem
  rw [empf, UINT_natCast (by omega)] at hbelow
  refine ⟨⟨by omega, hnull, hbelow, hm'⟩, rfl, ecnt, eblf, empf, ⟨0, [], Nat.zero_le n, ?_, ?_,
    List.Perm.refl _, ?_⟩, fun hne => absurd equeue hne⟩
  · rw [eunused, Nat.zero_mul, Nat.add_zero]
  · show ptr? s.freelist = none
    rw [elist]
    rfl
  · rw [efrb, List.length_nil, Nat.sub_zero, Nat.cast_zero, zero_add]

theorem MpfRun.inv {s₀ : Mpfcb} (mem : BlfMem mempool n b) (inv : MpfInv mempool n b s₀ [])
    (run : MpfRun s₀ s log) :
    MpfInv mempool n b s (outstandingBlfs log) := by
  induction run with
  | create => exact inv
  | step op _ legal ih =>
    unfold outstandingBlfs
    rw [List.foldl_append]
    exact (ih.exec mem legal).inv

/-- What is promised of a pool with the blocks `out` in use. -/
structure MpfRight (s : Mpfcb) (out : List ℕ) : Prop where
  /-- Blocks lie on the boundaries of blocks, inside the pool. -/
  placed : ∀ blf ∈ out, ∃ i : ℕ, i < s.mpfcnt ∧ (blf : ℤ) = s.mempool + i * s.blfsz ∧
    (blf : ℤ) + s.blfsz ≤ s.mempool + s.mpfsz
  disjoint : out.Pairwise fun x y : ℕ => (x : ℤ) + s.blfsz ≤ y ∨ (y : ℤ) + s.blfsz ≤ x
  count : s.frbcnt = s.mpfcnt - out.length
  /-- `frbcnt` is the length of the list and the number of blocks between `unused` and the end. -/
  free : ∃ (l : List ℕ) (m : ℕ), s.FreeList l ∧ (s.mempoolEnd : ℤ) = s.unused + m * s.blfsz ∧
    s.frbcnt = l.length + m
  waiting : s.wait_queue ≠ [] → s.frbcnt = 0
  /-- A block that is released while tasks wait goes to the head waiter. -/
  handOver : ∀ t queue, s.wait_queue = t :: queue → ∀ blf ∈ out, s.tkRelMpf true false E_OK blf =
    ({ s with wait_queue := queue }, [.released blf, .got t blf], some E_OK)

theorem MpfInv.right (mem : BlfMem mempool n b) (inv : MpfInv mempool n b s out) :
    MpfRight s out := by
  obtain ⟨k, free, c⟩ := inv.carved
  have hpair := (c.perm.pairwise_iff fun {x y} hxy => Or.symm hxy).mpr (blfs_pairwise mempool b k)
  have hlen : free.length + out.length = k := by
    rw [← List.length_append, c.perm.length_eq, blfs, List.length_map, List.length_range]
  have hle := c.le
  refine ⟨fun blf h => ?_, ?_, ?_, ⟨free, n - k, c.list, ?_, c.frbcnt⟩, inv.waiting,
    fun t queue hq blf h => inv.handOver mem h hq⟩
  · obtain ⟨i, hi, rfl⟩ := inv.placed h
    have := blf_le (b := b) hi
    refine ⟨i, ?_, ?_, ?_⟩
    · rw [inv.cnt]
      exact_mod_cast hi
    · rw [inv.pool, inv.blfsz]
      push_cast
      rfl
    · rw [inv.pool, inv.blfsz, inv.mpfsz]
      omega
  · rw [inv.blfsz]
    refine (List.pairwise_append.mp hpair).2.1.imp fun {x y} hxy => ?_
    omega
  · rw [c.frbcnt, inv.cnt]
    omega
  · rw [mpf_end mem inv, c.unused, inv.blfsz]
    have : b * n = k * b + (n - k) * b := by
      rw [← Nat.add_mul, Nat.add_sub_cancel' hle, Nat.mul_comm]
    rw [this]
    push_cast
    omega

/-- **Fixed size pools.** In every run of a pool whose size can be computed the blocks in use are
apart, and `frbcnt` is right in both ways. -/
theorem mpfRun_right {chk rest : ER} {mpfatr : ℕ} {mpfcnt blfsz : ℤ} {iamalloc : ℕ → Option ℕ}
    {s₀ s₁ : Mpfcb} (halloc : AllocatesMemory iamalloc (sizeAsked mpfcnt blfsz))
    (hsize : roundedBlfsz blfsz * mpfcnt ≤ INT_MAX)
    (h : tkCreMpf chk mpfatr mpfcnt blfsz iamalloc rest s₀ = .ok s₁) (run : MpfRun s₁ s log) :
    MpfRight s (outstandingBlfs log) := by
  obtain ⟨n, b, -, -, mem, inv⟩ := mpfInv_create halloc hsize h
  exact (run.inv mem inv).right mem

/-- A pool of two blocks of eight bytes. -/
def smallMpf : Mpfcb :=
  ⟨[], 0, 2, 8, 16, 2, 1000, 1000, nullPtr, fun _ => 0, fun _ => 1, fun _ => 0, fun _ => false⟩

/-- `IAmalloc` with little memory at one place. -/
def lowMemory (n : ℕ) : Option ℕ := if n ≤ 65536 then some 1000 else none

theorem lowMemory_allocates (n : ℕ) : AllocatesMemory lowMemory n := by
  intro p h
  unfold lowMemory at h
  split_ifs at h with hn
  rw [← Option.some.inj h]
  omega

/-- Two tasks get the blocks, the third one waits. -/
theorem mpfRun_right_full :
    let r₁ := (MpfOp.getMpf 1 true false E_OK TMO_FEVR).exec smallMpf
    let r₂ := (MpfOp.getMpf 2 true false E_OK TMO_FEVR).exec r₁.1
    let r₃ := (MpfOp.getMpf 3 true false E_OK TMO_FEVR).exec r₂.1
    r₃.1.wait_queue = [3] ∧ MpfRight r₃.1 [1008, 1000] := by
  intro r₁ r₂ r₃
  have hcre : tkCreMpf E_OK 0 2 5 lowMemory E_OK smallMpf = .ok smallMpf := rfl
  have run :=
    ((@MpfRun.create smallMpf).step (.getMpf 1 true false E_OK TMO_FEVR) List.not_mem_nil).step
    (.getMpf 2 true false E_OK TMO_FEVR) List.not_mem_nil
  have run := run.step (.getMpf 3 true false E_OK TMO_FEVR) List.not_mem_nil
  exact ⟨by decide, mpfRun_right (lowMemory_allocates _) (by decide) hcre run⟩

/-! ## Creation near the limit of sizes -/

/-- The new pool `s` has `UINT s.mpfsz` bytes of memory, which is enough for all its blocks. -/
structure CreatesBlocks (mpfcnt blfsz : ℤ) (s : Mpfcb) : Prop where
  /-- Neither the rounding nor the product went wrong. -/
  size : s.blfsz = roundedBlfsz blfsz ∧ s.mpfsz = roundedBlfsz blfsz * mpfcnt
  backed : roundedBlfsz blfsz * mpfcnt ≤ UINT s.mpfsz
  /-- Every block that will be handed out lies in the memory. -/
  inside : ∀ s' log, MpfRun s s' log → ∀ blf ∈ outstandingBlfs log,
    s.mempool ≤ blf ∧ blf + roundedBlfsz blfsz ≤ s.mempool + UINT s.mpfsz
  /-- Every such block will be taken back. -/
  accepted : ∀ s' log, MpfRun s s' log → ∀ blf ∈ outstandingBlfs log, s'.relCheck blf = true

/-- **Creation of any size.** A pool that is created is right if and only if its size is an
`INT`. -/
theorem creMpf_iff {chk rest : ER} {mpfatr : ℕ} {mpfcnt blfsz : ℤ} {iamalloc : ℕ → Option ℕ}
    {s₀ : Mpfcb} (halloc : roundedBlfsz blfsz * mpfcnt ≤ INT_MAX →
      AllocatesMemory iamalloc (sizeAsked mpfcnt blfsz))
    (h : tkCreMpf chk mpfatr mpfcnt blfsz iamalloc rest s₀ = .ok s) :
    CreatesBlocks mpfcnt blfsz s ↔ roundedBlfsz blfsz * mpfcnt ≤ INT_MAX := by
  constructor
  · intro right
    obtain ⟨-, -, -, -, -, empf, -⟩ := tkCreMpf_ok h
    rw [← right.size.2, empf]
    exact INT_le _ (toUnsigned_lt 32 _)
  · intro hsize
    obtain ⟨n, b, rfl, hb, mem, inv⟩ := mpfInv_create (halloc hsize) hsize h
    have hint := mem.int
    have hbytes : UINT s.mpfsz = b * n := by rw [inv.mpfsz, UINT_natCast (by omega)]
    rw [hb] at hsize
    refine ⟨?_, ?_, fun s' log run blf hblf => ?_, fun s' log run blf hblf =>
      (run.inv mem inv).relCheck mem hblf⟩
    · rw [hb]
      exact ⟨inv.blfsz, by rw [inv.mpfsz, Nat.cast_mul]⟩
    · rw [hb, hbytes, Nat.cast_mul]
    · obtain ⟨i, hi, rfl⟩ := (run.inv mem inv).placed hblf
      have := blf_le (b := b) hi
      rw [hb, hbytes]
      refine ⟨Nat.le_add_right _ _, ?_⟩
      push_cast
      have : ((i * b + b : ℕ) : ℤ) ≤ (b * n : ℕ) := by exact_mod_cast this
      push_cast at this
      omega

theorem creMpf_iff_small : CreatesBlocks 2 5 smallMpf ↔ roundedBlfsz 5 * 2 ≤ INT_MAX :=
  have h : tkCreMpf E_OK 0 2 5 lowMemory E_OK smallMpf = .ok smallMpf := rfl
  creMpf_iff (fun _ => lowMemory_allocates _) h

/-- What `_tk_cre_mpf` makes of 65537 blocks of 65536 bytes: the memory is that of one block. -/
def wrappedMpf : Mpfcb :=
  ⟨[], 0, 65537, 65536, 65536, 65537, 1000, 1000, nullPtr, fun _ => 0, fun _ => 1,
    fun _ => 0, fun _ => false⟩

/-- The second block lies behind the memory and is not taken back. -/
theorem creMpf_wrapped :
    let r₁ := wrappedMpf.tkGetMpf 1 true false E_OK TMO_POL
    let r₂ := r₁.1.tkGetMpf 2 true false E_OK TMO_POL
    tkCreMpf E_OK 0 65537 65536 lowMemory E_OK wrappedMpf = .ok wrappedMpf ∧
      r₂.2.1 = [.got 2 (wrappedMpf.mempool + UINT wrappedMpf.mpfsz)] ∧
      (r₂.1.tkRelMpf true false E_OK (wrappedMpf.mempool + UINT wrappedMpf.mpfsz)).2 =
      ([], some E_PAR) ∧
      ¬CreatesBlocks 65537 65536 wrappedMpf := by
  intro r₁ r₂
  refine ⟨rfl, by decide, by decide, fun right => ?_⟩
  have := right.size.2
  exact absurd this (by decide)

end SmpTKernel
