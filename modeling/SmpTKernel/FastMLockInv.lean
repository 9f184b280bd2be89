import SmpTKernel.EventFlagInv
import SmpTKernel.FastMLock

/-!
# Nobody sleeps through an unlock

A bit of the lock word is set exactly while one task holds the lock. Whenever a task waits for a bit
of the event flag, or is about to, the lock is taken, the bit of the event flag is set, or there is
a task that will set it or test the lock once more: this is `Awake`, and every step keeps it.
-/

namespace SmpTKernel

open Census

variable {s : FastMLock} {t u : Tsk} {no k : Fin 32} {tmo : ℤ} {p flg ptn : BitVec 32}
  {l : List Tsk}

/-! ## Bits -/

theorem lockBit_getLsbD (no k : Fin 32) : (lockBit no).getLsbD k = decide (no = k) := by
  rw [lockBit, BitVec.getLsbD_twoPow, decide_eq_true no.isLt, Bool.true_and]
  exact decide_eq_decide.mpr Fin.val_inj

theorem bitset_getLsbD (p : BitVec 32) (no k : Fin 32) :
    (p ||| lockBit no).getLsbD k = (p.getLsbD k || decide (no = k)) := by
  rw [BitVec.getLsbD_or, lockBit_getLsbD]

theorem bitclr_getLsbD (p : BitVec 32) (no k : Fin 32) :
    (p &&& ~~~lockBit no).getLsbD k = (p.getLsbD k && !decide (no = k)) := by
  rw [BitVec.getLsbD_and, BitVec.getLsbD_not, lockBit_getLsbD, decide_eq_true k.isLt, Bool.true_and]

theorem and_lockBit (p : BitVec 32) (no : Fin 32) :
    p &&& lockBit no = 0 ↔ p.getLsbD no = false := by
  rw [lockBit, BitVec.and_twoPow]
  rcases hp : p.getLsbD no with _ | _
  · simp
  · simp only [if_true, Bool.true_eq_false, iff_false]
    intro h
    have hbit := congrArg (fun b => b.getLsbD no) h
    rw [BitVec.getLsbD_twoPow] at hbit
    simp at hbit

theorem lockBit_inj (h : lockBit no = lockBit k) : no = k := by
  have hbit := lockBit_getLsbD no k
  rw [h, lockBit_getLsbD, decide_eq_true rfl] at hbit
  exact of_decide_eq_true hbit.symm

/-- How the tasks wait. -/
abbrev lockMode : BitVec 32 := TWF_ORW ||| TWF_BITCLR

theorem cond_lockBit (p : BitVec 32) (no : Fin 32) :
    eventflagCond p (lockBit no) lockMode = p.getLsbD no := by
  unfold eventflagCond
  rw [if_pos (by decide)]
  rcases hp : p.getLsbD no with _ | _
  · exact decide_eq_false (not_not.mpr ((and_lockBit p no).mpr hp))
  · exact decide_eq_true fun h => by rw [(and_lockBit p no).mp h] at hp; exact Bool.false_ne_true hp

theorem clearPtn_lockBit (p : BitVec 32) (no : Fin 32) :
    clearPtn p (lockBit no) lockMode = p &&& ~~~lockBit no := by
  unfold clearPtn
  rw [if_neg (by decide), if_pos (by decide)]

/-! ## The event flag of the locks -/

section Scan

variable {waiptn wfmode : Tsk → BitVec 32}

theorem scanQueue_none (h : ∀ t ∈ l, eventflagCond p (waiptn t) (wfmode t) = false) :
    scanQueue waiptn wfmode p l = ⟨[], l, p⟩ := by
  induction l with
  | nil => rfl
  | cons t queue ih =>
    rw [scanQueue, h t List.mem_cons_self, ih fun u hu => h u (List.mem_cons_of_mem t hu)]
    rfl

/-- A scan that can meet the conditions for one bit only releases the first task that waits for
it. -/
theorem scanQueue_lockBit (nodup : l.Nodup)
    (h : ∀ t ∈ l, wfmode t = lockMode ∧ ∃ k, waiptn t = lockBit k ∧ (p.getLsbD k = true → k = no)) :
    (scanQueue waiptn wfmode p l = ⟨[], l, p⟩ ∧ (p.getLsbD no = true →
      ∀ t ∈ l, waiptn t ≠ lockBit no)) ∨
      ∃ u ∈ l, waiptn u = lockBit no ∧ p.getLsbD no = true ∧
        scanQueue waiptn wfmode p l = ⟨[(u, p)], l.erase u, p &&& ~~~lockBit no⟩ := by
  induction l with
  | nil => exact Or.inl ⟨rfl, fun _ t ht => absurd ht List.not_mem_nil⟩
  | cons t queue ih =>
    obtain ⟨hmode, k, hk, himp⟩ := h t List.mem_cons_self
    have hq : ∀ u ∈ queue, wfmode u = lockMode ∧ ∃ k, waiptn u = lockBit k ∧
        (p.getLsbD k = true → k = no) :=
      fun u hu => h u (List.mem_cons_of_mem t hu)
    have hcond : eventflagCond p (waiptn t) (wfmode t) = p.getLsbD k := by
      rw [hmode, hk, cond_lockBit]
    rw [scanQueue, hcond]
    by_cases hbit : p.getLsbD k = true
    · -- it clears the bit, and no other condition is met
      obtain rfl := himp hbit
      right
      refine ⟨t, List.mem_cons_self, hk, hbit, ?_⟩
      have hnone : scanQueue waiptn wfmode (p &&& ~~~lockBit k) queue =
          ⟨[], queue, p &&& ~~~lockBit k⟩ := by
        refine scanQueue_none fun u hu => ?_
        obtain ⟨hmode', k', hk', himp'⟩ := hq u hu
        rw [hmode', hk', cond_lockBit, bitclr_getLsbD]
        by_cases hb : p.getLsbD k' = true
        · rw [himp' hb]
          simp
        · rw [Bool.not_eq_true] at hb
          rw [hb, Bool.false_and]
      rw [if_pos hbit, hmode, hk, clearPtn_lockBit, hnone, List.erase_cons_head]
    · rw [if_neg hbit]
      have hne : p.getLsbD no = true → waiptn t ≠ lockBit no := by
        intro hno hc
        rw [hk] at hc
        rw [lockBit_inj hc] at hbit
        exact hbit hno
      rcases ih (List.nodup_cons.mp nodup).2 hq with ⟨e, hall⟩ | ⟨u, hu, hw, hno, e⟩
      · left
        rw [e]
        refine ⟨rfl, fun hno v hv => ?_⟩
        rcases List.mem_cons.mp hv with rfl | hv
        · exact hne hno
        · exact hall hno v hv
      · right
        have hut : t ≠ u := fun hc => hne hno (hc ▸ hw)
        refine ⟨u, List.mem_cons_of_mem t hu, hw, hno, ?_⟩
        rw [e, List.erase_cons_tail (by simpa using hut)]

end Scan

/-- How `tk_wai_flg` goes on in `MLockTmo`. -/
inductive LockWaits (f : Flgcb) (t : Tsk) (no : Fin 32) : FlgResult → Prop
  | fails (ercd : ER) (neg : ercd < E_OK) (waiptn wfmode : Tsk → BitVec 32)
      (others : ∀ u ≠ t, waiptn u = f.waiptn u ∧ wfmode u = f.wfmode u) :
      LockWaits f t no ({ f with waiptn := waiptn, wfmode := wfmode }, [], some ercd)
  | takes (set : f.flgptn.getLsbD no = true) (ev : List FlgEvent) :
      LockWaits f t no ({ f with flgptn := f.flgptn &&& ~~~lockBit no }, ev, some E_OK)
  | waits (clear : f.flgptn.getLsbD no = false) :
      LockWaits f t no (Flgcb.makeWait { f with
        waiptn := Function.update f.waiptn t (lockBit no)
        wfmode := Function.update f.wfmode t lockMode } t, [], none)

theorem lockWaits_ite {f : Flgcb} {r r' : FlgResult} {c : Prop} [Decidable c]
    (h : c → LockWaits f t no r) (h' : ¬c → LockWaits f t no r') :
    LockWaits f t no (if c then r else r') := by
  split_ifs with hc
  · exact h hc
  · exact h' hc

theorem tkWaiFlg_lockWaits (f : Flgcb) (t : Tsk) (no : Fin 32) (ddsp : Bool) {prot : ER}
    (hprot : prot ≤ E_OK) (tmo : ℤ) :
    LockWaits f t no (f.tkWaiFlg t true ddsp prot (lockBit no) lockMode tmo) := by
  have hfail {ercd : ER} (h : ercd < E_OK) : LockWaits f t no (f, [], some ercd) :=
    .fails ercd h f.waiptn f.wfmode fun _ _ => ⟨rfl, rfl⟩
  have hfail' {ercd : ER} (h : ercd < E_OK) : LockWaits f t no ({ f with
      waiptn := Function.update f.waiptn t (lockBit no)
      wfmode := Function.update f.wfmode t lockMode }, [], some ercd) :=
    .fails ercd h _ _ fun u hu => ⟨Function.update_of_ne hu _ _, Function.update_of_ne hu _ _⟩
  unfold Flgcb.tkWaiFlg
  refine lockWaits_ite (fun _ => hfail (by decide)) fun _ => lockWaits_ite (fun _ =>
      hfail (by decide)) fun _ =>
    lockWaits_ite (fun _ => hfail (by decide)) fun _ => lockWaits_ite (fun _ =>
      hfail (by decide)) fun _ =>
    lockWaits_ite (fun _ => hfail (by decide)) fun _ => lockWaits_ite (fun h =>
      hfail (lt_of_le_of_ne hprot h)) fun _ =>
    lockWaits_ite (fun _ => hfail (by decide)) fun _ => lockWaits_ite (fun _ =>
      hfail (by decide)) fun _ =>
    lockWaits_ite (fun hc => ?_) fun hc =>
    lockWaits_ite (fun _ => hfail' (by decide)) fun _ => lockWaits_ite (fun _ => hfail' (by decide))
    fun _ => ?_
  · rw [cond_lockBit] at hc
    exact .takes hc _
  · rw [cond_lockBit, Bool.not_eq_true] at hc
    exact .waits hc

/-! ## The invariant -/

/-- Counted in `wai`. -/
def MLockPos.Uses : MLockPos → Prop
  | bts .. | waiFlg .. | blocked .. | dec _ => True
  | outside | look _ | setFlg _ => False

/-- Waits for the bit of the event flag, or is about to. -/
def MLockPos.Needs (no : Fin 32) : MLockPos → Prop
  | waiFlg k _ | blocked k _ => k = no
  | outside | bts .. | dec _ | look _ | setFlg _ => False

theorem MLockPos.Needs.uses {q : MLockPos} (h : q.Needs no) : q.Uses := by
  cases q <;> simp_all [MLockPos.Needs, MLockPos.Uses]

/-- Will set the bit of the event flag, or test the lock again. -/
def MLockPos.Wakes (no : Fin 32) : MLockPos → Prop
  | bts k _ woken => k = no ∧ woken = true
  | look k | setFlg k => k = no
  | outside | waiFlg .. | blocked .. | dec _ => False

theorem MLockPos.Wakes.cases {q : MLockPos} (h : q.Wakes no) :
    q = .look no ∨ q = .setFlg no ∨ ∃ tmo, q = .bts no tmo true := by
  cases q <;> simp_all [MLockPos.Wakes]

/-- There is no need to worry about tasks that wait for a lock. -/
def Awake (flg ptn : BitVec 32) (pos : Tsk → MLockPos) (no : Fin 32) : Prop :=
  flg.getLsbD no = true ∨ ptn.getLsbD no = true ∨ ∃ u, (pos u).Wakes no

structure FastMLockInv (s : FastMLock) : Prop where
  event : FlgInv s.event
  nodup : s.event.wait_queue.Nodup
  queue : ∀ t, t ∈ s.event.wait_queue ↔ ∃ no tmo, s.pos t = .blocked no tmo
  request : ∀ t no tmo, s.pos t = .blocked no tmo →
    s.event.waiptn t = lockBit no ∧ s.event.wfmode t = lockMode
  users : ∃ n, Count s.pos MLockPos.Uses n ∧ s.wai.toNat = n
  small : ∀ t, (s.pos t).Uses → t < 2 ^ 31
  held : ∀ no : Fin 32, if s.flg.getLsbD no then ∃ t, s.holders no = [t] else s.holders no = []
  awake : ∀ no t, (s.pos t).Needs no → Awake s.flg s.event.flgptn s.pos no

theorem FastMLockInv.clear (inv : FastMLockInv s) (ht : s.pos t = .blocked no tmo) :
    s.event.flgptn.getLsbD no = false := by
  obtain ⟨hw, hm⟩ := inv.request t no tmo ht
  have hunmet := inv.event.unmet t ((inv.queue t).mpr ⟨no, tmo, ht⟩)
  rwa [hw, hm, cond_lockBit] at hunmet

/-- The count of the tasks in `MLockTmo` does not overflow. -/
theorem FastMLockInv.users_lt (inv : FastMLockInv s) {n : ℕ} (hn : Count s.pos MLockPos.Uses n) :
    n ≤ 2 ^ 31 :=
  hn.le_of_lt inv.small

/-- One task moves. The locks and the event flag may have changed as well. -/
theorem Awake.move {flg' ptn' : BitVec 32} {pos : Tsk → MLockPos} {q : MLockPos}
    (h : Awake flg ptn pos no)
    (hflg : flg.getLsbD no = true → Awake flg' ptn' (Function.update pos t q) no)
    (hptn : ptn.getLsbD no = true → Awake flg' ptn' (Function.update pos t q) no)
    (hself : (pos t).Wakes no → Awake flg' ptn' (Function.update pos t q) no) :
    Awake flg' ptn' (Function.update pos t q) no := by
  rcases h with h | h | ⟨u, hu⟩
  · exact hflg h
  · exact hptn h
  · rcases eq_or_ne u t with rfl | hne
    · exact hself hu
    · exact Or.inr (Or.inr ⟨u, by rw [Function.update_of_ne hne]; exact hu⟩)

theorem awake_self {pos : Tsk → MLockPos} {q : MLockPos} (hq : q.Wakes no) :
    Awake flg ptn (Function.update pos t q) no :=
  Or.inr (Or.inr ⟨t, by rw [Function.update_self]; exact hq⟩)

/-- A task that has nothing to do with the queue of the event flag goes where this stays so. -/
theorem FastMLockInv.moves (inv : FastMLockInv s) {q : MLockPos}
    (ht : ∀ no tmo, s.pos t ≠ .blocked no tmo) (hq : ∀ no tmo, q ≠ .blocked no tmo) (u : Tsk) :
    u ∈ s.event.wait_queue ↔ ∃ no tmo, Function.update s.pos t q u = .blocked no tmo := by
  rw [inv.queue u]
  rcases eq_or_ne u t with rfl | hne
  · rw [Function.update_self]
    exact iff_of_false (fun ⟨no, tmo, h⟩ => ht no tmo h) fun ⟨no, tmo, h⟩ => hq no tmo h
  · rw [Function.update_of_ne hne]

theorem FastMLockInv.requests (inv : FastMLockInv s) {q : MLockPos}
    (hq : ∀ no tmo, q ≠ .blocked no tmo) (h : Function.update s.pos t q u = .blocked no tmo) :
    s.event.waiptn u = lockBit no ∧ s.event.wfmode u = lockMode := by
  rcases eq_or_ne u t with rfl | hne
  · rw [Function.update_self] at h
    exact absurd h (hq no tmo)
  · rw [Function.update_of_ne hne] at h
    exact inv.request u no tmo h

theorem FastMLockInv.smalls (inv : FastMLockInv s) {q : MLockPos} (ht : q.Uses → t < 2 ^ 31)
    (h : (Function.update s.pos t q u).Uses) : u < 2 ^ 31 := by
  rcases eq_or_ne u t with rfl | hne
  · rw [Function.update_self] at h
    exact ht h
  · rw [Function.update_of_ne hne] at h
    exact inv.small u h

/-- A task moves from `p` to `q`, neither of which is in the queue of the event flag; the lock word
changes, and the counter with the tasks in `MLockTmo`. -/
theorem FastMLockInv.step (inv : FastMLockInv s) {p q : MLockPos} {wai flg : BitVec 32}
    {holders : Fin 32 → List Tsk} (ht : s.pos t = p) (hp : ∀ no tmo, p ≠ .blocked no tmo)
    (hq : ∀ no tmo, q ≠ .blocked no tmo) (hsmall : q.Uses → t < 2 ^ 31)
    (husers : ∀ n, Count s.pos MLockPos.Uses n → s.wai.toNat = n →
      ∃ m, Count (Function.update s.pos t q) MLockPos.Uses m ∧ wai.toNat = m)
    (hheld : ∀ no : Fin 32, if flg.getLsbD no then ∃ t, holders no = [t] else holders no = [])
    (hneeds : ∀ no, q.Needs no → Awake flg s.event.flgptn (Function.update s.pos t q) no)
    (hflg : ∀ no : Fin 32, s.flg.getLsbD no = true →
      Awake flg s.event.flgptn (Function.update s.pos t q) no)
    (hwakes : ∀ no, p.Wakes no → (∃ u ≠ t, (s.pos u).Needs no) →
      Awake flg s.event.flgptn (Function.update s.pos t q) no) :
    FastMLockInv { s with
      wai := wai
      flg := flg
      pos := Function.update s.pos t q
      holders := holders } where
  event := inv.event
  nodup := inv.nodup
  queue := inv.moves (fun no tmo => by rw [ht]; exact hp no tmo) hq
  request _ _ _ h := inv.requests hq h
  users := by
    obtain ⟨n, hn, hwai⟩ := inv.users
    exact husers n hn hwai
  small _ h := inv.smalls hsmall h
  held := hheld
  awake no u hu := by
    have hu : (Function.update s.pos t q u).Needs no := hu
    rcases eq_or_ne u t with rfl | hne
    · rw [Function.update_self] at hu
      exact hneeds no hu
    · rw [Function.update_of_ne hne] at hu
      exact (inv.awake no u hu).move (hflg no) (fun h => Or.inr (Or.inl h))
        fun h => hwakes no (ht ▸ h) ⟨u, hne, hu⟩

/-! ## Steps -/

theorem toNat_atomicInc {x : BitVec 32} (h : x.toNat < 2 ^ 32 - 1) :
    (atomicInc x).toNat = x.toNat + 1 := by
  rw [atomicInc, BitVec.toNat_add]
  exact Nat.mod_eq_of_lt (by simp; omega)

theorem toNat_atomicDec {x : BitVec 32} (h : 0 < x.toNat) : (atomicDec x).toNat = x.toNat - 1 := by
  have hlt := x.isLt
  have h1 : (1 : BitVec 32).toNat = 1 := rfl
  rw [atomicDec, BitVec.toNat_sub, h1]
  omega

theorem FastMLockInv.inc (inv : FastMLockInv s) (ht : s.pos t = .outside) (hlt : t < 2 ^ 31)
    (no : Fin 32) (tmo : ℤ) :
    FastMLockInv (s.inc t no tmo) := by
  refine inv.step ht nofun nofun (fun _ => hlt) (fun n hn hwai =>
    ⟨n + 1, hn.join (by rw [ht]; exact id) trivial, ?_⟩)
    inv.held (fun _ h => absurd h id) (fun _ h => Or.inl h) fun _ h => absurd h id
  have hle := inv.users_lt hn
  rw [toNat_atomicInc (by omega), hwai]

theorem FastMLockInv.dec (inv : FastMLockInv s) {ercd : ER} (ht : s.pos t = .dec ercd) :
    FastMLockInv (s.dec t) := by
  have huses : (s.pos t).Uses := by rw [ht]; trivial
  refine inv.step ht nofun nofun (fun h => absurd h id) (fun n hn hwai =>
    ⟨n - 1, hn.leave huses id, ?_⟩)
    inv.held (fun _ h => absurd h id) (fun _ h => Or.inl h) fun _ h => absurd h id
  have hpos := hn.pos huses
  rw [toNat_atomicDec (by omega), hwai]

theorem FastMLockInv.bts (inv : FastMLockInv s) {woken : Bool} (ht : s.pos t = .bts no tmo woken) :
    FastMLockInv (s.bts t no tmo) := by
  have huses : (s.pos t).Uses := by rw [ht]; trivial
  unfold FastMLock.bts atomicBitset
  by_cases hb : s.flg &&& lockBit no = 0
  · -- the lock was free
    simp only [if_pos hb]
    rw [and_lockBit] at hb
    refine inv.step ht nofun nofun (fun _ => inv.small t huses)
      (fun n hn hwai => ⟨n, hn.stay (iff_of_true trivial huses), hwai⟩) (fun k => ?_) (fun _ h =>
        absurd h id)
      (fun k h => Or.inl (by rw [bitset_getLsbD, h]; rfl))
      fun k h _ => Or.inl (by rw [bitset_getLsbD, decide_eq_true h.1, Bool.or_true])
    have hk := inv.held k
    rw [bitset_getLsbD]
    rcases eq_or_ne k no with rfl | hne
    · rw [hb, if_neg Bool.false_ne_true] at hk
      rw [decide_eq_true rfl, Bool.or_true, if_pos rfl, Function.update_self, hk]
      exact ⟨t, rfl⟩
    · rw [decide_eq_false hne.symm, Bool.or_false, Function.update_of_ne hne]
      exact hk
  · simp only [if_neg hb]
    rw [and_lockBit, Bool.not_eq_false] at hb
    have hsame (k : Fin 32) : (s.flg ||| lockBit no).getLsbD k = s.flg.getLsbD k := by
      rw [bitset_getLsbD]
      rcases eq_or_ne no k with rfl | hne
      · rw [hb]
        rfl
      · rw [decide_eq_false hne, Bool.or_false]
    refine inv.step ht nofun nofun (fun _ => inv.small t huses)
      (fun n hn hwai => ⟨n, hn.stay (iff_of_true trivial huses), hwai⟩) (fun k => ?_)
      (fun k h => Or.inl ?_) (fun k h => Or.inl (by rw [hsame, h])) fun k h _ => Or.inl ?_
    · rw [hsame]
      exact inv.held k
    · obtain rfl : no = k := h
      rw [hsame, hb]
    · obtain rfl : no = k := h.1
      rw [hsame, hb]

theorem FastMLockInv.br (inv : FastMLockInv s) (ht : s.pos t = .outside) (hold : t ∈ s.holders no) :
    FastMLockInv (s.br t no) := by
  have huses : ¬(s.pos t).Uses := by rw [ht]; exact id
  refine inv.step ht nofun nofun (fun h => absurd h id) (fun n hn hwai =>
    ⟨n, hn.stay (iff_of_false id huses), hwai⟩)
    (fun k => ?_) (fun _ h => absurd h id) (fun k h => ?_) fun _ h => absurd h id
  · have hk := inv.held k
    unfold atomicBitclr
    rw [bitclr_getLsbD]
    rcases eq_or_ne k no with rfl | hne
    · -- it was the only holder
      rw [decide_eq_true rfl, Bool.not_true, Bool.and_false, if_neg Bool.false_ne_true,
        Function.update_self]
      by_cases hset : s.flg.getLsbD k = true
      · rw [if_pos hset] at hk
        obtain ⟨u, hu⟩ := hk
        rw [hu] at hold ⊢
        rw [List.mem_singleton.mp hold, List.erase_cons_head]
      · rw [if_neg hset] at hk
        rw [hk]
        rfl
    · rw [decide_eq_false hne.symm, Bool.not_false, Bool.and_true, Function.update_of_ne hne]
      exact hk
  · rcases eq_or_ne no k with rfl | hne
    · exact awake_self rfl
    · unfold atomicBitclr
      exact Or.inl (by rw [bitclr_getLsbD, h, decide_eq_false hne]; rfl)

theorem FastMLockInv.look (inv : FastMLockInv s) (ht : s.pos t = .look no) :
    FastMLockInv (s.look t no) := by
  have huses : ¬(s.pos t).Uses := by rw [ht]; exact id
  unfold FastMLock.look
  by_cases h0 : s.wai = 0
  · -- nobody is in `MLockTmo`, so nobody waits
    rw [if_pos h0]
    refine inv.step ht nofun nofun (fun h => absurd h id) (fun n hn hwai =>
      ⟨n, hn.stay (iff_of_false id huses), hwai⟩)
      inv.held (fun _ h => absurd h id) (fun _ h => Or.inl h) ?_
    rintro k - ⟨u, -, hu⟩
    obtain ⟨n, hn, hwai⟩ := inv.users
    rw [h0] at hwai
    obtain rfl : n = 0 := hwai.symm
    exact absurd hu.uses (hn.none u)
  · rw [if_neg h0]
    refine inv.step ht nofun nofun (fun h => absurd h id) (fun n hn hwai =>
      ⟨n, hn.stay (iff_of_false id huses), hwai⟩)
      inv.held (fun _ h => absurd h id) (fun _ h => Or.inl h) ?_
    rintro k hk -
    obtain rfl : no = k := hk
    exact awake_self rfl

theorem FastMLockInv.waiFlg (inv : FastMLockInv s) (ht : s.pos t = .waiFlg no tmo) (ddsp : Bool)
    {prot : ER} (hprot : prot ≤ E_OK) : FastMLockInv (s.waiFlg t no tmo ddsp prot) := by
  have huses : (s.pos t).Uses := by rw [ht]; trivial
  have hblocked : ∀ no tmo, s.pos t ≠ .blocked no tmo := by rw [ht]; exact nofun
  have hmem : t ∉ s.event.wait_queue := fun hc => by
    obtain ⟨no, tmo, h⟩ := (inv.queue t).mp hc
    exact hblocked no tmo h
  obtain ⟨n, hn, hwai⟩ := inv.users
  -- other tasks wait as before, for a pattern that has not lost their bits
  have hothers {ptn : BitVec 32} {q : MLockPos} (hq : ¬∃ k, q.Wakes k)
      (hself : ∀ k, q.Needs k → k = no)
      (hptn : ∀ k, s.event.flgptn.getLsbD k = true → ptn.getLsbD k = true) :
      ∀ k u, (Function.update s.pos t q u).Needs k →
      Awake s.flg ptn (Function.update s.pos t q) k := by
    intro k u hu
    have hold : ∃ v, (s.pos v).Needs k := by
      rcases eq_or_ne u t with rfl | hne
      · rw [Function.update_self] at hu
        exact ⟨u, by rw [ht, hself k hu]; exact (rfl : no = no)⟩
      · rw [Function.update_of_ne hne] at hu
        exact ⟨u, hu⟩
    obtain ⟨v, hv⟩ := hold
    refine (inv.awake k v hv).move (fun h => Or.inl h) (fun h => Or.inr (Or.inl (hptn k h)))
      fun h => ?_
    rw [ht] at h
    exact absurd h id
  have hev : FlgInv (s.event.tkWaiFlg t true ddsp prot (lockBit no) lockMode tmo).1 :=
    inv.event.tkWaiFlg hmem true ddsp prot (lockBit no) lockMode tmo
  have hr := tkWaiFlg_lockWaits s.event t no ddsp hprot tmo
  unfold FastMLock.waiFlg
  change FastMLockInv { s with
    event := (s.event.tkWaiFlg t true ddsp prot (lockBit no) lockMode tmo).1
    pos := Function.update s.pos t ((s.event.tkWaiFlg t true ddsp prot (lockBit no) lockMode
      tmo).2.2.elim
      (.blocked no tmo) (waiFlgReturns no tmo)) }
  generalize s.event.tkWaiFlg t true ddsp prot (lockBit no) lockMode tmo = r at hev hr
  cases hr with
  | fails ercd neg waiptn wfmode others =>
    have hq : waiFlgReturns no tmo ercd = .dec ercd := if_pos neg
    simp only [Option.elim_some, hq]
    refine ⟨hev, inv.nodup, inv.moves hblocked nofun, fun u k tmo' h => ?_,
      ⟨n, hn.stay (iff_of_true trivial huses), hwai⟩, fun u h =>
        inv.smalls (fun _ => inv.small t huses) h, inv.held,
      hothers (fun ⟨_, h⟩ => h) (fun _ h => absurd h id) fun _ h => h⟩
    have h : Function.update s.pos t (.dec ercd) u = .blocked k tmo' := h
    have hne : u ≠ t := by
      rintro rfl
      rw [Function.update_self] at h
      exact MLockPos.noConfusion h
    obtain ⟨hw, hm⟩ := others u hne
    show waiptn u = lockBit k ∧ wfmode u = lockMode
    rw [hw, hm]
    exact inv.requests (q := .dec ercd) nofun h
  | takes set ev =>
    -- the task has the bit now, and tests the lock again
    have hq : waiFlgReturns no tmo E_OK = .bts no tmo true := if_neg (lt_irrefl E_OK)
    simp only [Option.elim_some, hq]
    refine ⟨hev, inv.nodup, inv.moves hblocked nofun, fun u k tmo' h =>
      inv.requests (q := .bts no tmo true) nofun h, ⟨n, hn.stay (iff_of_true trivial huses), hwai⟩,
      fun u h =>
        inv.smalls (fun _ => inv.small t huses) h, inv.held,
      fun k u hu => ?_⟩
    rcases eq_or_ne no k with rfl | hne
    · exact awake_self ⟨rfl, rfl⟩
    · have hu : (Function.update s.pos t (.bts no tmo true) u).Needs k := hu
      have hut : u ≠ t := by
        rintro rfl
        rw [Function.update_self] at hu
        exact hu
      rw [Function.update_of_ne hut] at hu
      refine (inv.awake k u hu).move (fun h => Or.inl h) (fun h => Or.inr (Or.inl ?_)) fun h => ?_
      · rw [bitclr_getLsbD, h, decide_eq_false hne]
        rfl
      · rw [ht] at h
        exact absurd h id
  | waits clear =>
    simp only [Option.elim_none]
    have hperm := gcbInsert_perm s.event.flgatr s.event.priority t s.event.wait_queue
    refine ⟨hev, hperm.nodup_iff.mpr (List.nodup_cons.mpr ⟨hmem, inv.nodup⟩), fun u => ?_,
      fun u k tmo' h => ?_, ⟨n, hn.stay (iff_of_true trivial huses), hwai⟩, fun u h =>
        inv.smalls (fun _ => inv.small t huses) h, inv.held,
      hothers (fun ⟨_, h⟩ => h) (fun _ h => h.symm) fun _ h => h⟩
    · show u ∈ gcbInsert _ _ _ _ ↔ ∃ no' tmo', Function.update s.pos t (.blocked no tmo) u =
        .blocked no' tmo'
      rw [hperm.mem_iff, List.mem_cons]
      rcases eq_or_ne u t with rfl | hne
      · rw [Function.update_self]
        exact iff_of_true (Or.inl rfl) ⟨no, tmo, rfl⟩
      · rw [Function.update_of_ne hne, ← inv.queue u]
        exact or_iff_right hne
    · show Function.update s.event.waiptn t (lockBit no) u = lockBit k ∧
        Function.update s.event.wfmode t lockMode u = lockMode
      have h : Function.update s.pos t (.blocked no tmo) u = .blocked k tmo' := h
      rcases eq_or_ne u t with rfl | hne
      · rw [Function.update_self] at h
        obtain ⟨rfl, -⟩ := MLockPos.blocked.inj h
        rw [Function.update_self, Function.update_self]
        exact ⟨rfl, rfl⟩
      · rw [Function.update_of_ne hne] at h
        rw [Function.update_of_ne hne, Function.update_of_ne hne]
        exact inv.request u k tmo' h

/-- A blocked task leaves the queue of the event flag. -/
theorem FastMLockInv.unblock (inv : FastMLockInv s) (ht : s.pos t = .blocked no tmo) {q : MLockPos}
    {event : Flgcb} (hev : FlgInv event) (hqueue : event.wait_queue = s.event.wait_queue.erase t)
    (hwaiptn : event.waiptn = s.event.waiptn) (hwfmode : event.wfmode = s.event.wfmode)
    (hq : ∀ no tmo, q ≠ .blocked no tmo) (huses : q.Uses) (hneeds : ∀ k, ¬q.Needs k)
    (hptn : ∀ k : Fin 32, s.event.flgptn.getLsbD k = true →
      Awake s.flg event.flgptn (Function.update s.pos t q) k) :
    FastMLockInv { s with event := event, pos := Function.update s.pos t q } := by
  obtain ⟨n, hn, hwai⟩ := inv.users
  have huses' : (s.pos t).Uses := by rw [ht]; trivial
  refine ⟨hev, hqueue ▸ inv.nodup.erase t, fun u => ?_, fun u k tmo' h => ?_,
    ⟨n, hn.stay (iff_of_true huses huses'), hwai⟩, fun u h =>
      inv.smalls (fun _ => inv.small t huses') h, inv.held,
    fun k u hu => ?_⟩
  · show u ∈ event.wait_queue ↔ ∃ no tmo, Function.update s.pos t q u = .blocked no tmo
    rw [hqueue, inv.nodup.mem_erase_iff, inv.queue u]
    rcases eq_or_ne u t with rfl | hne
    · rw [Function.update_self]
      exact iff_of_false (fun hc => hc.1 rfl) fun ⟨no, tmo, h⟩ => hq no tmo h
    · rw [Function.update_of_ne hne]
      exact and_iff_right hne
  · show event.waiptn u = lockBit k ∧ event.wfmode u = lockMode
    rw [hwaiptn, hwfmode]
    exact inv.requests hq h
  · have hu : (Function.update s.pos t q u).Needs k := hu
    have hut : u ≠ t := by
      rintro rfl
      rw [Function.update_self] at hu
      exact hneeds k hu
    rw [Function.update_of_ne hut] at hu
    refine (inv.awake k u hu).move (fun h => Or.inl h) (hptn k) fun h => ?_
    rw [ht] at h
    exact absurd h id

theorem FastMLockInv.endWait (inv : FastMLockInv s) (ht : t ∈ s.event.wait_queue) {ercd : ER}
    (neg : ercd < E_OK) {event : Flgcb} (hev : FlgInv event)
    (hqueue : event.wait_queue = s.event.wait_queue.erase t)
    (hwaiptn : event.waiptn = s.event.waiptn) (hwfmode : event.wfmode = s.event.wfmode)
    (hptn : event.flgptn = s.event.flgptn) :
    FastMLockInv { s with
      event := event, pos := Function.update s.pos t (endsWait ercd (s.pos t)) } := by
  obtain ⟨no, tmo, hpos⟩ := (inv.queue t).mp ht
  have hq : endsWait ercd (s.pos t) = .dec ercd := by
    rw [hpos]
    exact if_pos neg
  rw [hq]
  exact inv.unblock hpos hev hqueue hwaiptn hwfmode nofun trivial (fun _ => id)
    fun k h => Or.inr (Or.inl (by rw [hptn, h]))

theorem FastMLockInv.congr (inv : FastMLockInv s) {event : Flgcb} (hev : FlgInv event)
    (hqueue : event.wait_queue.Perm s.event.wait_queue) (hwaiptn : event.waiptn = s.event.waiptn)
    (hwfmode : event.wfmode = s.event.wfmode) (hptn : event.flgptn = s.event.flgptn) :
    FastMLockInv { s with event := event } where
  event := hev
  nodup := hqueue.nodup_iff.mpr inv.nodup
  queue u := (hqueue.mem_iff).trans (inv.queue u)
  request u k tmo h := by
    show event.waiptn u = lockBit k ∧ event.wfmode u = lockMode
    rw [hwaiptn, hwfmode]
    exact inv.request u k tmo h
  users := inv.users
  small := inv.small
  held := inv.held
  awake k u hu := by
    show Awake s.flg event.flgptn s.pos k
    rw [hptn]
    exact inv.awake k u hu

theorem FastMLockInv.setFlg (inv : FastMLockInv s) (ht : s.pos t = .setFlg no) :
    FastMLockInv (s.setFlg t no) := by
  have hblocked : ∀ no tmo, s.pos t ≠ .blocked no tmo := by rw [ht]; exact nofun
  have huses : ¬(s.pos t).Uses := by rw [ht]; exact id
  obtain ⟨n, hn, hwai⟩ := inv.users
  have hev : FlgInv (s.event.tkSetFlg true E_OK (lockBit no)).1 :=
    inv.event.tkSetFlg true E_OK (lockBit no)
  have hscan :=
    @scanQueue_lockBit no (s.event.flgptn ||| lockBit no) s.event.wait_queue s.event.waiptn
    s.event.wfmode inv.nodup fun u hu => by
    obtain ⟨k, tmo, hpos⟩ := (inv.queue u).mp hu
    obtain ⟨hw, hm⟩ := inv.request u k tmo hpos
    refine ⟨hm, k, hw, fun h => ?_⟩
    -- a blocked task has found its bit clear
    rw [bitset_getLsbD, inv.clear hpos, Bool.false_or] at h
    exact (of_decide_eq_true h).symm
  unfold FastMLock.setFlg
  rw [inv.event.tkSetFlg_eq] at hev ⊢
  rcases hscan with ⟨e, hall⟩ | ⟨u, hu, hw, hbit, e⟩
  · -- the bit stays set for the next task
    rw [e] at hev ⊢
    refine ⟨hev, inv.nodup, inv.moves hblocked nofun, fun u k tmo h =>
      inv.requests (q := .outside) nofun h, ⟨n, hn.stay (iff_of_false id huses), hwai⟩, fun u h =>
        inv.smalls (q := .outside) (fun h =>
        absurd h id) h,
      inv.held, fun k u hu => ?_⟩
    have hu : (Function.update s.pos t .outside u).Needs k := hu
    have hut : u ≠ t := by
      rintro rfl
      rw [Function.update_self] at hu
      exact hu
    rw [Function.update_of_ne hut] at hu
    show Awake s.flg (s.event.flgptn ||| lockBit no) (Function.update s.pos t .outside) k
    refine (inv.awake k u hu).move (fun h => Or.inl h) (fun h => Or.inr (Or.inl ?_)) fun h =>
      Or.inr (Or.inl ?_)
    · rw [bitset_getLsbD, h]
      rfl
    · rw [ht] at h
      rw [bitset_getLsbD, decide_eq_true (show no = k from h), Bool.or_true]
  · -- the first task that waits for the bit takes it along
    obtain ⟨k, tmo, hpos⟩ := (inv.queue u).mp hu
    obtain rfl : k = no := lockBit_inj ((inv.request u k tmo hpos).1.symm.trans hw)
    have hut : u ≠ t := by
      rintro rfl
      exact hblocked k tmo hpos
    set q : MLockPos := .bts k tmo true with hq
    set event : Flgcb := { s.event with
      flgptn := (s.event.flgptn ||| lockBit k) &&& ~~~lockBit k
      wait_queue := s.event.wait_queue.erase u } with hevent
    rw [e] at hev ⊢
    have inv₁ : FastMLockInv { s with event := event, pos := Function.update s.pos u q } := by
      refine inv.unblock hpos hev rfl rfl rfl nofun trivial (fun _ => id) fun k' h => ?_
      rcases eq_or_ne k k' with rfl | hne
      · exact awake_self ⟨rfl, rfl⟩
      · refine Or.inr (Or.inl ?_)
        rw [hevent, bitclr_getLsbD, bitset_getLsbD, h, decide_eq_false hne]
        rfl
    have ht₁ : Function.update s.pos u q t = .setFlg k := by rw [Function.update_of_ne hut.symm, ht]
    have huses₁ : ¬(Function.update s.pos u q t).Uses := by rw [ht₁]; exact id
    have hwakes : (Function.update (Function.update s.pos u q) t .outside u).Wakes k := by
      rw [Function.update_of_ne hut, Function.update_self]
      exact ⟨rfl, rfl⟩
    have inv₂ := inv₁.step (q := .outside) ht₁ nofun nofun (fun h => absurd h id)
      (fun n hn hwai => ⟨n, hn.stay (iff_of_false id huses₁), hwai⟩) inv.held
      (fun _ h => absurd h id) (fun _ h => Or.inl h) fun k' h _ => by
        obtain rfl : k = k' := h
        exact Or.inr (Or.inr ⟨u, hwakes⟩)
    have hret : endsWait E_OK (Function.update s.pos t .outside u) = q := by
      rw [Function.update_of_ne hut, hpos, endsWait, waiFlgReturns, if_neg (lt_irrefl E_OK)]
    simp only [List.map_cons, List.map_nil, List.foldl_cons, List.foldl_nil, mlockReturns, hret]
    rw [Function.update_comm hut.symm]
    exact inv₂

theorem FastMLockInv.kernel (inv : FastMLockInv s) {op : FlgOp}
    (legal : (MLockOp.kernel op).Legal s) :
    FastMLockInv (s.kernel op) := by
  unfold FastMLock.kernel
  cases op with
  | setFlg idOk prot setptn => exact absurd legal id
  | clrFlg idOk prot clrptn => exact absurd legal id
  | waiFlg self idOk ddsp prot waiptn wfmode tmout => exact absurd legal id
  | timeout t =>
    have hev : FlgInv (FlgOp.exec s.event (.timeout t)).1 := inv.event.exec trivial
    simp only [FlgOp.exec, Flgcb.waitReleaseTmout] at hev ⊢
    by_cases ht : t ∈ s.event.wait_queue
    · rw [if_pos ht] at hev ⊢
      exact inv.endWait ht (by decide : E_TMOUT < E_OK) hev rfl rfl rfl rfl
    · rw [if_neg ht]
      exact inv
  | relWai t chk =>
    have hev : FlgInv (FlgOp.exec s.event (.relWai t chk)).1 := inv.event.exec trivial
    simp only [FlgOp.exec, Flgcb.tkRelWai] at hev ⊢
    by_cases hchk : chk ≠ E_OK
    · rw [if_pos hchk]
      exact inv
    rw [if_neg hchk] at hev ⊢
    by_cases ht : t ∈ s.event.wait_queue
    · rw [if_pos ht] at hev ⊢
      exact inv.endWait ht (by decide : E_RLWAI < E_OK) hev rfl rfl rfl rfl
    · rw [if_neg ht]
      exact inv
  | disWai t waitmask chk elsewhere =>
    have hev : FlgInv (FlgOp.exec s.event (.disWai t waitmask chk elsewhere)).1 :=
      inv.event.exec trivial
    simp only [FlgOp.exec, Flgcb.tkDisWai] at hev ⊢
    by_cases hchk : chk ≠ E_OK
    · rw [if_pos hchk]
      exact inv
    rw [if_neg hchk] at hev ⊢
    by_cases ht : t ∈ s.event.wait_queue
    · rw [if_pos ht] at hev ⊢
      by_cases hdis : TTW_FLG &&& waitmask ≠ 0 ∧ (!s.event.nodiswai t) = true
      · rw [if_pos hdis] at hev ⊢
        exact inv.endWait ht (by decide : E_DISWAI < E_OK) hev rfl rfl rfl rfl
      · rw [if_neg hdis] at hev ⊢
        exact inv.congr hev (List.Perm.refl _) rfl rfl rfl
    · rw [if_neg ht] at hev ⊢
      exact inv.congr hev (List.Perm.refl _) rfl rfl rfl
  | enaWai t chk =>
    have hev : FlgInv (FlgOp.exec s.event (.enaWai t chk)).1 := inv.event.exec trivial
    simp only [FlgOp.exec, Flgcb.tkEnaWai] at hev ⊢
    by_cases hchk : chk ≠ E_OK
    · rw [if_pos hchk]
      exact inv
    · rw [if_neg hchk] at hev ⊢
      exact inv.congr hev (List.Perm.refl _) rfl rfl rfl
  | terTsk t chk =>
    -- the task is outside
    have ht : t ∉ s.event.wait_queue := fun hc => by
      obtain ⟨no, tmo, h⟩ := (inv.queue t).mp hc
      have hout : s.pos t = .outside := legal
      rw [hout] at h
      exact MLockPos.noConfusion h
    simp only [FlgOp.exec, Flgcb.tkTerTsk]
    by_cases hchk : chk ≠ E_OK
    · rw [if_pos hchk]
      exact inv
    · rw [if_neg hchk, if_neg ht]
      exact inv
  | chgPri t priority chk =>
    have hev : FlgInv (FlgOp.exec s.event (.chgPri t priority chk)).1 := inv.event.exec trivial
    simp only [FlgOp.exec, Flgcb.tkChgPri, Flgcb.changeTaskPriority] at hev ⊢
    by_cases hchk : chk ≠ E_OK
    · rw [if_pos hchk]
      exact inv
    rw [if_neg hchk] at hev ⊢
    by_cases ht : t ∈ s.event.wait_queue ∧ s.event.flgatr &&& TA_TPRI ≠ 0
    · rw [if_pos ht] at hev ⊢
      exact inv.congr hev (gcbChangePriority_perm _ ht.1) rfl rfl rfl
    · rw [if_neg ht] at hev ⊢
      exact inv.congr hev (List.Perm.refl _) rfl rfl rfl

/-! ## Runs -/

theorem FastMLockInv.exec (inv : FastMLockInv s) {op : MLockOp} (legal : op.Legal s) :
    FastMLockInv (op.exec s) := by
  cases op with
  | inc t no tmo => exact inv.inc legal.1 legal.2 no tmo
  | bts t no tmo =>
    obtain ⟨woken, ht⟩ := legal
    exact inv.bts ht
  | waiFlg t no tmo ddsp prot => exact inv.waiFlg legal.1 ddsp legal.2
  | dec t =>
    obtain ⟨ercd, ht⟩ := legal
    exact inv.dec ht
  | br t no => exact inv.br legal.1 legal.2
  | look t no => exact inv.look legal
  | setFlg t no => exact inv.setFlg legal
  | kernel op => exact inv.kernel legal

theorem fastMLockInv_create {prot : ER} {s₀ : Flgcb} (h : createMLock prot s₀ = .ok s) :
    FastMLockInv s := by
  unfold createMLock tkCreFlg at h
  by_cases hprot : prot ≠ E_OK
  · simp [hprot, Except.map] at h
  · simp only [Bool.not_true, Bool.false_eq_true, if_false, if_neg hprot] at h
    obtain rfl := Except.ok.inj h
    have hbit (no : Fin 32) : (0 : BitVec 32).getLsbD no = false := BitVec.getLsbD_zero
    refine ⟨⟨nofun, fun _ => Nat.zero_le 1, nofun⟩, List.nodup_nil, fun t =>
      iff_of_false List.not_mem_nil nofun, nofun, ⟨0, count_zero fun _ => id, rfl⟩, fun _ h =>
        absurd h id, fun no => ?_, fun _ _ h =>
        absurd h id⟩
    show if (0 : BitVec 32).getLsbD no then ∃ t, [] = [t] else ([] : List Tsk) = []
    rw [hbit no, if_neg Bool.false_ne_true]

theorem MLockRun.inv (run : MLockRun s) : FastMLockInv s := by
  induction run with
  | create h => exact fastMLockInv_create h
  | step op _ legal ih => exact ih.exec legal

/-- **Multi-locks.** In every run each bit is held by one task at most. While a bit and its bit of
the event flag are clear and a task is blocked waiting for it, there is another task that has
cleared the bit and is about to set the event flag, since it has found or will find tasks in
`MLockTmo`, or that has been released and is about to test the bit again. -/
theorem mlockRun_right (run : MLockRun s) :
    (∀ no t u, t ∈ s.holders no → u ∈ s.holders no → t = u) ∧
      ∀ (no : Fin 32) t tmo, s.flg.getLsbD no = false → s.event.flgptn.getLsbD no = false →
        s.pos t = .blocked no tmo →
        ∃ u ≠ t, s.pos u = .look no ∧ s.wai ≠ 0 ∨ s.pos u = .setFlg no ∨
          ∃ tmo', s.pos u = .bts no tmo' true := by
  have inv := run.inv
  constructor
  · intro no t u ht hu
    have h := inv.held no
    by_cases hbit : s.flg.getLsbD no = true
    · rw [if_pos hbit] at h
      obtain ⟨v, hv⟩ := h
      rw [hv] at ht hu
      rw [List.mem_singleton.mp ht, List.mem_singleton.mp hu]
    · rw [if_neg hbit] at h
      rw [h] at ht
      exact absurd ht List.not_mem_nil
  · intro no t tmo hflg hptn ht
    obtain ⟨n, hn, hwai⟩ := inv.users
    have hpos := hn.pos (a := t) (by rw [ht]; trivial)
    have hne : s.wai ≠ 0 := by
      intro h0
      rw [h0] at hwai
      exact hpos.ne hwai
    have hneeds : (s.pos t).Needs no := by
      rw [ht]
      exact (rfl : no = no)
    rcases inv.awake no t hneeds with h | h | ⟨u, hu⟩
    · exact absurd (hflg.symm.trans h) Bool.false_ne_true
    · exact absurd (hptn.symm.trans h) Bool.false_ne_true
    · refine ⟨u, ?_, ?_⟩
      · rintro rfl
        rw [ht] at hu
        exact hu
      · rcases hu.cases with h | h | h
        · exact Or.inl ⟨h, hne⟩
        · exact Or.inr (Or.inl h)
        · exact Or.inr (Or.inr h)

/-- New locks. -/
def newMLock : FastMLock :=
  ⟨0, 0, ⟨[], TA_TPRI ||| TA_WMUL ||| TA_NODISWAI, 0, fun _ => 1, fun _ => 0,
    fun _ => false, fun _ => 0, fun _ => 0⟩, fun _ => .outside, fun _ => []⟩

/-- The first task has lock 3. -/
def lockedMLock : FastMLock := ((newMLock.inc 1 3 TMO_FEVR).bts 1 3 TMO_FEVR).dec 1

/-- The second task waits for it. -/
def contendedMLock : FastMLock :=
  ((lockedMLock.inc 2 3 TMO_FEVR).bts 2 3 TMO_FEVR).waiFlg 2 3 TMO_FEVR false E_OK

theorem lockedMLock_run : MLockRun lockedMLock := by
  have hbts : (newMLock.inc 1 3 TMO_FEVR).pos 1 = .bts 3 TMO_FEVR false := by decide
  have hdec : ((newMLock.inc 1 3 TMO_FEVR).bts 1 3 TMO_FEVR).pos 1 = .dec E_OK := by decide
  have hnew : createMLock E_OK newMLock.event = .ok newMLock := rfl
  have run₁ := (MLockRun.create hnew).step (.inc 1 3 TMO_FEVR) ⟨rfl, by decide⟩
  have run₂ := run₁.step (.bts 1 3 TMO_FEVR) ⟨false, hbts⟩
  exact run₂.step (.dec 1) ⟨E_OK, hdec⟩

theorem contendedMLock_run : MLockRun contendedMLock := by
  have hinc : lockedMLock.pos 2 = .outside := by decide
  have hbts : (lockedMLock.inc 2 3 TMO_FEVR).pos 2 = .bts 3 TMO_FEVR false := by decide
  have hwai : ((lockedMLock.inc 2 3 TMO_FEVR).bts 2 3 TMO_FEVR).pos 2 = .waiFlg 3 TMO_FEVR := by
    decide
  have run₁ := lockedMLock_run.step (.inc 2 3 TMO_FEVR) ⟨hinc, by decide⟩
  have run₂ := run₁.step (.bts 2 3 TMO_FEVR) ⟨false, hbts⟩
  exact run₂.step (.waiFlg 2 3 TMO_FEVR false E_OK) ⟨hwai, le_rfl⟩

/-- The first task has cleared the bit and wakes the second one next. -/
theorem mlockRun_right_unlock :
    let s := contendedMLock.br 1 3
    s.pos 2 = .blocked 3 TMO_FEVR ∧
      ∃ u ≠ 2, s.pos u = .look 3 ∧ s.wai ≠ 0 ∨ s.pos u = .setFlg 3 ∨
      ∃ tmo', s.pos u = .bts 3 tmo' true := by
  intro s
  have hout : contendedMLock.pos 1 = .outside := by decide
  have hold : 1 ∈ contendedMLock.holders 3 := by decide
  have hpos : s.pos 2 = .blocked 3 TMO_FEVR := by decide
  have run : MLockRun s := contendedMLock_run.step (.br 1 3) ⟨hout, hold⟩
  exact ⟨hpos, (mlockRun_right run).2 3 2 TMO_FEVR (by decide) (by decide) hpos⟩

end SmpTKernel
