import SmpTKernel.HandlerExec

/-!
# The calls for cyclic and alarm handlers

Creation, start, stop and deletion, and the waits of tasks, which share the timer queue with the
handlers. Each call leaves or ends the critical section with the invariant.
-/

namespace SmpTKernel

open LinkRing Fuel

variable {maxProc numProc prid i : ℕ} {X Y : ℕ → Prop} {s s' : Timer} {h h' : Hdrs}
  {w w' : HdrState} {q q' : TimerQue → List Tmeb} {e x : Tmeb} {ercd : ER}

/-! ## Assigned processors -/

theorem allCoreBit_getLsbD {b : ℕ} (hn : numProc ≤ 32)
    (hb : (allCoreBit numProc).getLsbD b = true) : b < numProc := by
  unfold allCoreBit at hb
  rw [BitVec.getLsbD_ushiftRight] at hb
  have hlt := BitVec.lt_of_getLsbD hb
  omega

theorem bitTbl_getLsbD (bit : BitVec 32) (hbit : bit &&& 0xf ≠ 0) :
    (bit &&& 0xf).getLsbD (bitTbl.getD (bit &&& 0xf).toNat 0) = true := by
  have hlt : (bit &&& 0xf).toNat < 16 := by
    rw [BitVec.toNat_and]
    exact Nat.lt_of_le_of_lt Nat.and_le_right (by decide)
  have hall : ∀ n < 16, n ≠ 0 → (BitVec.ofNat 32 n).getLsbD (bitTbl.getD n 0) = true := by decide
  have heq : BitVec.ofNat 32 (bit &&& 0xf).toNat = bit &&& 0xf := by simp
  have h := hall _ hlt fun hc => hbit (by rw [← heq, hc]; rfl)
  rwa [heq] at h

theorem assprcPlace_getLsbD (n : ℕ) (assprc : BitVec 32) (prid : ℕ) :
    assprcPlace n assprc prid = 0 ∨
      ∃ b, assprcPlace n assprc prid = prid + b ∧ assprc.getLsbD b = true := by
  induction n generalizing assprc prid with
  | zero => exact Or.inl rfl
  | succ n ih =>
    unfold assprcPlace
    by_cases hbit : assprc &&& 0xf ≠ 0
    · refine Or.inr ⟨bitTbl.getD (assprc &&& 0xf).toNat 0, if_pos hbit, ?_⟩
      have hset := bitTbl_getLsbD assprc hbit
      rw [BitVec.getLsbD_and, Bool.and_eq_true] at hset
      exact hset.1
    · dsimp only
      rw [if_neg hbit]
      refine (ih (assprc >>> 4) (prid + 4)).imp id fun ⟨b, hb, hset⟩ => ⟨4 + b, ?_, ?_⟩
      · rw [hb, Nat.add_assoc]
      · rwa [BitVec.getLsbD_ushiftRight] at hset

/-- A processor that is checked is one of the board. -/
theorem assprcToPrid_lt (hn : numProc ≤ 32) {assprc : BitVec 32}
    (h : chkAssprc numProc assprc = true) :
    assprcToPrid assprc < numProc := by
  unfold chkAssprc at h
  rw [Bool.not_eq_true', decide_eq_false_iff_not, not_or, not_or, not_not] at h
  obtain ⟨hzero, hcore, -⟩ := h
  have hbit {b : ℕ} (hb : assprc.getLsbD b = true) : b < numProc := by
    apply allCoreBit_getLsbD hn
    by_contra hc
    have hand : (assprc &&& ~~~allCoreBit numProc).getLsbD b = false := by
      rw [hcore]
      exact BitVec.getLsbD_zero
    rw [BitVec.getLsbD_and, BitVec.getLsbD_not, hb, decide_eq_true (BitVec.lt_of_getLsbD hb),
      Bool.true_and, Bool.true_and, Bool.not_eq_false'] at hand
    exact hc hand
  unfold assprcToPrid
  rw [if_pos hzero]
  rcases assprcPlace_getLsbD 8 assprc 0 with h0 | ⟨b, hb, hset⟩
  · rw [h0]
    by_contra hc
    apply hzero
    apply BitVec.eq_of_getLsbD_eq
    intro b _
    refine Eq.trans ?_ BitVec.getLsbD_zero.symm
    rw [← Bool.not_eq_true]
    intro hb
    have := hbit hb
    omega
  · rw [hb, Nat.zero_add]
    exact hbit hset

/-! ## Events of handlers -/

theorem Moves.stay (r : EventRings maxProc s.que q) (he : ∀ g, e ∉ q g) (s' : Timer)
    (hque : s'.que = s.que) (hcallback : s'.callback = s.callback) (harg : s'.arg = s.arg) :
    Moves maxProc e none s q s' q := by
  refine ⟨hque ▸ r, fun g => iff_of_false (he g) fun hc => Option.some_ne_none g hc.symm,
    fun _ _ _ => Iff.rfl, fun x _ => by rw [hcallback], fun x _ => by rw [harg], fun x _ _ => by
      rw [hque]⟩

theorem HdrInv.not_mem (inv : HdrInv maxProc X w q) (he : ¬w.2.Marked e) (g : TimerQue) : e ∉ q g :=
  fun hc => he ((inv.on e).mp ⟨g, hc⟩).1

/-- The event of a handler that may be started is taken out of its queue. -/
theorem HdrInv.takeOut (inv : HdrInv maxProc X w q) {c : Prop} [Decidable c] (hc : w.2.Marked e ↔ c)
    (he : ∀ s, ¬Parked s e) :
    ∃ q', Moves maxProc e none w.1 q (if c then timerDelete w.1 e else w.1) q' ∧
      (if c then timerDelete w.1 e else w.1).handler_queue = w.1.handler_queue := by
  split_ifs with h
  · obtain ⟨g, hg⟩ := (inv.on e).mpr ⟨hc.mpr h, he w.1⟩
    obtain ⟨q', m⟩ := timerDelete_moves inv.rings hg
    exact ⟨q', m, rfl⟩
  · exact ⟨q, Moves.stay inv.rings (inv.not_mem fun hm => h (hc.mp hm)) _ rfl rfl rfl, rfl⟩

/-- The event goes into the timer queue, and the handler is started. -/
theorem HdrInv.putIn (inv : HdrInv maxProc X w q) (m : Moves maxProc e none w.1 q s q')
    (hs : s.handler_queue = w.1.handler_queue) (time : ℤ) (cback : Cback)
    (hcback : e.cback .timerQueue = some cback) :
    ∃ s' q'', Returns (fun fuel => timerInsertAbs fuel s e time (some cback) e.index) s' ∧
      s'.handler_queue = w.1.handler_queue ∧
      ∀ h Y, (∀ x, x ≠ e → (h.Marked x ↔ w.2.Marked x)) → h.Marked e → ActRight Y (s', h) →
        BlocksRight maxProc h →
        HdrInv maxProc Y (s', h) q'' := by
  obtain ⟨s', q'', hret, m₂, hcallback, harg, hq⟩ :=
    timerInsertAbs_moves m.rings m.out time (some cback) e.index
  refine ⟨s', q'', hret, hq.trans hs, fun h Y hmark hself htold hblocks => ?_⟩
  apply inv.moves (m.trans m₂) hmark
  · exact iff_of_true ⟨_, rfl⟩ ⟨hself, not_parked_of_mem m₂.rings ((m₂.place .timerQueue).mpr rfl)⟩
  · intro g hg
    obtain rfl := Option.some.inj hg
    exact ⟨hcallback.trans hcback.symm, hcback ▸ Option.some_ne_none _, harg⟩
  · intro p hp
    rwa [hq, hs]
  · exact fun p hp => TimerQue.noConfusion (Option.some.inj hp)
  · exact htold
  · exact hblocks

/-- The event is out of all queues, and the handler is stopped. -/
theorem HdrInv.leftOut (inv : HdrInv maxProc X w q) (m : Moves maxProc e none w.1 q s q')
    (hs : s.handler_queue = w.1.handler_queue) (hmark : ∀ x, x ≠ e → (h.Marked x ↔ w.2.Marked x))
    (hself : ¬h.Marked e) (htold : ActRight Y (s, h)) (hblocks : BlocksRight maxProc h) :
    HdrInv maxProc Y (s, h) q' := by
  apply inv.moves m hmark
  · exact iff_of_false (fun ⟨g, hg⟩ => Option.some_ne_none g hg.symm) fun hc => hself hc.1
  · exact fun g hg => absurd hg.symm (Option.some_ne_none g)
  · intro p hp
    rwa [hs]
  · exact fun p hp => absurd hp.symm (Option.some_ne_none _)
  · exact htold
  · exact hblocks

theorem UpdNoted.same (hquiet : UpdNoted maxProc s) (hs : s'.handler_queue = s.handler_queue) :
    UpdNoted maxProc s' := by
  intro p hp
  rw [hs]
  exact hquiet p hp

/-- A call of another routine does the same to who is told. -/
theorem HdrInv.toldSame (inv : HdrInv maxProc X w q) (hs : s.handler_queue = w.1.handler_queue)
    (hrequest : h.request = w.2.request) (hrunning : h.running = w.2.running) : ActRight X (s, h) :=
  inv.told.same (fun p hp => by rwa [hs] at hp) hrequest hrunning

theorem settles_same (inv : HdrInv maxProc (fun _ => False) w q) (hquiet : UpdNoted maxProc w.1) :
    Settles maxProc (fun _ => some w) := ⟨w, returns_const w, q, inv, hquiet⟩

theorem settles_ite {c : Prop} [Decidable c] {f g : ℕ → Option HdrResult}
    (hf : c → Settles maxProc fun fuel => (f fuel).map Prod.fst)
    (hg : ¬c → Settles maxProc fun fuel => (g fuel).map Prod.fst) :
    Settles maxProc fun fuel => (if c then f fuel else g fuel).map Prod.fst := by
  split_ifs with h
  · exact hf h
  · exact hg h

theorem settled_ite {c : Prop} [Decidable c] {a b : HdrResult} (ha : c → Settled maxProc a.1)
    (hb : ¬c → Settled maxProc b.1) : Settled maxProc (if c then a else b).1 := by
  split_ifs with h
  · exact ha h
  · exact hb h

theorem Settles.value {f : ℕ → Option HdrState} (hf : Settles maxProc f) (r : ℤ) :
    Settles maxProc fun fuel => ((f fuel).map fun w => ((w, r) : HdrResult)).map Prod.fst := by
  obtain ⟨w, hret, hsettled⟩ := hf
  refine ⟨w, hret.congr fun fuel => ?_, hsettled⟩
  cases f fuel <;> rfl

/-! ## Cyclic handlers -/

theorem cycStarted_iff (hhdr : (h.cyccb i).cychdr ≠ 0) :
    h.Marked (.cyctmeb i) ↔ (h.cyccb i).cycstat &&& TCYC_STA ≠ 0 := and_iff_right hhdr

theorem almStarted_iff (hhdr : (h.almcb i).almhdr ≠ 0) :
    h.Marked (.almtmeb i) ↔ (h.almcb i).almstat &&& TALM_STA ≠ 0 := and_iff_right hhdr

theorem HdrInv.tkStpCyc (inv : HdrInv maxProc (fun _ => False) w q) (hquiet : UpdNoted maxProc w.1)
    (i : ℕ) (idOk : Bool) (prot : ER) : Settled maxProc (tkStpCyc i idOk prot w).1 := by
  unfold SmpTKernel.tkStpCyc
  refine settled_ite (fun _ => ⟨q, inv, hquiet⟩) fun _ => settled_ite (fun _ => ⟨q, inv, hquiet⟩)
      fun hhdr =>
    settled_ite (fun _ => ⟨q, inv, hquiet⟩) fun _ => ?_
  obtain ⟨q', m, hs⟩ := inv.takeOut (cycStarted_iff hhdr) fun _ => id
  refine ⟨q', inv.leftOut m hs (fun x hx => setCyccb_marked hx) ?_ (inv.toldSame hs rfl rfl)
    (inv.blocks.setCycstat i _), hquiet.same hs⟩
  intro hc
  have hstat := (setCyccb_marked_self.mp hc).2
  rw [sta_iff] at hstat
  simp at hstat

theorem HdrInv.tkDelCyc (inv : HdrInv maxProc (fun _ => False) w q) (hquiet : UpdNoted maxProc w.1)
    (i : ℕ) (idOk : Bool) (prot : ER) : Settled maxProc (tkDelCyc i idOk prot w).1 := by
  unfold SmpTKernel.tkDelCyc
  refine settled_ite (fun _ => ⟨q, inv, hquiet⟩) fun _ => settled_ite (fun _ => ⟨q, inv, hquiet⟩)
      fun hhdr =>
    settled_ite (fun _ => ⟨q, inv, hquiet⟩) fun _ => ?_
  obtain ⟨q', m, hs⟩ := inv.takeOut (cycStarted_iff hhdr) fun _ => id
  have hfree : i ∉ w.2.free_cyccb := fun hc => hhdr (inv.blocks.cycFree i hc)
  have hmark (x : Tmeb) : Hdrs.Marked { w.2 with free_cyccb := w.2.free_cyccb ++ [i] } x ↔
      w.2.Marked x := by
    cases x <;> exact Iff.rfl
  refine ⟨q', inv.leftOut m hs (fun x hx => (setCyccb_marked hx).trans (hmark x)) ?_
    (inv.toldSame hs rfl rfl) ?_, hquiet.same hs⟩
  · exact fun hc => (setCyccb_marked_self.mp hc).1 rfl
  · obtain ⟨h₁, h₂, h₃, h₄, h₅, h₆⟩ := inv.blocks
    refine ⟨fun j => ?_, h₂, fun j hj => ?_, h₄, ?_, h₆⟩
    · show (Function.update w.2.cyccb i _ j).cychdr ≠ 0 →
        (Function.update w.2.cyccb i _ j).isAssprc = true →
        assprcToPrid (Function.update w.2.cyccb i _ j).assprc < maxProc
      by_cases hji : j = i
      · subst hji
        rw [Function.update_self]
        exact fun hc => absurd rfl hc
      · rw [Function.update_of_ne hji]
        exact h₁ j
    · show (Function.update w.2.cyccb i _ j).cychdr = 0
      by_cases hji : j = i
      · subst hji
        rw [Function.update_self]
      · rw [Function.update_of_ne hji]
        exact h₃ j ((List.mem_append.mp hj).resolve_right fun hc => hji (List.mem_singleton.mp hc))
    · show (w.2.free_cyccb ++ [i]).Nodup
      rw [← List.concat_eq_append]
      exact h₅.concat hfree

/-- The event of a handler that is or is to be started goes into the timer queue. -/
theorem HdrInv.cycIn (inv : HdrInv maxProc (fun _ => False) w q) (hquiet : UpdNoted maxProc w.1)
    (m : Moves maxProc (.cyctmeb i) none w.1 q s q') (hs : s.handler_queue = w.1.handler_queue)
    (tm : ℤ) {cyccb : Cyccb} (hstarted : cyccb.Started)
    (hblocks : BlocksRight maxProc (w.2.setCyccb i cyccb)) (r : ℤ) :
    Settles maxProc fun fuel =>
      ((cycTimerInsert fuel i tm (s, w.2)).map fun w => ((w.1, w.2.setCyccb i cyccb), r)).map
      Prod.fst := by
  obtain ⟨s', q'', hret, hs', hput⟩ := inv.putIn m hs tm .distributeCychdr rfl
  refine ⟨(s', w.2.setCyccb i cyccb), (hret.map fun s => (s, w.2.setCyccb i cyccb)).congr
    fun fuel => ?_, q'', hput _ _ (fun x hx => setCyccb_marked hx)
    (setCyccb_marked_self.mpr hstarted)
    (inv.toldSame hs' rfl rfl) hblocks, hquiet.same hs'⟩
  unfold cycTimerInsert
  rw [Option.map_map, Option.map_map]
  rfl

theorem started_of_sta {cyccb : Cyccb} (hhdr : cyccb.cychdr ≠ 0) :
    Cyccb.Started { cyccb with cycstat := cyccb.cycstat ||| TCYC_STA } := by
  refine ⟨hhdr, (sta_iff _).mpr ?_⟩
  simp

theorem HdrInv.tkStaCyc (inv : HdrInv maxProc (fun _ => False) w q) (hquiet : UpdNoted maxProc w.1)
    (TIMER_PERIOD i : ℕ) (idOk : Bool) (prot : ER) :
    Settles maxProc fun fuel => (tkStaCyc TIMER_PERIOD fuel i idOk prot w).map Prod.fst := by
  unfold SmpTKernel.tkStaCyc
  refine settles_ite (fun _ => settles_same inv hquiet) fun _ =>
    settles_ite (fun _ => settles_same inv hquiet)
    fun hhdr => settles_ite (fun _ => settles_same inv hquiet) fun _ => ?_
  have hsta := started_of_sta hhdr
  have hblocks := inv.blocks.setCycstat i ((w.2.cyccb i).cycstat ||| TCYC_STA)
  by_cases hphs : (w.2.cyccb i).cycatr &&& TA_PHS ≠ 0
  · simp only [if_pos hphs]
    by_cases hstop : (w.2.cyccb i).cycstat &&& TCYC_STA = 0
    · simp only [if_pos hstop]
      have hout : ¬w.2.Marked (.cyctmeb i) := fun hc => ((cycStarted_iff hhdr).mp hc) hstop
      have m := Moves.stay inv.rings (inv.not_mem hout) w.1 rfl rfl rfl
      exact inv.cycIn hquiet m rfl _ hsta hblocks E_OK
    · simp only [if_neg hstop]
      refine ⟨_, returns_const _, q, inv.stays (fun x => ?_) (inv.toldSame rfl rfl rfl) hblocks,
        hquiet⟩
      by_cases hx : x = .cyctmeb i
      · subst hx
        rw [setCyccb_marked_self]
        exact iff_of_true hsta ((cycStarted_iff hhdr).mpr hstop)
      · exact setCyccb_marked hx
  · simp only [if_neg hphs]
    obtain ⟨q', m, hs⟩ := inv.takeOut (cycStarted_iff hhdr) fun _ => id
    exact inv.cycIn hquiet m hs _ hsta hblocks E_OK

/-- The first call of a handler that has just been created. -/
theorem HdrInv.immediateCallCychdr (inv : HdrInv maxProc (fun _ => False) w q)
    (hquiet : UpdNoted maxProc w.1) (hprid : prid < maxProc) (hmax : maxProc ≤ 32)
    (m : Moves maxProc (.cyctmeb i) none w.1 q s q') (hs : s.handler_queue = w.1.handler_queue)
    (hmark : ∀ x, x ≠ .cyctmeb i → (h.Marked x ↔ w.2.Marked x)) (hstarted : (h.cyccb i).Started)
    (hrequest : h.request = w.2.request) (hrunning : h.running = w.2.running)
    (hblocks : BlocksRight maxProc h) :
    Settles maxProc fun fuel => immediateCallCychdr maxProc fuel prid i (s, h) := by
  unfold SmpTKernel.immediateCallCychdr
  by_cases hassprc : (h.cyccb i).isAssprc = true
  · simp only [if_pos hassprc]
    obtain ⟨q'', inv', -⟩ :=
      inv.distributeCychdr hprid m hs hmark hstarted hrequest hrunning hblocks
    exact inv'.update hprid hmax
  · simp only [if_neg hassprc]
    obtain ⟨s', q'', hret, hs', hput⟩ := inv.putIn m hs (cycNextTime i (s, h)) .distributeCychdr rfl
    have hret' : Returns (fun fuel => cycTimerInsert fuel i (cycNextTime i (s, h)) (s, h))
        (s', h) :=
      hret.map fun s => (s, h)
    refine ⟨_, hret'.map _, q'', hput _ _ (fun x hx => ?_) ?_ ?_ ?_, hquiet.same hs'⟩
    · exact (leave_marked.trans (setCyccb_marked hx)).trans (hmark x hx)
    · exact leave_marked.mpr (setCyccb_marked_self.mpr (((h.cyccb i).started_run (by simp)).mpr
        hstarted))
    · have htold : ActRight (fun _ => False) (s', h.setCyccb i { h.cyccb i with
          cycstat := (h.cyccb i).cycstat ||| (TCYC_RUN ||| TCYC_IMM) }) :=
            inv.toldSame hs' hrequest hrunning
      exact htold.leave fun p hp => hp.elim
    · exact (hblocks.setCycstat i _).leave

theorem BlocksRight.newCyccb (b : BlocksRight maxProc h) {free : List ℕ}
    (hfree : h.free_cyccb = i :: free) {cyccb : Cyccb}
    (hprid : cyccb.isAssprc = true → assprcToPrid cyccb.assprc < maxProc) :
    BlocksRight maxProc ({ h with free_cyccb := free }.setCyccb i cyccb) := by
  obtain ⟨h₁, h₂, h₃, h₄, h₅, h₆⟩ := b
  rw [hfree] at h₃ h₅
  have b' : BlocksRight maxProc { h with free_cyccb := free } :=
    ⟨h₁, h₂, fun j hj => h₃ j (List.mem_cons_of_mem _ hj), h₄, (List.nodup_cons.mp h₅).2, h₆⟩
  exact b'.setCyccb (fun _ => hprid) fun hc => absurd hc (List.nodup_cons.mp h₅).1

theorem newAssprc_lt (hn : numProc ≤ maxProc) (hmax : maxProc ≤ 32) {atr : ℕ} {assprc : BitVec 32}
    (hchk : ¬(atr &&& TA_ASSPRC ≠ 0 ∧ (!chkAssprc numProc assprc) = true))
    (hatr : atr &&& TA_ASSPRC ≠ 0) :
    assprcToPrid (if atr &&& TA_ASSPRC ≠ 0 then assprc else 0) < maxProc := by
  rw [if_pos hatr]
  rw [Bool.not_eq_true'] at hchk
  have hok : chkAssprc numProc assprc = true := by
    rw [← Bool.not_eq_false]
    exact fun hc => hchk ⟨hatr, hc⟩
  exact (assprcToPrid_lt (hn.trans hmax) hok).trans_le hn

/-- The control block of a new handler. -/
def Tccyc.cyccb (pk : Tccyc) (c : Cyccb) : Cyccb :=
  { c with
    exinf := pk.exinf
    cycatr := pk.cycatr
    cychdr := pk.cychdr
    cyctim := pk.cyctim
    assprc := if pk.cycatr &&& TA_ASSPRC ≠ 0 then pk.assprc else 0
    cycstat := if pk.cycatr &&& TA_STA ≠ 0 then TCYC_STA else TCYC_STP }

/-- It is taken from the free queue. -/
def Hdrs.newCyc (h : Hdrs) (pk : Tccyc) (j : ℕ) (free : List ℕ) : Hdrs :=
  { h with free_cyccb := free }.setCyccb j (pk.cyccb (h.cyccb j))

theorem Tccyc.started_cyccb {pk : Tccyc} {c : Cyccb} (hhdr : pk.cychdr ≠ 0) :
    (pk.cyccb c).Started ↔ pk.cycatr &&& TA_STA ≠ 0 := by
  have hstat : (pk.cyccb c).cycstat = if pk.cycatr &&& TA_STA ≠ 0 then TCYC_STA else TCYC_STP := rfl
  unfold Cyccb.Started
  rw [hstat]
  constructor
  · rintro ⟨-, h⟩ hsta
    rw [if_neg (not_not.mpr hsta)] at h
    exact absurd (show TCYC_STP &&& TCYC_STA = 0 by decide) h
  · intro hsta
    rw [if_pos hsta]
    exact ⟨hhdr, by decide⟩

theorem newCyc_marked {pk : Tccyc} {free : List ℕ} {x : Tmeb} (hx : x ≠ .cyctmeb i) :
    (h.newCyc pk i free).Marked x ↔ h.Marked x := by
  refine (setCyccb_marked hx).trans ?_
  cases x <;> exact Iff.rfl

theorem BlocksRight.newCyc (b : BlocksRight maxProc h) {pk : Tccyc} {free : List ℕ}
    (hfree : h.free_cyccb = i :: free) (hn : numProc ≤ maxProc) (hmax : maxProc ≤ 32)
    (hchk : ¬(pk.cycatr &&& TA_ASSPRC ≠ 0 ∧ (!chkAssprc numProc pk.assprc) = true)) :
    BlocksRight maxProc (h.newCyc pk i free) :=
  b.newCyccb hfree fun hatr => newAssprc_lt hn hmax hchk (of_decide_eq_true hatr)

theorem HdrInv.tkCreCyc (inv : HdrInv maxProc (fun _ => False) w q) (hquiet : UpdNoted maxProc w.1)
    (hprid : prid < maxProc) (hn : numProc ≤ maxProc) (hmax : maxProc ≤ 32) (TIMER_PERIOD : ℕ)
    (pk : Tccyc) (rsatrOk : Bool) (prot : ER) :
    Settles maxProc fun fuel =>
      (tkCreCyc TIMER_PERIOD maxProc numProc fuel prid pk rsatrOk prot w).map Prod.fst := by
  unfold SmpTKernel.tkCreCyc
  refine settles_ite (fun _ => settles_same inv hquiet) fun _ =>
    settles_ite (fun _ => settles_same inv hquiet)
    fun hhdr => settles_ite (fun _ => settles_same inv hquiet) fun _ =>
    settles_ite (fun _ => settles_same inv hquiet) fun hchk =>
      settles_ite (fun _ => settles_same inv hquiet) fun _ => ?_
  cases hfree : w.2.free_cyccb with
  | nil => exact settles_same inv hquiet
  | cons i free =>
    dsimp only
    have hout : ¬w.2.Marked (.cyctmeb i) :=
      fun hc => hc.1 (inv.blocks.cycFree i (hfree ▸ List.mem_cons_self))
    have hblocks : BlocksRight maxProc (w.2.newCyc pk i free) :=
      inv.blocks.newCyc hfree hn hmax hchk
    have hmark (x : Tmeb) (hx : x ≠ .cyctmeb i) : (w.2.newCyc pk i free).Marked x ↔ w.2.Marked x :=
      newCyc_marked hx
    have hstarted : (w.2.newCyc pk i free).Marked (.cyctmeb i) ↔ pk.cycatr &&& TA_STA ≠ 0 :=
      setCyccb_marked_self.trans (Tccyc.started_cyccb hhdr)
    apply Settles.value
    let tm := llAdd (llAdd w.1.current_time pk.cycphs) TIMER_PERIOD
    change Settles maxProc fun fuel => if pk.cycatr &&& TA_STA ≠ 0 then
      if pk.cycphs = 0 then
        SmpTKernel.immediateCallCychdr maxProc fuel prid i (w.1.setTime (.cyctmeb i) tm, w.2.newCyc
          pk i free)
      else SmpTKernel.cycTimerInsert fuel i tm (w.1, w.2.newCyc pk i free)
      else some (w.1.setTime (.cyctmeb i) tm, w.2.newCyc pk i free)
    by_cases hsta : pk.cycatr &&& TA_STA ≠ 0
    · by_cases hphs : pk.cycphs = 0
      · simp only [if_pos hsta, if_pos hphs]
        exact inv.immediateCallCychdr hquiet hprid hmax (Moves.stay inv.rings (inv.not_mem hout) _
          rfl rfl rfl) rfl hmark
          (hstarted.mpr hsta) rfl rfl hblocks
      · simp only [if_pos hsta, if_neg hphs]
        obtain ⟨s', q'', hret, hs', hput⟩ :=
          inv.putIn (Moves.stay inv.rings (inv.not_mem hout) w.1 rfl rfl rfl)
          rfl tm .distributeCychdr rfl
        exact ⟨_, hret.map fun s => (s, _), q'', hput _ _ hmark (hstarted.mpr hsta)
          (inv.toldSame hs' rfl rfl) hblocks, hquiet.same hs'⟩
    · simp only [if_neg hsta]
      exact ⟨_, returns_const _, q, inv.leftOut (Moves.stay inv.rings (inv.not_mem hout) _ rfl rfl
        rfl) rfl hmark
        (fun hc => hsta (hstarted.mp hc)) (inv.toldSame rfl rfl rfl) hblocks, hquiet⟩

/-! ## Alarm handlers -/

theorem not_started_of_clear {almcb : Almcb} {stat : BitVec 32} (hstat : stat.getLsbD 0 = false) :
    ¬Almcb.Started { almcb with almstat := stat } := by
  intro hc
  have hset := (sta_iff stat).mp hc.2
  rw [hstat] at hset
  exact Bool.false_ne_true hset

theorem HdrInv.tkStpAlm (inv : HdrInv maxProc (fun _ => False) w q) (hquiet : UpdNoted maxProc w.1)
    (i : ℕ) (idOk : Bool) (prot : ER) : Settled maxProc (tkStpAlm i idOk prot w).1 := by
  unfold SmpTKernel.tkStpAlm
  refine settled_ite (fun _ => ⟨q, inv, hquiet⟩) fun _ => settled_ite (fun _ => ⟨q, inv, hquiet⟩)
      fun hhdr =>
    settled_ite (fun _ => ⟨q, inv, hquiet⟩) fun _ => settled_ite (fun hsta => ?_) fun _ =>
      ⟨q, inv, hquiet⟩
  obtain ⟨g, hg⟩ := (inv.on (.almtmeb i)).mpr ⟨(almStarted_iff hhdr).mpr hsta, id⟩
  obtain ⟨q', m⟩ := timerDelete_moves inv.rings hg
  refine ⟨q', inv.leftOut m rfl (fun x hx => setAlmcb_marked hx) ?_ (inv.toldSame rfl rfl rfl)
    (inv.blocks.setAlmstat i _), hquiet⟩
  exact fun hc => not_started_of_clear (by simp) (setAlmcb_marked_self.mp hc)

theorem HdrInv.tkDelAlm (inv : HdrInv maxProc (fun _ => False) w q) (hquiet : UpdNoted maxProc w.1)
    (i : ℕ) (idOk : Bool) (prot : ER) : Settled maxProc (tkDelAlm i idOk prot w).1 := by
  unfold SmpTKernel.tkDelAlm
  refine settled_ite (fun _ => ⟨q, inv, hquiet⟩) fun _ => settled_ite (fun _ => ⟨q, inv, hquiet⟩)
      fun hhdr =>
    settled_ite (fun _ => ⟨q, inv, hquiet⟩) fun _ => ?_
  obtain ⟨q', m, hs⟩ := inv.takeOut (almStarted_iff hhdr) fun _ => id
  have hfree : i ∉ w.2.free_almcb := fun hc => hhdr (inv.blocks.almFree i hc)
  have hmark (x : Tmeb) : Hdrs.Marked { w.2 with free_almcb := w.2.free_almcb ++ [i] } x ↔
      w.2.Marked x := by
    cases x <;> exact Iff.rfl
  refine ⟨q', inv.leftOut m hs (fun x hx => (setAlmcb_marked hx).trans (hmark x)) ?_
    (inv.toldSame hs rfl rfl) ?_, hquiet.same hs⟩
  · exact fun hc => (setAlmcb_marked_self.mp hc).1 rfl
  · obtain ⟨h₁, h₂, h₃, h₄, h₅, h₆⟩ := inv.blocks
    refine ⟨h₁, fun j => ?_, h₃, fun j hj => ?_, h₅, ?_⟩
    · show (Function.update w.2.almcb i _ j).almhdr ≠ 0 →
        (Function.update w.2.almcb i _ j).isAssprc = true →
        assprcToPrid (Function.update w.2.almcb i _ j).assprc < maxProc
      by_cases hji : j = i
      · subst hji
        rw [Function.update_self]
        exact fun hc => absurd rfl hc
      · rw [Function.update_of_ne hji]
        exact h₂ j
    · show (Function.update w.2.almcb i _ j).almhdr = 0
      by_cases hji : j = i
      · subst hji
        rw [Function.update_self]
      · rw [Function.update_of_ne hji]
        exact h₄ j ((List.mem_append.mp hj).resolve_right fun hc => hji (List.mem_singleton.mp hc))
    · show (w.2.free_almcb ++ [i]).Nodup
      rw [← List.concat_eq_append]
      exact h₆.concat hfree

theorem HdrInv.immediateCallAlmhdr (inv : HdrInv maxProc (fun _ => False) w q)
    (hquiet : UpdNoted maxProc w.1) (hprid : prid < maxProc) (hmax : maxProc ≤ 32)
    (hhdr : (w.2.almcb i).almhdr ≠ 0) (m : Moves maxProc (.almtmeb i) none w.1 q s q')
    (hs : s.handler_queue = w.1.handler_queue) :
    Settles maxProc fun fuel => immediateCallAlmhdr maxProc fuel prid i (s, w.2) := by
  unfold SmpTKernel.immediateCallAlmhdr
  by_cases hassprc : (w.2.almcb i).isAssprc = true
  · simp only [if_pos hassprc]
    have hstarted : Almcb.Started ((w.2.setAlmcb i { w.2.almcb i with
        almstat := (w.2.almcb i).almstat ||| TALM_STA }).almcb i) := by
      rw [setAlmcb_almcb_self]
      refine ⟨hhdr, (sta_iff _).mpr ?_⟩
      simp
    obtain ⟨q'', inv', -⟩ :=
      inv.distributeAlmhdr hprid m hs (fun x hx => setAlmcb_marked hx) hstarted rfl rfl
      (inv.blocks.setAlmstat i _)
    exact inv'.update hprid hmax
  · simp only [if_neg hassprc]
    refine ⟨_, returns_const _, q', inv.leftOut m hs (fun x hx =>
      leave_marked.trans (setAlmcb_marked hx)) ?_ ?_ ?_, hquiet.same hs⟩
    · exact fun hc => not_started_of_clear (by simp) (setAlmcb_marked_self.mp (leave_marked.mp hc))
    · have htold : ActRight (fun _ => False) (s, w.2.setAlmcb i { w.2.almcb i with
          almstat := ((w.2.almcb i).almstat &&& ~~~TALM_STA) ||| (TALM_RUN ||| TALM_IMM) }) :=
        inv.toldSame hs rfl rfl
      exact htold.leave fun p hp => hp.elim
    · exact (inv.blocks.setAlmstat i _).leave

theorem HdrInv.tkStaAlm (inv : HdrInv maxProc (fun _ => False) w q) (hquiet : UpdNoted maxProc w.1)
    (hprid : prid < maxProc) (hmax : maxProc ≤ 32) (TIMER_PERIOD i almtim : ℕ) (idOk : Bool)
    (prot : ER) :
    Settles maxProc fun fuel => (tkStaAlm TIMER_PERIOD maxProc fuel prid i almtim idOk prot w).map
      Prod.fst := by
  unfold SmpTKernel.tkStaAlm
  refine settles_ite (fun _ => settles_same inv hquiet) fun _ =>
    settles_ite (fun _ => settles_same inv hquiet)
    fun hhdr => settles_ite (fun _ => settles_same inv hquiet) fun _ =>
    settles_ite (fun _ => settles_same inv hquiet) fun _ => ?_
  obtain ⟨q', m, hs⟩ := inv.takeOut (almStarted_iff hhdr) fun _ => id
  apply Settles.value
  by_cases htim : almtim > 0
  · simp only [if_pos htim]
    set h' :=
      w.2.setAlmcb i { w.2.almcb i with almstat := (w.2.almcb i).almstat ||| TALM_STA } with hh'
    obtain ⟨s', q'', hret, hs', hput⟩ :=
      inv.putIn m hs (llAdd (llAdd w.1.current_time almtim) TIMER_PERIOD)
      .distributeAlmhdr rfl
    refine ⟨(s', h'), (hret.map fun s => (s, h')).congr fun fuel => ?_, q'', hput _ _ (fun x hx =>
      setAlmcb_marked hx)
      ?_ (inv.toldSame hs' rfl rfl) (inv.blocks.setAlmstat i _), hquiet.same hs'⟩
    · have htime : (if (w.2.almcb i).almstat &&& TALM_STA ≠ 0 then timerDelete w.1 (.almtmeb i)
          else w.1).current_time = w.1.current_time := by split_ifs <;> rfl
      unfold almTimerInsert
      rw [Option.map_map]
      dsimp only
      rw [htime]
      rfl
    · refine setAlmcb_marked_self.mpr ⟨hhdr, (sta_iff _).mpr ?_⟩
      simp
  · simp only [if_neg htim]
    exact inv.immediateCallAlmhdr hquiet hprid hmax hhdr m hs

theorem BlocksRight.newAlmcb (b : BlocksRight maxProc h) {free : List ℕ}
    (hfree : h.free_almcb = i :: free) {almcb : Almcb}
    (hprid : almcb.isAssprc = true → assprcToPrid almcb.assprc < maxProc) :
    BlocksRight maxProc ({ h with free_almcb := free }.setAlmcb i almcb) := by
  obtain ⟨h₁, h₂, h₃, h₄, h₅, h₆⟩ := b
  rw [hfree] at h₄ h₆
  have b' : BlocksRight maxProc { h with free_almcb := free } :=
    ⟨h₁, h₂, h₃, fun j hj => h₄ j (List.mem_cons_of_mem _ hj), h₅, (List.nodup_cons.mp h₆).2⟩
  exact b'.setAlmcb (fun _ => hprid) fun hc => absurd hc (List.nodup_cons.mp h₆).1

theorem HdrInv.tkCreAlm (inv : HdrInv maxProc (fun _ => False) w q) (hquiet : UpdNoted maxProc w.1)
    (hn : numProc ≤ maxProc) (hmax : maxProc ≤ 32) (pk : Tcalm) (rsatrOk : Bool) (prot : ER) :
    Settled maxProc (tkCreAlm numProc pk rsatrOk prot w).1 := by
  unfold SmpTKernel.tkCreAlm
  refine settled_ite (fun _ => ⟨q, inv, hquiet⟩) fun _ => settled_ite (fun _ => ⟨q, inv, hquiet⟩)
      fun hhdr =>
    settled_ite (fun _ => ⟨q, inv, hquiet⟩) fun hchk => settled_ite (fun _ => ⟨q, inv, hquiet⟩)
    fun _ => ?_
  cases hfree : w.2.free_almcb with
  | nil => exact ⟨q, inv, hquiet⟩
  | cons i free =>
    have hout : ¬w.2.Marked (.almtmeb i) :=
      fun hc => hc.1 (inv.blocks.almFree i (hfree ▸ List.mem_cons_self))
    refine ⟨q, inv.leftOut (Moves.stay inv.rings (inv.not_mem hout) _ rfl rfl rfl) rfl
      (fun x hx => ?_) ?_
      (inv.toldSame rfl rfl rfl) ?_, hquiet⟩
    · refine (setAlmcb_marked hx).trans ?_
      cases x <;> exact Iff.rfl
    · exact fun hc => (setAlmcb_marked_self.mp hc).2 (show TALM_STP &&& TALM_STA = 0 by decide)
    · exact inv.blocks.newAlmcb hfree fun hatr => newAssprc_lt hn hmax hchk (of_decide_eq_true hatr)

/-! ## Waits of tasks -/

section Waits

variable {t : Tsk} {tcb : WaitTcb} {f : ℕ → Option (Timer × (Tsk → WaitTcb))}

/-- A wait changes nothing of the handlers. -/
def waitState (w : HdrState) (r : Timer × (Tsk → WaitTcb)) : HdrState :=
  (r.1, { w.2 with tcb := r.2 })

theorem enterWait_waits (hstate : tcb.state = .ready ∨ tcb.state = .suspend) (atr : ℕ) :
    (enterWait atr tcb).Waits := by
  unfold WaitTcb.Waits enterWait
  rcases hstate with h | h <;> simp [h]

theorem HdrInv.waitTimed (inv : HdrInv maxProc (fun _ => False) w q) (hquiet : UpdNoted maxProc w.1)
    (hout : ¬(w.2.tcb t).Waits) (time : ℤ) (htcb : tcb.Waits)
    (hf : ∀ fuel, f fuel = (timerInsertAbs fuel w.1 (.wtmeb t) time (some .waitReleaseTmout) t).map
      fun s =>
      (s, Function.update w.2.tcb t tcb)) :
    Settles maxProc fun fuel => (f fuel).map (waitState w) := by
  obtain ⟨s', q'', hret, hs', hput⟩ := inv.putIn
    (Moves.stay inv.rings (inv.not_mem (e := .wtmeb t) hout) w.1 rfl rfl rfl) rfl time
    .waitReleaseTmout rfl
  refine ⟨waitState w (s', Function.update w.2.tcb t tcb), (hret.map fun s =>
    waitState w (s, Function.update w.2.tcb t tcb)).congr fun fuel => ?_, q'', hput _ _ (fun x hx =>
      setTcb_marked hx)
    (setTcb_marked_self.mpr htcb) (inv.toldSame hs' rfl rfl) (inv.blocks.setTcb _), hquiet.same hs'⟩
  rw [hf, Option.map_map]
  rfl

theorem Moves.park (r : EventRings maxProc s.que q) (he : ∀ g, e ∉ q g) (cback : Option Cback)
    (arg : ℕ) :
    Moves maxProc e none s q { s.setCallback e cback arg with que := queInit (.tmeb e) s.que }
      q := by
  refine ⟨r.congr (fun g _ => ?_) fun g x hx => ?_,
    fun g => iff_of_false (he g) fun hc => Option.some_ne_none g hc.symm,
    fun _ _ _ => Iff.rfl, fun x hx => Function.update_of_ne hx _ _, fun x hx =>
      Function.update_of_ne hx _ _,
    fun x hx _ => single_apply_of_ne (fun hc => hx (TimerNode.tmeb.inj hc)) s.que⟩
  · exact single_apply_of_ne (show TimerNode.que g ≠ .tmeb e from TimerNode.noConfusion) s.que
  · refine single_apply_of_ne (fun hc => ?_) s.que
    exact he g (TimerNode.tmeb.inj hc ▸ hx)

theorem HdrInv.waitForever (inv : HdrInv maxProc (fun _ => False) w q)
    (hquiet : UpdNoted maxProc w.1) (hout : ¬(w.2.tcb t).Waits) (tcb : WaitTcb) :
    Settled maxProc (waitState w ({ w.1.setCallback (.wtmeb t) (some .waitReleaseTmout) t with
      que := queInit (.tmeb (.wtmeb t)) w.1.que }, Function.update w.2.tcb t tcb)) := by
  refine ⟨q, inv.moves (Moves.park inv.rings (inv.not_mem (e := .wtmeb t) hout) _ _) (fun x hx =>
    setTcb_marked hx) ?_
    (fun g hg => absurd hg.symm (Option.some_ne_none g)) (fun p hp => hp)
    (fun p hp => absurd hp.symm (Option.some_ne_none _)) (inv.toldSame rfl rfl rfl)
    (inv.blocks.setTcb _), hquiet⟩
  refine iff_of_false (fun ⟨g, hg⟩ => Option.some_ne_none g hg.symm) fun hc => hc.2 ?_
  exact congrArg Cell.next (single_apply_self _ w.1.que)

theorem HdrInv.makeWait (inv : HdrInv maxProc (fun _ => False) w q) (hquiet : UpdNoted maxProc w.1)
    (TIMER_PERIOD : ℕ) (hstate : (w.2.tcb t).state = .ready ∨ (w.2.tcb t).state = .suspend)
    (tmout : ℤ) (atr : ℕ) :
    Settles maxProc fun fuel => (makeWait TIMER_PERIOD fuel w.1 w.2.tcb t tmout atr).map
      (waitState w) := by
  have hout : ¬(w.2.tcb t).Waits := by
    unfold WaitTcb.Waits
    rcases hstate with h | h <;> simp [h]
  by_cases hfevr : tmout = TMO_FEVR
  · refine ⟨_, (returns_const _).congr fun fuel => ?_, inv.waitForever hquiet hout
      (enterWait atr (w.2.tcb t))⟩
    unfold SmpTKernel.makeWait timerInsert
    rw [if_pos hfevr]
    rfl
  · refine inv.waitTimed hquiet hout (llAdd (llAdd w.1.current_time tmout) TIMER_PERIOD)
      (enterWait_waits hstate atr)
      fun fuel => ?_
    unfold SmpTKernel.makeWait timerInsert
    rw [if_neg hfevr]
    rfl

theorem HdrInv.makeWaitReltim (inv : HdrInv maxProc (fun _ => False) w q)
    (hquiet : UpdNoted maxProc w.1) (TIMER_PERIOD : ℕ)
    (hstate : (w.2.tcb t).state = .ready ∨ (w.2.tcb t).state = .suspend) (tmout atr : ℕ) :
    Settles maxProc fun fuel => (makeWaitReltim TIMER_PERIOD fuel w.1 w.2.tcb t tmout atr).map
      (waitState w) := by
  refine inv.waitTimed hquiet ?_ (llAdd (llAdd w.1.current_time tmout) TIMER_PERIOD)
    (enterWait_waits hstate atr)
    fun fuel => rfl
  unfold WaitTcb.Waits
  rcases hstate with h | h <;> simp [h]

theorem HdrInv.waitRelease (inv : HdrInv maxProc (fun _ => False) w q)
    (hquiet : UpdNoted maxProc w.1) (hwaits : (w.2.tcb t).Waits) :
    Settled maxProc (waitState w (waitRelease w.1 w.2.tcb t)) := by
  by_cases hparked : Parked w.1 (.wtmeb t)
  · have hsame : timerDelete w.1 (.wtmeb t) = w.1 := by
      unfold timerDelete
      rw [show queRemove (.tmeb (.wtmeb t)) w.1.que = w.1.que from unlink_of_self hparked]
    have hout (g : TimerQue) : Tmeb.wtmeb t ∉ q g := fun hc => ((inv.on _).mp ⟨g, hc⟩).2 hparked
    have m := Moves.stay inv.rings hout (timerDelete w.1 (.wtmeb t)) (by rw [hsame]) rfl rfl
    exact ⟨q, inv.endWait m rfl (makeNonWait_not_waits _), hquiet⟩
  · obtain ⟨g, hg⟩ := (inv.on (.wtmeb t)).mpr ⟨hwaits, hparked⟩
    obtain ⟨q', m⟩ := timerDelete_moves inv.rings hg
    exact ⟨q', inv.endWait m rfl (makeNonWait_not_waits _), hquiet⟩

/-- A task changes its state and waits or not as before. -/
theorem HdrInv.setTask (inv : HdrInv maxProc (fun _ => False) w q) (hquiet : UpdNoted maxProc w.1)
    (htcb : tcb.Waits ↔ (w.2.tcb t).Waits) :
    Settled maxProc (w.1, { w.2 with tcb := Function.update w.2.tcb t tcb }) := by
  refine ⟨q, inv.stays (fun x => ?_) (inv.toldSame rfl rfl rfl) (inv.blocks.setTcb _), hquiet⟩
  by_cases hx : x = .wtmeb t
  · subst hx
    exact setTcb_marked_self.trans htcb
  · exact setTcb_marked hx

end Waits

/-! ## The interrupt that requests handlers -/

theorem HdrInv.handlerInterrupt (inv : HdrInv maxProc (fun _ => False) w q)
    (hquiet : UpdNoted maxProc w.1) (hprid : prid < maxProc) :
    Settles maxProc fun fuel => handlerInterrupt fuel prid w := by
  have hmark (x : Tmeb) :
      Hdrs.Marked { w.2 with request := Function.update w.2.request prid false } x ↔
      w.2.Marked x := by
    cases x <;> exact Iff.rfl
  have hblocks :
      BlocksRight maxProc { w.2 with request := Function.update w.2.request prid false } := by
    obtain ⟨h₁, h₂, h₃, h₄, h₅, h₆⟩ := inv.blocks
    exact ⟨h₁, h₂, h₃, h₄, h₅, h₆⟩
  refine HdrInv.execution (q := q) (inv.stays hmark (fun p hp => ?_) hblocks) hquiet hprid
  by_cases hpp : p = prid
  · exact Or.inr (Or.inr hpp)
  · refine (inv.told p hp).imp (fun hr => ?_) fun ht => ht.imp id fun hc => hc.elim
    show Function.update w.2.request prid false p = true
    rwa [Function.update_of_ne hpp]

end SmpTKernel
