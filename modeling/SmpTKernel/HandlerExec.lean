import SmpTKernel.HandlerInv

/-!
# The execution of handlers

The loop of `handler_execution`, the update of the handler queues, the return of a handler and the
timer interrupt: each leaves or ends the critical section with the invariant.
-/

namespace SmpTKernel

open LinkRing Fuel

variable {maxProc prid i : ℕ} {X Y : ℕ → Prop} {s s' : Timer} {h h' : Hdrs} {w w' : HdrState}
  {q q' : TimerQue → List Tmeb} {e x : Tmeb} {d : Option TimerQue} {g : TimerQue} {frame : HdrFrame}

/-! ## Who is told -/

theorem ActRight.same (t : ActRight X w)
    (hact : ∀ p, (s'.handler_queue p).act = true → (w.1.handler_queue p).act = true)
    (hrequest : h'.request = w.2.request) (hrunning : h'.running = w.2.running) :
    ActRight X (s', h') := by
  intro p hp
  show h'.request p = true ∨ (∃ f ∈ h'.running p, _) ∨ _
  rw [hrequest, hrunning]
  exact t p (hact p hp)

/-- A handler runs from now on, on a processor that may have been told. -/
theorem ActRight.leave (t : ActRight X (s, h))
    (hX : ∀ p, X p → Y p ∨ p = prid ∧ frame.drains = true) :
    ActRight Y (s, h.leave prid frame) := by
  intro p hp
  have hmem : ∀ f ∈ h.running p, f ∈ (h.leave prid frame).running p := by
    intro f hf
    show f ∈ Function.update h.running prid _ p
    by_cases hpp : p = prid
    · subst hpp
      rw [Function.update_self]
      exact List.mem_cons_of_mem _ hf
    · rwa [Function.update_of_ne hpp]
  rcases t p hp with hr | ⟨f, hf, hd⟩ | hx
  · exact Or.inl hr
  · exact Or.inr (Or.inl ⟨f, hmem f hf, hd⟩)
  · rcases hX p hx with hy | ⟨rfl, hd⟩
    · exact Or.inr (Or.inr hy)
    · refine Or.inr (Or.inl ⟨frame, ?_, hd⟩)
      show frame ∈ Function.update h.running p _ p
      rw [Function.update_self]
      exact List.mem_cons_self

/-! ## The loop of `handler_execution` -/

theorem Cyccb.started_run (c : Cyccb) {stat : BitVec 32}
    (hstat : stat.getLsbD 0 = c.cycstat.getLsbD 0) :
    Cyccb.Started { c with cycstat := stat } ↔ c.Started := started_congr rfl hstat

theorem Almcb.started_run (c : Almcb) {stat : BitVec 32}
    (hstat : stat.getLsbD 0 = c.almstat.getLsbD 0) :
    Almcb.Started { c with almstat := stat } ↔ c.Started := started_congr rfl hstat

theorem BlocksRight.setCycstat (b : BlocksRight maxProc h) (i : ℕ) (stat : BitVec 32) :
    BlocksRight maxProc (h.setCyccb i { h.cyccb i with cycstat := stat }) :=
  b.setCyccb (b.cycPrid i) (b.cycFree i)

theorem BlocksRight.setAlmstat (b : BlocksRight maxProc h) (i : ℕ) (stat : BitVec 32) :
    BlocksRight maxProc (h.setAlmcb i { h.almcb i with almstat := stat }) :=
  b.setAlmcb (b.almPrid i) (b.almFree i)

theorem Moves.out (m : Moves maxProc e none s q s' q') (g : TimerQue) : e ∉ q' g :=
  fun hc => Option.some_ne_none g ((m.place g).mp hc).symm

theorem cycTimerInsert_moves (r : EventRings maxProc w.1.que q) (he : ∀ g, .cyctmeb i ∉ q g)
    (tm : ℤ) :
    ∃ s' q', Returns (fun fuel => cycTimerInsert fuel i tm w) (s', w.2) ∧
      Moves maxProc (.cyctmeb i) (some .timerQueue) w.1 q s' q' ∧
        Called s' .timerQueue (.cyctmeb i) ∧
      s'.handler_queue = w.1.handler_queue := by
  obtain ⟨s', q', hret, m, hcallback, harg, hq⟩ :=
    timerInsertAbs_moves r he tm (some .distributeCychdr) i
  exact ⟨s', q', hret.map fun s => (s, w.2), m, ⟨hcallback, Option.some_ne_none _, harg⟩, hq⟩

/-- A cyclic handler is called: its event goes back to the timer queue. -/
theorem HdrInv.callCychdr (inv : HdrInv maxProc (· = prid) w q) (hquiet : UpdNoted maxProc w.1)
    (he : .cyctmeb i ∈ q g) :
    Settles maxProc (fun fuel => callCychdr fuel prid i (timerDelete w.1 (.cyctmeb i), w.2)) := by
  obtain ⟨q₁, m₁⟩ := timerDelete_moves inv.rings he
  obtain ⟨s', q', hret, m₂, hcalled, hq⟩ :=
    @cycTimerInsert_moves maxProc i (timerDelete w.1 (.cyctmeb i), w.2) q₁
    m₁.rings m₁.out (cycNextTime i (timerDelete w.1 (.cyctmeb i), w.2))
  have hstarted : (w.2.cyccb i).Started := ((inv.on _).mp ⟨g, he⟩).1
  refine ⟨_, hret.map _, q', ?_, ?_⟩
  · refine inv.moves (m₁.trans m₂) (fun x hx => leave_marked.trans (setCyccb_marked hx)) ?_ ?_
      ?_ ?_ ?_ ?_
    · refine iff_of_true ⟨_, rfl⟩ ⟨leave_marked.mpr (setCyccb_marked_self.mpr ?_), id⟩
      exact ((w.2.cyccb i).started_run (by simp)).mpr hstarted
    · intro g hg
      obtain rfl := Option.some.inj hg
      exact hcalled
    · intro p hp
      show (s'.handler_queue p).act = true ∨ (s'.handler_queue p).upd = true
      rw [hq]
      exact hp
    · exact fun p hp => TimerQue.noConfusion (Option.some.inj hp)
    · have htold : ActRight (· = prid) (s', w.2.setCyccb i { w.2.cyccb i with
          cycstat := (w.2.cyccb i).cycstat ||| TCYC_RUN }) :=
            inv.told.same (fun p hp => by rwa [hq] at hp) rfl rfl
      exact htold.leave fun p hp => Or.inr ⟨hp, rfl⟩
    · exact (inv.blocks.setCycstat i _).leave
  · intro p hp
    show (s'.handler_queue p).upd = false
    rw [hq]
    exact hquiet p hp

theorem HdrInv.callAlmhdr (inv : HdrInv maxProc (· = prid) w q) (hquiet : UpdNoted maxProc w.1)
    (he : .almtmeb i ∈ q g) :
    Settled maxProc (callAlmhdr prid i (timerDelete w.1 (.almtmeb i), w.2)) := by
  obtain ⟨q', m⟩ := timerDelete_moves inv.rings he
  refine ⟨q', ?_, hquiet⟩
  refine inv.moves m (fun x hx => leave_marked.trans (setAlmcb_marked hx)) ?_ ?_ (fun p hp =>
    hp) ?_ ?_ ?_
  · refine iff_of_false (fun ⟨g, hg⟩ => Option.some_ne_none g hg.symm) fun hc => ?_
    have hstat := (setAlmcb_marked_self.mp (leave_marked.mp hc.1)).2
    rw [sta_iff] at hstat
    simp at hstat
  · exact fun g hg => absurd hg.symm (Option.some_ne_none g)
  · exact fun p hp => absurd hp.symm (Option.some_ne_none _)
  · have htold :
        ActRight (· = prid) (timerDelete w.1 (.almtmeb i), w.2.setAlmcb i { w.2.almcb i with
        almstat := ((w.2.almcb i).almstat &&& ~~~TALM_STA) ||| TALM_RUN }) :=
          inv.told.same (fun p hp => hp) rfl rfl
    exact htold.leave fun p hp => Or.inr ⟨hp, rfl⟩
  · exact (inv.blocks.setAlmstat i _).leave

/-- The queue of the processor is empty: it does not execute handlers any more. -/
theorem HdrInv.inactive (inv : HdrInv maxProc (· = prid) w q) (hq : q (.hdrque prid) = []) :
    HdrInv maxProc (fun _ => False) ({ w.1 with
      handler_queue :=
  Function.update w.1.handler_queue prid { w.1.handler_queue prid with act := false } },
    w.2) q := by
  refine ⟨inv.rings, inv.on, fun g e he => (inv.called g e he).congr rfl rfl, fun p hp => ?_,
    fun p hp => ?_, inv.blocks⟩
  · have hne : p ≠ prid := fun hc => hp (hc ▸ hq)
    show (Function.update w.1.handler_queue prid _ p).act = true ∨
      (Function.update w.1.handler_queue prid _ p).upd = true
    rw [Function.update_of_ne hne]
    exact inv.act p hp
  · change (Function.update w.1.handler_queue prid { w.1.handler_queue prid with act := false }
      p).act = true at hp
    by_cases hpp : p = prid
    · subst hpp
      rw [Function.update_self] at hp
      exact absurd hp Bool.false_ne_true
    · rw [Function.update_of_ne hpp] at hp
      exact (inv.told p hp).imp id fun ht => ht.imp id hpp

theorem HdrInv.execution (inv : HdrInv maxProc (· = prid) w q) (hquiet : UpdNoted maxProc w.1)
    (hprid : prid < maxProc) :
    Settles maxProc (fun fuel => handlerExecution fuel prid w) := by
  have hnext : (w.1.que (.que (.hdrque prid))).next = ((q (.hdrque prid)).map .tmeb).headD
      (.que (.hdrque prid)) :=
    inv.rings.next_head (h := .hdrque prid) hprid
  cases hq : q (.hdrque prid) with
  | nil =>
    rw [hq] at hnext
    refine ⟨_, (returns_const _).congr fun fuel => ?_, q, inv.inactive hq, fun p hp => ?_⟩
    · unfold handlerExecution
      rw [hnext]
      rfl
    · show (Function.update w.1.handler_queue prid _ p).upd = false
      by_cases hpp : p = prid
      · subst hpp
        rw [Function.update_self]
        exact hquiet p hp
      · rw [Function.update_of_ne hpp]
        exact hquiet p hp
  | cons e rest =>
    rw [hq, List.map_cons, List.headD_cons] at hnext
    have he : e ∈ q (.hdrque prid) := by
      rw [hq]
      exact List.mem_cons_self
    obtain ⟨hcallback, hsome, harg⟩ := inv.called _ e he
    cases e with
    | wtmeb t => exact absurd rfl hsome
    | cyctmeb i =>
      obtain ⟨w', hret, hset⟩ := inv.callCychdr hquiet he
      refine ⟨w', hret.congr fun fuel => ?_, hset⟩
      unfold handlerExecution
      rw [hnext]
      dsimp only
      rw [hcallback, harg]
      rfl
    | almtmeb i =>
      refine ⟨_, (returns_const _).congr fun fuel => ?_, inv.callAlmhdr hquiet he⟩
      unfold handlerExecution
      rw [hnext]
      dsimp only
      rw [hcallback, harg]
      rfl

/-! ## The update of the handler queues -/

theorem getLsbD_ownBit {p prid : ℕ} (hp : p < 32) :
    (1#32 <<< prid).getLsbD p = decide (p = prid) := by
  rw [BitVec.getLsbD_shiftLeft, BitVec.getLsbD_one]
  simp only [hp, decide_true, Bool.true_and]
  by_cases h : p = prid
  · subst h
    simp
  · simp [h]
    omega

/-- Whether the own processor is among those that are told. -/
theorem handlerRequest_own (assprc : BitVec 32) (hprid : prid < 32) :
    (handlerRequest prid assprc h).1 = assprc.getLsbD prid := by
  have hbit : (assprc &&& 1#32 <<< prid).getLsbD prid = assprc.getLsbD prid := by
    rw [BitVec.getLsbD_and, getLsbD_ownBit hprid]
    simp
  show decide (assprc &&& 1#32 <<< prid ≠ 0) = _
  by_cases hown : assprc.getLsbD prid = true
  · rw [hown]
    apply decide_eq_true
    intro hc
    rw [hc, hown] at hbit
    simp at hbit
  · rw [Bool.not_eq_true] at hown
    rw [hown]
    apply decide_eq_false
    rw [not_not]
    apply BitVec.eq_of_getLsbD_eq
    intro p hp
    rw [BitVec.getLsbD_and, getLsbD_ownBit hp]
    by_cases hpp : p = prid
    · subst hpp
      simp [hown]
    · simp [hpp]

theorem handlerRequest_request (assprc : BitVec 32) {p : ℕ} (hp : p < 32) (hne : p ≠ prid) :
    (handlerRequest prid assprc h).2.request p = (h.request p || assprc.getLsbD p) := by
  show (h.request p || (assprc &&& ~~~(1#32 <<< prid)).getLsbD p) = _
  rw [BitVec.getLsbD_and, BitVec.getLsbD_not, getLsbD_ownBit hp]
  simp [hp, hne]

/-- After the check of the queues, `act` is set where handlers are pending. -/
theorem HdrInv.checked (inv : HdrInv maxProc X w q) {assprc : BitVec 32} {hq : ℕ → Hdrque}
    (c : Checked maxProc w.1 assprc hq) {r : ℕ → Bool}
    (htold : ActRight Y ({ w.1 with handler_queue := hq }, { w.2 with request := r })) :
    HdrInv maxProc Y ({ w.1 with handler_queue := hq }, { w.2 with request := r }) q := by
  have hblocks : BlocksRight maxProc { w.2 with request := r } := by
    obtain ⟨h₁, h₂, h₃, h₄, h₅, h₆⟩ := inv.blocks
    exact ⟨h₁, h₂, h₃, h₄, h₅, h₆⟩
  refine ⟨inv.rings, fun e => ?_, fun g e he => (inv.called g e he).congr rfl rfl, fun p hp =>
    Or.inl ?_, htold, hblocks⟩
  · have hmark : Hdrs.Marked { w.2 with request := r } e ↔ w.2.Marked e := by
      cases e <;> exact Iff.rfl
    have hparked : Parked { w.1 with handler_queue := hq } e ↔ Parked w.1 e := by
      cases e <;> exact Iff.rfl
    rw [hmark, hparked]
    exact inv.on e
  · obtain ⟨e, he⟩ := List.exists_mem_of_ne_nil _ hp
    have hlt : p < maxProc := inv.rings.live_of_mem he
    apply (c.act p hlt).mpr
    by_cases hact : (w.1.handler_queue p).act = true
    · exact Or.inl hact
    · exact Or.inr ⟨(inv.act p hp).resolve_left hact, Bool.not_eq_true _ ▸ hact⟩

/-- Who has to execute handlers after the check was told before or is among the processors found. -/
theorem ActRight.checked (t : ActRight X w) {assprc : BitVec 32} {hq : ℕ → Hdrque}
    (hmax : maxProc ≤ 32) (c : Checked maxProc w.1 assprc hq) :
    ActRight (fun p => X p ∨ p < 32 ∧ assprc.getLsbD p = true) ({ w.1 with handler_queue := hq },
      w.2) := by
  intro p hp
  change (hq p).act = true at hp
  have hold (hact : (w.1.handler_queue p).act = true) :
      w.2.request p = true ∨ (∃ f ∈ w.2.running p, f.drains = true) ∨ X p ∨ p < 32 ∧
      assprc.getLsbD p = true :=
    (t p hact).imp id fun ht => ht.imp id Or.inl
  by_cases hlt : p < maxProc
  · rcases (c.act p hlt).mp hp with hact | hnew
    · exact hold hact
    · have h32 : p < 32 := by omega
      exact Or.inr (Or.inr (Or.inr ⟨h32, (c.new p h32).mpr ⟨hlt, hnew⟩⟩))
  · rw [c.rest p (Nat.not_lt.mp hlt)] at hp
    exact hold hp

theorem HdrInv.update (inv : HdrInv maxProc (fun _ => False) w q) (hprid : prid < maxProc)
    (hmax : maxProc ≤ 32) :
    Settles maxProc (fun fuel =>
      handlerUpdate fuel prid (checkHandlerQueue maxProc w.1).1 ((checkHandlerQueue maxProc w.1).2,
        w.2)) := by
  obtain ⟨hq, hs, c⟩ := checkHandlerQueue_checked maxProc w.1
  have htold := inv.told.checked hmax c
  rw [hs]
  generalize (checkHandlerQueue maxProc w.1).1 = assprc at c htold
  unfold handlerUpdate
  by_cases hzero : assprc ≠ 0
  · have hreq : ActRight (fun p => p = prid ∧ assprc.getLsbD prid = true)
        ({ w.1 with handler_queue := hq }, (handlerRequest prid assprc w.2).2) := by
      intro p hp
      have hkeep (hr : w.2.request p = true) : (handlerRequest prid assprc w.2).2.request p =
          true := by
        show (w.2.request p || _) = true
        rw [hr]
        rfl
      rcases htold p hp with hr | hd | hf | ⟨h32, hbit⟩
      · exact Or.inl (hkeep hr)
      · exact Or.inr (Or.inl hd)
      · exact hf.elim
      · by_cases hpp : p = prid
        · subst hpp
          exact Or.inr (Or.inr ⟨rfl, hbit⟩)
        · refine Or.inl ?_
          rw [handlerRequest_request assprc h32 hpp, hbit, Bool.or_true]
    have hown : (handlerRequest prid assprc w.2).1 = assprc.getLsbD prid :=
      handlerRequest_own assprc (by omega)
    simp only [if_pos hzero, hown]
    by_cases hbit : assprc.getLsbD prid = true
    · simp only [hbit, if_true]
      have hX : (fun p => p = prid ∧ assprc.getLsbD prid = true) = (· = prid) := by
        funext p
        rw [hbit]
        exact propext (and_iff_left rfl)
      rw [hX] at hreq
      exact (inv.checked c hreq).execution c.upd hprid
    · simp only [if_neg hbit]
      have hX : (fun p => p = prid ∧ assprc.getLsbD prid = true) = fun _ => False := by
        funext p
        exact propext (iff_of_false (fun hc => hbit hc.2) id)
      rw [hX] at hreq
      exact ⟨_, returns_const _, q, inv.checked c hreq, c.upd⟩
  · simp only [if_neg hzero]
    have hX : (fun p => False ∨ p < 32 ∧ assprc.getLsbD p = true) = fun _ => False := by
      funext p
      rw [not_not.mp hzero]
      simp
    rw [hX] at htold
    exact ⟨_, returns_const _, q, inv.checked c htold, c.upd⟩

/-! ## The return of a handler -/

/-- A handler has returned, which may have been one of the loop. -/
theorem ActRight.pop (t : ActRight (fun _ => False) w) {rest : List HdrFrame}
    (hrun : w.2.running prid = frame :: rest) :
    ActRight (fun p => p = prid ∧ frame.drains = true)
      (w.1, { w.2 with running := Function.update w.2.running prid rest }) := by
  intro p hp
  rcases t p hp with hr | ⟨f, hf, hd⟩ | hx
  · exact Or.inl hr
  · by_cases hpp : p = prid
    · subst hpp
      rw [hrun] at hf
      rcases List.mem_cons.mp hf with rfl | hf
      · exact Or.inr (Or.inr ⟨rfl, hd⟩)
      · refine Or.inr (Or.inl ⟨f, ?_, hd⟩)
        show f ∈ Function.update w.2.running p rest p
        rwa [Function.update_self]
    · refine Or.inr (Or.inl ⟨f, ?_, hd⟩)
      show f ∈ Function.update w.2.running prid rest p
      rwa [Function.update_of_ne hpp]
  · exact hx.elim

theorem HdrInv.setCycstat (inv : HdrInv maxProc X w q) (htold : ActRight Y (w.1, h))
    (hblocks : BlocksRight maxProc h) (hmark : ∀ x, h.Marked x ↔ w.2.Marked x) {stat : BitVec 32}
    (hstat : stat.getLsbD 0 = (h.cyccb i).cycstat.getLsbD 0) :
    HdrInv maxProc Y (w.1, h.setCyccb i { h.cyccb i with cycstat := stat }) q := by
  apply inv.stays
  · intro x
    by_cases hx : x = .cyctmeb i
    · subst hx
      rw [setCyccb_marked_self, (h.cyccb i).started_run hstat]
      exact hmark (.cyctmeb i)
    · exact (setCyccb_marked hx).trans (hmark x)
  · exact htold
  · exact hblocks.setCycstat i stat

theorem HdrInv.setAlmstat (inv : HdrInv maxProc X w q) (htold : ActRight Y (w.1, h))
    (hblocks : BlocksRight maxProc h) (hmark : ∀ x, h.Marked x ↔ w.2.Marked x) {stat : BitVec 32}
    (hstat : stat.getLsbD 0 = (h.almcb i).almstat.getLsbD 0) :
    HdrInv maxProc Y (w.1, h.setAlmcb i { h.almcb i with almstat := stat }) q := by
  apply inv.stays
  · intro x
    by_cases hx : x = .almtmeb i
    · subst hx
      rw [setAlmcb_marked_self, (h.almcb i).started_run hstat]
      exact hmark (.almtmeb i)
    · exact (setAlmcb_marked hx).trans (hmark x)
  · exact htold
  · exact hblocks.setAlmstat i stat

theorem HdrInv.handlerReturn (inv : HdrInv maxProc (fun _ => False) w q)
    (hquiet : UpdNoted maxProc w.1) (hprid : prid < maxProc) {rest : List HdrFrame}
    (hrun : w.2.running prid = frame :: rest) :
    Settles maxProc (fun fuel =>
      handlerReturn fuel prid (w.1, { w.2 with running := Function.update w.2.running prid rest })
        frame) := by
  have hpop := inv.told.pop hrun
  have hmark (x : Tmeb) :
      Hdrs.Marked { w.2 with running := Function.update w.2.running prid rest } x ↔
      w.2.Marked x := by
    cases x <;> exact Iff.rfl
  have hblocks :
      BlocksRight maxProc { w.2 with running := Function.update w.2.running prid rest } := by
    obtain ⟨h₁, h₂, h₃, h₄, h₅, h₆⟩ := inv.blocks
    exact ⟨h₁, h₂, h₃, h₄, h₅, h₆⟩
  have hdrain (hd : frame.drains = true) :
      (fun p => p = prid ∧ frame.drains = true) = (· = prid) := by
    funext p
    exact propext (and_iff_left hd)
  have himm (hd : frame.drains = false) : (fun p => p = prid ∧ frame.drains = true) = fun _ =>
      False := by
    funext p
    rw [hd]
    exact propext (iff_of_false (fun hc => Bool.false_ne_true hc.2) id)
  cases frame with
  | cychdr i para =>
    rw [hdrain rfl] at hpop
    refine HdrInv.execution (q := q) (inv.setCycstat hpop hblocks hmark ?_) hquiet hprid
    split_ifs <;> simp
  | almhdr i para =>
    rw [hdrain rfl] at hpop
    refine HdrInv.execution (q := q) (inv.setAlmstat hpop hblocks hmark ?_) hquiet hprid
    split_ifs <;> simp
  | immCychdr i para =>
    rw [himm rfl] at hpop
    refine ⟨_, returns_const _, q, inv.setCycstat hpop hblocks hmark ?_, hquiet⟩
    split_ifs <;> simp
  | immAlmhdr i para =>
    rw [himm rfl] at hpop
    refine ⟨_, returns_const _, q, inv.setAlmstat hpop hblocks hmark ?_, hquiet⟩
    split_ifs <;> simp

/-! ## The timer interrupt -/

/-- The flags of the handler queues after `upd` is set. -/
theorem set_upd (hq : ℕ → Hdrque) (prid p : ℕ) :
    ((Function.update hq prid { hq prid with upd := true } p).act = (hq p).act) ∧
      ((hq p).upd = true ∨ p = prid → (Function.update hq prid { hq prid with upd := true } p).upd =
        true) := by
  by_cases hpp : p = prid
  · subst hpp
    rw [Function.update_self]
    exact ⟨rfl, fun _ => rfl⟩
  · rw [Function.update_of_ne hpp]
    exact ⟨rfl, fun hc => hc.resolve_right hpp⟩

/-- An event goes to a handler queue. -/
theorem HdrInv.enqueue (inv : HdrInv maxProc X w q) (m : Moves maxProc e none w.1 q s q')
    (hs : s.handler_queue = w.1.handler_queue) (he : ∀ p, e.cback (.hdrque p) ≠ none)
    (hmark : ∀ x, x ≠ e → (h.Marked x ↔ w.2.Marked x)) (hself : h.Marked e)
    (hrequest : h.request = w.2.request) (hrunning : h.running = w.2.running)
    (hblocks : BlocksRight maxProc h) (hprid : prid < maxProc) {cback : Cback}
    (hcback : e.cback (.hdrque prid) = some cback) :
    ∃ q'', HdrInv maxProc X (enqueueHandler prid e cback e.index s, h) q'' ∧
      ∀ x, x ∈ q'' .timerQueue ↔ x ∈ q .timerQueue ∧ x ≠ e := by
  obtain ⟨q'', m₂⟩ := enqueueHandler_moves m.rings m.out hprid cback e.index
  have hnp : ¬Parked (enqueueHandler prid e cback e.index s) e :=
    not_parked_of_mem m₂.rings ((m₂.place (.hdrque prid)).mpr rfl)
  refine ⟨q'', inv.moves (m.trans m₂) hmark ?_ ?_ ?_ ?_ ?_ hblocks, fun x => ?_⟩
  · exact iff_of_true ⟨_, rfl⟩ ⟨hself, hnp⟩
  · intro g hg
    obtain rfl := Option.some.inj hg
    exact ⟨enqueueHandler_callback.trans hcback.symm, he prid, enqueueHandler_arg⟩
  · intro p hp
    rw [enqueueHandler_queue, hs]
    obtain ⟨hact, hupd⟩ := set_upd w.1.handler_queue prid p
    rw [hact]
    exact hp.imp id fun hp => hupd (Or.inl hp)
  · intro p hp
    rw [enqueueHandler_queue, hs]
    have hpp : p = prid := (TimerQue.hdrque.inj (Option.some.inj hp)).symm
    exact Or.inr ((set_upd w.1.handler_queue prid p).2 (Or.inr hpp))
  · apply inv.told.same _ hrequest hrunning
    intro p hp
    rw [enqueueHandler_queue, hs, (set_upd w.1.handler_queue prid p).1] at hp
    exact hp
  · by_cases hx : x = e
    · subst hx
      exact iff_of_false (fun hc => TimerQue.noConfusion (Option.some.inj ((m₂.place _).mp hc)))
        fun hc => hc.2 rfl
    · rw [(m.trans m₂).other _ x hx]
      exact (and_iff_left hx).symm

theorem HdrInv.distributeCychdr (inv : HdrInv maxProc X w q) (hprid : prid < maxProc)
    (m : Moves maxProc (.cyctmeb i) none w.1 q s q') (hs : s.handler_queue = w.1.handler_queue)
    (hmark : ∀ x, x ≠ .cyctmeb i → (h.Marked x ↔ w.2.Marked x)) (hstarted : (h.cyccb i).Started)
    (hrequest : h.request = w.2.request) (hrunning : h.running = w.2.running)
    (hblocks : BlocksRight maxProc h) :
    ∃ q'', HdrInv maxProc X (distributeCychdr prid i (s, h)) q'' ∧
      ∀ x, x ∈ q'' .timerQueue ↔ x ∈ q .timerQueue ∧ x ≠ .cyctmeb i := by
  refine inv.enqueue m hs (fun p => Option.some_ne_none _) hmark hstarted hrequest hrunning
    hblocks ?_ rfl
  show (if (h.cyccb i).isAssprc = true then assprcToPrid (h.cyccb i).assprc else prid) < maxProc
  split_ifs with hassprc
  · exact hblocks.cycPrid i hstarted.1 hassprc
  · exact hprid

theorem HdrInv.distributeAlmhdr (inv : HdrInv maxProc X w q) (hprid : prid < maxProc)
    (m : Moves maxProc (.almtmeb i) none w.1 q s q') (hs : s.handler_queue = w.1.handler_queue)
    (hmark : ∀ x, x ≠ .almtmeb i → (h.Marked x ↔ w.2.Marked x)) (hstarted : (h.almcb i).Started)
    (hrequest : h.request = w.2.request) (hrunning : h.running = w.2.running)
    (hblocks : BlocksRight maxProc h) :
    ∃ q'', HdrInv maxProc X (distributeAlmhdr prid i (s, h)) q'' ∧
      ∀ x, x ∈ q'' .timerQueue ↔ x ∈ q .timerQueue ∧ x ≠ .almtmeb i := by
  refine inv.enqueue m hs (fun p => Option.some_ne_none _) hmark hstarted hrequest hrunning
    hblocks ?_ rfl
  show (if (h.almcb i).isAssprc = true then assprcToPrid (h.almcb i).assprc else prid) < maxProc
  split_ifs with hassprc
  · exact hblocks.almPrid i hstarted.1 hassprc
  · exact hprid

theorem makeNonWait_not_waits (tcb : WaitTcb) : ¬(makeNonWait tcb).Waits := by
  unfold makeNonWait WaitTcb.Waits
  split_ifs <;> simp

theorem setTcb_marked {t : Tsk} {tcb : WaitTcb} (hx : x ≠ .wtmeb t) :
    Hdrs.Marked { h with tcb := Function.update h.tcb t tcb } x ↔ h.Marked x := by
  cases x with
  | cyctmeb j => exact Iff.rfl
  | almtmeb j => exact Iff.rfl
  | wtmeb u =>
    have hu : u ≠ t := fun hc => hx (congrArg Tmeb.wtmeb hc)
    show (Function.update h.tcb t tcb u).Waits ↔ _
    rw [Function.update_of_ne hu]
    rfl

theorem setTcb_marked_self {t : Tsk} {tcb : WaitTcb} :
    Hdrs.Marked { h with tcb := Function.update h.tcb t tcb } (.wtmeb t) ↔ tcb.Waits := by
  show (Function.update h.tcb t tcb t).Waits ↔ _
  rw [Function.update_self]

theorem BlocksRight.setTcb (b : BlocksRight maxProc h) (tcb : Tsk → WaitTcb) :
    BlocksRight maxProc { h with tcb := tcb } :=
  ⟨b.cycPrid, b.almPrid, b.cycFree, b.almFree, b.cycNodup, b.almNodup⟩

theorem HdrInv.endWait {t : Tsk} (inv : HdrInv maxProc X w q)
    (m : Moves maxProc (.wtmeb t) none w.1 q s q') (hs : s.handler_queue = w.1.handler_queue)
    {tcb : WaitTcb} (htcb : ¬tcb.Waits) :
    HdrInv maxProc X (s, { w.2 with tcb := Function.update w.2.tcb t tcb }) q' := by
  apply inv.moves m (fun x hx => setTcb_marked hx)
  · exact iff_of_false (fun ⟨g, hg⟩ => Option.some_ne_none g hg.symm) fun hc =>
      htcb (setTcb_marked_self.mp hc.1)
  · exact fun g hg => absurd hg.symm (Option.some_ne_none g)
  · intro p hp
    rwa [hs]
  · exact fun p hp => absurd hp.symm (Option.some_ne_none _)
  · exact inv.told.same (fun p hp => by rwa [hs] at hp) rfl rfl
  · exact inv.blocks.setTcb _

/-- An event whose time has come leaves the timer queue. -/
theorem HdrInv.timerCback (inv : HdrInv maxProc X w q) (hprid : prid < maxProc)
    (he : e ∈ q .timerQueue) :
    ∃ w' q', startEvent (SmpTKernel.timerCback prid) e (timerDelete w.1 e, w.2) = some w' ∧
      HdrInv maxProc X w' q' ∧
      ∀ x, x ∈ q' .timerQueue ↔ x ∈ q .timerQueue ∧ x ≠ e := by
  obtain ⟨q₁, m⟩ := timerDelete_moves inv.rings he
  obtain ⟨hcallback, -, harg⟩ := inv.called _ e he
  have hmarked := ((inv.on e).mp ⟨_, he⟩).1
  have hstart : startEvent (SmpTKernel.timerCback prid) e (timerDelete w.1 e, w.2) =
      (e.cback .timerQueue).bind fun cback => SmpTKernel.timerCback prid cback e.index
      (timerDelete w.1 e, w.2) := by
    have hcallback' : (timerDelete w.1 e).callback e = e.cback .timerQueue := hcallback
    have harg' : (timerDelete w.1 e).arg e = e.index := harg
    unfold startEvent
    dsimp only
    rw [hcallback', harg']
    cases e <;> rfl
  rw [hstart]
  cases e with
  | wtmeb t =>
    refine ⟨_, q₁, rfl, inv.endWait m rfl (makeNonWait_not_waits _), fun x => ?_⟩
    by_cases hx : x = .wtmeb t
    · subst hx
      exact iff_of_false (m.out _) fun hc => hc.2 rfl
    · rw [m.other _ x hx]
      exact (and_iff_left hx).symm
  | cyctmeb i =>
    obtain ⟨q'', hinv, hq⟩ :=
      inv.distributeCychdr hprid m rfl (fun _ _ => Iff.rfl) hmarked rfl rfl inv.blocks
    exact ⟨_, q'', rfl, hinv, hq⟩
  | almtmeb i =>
    obtain ⟨q'', hinv, hq⟩ :=
      inv.distributeAlmhdr hprid m rfl (fun _ _ => Iff.rfl) hmarked rfl rfl inv.blocks
    exact ⟨_, q'', rfl, hinv, hq⟩

/-- The loop of the timer handler ends, by induction on the events in the queue. -/
theorem HdrInv.expire (hprid : prid < maxProc) :
    ∀ (n : ℕ) {w : HdrState} {q : TimerQue → List Tmeb}, HdrInv maxProc X w q →
      (q .timerQueue).length = n →
      ∃ w' q', Returns (fun fuel => SmpTKernel.expire (startEvent (SmpTKernel.timerCback prid))
        fuel w) w' ∧
        HdrInv maxProc X w' q' := by
  intro n
  induction n using Nat.strong_induction_on with
  | _ n ih =>
    intro w q inv hn
    have hnext : (w.1.que (.que .timerQueue)).next = ((q .timerQueue).map .tmeb).headD
        (.que .timerQueue) :=
      inv.rings.next_head (h := .timerQueue) trivial
    cases hq : q .timerQueue with
    | nil =>
      rw [hq] at hnext
      refine ⟨w, q, ⟨1, fun fuel hf => ?_⟩, inv⟩
      obtain ⟨k, rfl⟩ := Nat.exists_eq_add_of_le' hf
      show SmpTKernel.expire _ (k + 1) w = some w
      rw [SmpTKernel.expire, hnext]
      rfl
    | cons e rest =>
      rw [hq, List.map_cons, List.headD_cons] at hnext
      by_cases hlater : llCmp (w.1.time e) w.1.current_time > 0
      · refine ⟨w, q, ⟨1, fun fuel hf => ?_⟩, inv⟩
        obtain ⟨k, rfl⟩ := Nat.exists_eq_add_of_le' hf
        show SmpTKernel.expire _ (k + 1) w = some w
        rw [SmpTKernel.expire, hnext]
        exact if_pos hlater
      · have he : e ∈ q .timerQueue := by
          rw [hq]
          exact List.mem_cons_self
        obtain ⟨w₁, q₁, hstart, inv₁, hmem⟩ := inv.timerCback hprid he
        have hlt : (q₁ .timerQueue).length < n := by
          have hnodup : (e :: q₁ .timerQueue).Nodup :=
            List.nodup_cons.mpr ⟨fun hc => ((hmem e).mp hc).2 rfl, inv₁.rings.nodup _⟩
          have hsub : e :: q₁ .timerQueue ⊆ q .timerQueue := by
            intro x hx
            rcases List.mem_cons.mp hx with rfl | hx
            · exact he
            · exact ((hmem x).mp hx).1
          have hle := (hnodup.subperm hsub).length_le
          rw [hn] at hle
          exact hle
        obtain ⟨w', q', hret, inv'⟩ := ih _ hlt inv₁ rfl
        refine ⟨w', q', hret.turn fun fuel => ?_, inv'⟩
        rw [SmpTKernel.expire, hnext]
        dsimp only
        rw [if_neg hlater]
        show (startEvent (SmpTKernel.timerCback prid) e (timerDelete w.1 e, w.2)).bind _ = _
        rw [hstart]
        rfl

theorem HdrInv.advance (inv : HdrInv maxProc X w q) (TIMER_PERIOD : ℕ) :
    HdrInv maxProc X ({ w.1 with current_time := llAdd w.1.current_time TIMER_PERIOD }, w.2) q := by
  have hmark (x : Tmeb) : Parked { w.1 with current_time := llAdd w.1.current_time TIMER_PERIOD }
      x ↔ Parked w.1 x := by
    cases x <;> exact Iff.rfl
  refine ⟨inv.rings, fun e => ?_, fun g e he => (inv.called g e he).congr rfl rfl, inv.act,
    inv.told, inv.blocks⟩
  rw [hmark]
  exact inv.on e

theorem HdrInv.hdrTick (inv : HdrInv maxProc (fun _ => False) w q) (hprid : prid < maxProc)
    (hmax : maxProc ≤ 32) (TIMER_PERIOD : ℕ) :
    Settles maxProc (fun fuel => hdrTick TIMER_PERIOD maxProc fuel prid w) := by
  obtain ⟨w₁, q₁, hret, inv₁⟩ := HdrInv.expire hprid _ (inv.advance TIMER_PERIOD) rfl
  obtain ⟨w', hret', hsettled⟩ := inv₁.update hprid hmax
  exact ⟨w', hret.bind hret', hsettled⟩

end SmpTKernel
