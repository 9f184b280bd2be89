import SmpTKernel.TaskStackInv

/-!
# The steps of creating and deleting tasks

Every step keeps `StackInv`, as long as no packet asks for more than can be allocated.
-/

namespace SmpTKernel

open Ownership

variable {cfg : StackCfg} {pk : T_CTSK} {s₀ s s' : StackSys} {g g' : StackHist} {sstack : ℕ}
  {stack : Option ℕ} {stage : CreStage} {areas : List ImallocArea} {k t : ℕ} {c : ℕ × ℕ} {size : ℕ}
  {call : TskCall} {op : ImOp} {a : ImallocArea} {z : ℤ}

/-- No task and no call, and the memories as `init_Imalloc` leaves them. -/
structure StackStart (s : StackSys) : Prop where
  call : ∀ k, s.call k = none
  tcb : ∀ t, s.tcb t = none
  im : ∀ c, ∃ im, s.im c = initIMACB im ∧ QUEUESZ ∣ im.areaque ∧ im.areaque + 2 * QUEUESZ ≤ 2 ^ 32 ∧
    im.pagesz = PAGESZ

theorem StackStart.imInv (start : StackStart s₀) (c : ℕ × ℕ) : ImInv (s₀.im c) [] [] := by
  obtain ⟨im, e, h₁, h₂, h₃⟩ := start.im c
  rw [e]
  exact initIMACB_inv h₁ h₂ (by rw [h₃]; decide) (by rw [h₃]; decide)

theorem StackStart.pagesz (start : StackStart s₀) (c : ℕ × ℕ) : (s₀.im c).pagesz = PAGESZ := by
  obtain ⟨im, e, -, -, h⟩ := start.im c
  rw [e]
  exact h

theorem StackInv.imInv (inv : StackInv cfg s₀ s g) (start : StackStart s₀) (c : ℕ × ℕ) :
    ImInv (s.im c) (outAreas (g.ev c)) (heldBlocks (g.ev c)) := (inv.runs c).inv (start.imInv c)

theorem StackInv.pagesz (inv : StackInv cfg s₀ s g) (start : StackStart s₀) (c : ℕ × ℕ) :
    (s.im c).pagesz = PAGESZ := (inv.runs c).pagesz_eq.trans (start.pagesz c)

theorem owners_call (h : s.call k = some call) : owners s g (.inl k) = call.areas := by
  simp only [owners, h, Option.elim]

theorem owners_idle (h : s.call k = none) : owners s g (.inl k) = [] := by
  simp only [owners, h, Option.elim]

theorem owners_task (h : g.made t = some (pk, areas)) : owners s g (.inr t) = areas := by
  simp only [owners, h, Option.elim]

theorem owners_free (h : g.made t = none) : owners s g (.inr t) = [] := by
  simp only [owners, h, Option.elim]

/-! ## Steps -/

/-- The memory `c` does an operation. -/
def StackHist.append (g : StackHist) (c : ℕ × ℕ) (e : List ImEvent) : StackHist :=
  ⟨Function.update g.ev c (g.ev c ++ e), g.made⟩

theorem StackInv.runs_step (inv : StackInv cfg s₀ s g) (op : ImOp)
    (hop : op.Legal (s.im c) (outAreas (g.ev c)) (heldBlocks (g.ev c))) (d : ℕ × ℕ) :
    ImRun (s₀.im d) (Function.update s.im c (op.run (s.im c)).1 d)
      ((g.append c (op.run (s.im c)).2).ev d) := by
  have hd := inv.runs d
  unfold StackHist.append
  dsimp only
  by_cases h : d = c
  · subst h
    rw [Function.update_self, Function.update_self]
    exact hd.step op hop
  · rw [Function.update_of_ne h, Function.update_of_ne h]
    exact hd

/-- A step that changes at most the call of `k` and the memories. -/
theorem StackInv.rebuild (inv : StackInv cfg s₀ s g) (k : ℕ)
    (hruns : ∀ c, ImRun (s₀.im c) (s'.im c) (g'.ev c)) (hholdings : Holdings (owners s' g') g'.Live)
    (hcall : ∀ j, j ≠ k → s'.call j = s.call j)
    (hk : ∀ pk stage, s'.call k = some (.creTsk pk stage) → PacketOk cfg pk ∧
      StageOk cfg g' pk stage) (htcb : s'.tcb = s.tcb) (hmade : g'.made = g.made)
    (hkept : ∀ o, o ≠ .inl k → ∀ a ∈ owners s g o, ∀ z, g.Got a z → g'.Got a z) :
    StackInv cfg s₀ s' g' := by
  refine ⟨hruns, hholdings, fun j pk stage hj => ?_, fun t pk areas ht => ?_, fun t ht => ?_⟩
  · by_cases h : j = k
    · subst h
      exact hk pk stage hj
    · rw [hcall j h] at hj
      obtain ⟨hp, hst⟩ := inv.call j pk stage hj
      refine ⟨hp, hst.mono fun a ha => hkept (.inl j) (fun e => h (Sum.inl.inj e)) a ?_⟩
      rw [owners_call hj]
      exact ha
  · rw [hmade] at ht
    rw [htcb]
    refine (inv.task t pk areas ht).mono fun a ha => hkept (.inr t) nofun a ?_
    rw [owners_task ht]
    exact ha
  · rw [hmade]
    rw [htcb] at ht
    exact inv.made t ht

/-- The call of `k` gets an answer from `imalloc`, and owns the area it returns. -/
theorem StackInv.answer (inv : StackInv cfg s₀ s g) (start : StackStart s₀) (op : ImOp)
    (next : Option ℕ → Option TskCall)
    (hop : op.Legal (s.im c) (outAreas (g.ev c)) (heldBlocks (g.ev c)))
    (ans : Answers size (op.run (s.im c)).2)
    (hareas : ∀ p, ((next p).elim [] TskCall.areas).Perm (p.toList.map (⟨c, ·⟩) ++
      owners s g (.inl k)))
    (hk : ∀ p, ∀ g' : StackHist, (∀ a z, g.Got a z → g'.Got a z) → (∀ x ∈ p, g'.Got ⟨c, x⟩ size) →
      ∀ pk stage, next p = some (.creTsk pk stage) → PacketOk cfg pk ∧ StageOk cfg g' pk stage) :
    StackInv cfg s₀
      { s.setCall k (next (gotPtr (op.run (s.im c)).2)) with
        im := Function.update s.im c (op.run (s.im c)).1 }
      (g.append c (op.run (s.im c)).2) := by
  have hruns := inv.runs_step op hop
  have himinv :
    ImInv (Function.update s.im c (op.run (s.im c)).1 c) (outAreas (g.ev c ++ (op.run (s.im c)).2))
      (heldBlocks (g.ev c ++ (op.run (s.im c)).2)) := by
    have hc := (hruns c).inv (start.imInv c)
    have e : (g.append c (op.run (s.im c)).2).ev c = g.ev c ++ (op.run (s.im c)).2 :=
      Function.update_self ..
    rw [e] at hc
    exact hc
  obtain ⟨hkept, hgot⟩ := answered (m := g.made) (n := g.made) ans himinv
  set g' := g.append c (op.run (s.im c)).2 with hg'
  have hareas := hareas (gotPtr (op.run (s.im c)).2)
  have hk := hk (gotPtr (op.run (s.im c)).2)
  set call' := next (gotPtr (op.run (s.im c)).2)
  set s' : StackSys :=
    { s.setCall k call' with im := Function.update s.im c (op.run (s.im c)).1 } with hs'
  have hkept : ∀ a z, g.Got a z → g'.Got a z := hkept
  have hgot : ∀ p ∈ gotPtr (op.run (s.im c)).2, g'.Got ⟨c, p⟩ size ∧ ¬g.Live ⟨c, p⟩ := hgot
  have hself : s'.call k = call' := Function.update_self ..
  have hother (j : ℕ) (hj : j ≠ k) : s'.call j = s.call j := Function.update_of_ne hj _ _
  have hlive (b : ImallocArea) : g.Live b → g'.Live b := fun ⟨z, hz⟩ => ⟨z, hkept b z hz⟩
  have hown (o : ℕ ⊕ ℕ) (ho : o ≠ .inl k) : owners s' g' o = owners s g o := by
    cases o with
    | inl j => simp only [owners, hother j fun e => ho (congrArg Sum.inl e)]
    | inr t => rfl
  have hk' : owners s' g' (.inl k) = call'.elim [] TskCall.areas := by simp only [owners, hself]
  refine inv.rebuild k hruns ?_ hother (fun pk stage hc => ?_) rfl rfl fun o _ a _ z => hkept a z
  · rcases hp : gotPtr (op.run (s.im c)).2 with _ | p
    · rw [hp] at hareas
      refine inv.holdings.mono (fun o => ?_) fun o a _ => hlive a
      by_cases ho : o = .inl k
      · subst ho
        rw [hk']
        exact hareas
      · rw [hown o ho]
    · rw [hp] at hareas
      obtain ⟨hg, hnew⟩ := hgot p hp
      refine inv.holdings.acquire (o := .inl k) hnew ⟨size, hg⟩ hlive ?_ hown
      rw [hk']
      exact hareas
  · rw [hself] at hc
    exact hk g' hkept (fun p hp => (hgot p hp).1) pk stage hc

/-! ### Calls -/

theorem StackInv.sizeOk_sys (inv : StackInv cfg s₀ s g) (start : StackStart s₀)
    (hp : PacketOk cfg pk) (c : ℕ × ℕ) :
    SizeOk (s.im c).pagesz (sstkszOf cfg pk).toNat := by
  rw [inv.pagesz start c]
  exact (hp.roomy.sstksz hp.accepted).2

theorem StackInv.sizeOk_user (inv : StackInv cfg s₀ s g) (start : StackStart s₀)
    (hp : PacketOk cfg pk) (c : ℕ × ℕ) :
    SizeOk (s.im c).pagesz (stkszOf pk).toNat := by
  rw [inv.pagesz start c]
  exact (hp.roomy.stksz hp.accepted).2

theorem afterSstack_ok (hg : g.Got ⟨SelIMACB TA_RNG0, sstack⟩ (sstkszOf cfg pk).toNat) :
    StageOk cfg g pk (afterSstack pk sstack) := by
  unfold afterSstack
  split_ifs with hpos
  · exact ⟨hg, hpos⟩
  · exact ⟨hg, nofun, iff_of_false (by simp) hpos⟩

theorem afterSstack_areas :
    (TskCall.creTsk pk (afterSstack pk sstack)).areas = [⟨SelIMACB TA_RNG0, sstack⟩] := by
  unfold afterSstack
  split_ifs <;> rfl

theorem enter_ok {p : ℕ} (hg : g.Got ⟨SelIMACB TA_RNG0, sstack⟩ (sstkszOf cfg pk).toNat)
    (hpos : 0 < (stkszOf pk).toInt) (hp : g.Got ⟨SelIMACB pk.tskatr, p⟩ (stkszOf pk).toNat) :
    StageOk cfg g pk (.enter sstack (some p)) := by
  refine ⟨hg, fun q hq => ?_, iff_of_true rfl hpos⟩
  cases hq
  exact hp

theorem append_nil (g : StackHist) (c : ℕ × ℕ) : g.append c [] = g := by
  unfold StackHist.append
  rw [List.append_nil, Function.update_eq_self]

theorem StackInv.malloc (inv : StackInv cfg s₀ s g) (start : StackStart s₀) (k : ℕ) :
    StackInv cfg s₀ (s.malloc cfg k).sys (g.append (s.malloc cfg k).imacb (s.malloc cfg k).ev) := by
  have hstill : StackInv cfg s₀ s (g.append (0, 0) []) := by
    rw [append_nil]
    exact inv
  unfold StackSys.malloc
  rcases hc : s.call k with _ | ⟨pk, stage⟩ | ⟨areas, ret⟩
  · exact hstill
  · obtain ⟨hp, hst⟩ := inv.call k pk _ hc
    cases stage with
    | sstack =>
      refine inv.answer start (.malloc (sstkszOf cfg pk).toNat)
        (fun p => some (.creTsk pk (p.elim .sstackPages (afterSstack pk))))
        (inv.sizeOk_sys start hp _)
        (answers_imalloc _ _) (fun p => ?_) fun p g' _ hgot pk' stage' e => ?_
      · rw [owners_call hc]
        cases p with
        | none => exact List.Perm.refl _
        | some p => exact List.Perm.of_eq afterSstack_areas
      · cases e
        refine ⟨hp, ?_⟩
        cases p with
        | none => trivial
        | some p => exact afterSstack_ok (hgot p rfl)
    | stack sstack =>
      refine inv.answer start (.malloc (stkszOf pk).toNat)
        (fun p => some (.creTsk pk (p.elim (.stackPages sstack) fun stack =>
          .enter sstack (some stack))))
        (inv.sizeOk_user start hp _) (answers_imalloc _ _) (fun p => ?_)
        fun p g' hkept hgot pk' stage' e => ?_
      · rw [owners_call hc]
        cases p with
        | none => exact List.Perm.refl _
        | some p => exact List.Perm.swap _ _ _
      · cases e
        refine ⟨hp, ?_⟩
        cases p with
        | none => exact ⟨hkept _ _ hst.1, hst.2⟩
        | some p => exact enter_ok (hkept _ _ hst.1) hst.2 (hgot p rfl)
    | sstackPages | stackPages | enter => exact hstill
  · exact hstill

theorem StackInv.pages (inv : StackInv cfg s₀ s g) (start : StackStart s₀) {q : Option ℕ}
    (hop : (StackOp.pages k q).Legal cfg (fun _ => True) s g) :
    StackInv cfg s₀ (s.pages cfg k q).sys (g.append (s.pages cfg k q).imacb
      (s.pages cfg k q).ev) := by
  have hstill : StackInv cfg s₀ s (g.append (0, 0) []) := by
    rw [append_nil]
    exact inv
  unfold StackSys.pages
  rcases hc : s.call k with _ | ⟨pk, stage⟩ | ⟨areas, ret⟩
  · exact hstill
  · obtain ⟨hp, hst⟩ := inv.call k pk _ hc
    cases stage with
    | sstackPages =>
      refine inv.answer start (.pages ⟨(sstkszOf cfg pk).toNat, false⟩ q)
        (fun p => p.map fun sstack => .creTsk pk (afterSstack pk sstack))
        ⟨(hop _ hc _ rfl).1, fun z hz => ((hop _ hc _ rfl).2 z hz).1⟩
        (answers_pages _ _ _) (fun p => ?_) fun p g' _ hgot pk' stage' e => ?_
      · rw [owners_call hc]
        cases p with
        | none => exact List.Perm.refl _
        | some p => exact List.Perm.of_eq afterSstack_areas
      · cases p with
        | none => cases e
        | some p =>
          cases e
          exact ⟨hp, afterSstack_ok (hgot p rfl)⟩
    | stackPages sstack =>
      refine inv.answer start (.pages ⟨(stkszOf pk).toNat, false⟩ q)
        (fun p => some (p.elim (.frees [⟨SelIMACB TA_RNG0, sstack⟩] (some E_NOMEM)) fun stack =>
          .creTsk pk (.enter sstack (some stack)))) ⟨(hop _ hc _ rfl).1, fun z hz =>
            ((hop _ hc _ rfl).2 z hz).1⟩
        (answers_pages _ _ _) (fun p => ?_) fun p g' hkept hgot pk' stage' e => ?_
      · rw [owners_call hc]
        cases p with
        | none => exact List.Perm.refl _
        | some p => exact List.Perm.swap _ _ _
      · cases p with
        | none => cases e
        | some p =>
          cases e
          exact ⟨hp, enter_ok (hkept _ _ hst.1) hst.2 (hgot p rfl)⟩
    | sstack | stack | enter => exact hstill
  · exact hstill

theorem StackInv.proceed (inv : StackInv cfg s₀ s g) {call' : Option TskCall}
    (hareas : call'.elim [] TskCall.areas = owners s g (.inl k))
    (hk : ∀ pk stage, call' = some (.creTsk pk stage) → PacketOk cfg pk ∧ StageOk cfg g pk stage) :
    StackInv cfg s₀ (s.setCall k call') g := by
  have hself : (s.setCall k call').call k = call' := Function.update_self ..
  have hother (j : ℕ) (hj : j ≠ k) : (s.setCall k call').call j = s.call j :=
    Function.update_of_ne hj _ _
  refine inv.rebuild k inv.runs (inv.holdings.mono (fun o => ?_) fun _ _ _ h => h) hother
    (fun pk stage hc => ?_) rfl rfl
    fun _ _ _ _ _ h => h
  · refine List.Perm.of_eq ?_
    rcases o with j | t
    · by_cases hj : j = k
      · subst hj
        rw [← hareas]
        simp only [owners, hself]
      · simp only [owners, hother j hj]
    · rfl
  · rw [hself] at hc
    exact hk pk stage hc

theorem StackInv.creTsk (inv : StackInv cfg s₀ s g) (hidle : s.call k = none)
    (hroomy : creTskCheck cfg pk = E_OK → StackRoomy cfg pk) :
    StackInv cfg s₀ (s.creTsk cfg pk k).sys g := by
  unfold StackSys.creTsk
  split_ifs with hacc
  · exact inv
  · have hacc : creTskCheck cfg pk = E_OK := not_not.mp hacc
    refine inv.proceed (by rw [owners_idle hidle]; rfl) fun pk' stage e => ?_
    cases e
    exact ⟨⟨hacc, hroomy hacc⟩, trivial⟩

/-- A task is created and owns the areas of the call. -/
theorem StackInv.created (inv : StackInv cfg s₀ s g) (start : StackStart s₀) {sstack : ℕ}
    {stack : Option ℕ} (hc : s.call k = some (.creTsk pk (.enter sstack stack)))
    (hnone : s.tcb t = none) :
    StackInv cfg s₀ { s.setCall k none with
      tcb := Function.update s.tcb t (some (newStackTcb cfg pk sstack stack)) }
      ⟨g.ev, Function.update g.made t (some (pk, allocated pk sstack stack))⟩ := by
  obtain ⟨hp, hst⟩ := inv.call k pk _ hc
  have hst : AllocatedFor cfg g pk sstack stack := hst
  have hown : owners s g (.inl k) = allocated pk sstack stack := owners_call hc
  have hmade : g.made t = none := by
    rcases hm : g.made t with _ | ⟨pk', areas⟩
    · rfl
    · obtain ⟨c, hc, -⟩ := (inv.task t pk' areas hm).freed
      rw [hnone] at hc
      cases hc
  have hlt (a : ImallocArea) (ha : a ∈ allocated pk sstack stack) : a.ptr < 2 ^ 32 := by
    obtain ⟨z, hz⟩ := inv.holdings.live (.inl k) a (hown ▸ ha)
    exact (inv.imInv start a.imacb).ptr_lt (List.mem_map.mpr ⟨_, hz, rfl⟩)
  refine ⟨inv.runs, ?_, fun j pk' stage hj => ?_, fun u pk' areas hu => ?_, fun u hu => ?_⟩
  · refine inv.holdings.transfer (o := .inl k) (p := .inr t) nofun (owners_free hmade) ?_ ?_
      fun q hk ht => ?_
    · exact owners_idle (Function.update_self ..)
    · rw [hown]
      exact owners_task (Function.update_self ..)
    · rcases q with j | u
      · have hj : Function.update s.call k none j = s.call j :=
          Function.update_of_ne (fun e => hk (congrArg _ e)) _ _
        simp only [owners, StackSys.setCall, hj]
      · have hu : Function.update g.made t (some (pk, allocated pk sstack stack)) u = g.made u :=
          Function.update_of_ne (fun e => ht (congrArg Sum.inr e)) _ _
        simp only [owners, hu]
  · have hne : j ≠ k := by
      rintro rfl
      have hj : Function.update s.call j none j = some (.creTsk pk' stage) := hj
      rw [Function.update_self] at hj
      cases hj
    have hj : s.call j = some (.creTsk pk' stage) := (Function.update_of_ne hne _ _).symm.trans hj
    obtain ⟨hp', hst'⟩ := inv.call j pk' stage hj
    exact ⟨hp', hst'.mono fun _ _ _ h => h⟩
  · by_cases h : u = t
    · subst h
      have hu : Function.update g.made u (some (pk, allocated pk sstack stack)) u =
        some (pk', areas) := hu
      rw [Function.update_self] at hu
      cases hu
      refine ⟨hp, ⟨sstack, stack, rfl, hst.mono fun _ _ _ h => h⟩, newStackTcb cfg pk sstack stack,
        ?_, hst.delAreas_eq hlt⟩
      exact Function.update_self ..
    · have hu : g.made u = some (pk', areas) := (Function.update_of_ne h _ _).symm.trans hu
      have htcb : Function.update s.tcb t (some (newStackTcb cfg pk sstack stack)) u = s.tcb u :=
        Function.update_of_ne h _ _
      dsimp only
      rw [htcb]
      exact (inv.task u pk' areas hu).mono fun _ _ _ h => h
  · by_cases h : u = t
    · subst h
      show Function.update g.made u _ u ≠ none
      rw [Function.update_self]
      exact Option.some_ne_none _
    · show Function.update g.made t _ u ≠ none
      rw [Function.update_of_ne h]
      refine inv.made u ?_
      have hu : Function.update s.tcb t (some (newStackTcb cfg pk sstack stack)) u ≠ none := hu
      rw [Function.update_of_ne h] at hu
      exact hu

theorem StackInv.enter (inv : StackInv cfg s₀ s g) (start : StackStart s₀) {ercd : ER}
    (hfree : E_OK ≤ ercd → s.tcb t = none) :
    StackInv cfg s₀ (s.enter cfg k t ercd).sys ⟨g.ev, madeBy g.made t ercd (s.call k)⟩ := by
  unfold StackSys.enter
  rcases hc : s.call k with _ | ⟨pk, stage⟩ | ⟨areas, ret⟩
  · exact inv
  · cases stage with
    | enter sstack stack =>
      have hst : AllocatedFor cfg g pk sstack stack := (inv.call k pk _ hc).2
      unfold madeBy
      by_cases herr : ercd < E_OK
      · -- the areas are to be freed
        simp only [if_pos herr]
        refine inv.proceed ?_ fun pk' stage e => ?_
        · rw [owners_call hc]
          exact hst.errorAreas_eq
        · cases e
      · simp only [if_neg herr]
        exact inv.created start hc (hfree (not_lt.mp herr))
    | sstack | sstackPages | stack | stackPages => exact inv
  · exact inv

/-- A task is deleted: the call owns its areas, and they are what it frees. -/
theorem StackInv.delTsk (inv : StackInv cfg s₀ s g) (hidle : s.call k = none) :
    StackInv cfg s₀ (s.delTsk cfg k t).sys ⟨g.ev, Function.update g.made t none⟩ := by
  unfold StackSys.delTsk
  rcases htcb : s.tcb t with _ | tcb
  · have hmade : g.made t = none := by
      rcases hm : g.made t with _ | ⟨pk', areas⟩
      · rfl
      · obtain ⟨c, hc, -⟩ := (inv.task t pk' areas hm).freed
        rw [htcb] at hc
        cases hc
    rw [← hmade, Function.update_eq_self]
    exact inv
  · rcases hm : g.made t with _ | ⟨pk, areas⟩
    · exact absurd hm (inv.made t (by rw [htcb]; exact Option.some_ne_none _))
    · have htask := inv.task t pk areas hm
      obtain ⟨c, hc, hdel⟩ := htask.freed
      have hc : tcb = c := Option.some.inj (htcb.symm.trans hc)
      subst hc
      have hcall (j : ℕ) (hj : j ≠ k) :
          Function.update s.call k (some (.frees (delAreas cfg tcb) none)) j = s.call j :=
        Function.update_of_ne hj _ _
      have hrest (u : ℕ) (hu : u ≠ t) : Function.update g.made t none u = g.made u :=
        Function.update_of_ne hu _ _
      refine ⟨inv.runs, ?_, fun j pk' stage hj => ?_, fun u pk' areas' hu => ?_, fun u hu => ?_⟩
      · refine inv.holdings.transfer (o := .inr t) (p := .inl k) nofun (owners_idle hidle) ?_ ?_
          fun q ht hk => ?_
        · exact owners_free (Function.update_self ..)
        · rw [owners_task hm, ← hdel]
          simp only [owners, StackSys.noHeap, StackSys.setCall, Function.update_self]
          rfl
        · rcases q with j | u
          · have hj := hcall j fun e => hk (congrArg _ e)
            simp only [owners, StackSys.noHeap, StackSys.setCall, hj]
          · have hu := hrest u fun e => ht (congrArg _ e)
            simp only [owners, hu]
      · have hj : Function.update s.call k (some (.frees (delAreas cfg tcb) none)) j =
          some (.creTsk pk' stage) := hj
        have hne : j ≠ k := by
          rintro rfl
          rw [Function.update_self] at hj
          cases hj
        rw [hcall j hne] at hj
        obtain ⟨hp', hst'⟩ := inv.call j pk' stage hj
        exact ⟨hp', hst'.mono fun _ _ _ h => h⟩
      · have hu : Function.update g.made t none u = some (pk', areas') := hu
        have hne : u ≠ t := by
          rintro rfl
          rw [Function.update_self] at hu
          cases hu
        rw [hrest u hne] at hu
        show TaskOk cfg _ (Function.update s.tcb t none u) pk' areas'
        rw [Function.update_of_ne hne]
        exact (inv.task u pk' areas' hu).mono fun _ _ _ h => h
      · have hu : Function.update s.tcb t none u ≠ none := hu
        have hne : u ≠ t := by
          rintro rfl
          rw [Function.update_self] at hu
          exact hu rfl
        rw [Function.update_of_ne hne] at hu
        show Function.update g.made t none u ≠ none
        rw [hrest u hne]
        exact inv.made u hu

theorem ifree_track (im : Imacb) (ptr : ℕ) (di : Bool) (out : List (ℕ × ℤ)) :
    (ifree im ptr di).2.foldl ImEvent.track out = out.filter fun o => o.1 ≠ ptr := by
  unfold ifree
  dsimp only
  split_ifs <;> rfl

theorem got_free {a b : ImallocArea} {di : Bool} {im : Imacb}
    {m m' : ℕ → Option (T_CTSK × List ImallocArea)} {ev : ℕ × ℕ → List ImEvent} (hne : b ≠ a)
    (hb : (⟨ev, m⟩ : StackHist).Got b z) :
    (⟨Function.update ev a.imacb (ev a.imacb ++ (ifree im a.ptr di).2), m'⟩ : StackHist).Got b
    z := by
  by_cases hc : b.imacb = a.imacb
  · have hptr : b.ptr ≠ a.ptr := fun e => hne (by
      cases a
      cases b
      cases hc
      cases e
      rfl)
    show (b.ptr, z) ∈ outAreas (Function.update ev a.imacb (ev a.imacb ++ (ifree im a.ptr di).2)
      b.imacb)
    rw [hc, Function.update_self, outAreas_append, ifree_track]
    refine List.mem_filter.mpr ⟨?_, decide_eq_true hptr⟩
    rw [← hc]
    exact hb
  · exact (got_update_of_ne hc).mpr hb

theorem StackInv.free (inv : StackInv cfg s₀ s g) (k : ℕ) (di : Bool) :
    StackInv cfg s₀ (s.free k di).sys (g.append (s.free k di).imacb (s.free k di).ev) := by
  have hstill : StackInv cfg s₀ s (g.append (0, 0) []) := by
    rw [append_nil]
    exact inv
  unfold StackSys.free
  rcases hc : s.call k with _ | ⟨pk, stage⟩ | ⟨_ | ⟨a, areas⟩, ret⟩
  · exact hstill
  · exact hstill
  · exact hstill
  · have hown : owners s g (.inl k) = a :: areas := owners_call hc
    obtain ⟨z, hz⟩ := inv.holdings.live (.inl k) a (by rw [hown]; exact List.mem_cons_self)
    have hptr : a.ptr ∈ (outAreas (g.ev a.imacb)).map Prod.fst := List.mem_map.mpr ⟨_, hz, rfl⟩
    have hruns := inv.runs_step (.free a.ptr di) hptr
    have hfree (call' : Option TskCall) (hareas : call'.elim [] TskCall.areas = areas)
        (hno : ∀ pk stage, call' ≠ some (.creTsk pk stage)) :
        StackInv cfg s₀ { s.setCall k call' with
          im := Function.update s.im a.imacb (ifree (s.im a.imacb) a.ptr di).1 }
          (g.append a.imacb (ifree (s.im a.imacb) a.ptr di).2) := by
      have hother (j : ℕ) (hj : j ≠ k) : Function.update s.call k call' j = s.call j :=
        Function.update_of_ne hj _ _
      have hself : Function.update s.call k call' k = call' := Function.update_self ..
      refine inv.rebuild k hruns ?_ hother (fun pk stage e => ?_) rfl rfl fun o ho b hb z hz => ?_
      · refine inv.holdings.giveUp (o := .inl k) (a := a) ?_ (fun o ho => ?_) fun b hb ⟨z, hz⟩ =>
          ⟨z, got_free hb hz⟩
        · rw [hown]
          simp only [owners, StackSys.setCall, hself, hareas]
        · rcases o with j | t
          · have hj := hother j fun e => ho (congrArg _ e)
            simp only [owners, StackSys.setCall, hj]
          · rfl
      · have e : Function.update s.call k call' k = some (.creTsk pk stage) := e
        rw [hself] at e
        exact absurd e (hno pk stage)
      · refine got_free (fun e => ho ?_) hz
        exact inv.holdings.unique o (.inl k) b hb (by rw [hown, e]; exact List.mem_cons_self)
    dsimp only
    split_ifs with hnil
    · exact hfree none (by rw [hnil]; rfl) nofun
    · exact hfree (some (.frees areas ret)) rfl fun pk stage e => by cases e

/-- What others do with a memory. -/
theorem StackInv.im (inv : StackInv cfg s₀ s g) (start : StackStart s₀)
    (hop : (StackOp.im c op).Legal cfg (fun _ => True) s g) :
    StackInv cfg s₀ { s with im := Function.update s.im c (op.run (s.im c)).1 }
      (g.append c (op.run (s.im c)).2) := by
  obtain ⟨hop, hothers, -⟩ := hop
  have hruns := inv.runs_step op hop
  have hkept (o : ℕ ⊕ ℕ) (a : ImallocArea) (ha : a ∈ owners s g o) (z : ℤ) (hz : g.Got a z) :
      (g.append c (op.run (s.im c)).2).Got a z := by
    have hans (size : ℕ) (ans : Answers size (op.run (s.im c)).2) :
        (g.append c (op.run (s.im c)).2).Got a z := by
      have hc := (hruns c).inv (start.imInv c)
      have e : (g.append c (op.run (s.im c)).2).ev c = g.ev c ++ (op.run (s.im c)).2 :=
        Function.update_self ..
      rw [e] at hc
      exact (answered (m := g.made) (n := g.made) ans hc).1 a z hz
    cases op with
    | malloc size => exact hans _ (answers_imalloc _ ⟨size, false⟩)
    | calloc nmemb size => exact hans _ (answers_imalloc _ ⟨nmemb * size % 2 ^ 32, true⟩)
    | pages call q => exact hans _ (answers_pages _ call q)
    | free ptr di => exact got_free (a := ⟨c, ptr⟩) (fun e => hothers ptr di rfl o (e ▸ ha)) hz
    | write mem => exact hans 0 (Or.inl ⟨rfl, fun _ => rfl⟩)
  refine inv.rebuild 0 hruns (inv.holdings.mono (fun _ => List.Perm.refl _) fun o a ha ⟨z, hz⟩ =>
    ⟨z, hkept o a ha z hz⟩)
    (fun _ _ => rfl) (fun pk stage hc => ?_) rfl rfl fun o _ => hkept o
  have hc : s.call 0 = some (.creTsk pk stage) := hc
  obtain ⟨hp, hst⟩ := inv.call 0 pk stage hc
  refine ⟨hp, hst.mono fun a ha => hkept (.inl 0) a ?_⟩
  rw [owners_call hc]
  exact ha

end SmpTKernel
