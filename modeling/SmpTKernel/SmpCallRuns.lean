import Mathlib.Algebra.Order.BigOperators.Group.Finset
import SmpTKernel.SmpCallInv

/-!
# The calls between processors come to an end

The loops of `smpc_req` wait for the handlers of the other processors. What is left to do for a
request is counted, and every step of the processor or of a handler does some of it.
-/

namespace SmpTKernel

variable {F V : Type}

/-! ## The lock -/

namespace SmpcPc

/-- Between `smpc_lock` and `smpc_unlock`. -/
def Inside : SmpcPc F V → Prop
  | out | locking => False
  | _ => True

/-- In `smpc_req`. -/
def Asks : SmpcPc F V → Prop
  | prev _ | status _ _ | func _ _ | param _ _ | ipi _ _ | self _ _ | wait _ _ => True
  | _ => False

/-- The steps to the end of `smpc_req`. -/
def rank : SmpcPc F V → ℕ
  | prev _ => 7
  | status _ _ => 6
  | func _ _ => 5
  | param _ _ => 4
  | ipi _ _ => 3
  | self _ _ => 2
  | wait _ _ => 1
  | _ => 0

theorem Asks.inside {pc : SmpcPc F V} (h : pc.Asks) : pc.Inside := by
  cases pc <;> first | exact h | trivial

theorem rank_le (pc : SmpcPc F V) : pc.rank ≤ 7 := by
  cases pc <;> simp [rank]

end SmpcPc

/-- One processor is between `smpc_lock` and `smpc_unlock`, and its interrupts are disabled. -/
structure SmpcLocked (s : SmpCall F V) : Prop where
  inside : ∀ p, (s.main p).Inside → s.lock = true ∧ s.enabled p = false ∧ s.handler p = none
  one : ∀ p q, (s.main p).Inside → (s.main q).Inside → p = q

section Lock

open SmpCall

variable {s s' : SmpCall F V} {x : Prid}

theorem SmpcLocked.stay (h : SmpcLocked s) (hm : ∀ p, (s'.main p).Inside → (s.main p).Inside)
    (hl : s'.lock = s.lock) (he : ∀ p, (s.main p).Inside → s'.enabled p = s.enabled p)
    (hh : ∀ p, (s.main p).Inside → s'.handler p = s.handler p) : SmpcLocked s' := by
  refine ⟨fun p hp => ?_, fun p q hp hq => h.one p q (hm p hp) (hm q hq)⟩
  obtain ⟨hlock, hen, hhdr⟩ := h.inside p (hm p hp)
  exact ⟨hl.trans hlock, (he p (hm p hp)).trans hen, (hh p (hm p hp)).trans hhdr⟩

theorem SmpcLocked.goes (h : SmpcLocked s) {pc : SmpcPc F V}
    (hm : s'.main = Function.update s.main x pc) (hin : pc.Inside → (s.main x).Inside)
    (hl : s'.lock = s.lock) (he : s'.enabled = s.enabled) (hh : s'.handler = s.handler) :
    SmpcLocked s' := by
  refine h.stay (fun p hp => ?_) hl (fun p _ => congrFun he p) fun p _ => congrFun hh p
  by_cases hpx : p = x
  · subst hpx
    rw [hm, Function.update_self] at hp
    exact hin hp
  · rwa [hm, Function.update_of_ne hpx] at hp

theorem SmpcLocked.beside (h : SmpcLocked s) (hout : ¬(s.main x).Inside) (hm : s'.main = s.main)
    (hl : s'.lock = s.lock) (he : ∀ p ≠ x, s'.enabled p = s.enabled p)
    (hh : ∀ p ≠ x, s'.handler p = s.handler p) :
    SmpcLocked s' := by
  have hne {p : Prid} (hp : (s.main p).Inside) : p ≠ x := fun hpx => hout (hpx ▸ hp)
  exact h.stay (fun p hp => hm ▸ hp) hl (fun p hp => he p (hne hp)) fun p hp => hh p (hne hp)

theorem SmpcLocked.step (h : SmpcLocked s) (step : SmpcStep s s') : SmpcLocked s' := by
  have hhandled {p : Prid} {o : Prid × SmpcHdr F} (hh : s.handler p = some o) :
      ¬(s.main p).Inside := fun hp =>
    absurd (hh.symm.trans (h.inside p hp).2.2) (Option.some_ne_none o)
  cases step with
  | own p b _ hm =>
    exact h.beside (x := p) (hm ▸ id) rfl rfl (fun q hq => Function.update_of_ne hq ..) fun _ _ =>
      rfl
  | regist p _ hm => exact h.stay (fun _ => id) rfl (fun _ _ => rfl) fun _ _ => rfl
  | lock p _ hm => exact h.goes rfl (fun hf => absurd hf id) rfl rfl rfl
  | locked p hh hm hfree =>
    have hout (q : Prid) : ¬(s.main q).Inside := fun hq =>
      absurd ((h.inside q hq).1.symm.trans hfree) Bool.noConfusion
    have honly {q : Prid} (hq : (Function.update s.main p SmpcPc.held q).Inside) : q = p := by
      by_contra hqp
      rw [Function.update_of_ne hqp] at hq
      exact hout q hq
    refine ⟨fun q hq => ?_, fun q r hq hr => (honly hq).trans (honly hr).symm⟩
    obtain rfl := honly hq
    exact ⟨rfl, Function.update_self .., hh⟩
  | unlock p hh hm =>
    have hout {q : Prid} (hq : (Function.update s.main p SmpcPc.out q).Inside) : False := by
      by_cases hqp : q = p
      · rw [hqp, Function.update_self] at hq
        exact hq
      · rw [Function.update_of_ne hqp] at hq
        exact hqp (h.one q p hq (hm ▸ trivial))
    exact ⟨fun q hq => (hout hq).elim, fun q r hq => (hout hq).elim⟩
  | wai p _ hm | req p _ _ hm => exact h.goes rfl (fun _ => hm ▸ trivial) rfl rfl rfl
  | waited p _ hm | returns p _ _ _ hm | prev p _ _ hm =>
    exact h.goes rfl (fun _ => hm ▸ trivial) rfl rfl rfl
  | status p _ _ _ hm | func p _ _ _ hm => exact h.goes rfl (fun _ => hm ▸ trivial) rfl rfl rfl
  | param p _ _ _ hm | ipi p _ _ _ hm => exact h.goes rfl (fun _ => hm ▸ trivial) rfl rfl rfl
  | self p r res _ hm =>
    by_cases hself : r.self = true
    · rw [if_pos hself]
      exact h.goes rfl (fun _ => hm ▸ trivial) rfl rfl rfl
    · rw [if_neg hself]
      exact h.goes rfl (fun _ => hm ▸ trivial) rfl rfl rfl
  | interrupt p source hh hen =>
    have hout : ¬(s.main p).Inside :=
      fun hp => absurd (hen.symm.trans (h.inside p hp).2.1) Bool.noConfusion
    exact h.beside hout rfl rfl (fun q hq => Function.update_of_ne hq ..) fun q hq =>
      Function.update_of_ne hq ..
  | clrAcp p source hh =>
    exact h.beside (hhandled hh) rfl rfl (fun _ _ => rfl) fun q hq => Function.update_of_ne hq ..
  | loadFunc p source _ hh =>
    exact h.beside (hhandled hh) rfl rfl (fun _ _ => rfl) fun q hq => Function.update_of_ne hq ..
  | execute p source _ _ hh =>
    exact h.beside (hhandled hh) rfl rfl (fun _ _ => rfl) fun q hq => Function.update_of_ne hq ..
  | clrExe p source hh =>
    exact h.beside (hhandled hh) rfl rfl (fun q hq => Function.update_of_ne hq ..) fun q hq =>
      Function.update_of_ne hq ..

theorem SmpcLocked.run (h : SmpcLocked s) (run : Relation.ReflTransGen SmpcStep s s') :
    SmpcLocked s' := by
  induction run with
  | refl => exact h
  | tail _ hstep ih => exact ih.step hstep

theorem smpcLocked_start : SmpcLocked (SmpCall.start : SmpCall F V) :=
  ⟨fun _ hp => absurd hp id, fun _ _ hp => absurd hp id⟩

end Lock

/-! ## What is left to do -/

/-- The steps to the end of `do_request`. -/
def SmpcHdr.rank : SmpcHdr F → ℕ
  | acp => 4
  | func => 3
  | param _ => 2
  | exe => 1

theorem SmpcHdr.rank_le (h : SmpcHdr F) : h.rank ≤ 4 := by
  cases h <;> simp [rank]

namespace SmpCall

/-- The steps of the handler of `q` for what it has to do now. -/
def load (s : SmpCall F V) (q : Prid) : ℕ :=
  ∑ r, (if s.pending q r then 5 else 0) + ((s.handler q).map fun h => h.2.rank).getD 0

/-- The steps until `p` returns from `smpc_req`, at most. -/
def work (s : SmpCall F V) (p : Prid) : ℕ := 21 * (s.main p).rank + ∑ q, s.load q

variable {s s' : SmpCall F V} {p x : Prid}

theorem load_congr {q : Prid} (hp : s'.pending q = s.pending q) (hh : s'.handler q = s.handler q) :
    s'.load q = s.load q := by
  rw [load, load, hp, hh]

theorem work_congr (hm : s'.main p = s.main p) (hp : s'.pending = s.pending)
    (hh : s'.handler = s.handler) :
    s'.work p = s.work p := by
  rw [work, work, hm]
  congr 1
  exact Finset.sum_congr rfl fun q _ => load_congr (congrFun hp q) (congrFun hh q)

theorem work_handled (hm : s'.main = s.main) (hp : ∀ q ≠ x, s'.pending q = s.pending q)
    (hh : ∀ q ≠ x, s'.handler q = s.handler q) (hx : s'.load x < s.load x) :
    s'.work p < s.work p := by
  rw [work, work, hm]
  refine Nat.add_lt_add_left (Finset.sum_lt_sum (fun q _ => ?_) ⟨x, Finset.mem_univ x, hx⟩) _
  by_cases hq : q = x
  · rw [hq]
    exact hx.le
  · exact (load_congr (hp q hq) (hh q hq)).le

theorem work_goes {pc : SmpcPc F V} (hm : s'.main p = pc) (hrank : pc.rank < (s.main p).rank)
    (hp : s'.pending = s.pending) (hh : s'.handler = s.handler) : s'.work p < s.work p := by
  have hload : ∑ q, s'.load q = ∑ q, s.load q :=
    Finset.sum_congr rfl fun q _ => load_congr (congrFun hp q) (congrFun hh q)
  rw [work, work, hm, hload]
  omega

theorem load_setIpi (b : UW) (q : Prid) : (s.setIpi x b).load q ≤ s.load q + 5 := by
  rw [load, load, ← Finset.add_sum_erase _ _ (Finset.mem_univ x),
    ← Finset.add_sum_erase _ (fun r => if s.pending q r then 5 else 0) (Finset.mem_univ x)]
  have hrest : ∑ r ∈ Finset.univ.erase x, (if (s.setIpi x b).pending q r then 5 else 0) =
      ∑ r ∈ Finset.univ.erase x, if s.pending q r then 5 else 0 :=
    Finset.sum_congr rfl fun r hr => by simp [setIpi, Finset.ne_of_mem_erase hr]
  rw [hrest]
  have hself : (if (s.setIpi x b).pending q x then 5 else 0) ≤ 5 := by
    split_ifs <;> omega
  change _ + ((s.handler q).map fun h => h.2.rank).getD 0 ≤ _
  omega

theorem work_ipi (b : UW) {pc : SmpcPc F V} (hrank : pc.rank < (s.main p).rank) :
    ((s.setIpi p b).go p pc).work p < s.work p := by
  have hself : ((s.setIpi p b).go p pc).main p = pc := by simp [go]
  have hload : ∑ q, ((s.setIpi p b).go p pc).load q ≤ ∑ q, s.load q + 20 := by
    calc ∑ q, ((s.setIpi p b).go p pc).load q ≤ ∑ q, (s.load q + 5) :=
      Finset.sum_le_sum fun q _ => load_setIpi b q
      _ = ∑ q, s.load q + 20 := by rw [Finset.sum_add_distrib]; rfl
  rw [work, work, hself]
  omega

theorem load_handler {q source : Prid} {pc : SmpcHdr F} (hh : s.handler q = some (source, pc)) :
    s.load q = ∑ r, (if s.pending q r then 5 else 0) + pc.rank := by
  rw [load, hh]
  rfl

theorem load_interrupt {source : Prid} (hh : s.handler x = none) (hp : s.pending x source = true) :
    (s.clrIpi x source |>.setEnabled x false |>.setHandler x (some (source, .acp))).load x <
    s.load x := by
  let s' := s.clrIpi x source |>.setEnabled x false |>.setHandler x (some (source, .acp))
  have hhdr : s'.handler x = some (source, .acp) := Function.update_self ..
  have hpend (r : Prid) : s'.pending x r = (decide (r ≠ source) && s.pending x r) := by
    change Function.update s.pending x (Function.update (s.pending x) source false) x r = _
    rw [Function.update_self]
    by_cases hr : r = source
    · subst hr
      simp
    · simp [hr]
  change s'.load x < s.load x
  rw [load_handler hhdr, load, hh, ← Finset.add_sum_erase _ _ (Finset.mem_univ source),
    ← Finset.add_sum_erase _ (fun r => if s.pending x r then 5 else 0) (Finset.mem_univ source)]
  have hrest : ∑ r ∈ Finset.univ.erase source, (if s'.pending x r then 5 else 0) =
      ∑ r ∈ Finset.univ.erase source, if s.pending x r then 5 else 0 :=
    Finset.sum_congr rfl fun r hr => by simp [hpend, Finset.ne_of_mem_erase hr]
  rw [hrest]
  simp [hpend, hp, SmpcHdr.rank]
  omega

end SmpCall

section Work

open SmpCall

variable {s s' : SmpCall F V} {p : Prid}

/-- While `p` is in `smpc_req` each of its steps, and each one of a handler, is part of the work;
nothing else changes it. -/
theorem SmpcStep.work (hl : SmpcLocked s) (hp : (s.main p).Asks) (step : SmpcStep s s') :
    s'.work p < s.work p ∨ s'.work p = s.work p ∧ s'.main p = s.main p ∧
      s'.handler = s.handler := by
  have honly {x : Prid} (hx : (s.main x).Inside) : x = p := hl.one x p hx hp.inside
  have hgo {x : Prid} {pc : SmpcPc F V} (hx : (s.main x).Inside) (hrank : pc.rank < (s.main x).rank)
      (t : SmpCall F V) (hm : t.main = Function.update s.main x pc) (hpend : t.pending = s.pending)
      (hh : t.handler = s.handler) :
      t.work p < s.work p := by
    obtain rfl := honly hx
    exact work_goes (by rw [hm, Function.update_self]) hrank hpend hh
  have hnot {x : Prid} {pc : SmpcPc F V} (hx : s.main x = pc) (hin : pc.Inside) (hasks : ¬pc.Asks) :
      False := by
    obtain rfl := honly (hx ▸ hin)
    exact hasks (hx ▸ hp)
  cases step with
  | own x b | regist x => exact .inr ⟨work_congr rfl rfl rfl, rfl, rfl⟩
  | lock x _ hx =>
    have hne : p ≠ x := by
      rintro rfl
      rw [hx] at hp
      exact hp
    have hm : (s.go x .locking).main p = s.main p := Function.update_of_ne hne ..
    exact .inr ⟨work_congr hm rfl rfl, hm, rfl⟩
  | locked x _ hx hfree =>
    exact absurd ((hl.inside p hp.inside).1.symm.trans hfree) Bool.noConfusion
  | unlock x _ hx | wai x _ hx | req x _ _ hx => exact (hnot hx trivial id).elim
  | waited x _ hx => exact (hnot hx trivial id).elim
  | prev x r _ hx =>
    refine .inl (hgo (hx ▸ trivial) ?_ _ rfl rfl rfl)
    rw [hx]
    split_ifs <;> simp [SmpcPc.rank]
  | status x r b _ hx | func x r b _ hx | param x r b _ hx =>
    exact .inl (hgo (hx ▸ trivial) (by rw [hx]; simp [SmpcPc.rank]) _ rfl rfl rfl)
  | ipi x r b _ hx =>
    obtain rfl := honly (x := x) (hx ▸ trivial)
    exact .inl (work_ipi b (by rw [hx]; simp [SmpcPc.rank]))
  | self x r res _ hx =>
    have hrank : (SmpcPc.wait r.sync res : SmpcPc F V).rank < (s.main x).rank := by
      rw [hx]
      simp [SmpcPc.rank]
    by_cases hself : r.self = true
    · rw [if_pos hself]
      exact .inl (hgo (hx ▸ trivial) hrank _ rfl rfl rfl)
    · rw [if_neg hself]
      exact .inl (hgo (hx ▸ trivial) hrank _ rfl rfl rfl)
  | returns x _ _ _ hx =>
    exact .inl (hgo (hx ▸ trivial) (by rw [hx]; simp [SmpcPc.rank]) _ rfl rfl rfl)
  | interrupt x source hh _ hpend =>
    exact .inl (work_handled (x := x) rfl (fun q hq => Function.update_of_ne hq ..)
      (fun q hq => Function.update_of_ne hq ..) (load_interrupt hh hpend))
  | clrAcp x source hh | loadFunc x source _ hh | execute x source _ _ hh =>
    refine .inl (work_handled (x := x) rfl (fun _ _ => rfl) (fun q hq =>
      Function.update_of_ne hq ..) ?_)
    rw [load_handler hh, load_handler (Function.update_self ..)]
    exact Nat.add_lt_add_left (by simp [SmpcHdr.rank]) _
  | clrExe x source hh =>
    refine .inl (work_handled (x := x) rfl (fun _ _ => rfl) (fun q hq =>
      Function.update_of_ne hq ..) ?_)
    rw [load_handler hh, load]
    refine Nat.add_lt_add_left ?_ _
    simp [setEnabled, setHandler, SmpcHdr.rank]

theorem SmpcStep.asks (hp : (s.main p).Asks) (step : SmpcStep s s') :
    (s'.main p).Asks ∨ s'.main p = .held := by
  have hgo {x : Prid} {pc pc' : SmpcPc F V} (hx : s.main x = pc)
      (hpc : pc'.Asks ∨ pc' = .held ∨ ¬pc.Asks) :
      (Function.update s.main x pc' p).Asks ∨ Function.update s.main x pc' p = .held := by
    by_cases hpx : p = x
    · subst hpx
      rw [Function.update_self]
      exact hpc.imp id (Or.resolve_right · (not_not.mpr (hx ▸ hp)))
    · rw [Function.update_of_ne hpx]
      exact .inl hp
  cases step with
  | own | regist | interrupt | clrAcp | loadFunc | execute | clrExe => exact .inl hp
  | lock x _ hx | unlock x _ hx | wai x _ hx => exact hgo hx (.inr (.inr id))
  | locked x _ hx | waited x _ hx | returns x _ _ _ hx => exact hgo hx (.inr (.inl rfl))
  | req x _ _ hx | status x _ _ _ hx | func x _ _ _ hx => exact hgo hx (.inl trivial)
  | param x _ _ _ hx | ipi x _ _ _ hx => exact hgo hx (.inl trivial)
  | prev x r _ hx =>
    refine hgo hx (.inl ?_)
    split_ifs <;> trivial
  | self x r res _ hx =>
    have hnext : (Function.update s.main x (.wait r.sync res) p).Asks ∨
        Function.update s.main x (.wait r.sync res) p = .held := hgo hx (.inl trivial)
    split_ifs <;> exact hnext

/-- A step of `p` itself, or of a handler. -/
def Serves (p : Prid) (s s' : SmpCall F V) : Prop :=
  SmpcStep s s' ∧ (s'.main p ≠ s.main p ∨ s'.handler ≠ s.handler)

theorem handler_ne {q : Prid} {o o' : Option (Prid × SmpcHdr F)} (hh : s.handler q = o)
    (hh' : s'.handler q = o') (hne : o' ≠ o) : s'.handler ≠ s.handler :=
  fun hf => hne (hh'.symm.trans ((congrFun hf q).trans hh))

theorem serves_handler (h : SmpcInv s) {q source : Prid} {pc : SmpcHdr F}
    (hh : s.handler q = some (source, pc)) :
    ∃ s', Serves p s s' := by
  obtain ⟨st, hst⟩ := h.stage source q
  have hhdr := (hst.hdr.symm.trans (hdr_of_handler hh)).trans (if_pos rfl)
  cases st with
  | entered call =>
    obtain rfl := Option.some.inj hhdr
    exact ⟨_, .clrAcp q source hh, .inr (handler_ne hh (Function.update_self ..) (by simp))⟩
  | accepted call =>
    obtain rfl := Option.some.inj hhdr
    exact ⟨_, .loadFunc q source _ hh hst.stored.1, .inr (handler_ne hh (Function.update_self ..)
      (by simp))⟩
  | loaded call =>
    obtain rfl := Option.some.inj hhdr
    exact ⟨_, .execute q source _ _ hh hst.stored.2, .inr (handler_ne hh (Function.update_self ..)
      (by simp))⟩
  | executed =>
    obtain rfl := Option.some.inj hhdr
    exact ⟨_, .clrExe q source hh, .inr (handler_ne hh (Function.update_self ..) (by simp))⟩
  | idle => cases hhdr
  | chosen call | posting call | sent call => cases hhdr

theorem serves_stage (h : SmpcInv s) {q source : Prid} {st : SmpcStage F V} (hst : s.At source q st)
    (hfresh : ¬st.Fresh) (hidle : st ≠ .idle) (hen : s.handler q = none → s.enabled q = true) :
    ∃ s', Serves p s s' := by
  cases hh : s.handler q with
  | some o =>
    obtain ⟨source, pc⟩ := o
    exact serves_handler h hh
  | none =>
    have hhdr := hst.hdr.symm.trans (hdr_of_none hh source)
    cases st with
    | sent call =>
      refine ⟨_, .interrupt q source hh (hen hh) hst.pending, .inr ?_⟩
      exact handler_ne hh (Function.update_self ..) (by simp)
    | idle => exact absurd rfl hidle
    | chosen call | posting call => exact absurd trivial hfresh
    | entered call | accepted call | loaded call => cases hhdr
    | executed => cases hhdr

theorem serves_loop (h : SmpcInv s) (hfresh : ∀ q st, s.At p q st → ¬st.Fresh)
    (hen : ∀ q ≠ p, s.handler q = none → s.enabled q = true) {n : ℕ} (hn : n < 32)
    (hbit : (s.proc_info p).status.getLsbD n = true) : ∃ s', Serves p s s' := by
  have hlow : n % 16 < 4 := by
    by_contra hhigh
    exact absurd (hbit.symm.trans (h.high p n hn (Nat.not_lt.mp hhigh))) Bool.noConfusion
  let q : Prid := ⟨n % 16, hlow⟩
  obtain ⟨st, hst⟩ := h.stage p q
  have hidle : st ≠ .idle := by
    rintro rfl
    have hbits : (s.proc_info p).status.getLsbD n = false := by
      have hcases : n = n % 16 ∨ n = n % 16 + 16 := by omega
      rcases (hcases : n = q.val ∨ n = q.val + 16) with hq | hq
      · rw [hq]
        exact hst.acp
      · rw [hq]
        exact hst.exe
    exact absurd (hbit.symm.trans hbits) Bool.noConfusion
  exact serves_stage h hst (hfresh q st hst) hidle (hen q fun hf => hidle (hst.self hf.symm))

/-- `smpc_req` is never stuck. -/
theorem serves_asks (h : SmpcInv s) (hl : SmpcLocked s) (hp : (s.main p).Asks)
    (hen : ∀ q, ¬(s.main q).Inside → s.handler q = none → s.enabled q = true) :
    ∃ s', Serves p s s' := by
  have hh := (hl.inside p hp.inside).2.2
  have hothers : ∀ q ≠ p, s.handler q = none → s.enabled q = true := fun q hq =>
    hen q fun hin => hq (hl.one q p hin hp.inside)
  have hgo {s' : SmpCall F V} {pc pc' : SmpcPc F V} (hm : s.main p = pc) (hstep : SmpcStep s s')
      (hm' : s'.main p = pc') (hne : pc' ≠ pc) : ∃ s', Serves p s s' := by
    refine ⟨s', hstep, .inl ?_⟩
    rwa [hm, hm']
  cases hm : s.main p with
  | out | locking | held | wai =>
    rw [hm] at hp
    exact absurd hp id
  | status r b => exact hgo hm (.status p r b hh hm) (Function.update_self ..) (by simp)
  | func r b => exact hgo hm (.func p r b hh hm) (Function.update_self ..) (by simp)
  | param r b => exact hgo hm (.param p r b hh hm) (Function.update_self ..) (by simp)
  | ipi r b => exact hgo hm (.ipi p r b hh hm) (Function.update_self ..) (by simp)
  | self r b => exact hgo hm (.self p r b hh hm) (Function.update_self ..) (by simp)
  | prev r =>
    by_cases hloop : (s.proc_info p).status &&& EXE_MASK = 0
    · refine hgo hm (.prev p r hh hm hloop) (Function.update_self ..) ?_
      split_ifs <;> simp
    · have hfresh (q : Prid) (st : SmpcStage F V) (hst : s.At p q st) : ¬st.Fresh := by
        have hallows := hst.allows
        rwa [hm] at hallows
      rw [EXE_MASK_eq_zero] at hloop
      push Not at hloop
      obtain ⟨n, hn, -, hbit⟩ := hloop
      exact serves_loop h hfresh hothers hn (by simpa using hbit)
  | wait sync res =>
    by_cases hloop : res ≠ 0 → (s.proc_info p).status &&& (if sync then EXE_MASK else ACP_MASK) = 0
    · exact hgo hm (.returns p sync res hh hm hloop) (Function.update_self ..) (by simp)
    · have hfresh (q : Prid) (st : SmpcStage F V) (hst : s.At p q st) : ¬st.Fresh := by
        have hallows := hst.allows
        rw [hm] at hallows
        exact hallows.1
      have hbit : ∃ n < 32, (s.proc_info p).status.getLsbD n = true := by
        by_contra hnone
        push Not at hnone
        refine hloop fun _ => ?_
        cases sync with
        | true => exact EXE_MASK_eq_zero.mpr fun n hn _ => by simpa using hnone n hn
        | false => exact ACP_MASK_eq_zero.mpr fun n hn => by simpa using hnone n (by omega)
      obtain ⟨n, hn, hbit⟩ := hbit
      exact serves_loop h hfresh hothers hn hbit

/-- A run that begins in `smpc_req` of `p` and ends at the latest with its return, with the steps of
`p` and of the handlers counted. -/
inductive Serving (p : Prid) (s : SmpCall F V) : ℕ → SmpCall F V → Prop
  | refl : Serving p s 0 s
  | serve (n : ℕ) (t u : SmpCall F V) :
      Serving p s n t → (t.main p).Asks → Serves p t u → Serving p s (n + 1) u
  | beside (n : ℕ) (t u : SmpCall F V) :
      Serving p s n t → (t.main p).Asks → SmpcStep t u → Serving p s n u

theorem Serving.own {n : ℕ} {t u : SmpCall F V} (serving : Serving p s n t) (step : SmpcStep t u)
    (hp : (t.main p).Asks) (hne : u.main p ≠ t.main p) :
    Serving p s (n + 1) u := .serve n t u serving hp ⟨step, .inl hne⟩

theorem Serving.run {n : ℕ} {t : SmpCall F V} (serving : Serving p s n t) :
    Relation.ReflTransGen SmpcStep s t := by
  induction serving with
  | refl => exact .refl
  | serve n t u _ _ hserves ih => exact ih.tail hserves.1
  | beside n t u _ _ hstep ih => exact ih.tail hstep

theorem Serving.work {n : ℕ} {t : SmpCall F V} (hl : SmpcLocked s) (serving : Serving p s n t) :
    n + t.work p ≤ s.work p := by
  induction serving with
  | refl => rw [Nat.zero_add]
  | serve n t u hserving hasks hserves ih =>
    have hlt := hl.run hserving.run
    obtain hless | ⟨-, hm, hh⟩ := hserves.1.work hlt hasks
    · omega
    · exact absurd hserves.2 (by simp [hm, hh])
  | beside n t u hserving hasks hstep ih =>
    have hlt := hl.run hserving.run
    obtain hless | ⟨heq, -⟩ := hstep.work hlt hasks <;> omega

theorem work_le (s : SmpCall F V) (p : Prid) : s.work p ≤ 243 := by
  have hload (q : Prid) : s.load q ≤ 24 := by
    have hsum : ∑ r, (if s.pending q r then 5 else 0) ≤ 20 := by
      refine (Finset.sum_le_card_nsmul Finset.univ _ 5 fun r _ => ?_).trans (by decide)
      split_ifs <;> omega
    have hhdr : ((s.handler q).map fun h => h.2.rank).getD 0 ≤ 4 := by
      cases s.handler q with
      | none => exact Nat.zero_le 4
      | some h => exact h.2.rank_le
    rw [load]
    omega
  have hsum : ∑ q, s.load q ≤ 96 :=
    (Finset.sum_le_card_nsmul Finset.univ _ 24 fun q _ => hload q).trans (by decide)
  have hrank := (s.main p).rank_le
  rw [SmpCall.work]
  omega

theorem Serving.asks {n : ℕ} {t : SmpCall F V} (hp : (s.main p).Asks) (serving : Serving p s n t) :
    (t.main p).Asks ∨ t.main p = .held := by
  cases serving with
  | refl => exact .inl hp
  | serve n t u _ hasks hserves => exact hserves.1.asks hasks
  | beside n t u _ hasks hstep => exact hstep.asks hasks

/-- **`smpc_req` returns.** Whatever else the processors do in between, after at most 243 steps of
its own and of the handlers it has returned; and before that there is always such a step, if the
processors that are not inside `smpc_lock` and `smpc_unlock` have their interrupts enabled. -/
theorem smpc_req_returns (run : Relation.ReflTransGen SmpcStep SmpCall.start s)
    (hp : (s.main p).Asks) {n : ℕ} {t : SmpCall F V} (serving : Serving p s n t) :
    n ≤ 243 ∧ (t.main p = .held ∨
      ((∀ q, ¬(t.main q).Inside → t.handler q = none → t.enabled q = true) →
        ∃ u, Serves p t u)) := by
  have hl := smpcLocked_start.run run
  have hwork := serving.work hl
  have hle := work_le s p
  refine ⟨by omega, ?_⟩
  obtain hasks | hheld := serving.asks hp
  · exact .inr fun hen => serves_asks (smpcInv_run (run.trans serving.run))
      (hl.run serving.run) hasks hen
  · exact .inl hheld

/-- The first processor has just asked. -/
def asking : SmpCall ℕ ℕ :=
  let s := { (SmpCall.start : SmpCall ℕ ℕ) with
    available_proc := 0 ||| (1 : UW) <<< (1 : Prid).val }.go 0 .locking
  let s := ({ s with lock := true, intsts := s.enabled 0 }.setEnabled 0 false).go 0 .held
  s.go 0 (.prev ⟨5, 7, true, true⟩)

theorem asking_run : Relation.ReflTransGen SmpcStep SmpCall.start asking :=
  (((Relation.ReflTransGen.refl.tail (.regist 1 rfl rfl)).tail (.lock 0 rfl rfl)).tail
    (.locked 0 rfl rfl rfl)).tail
    (.req 0 ⟨5, 7, true, true⟩ rfl rfl)

/-- It has executed the function itself and waits for the second one, which has just accepted the
interrupt. -/
theorem smpc_req_returns_waits : ∃ t : SmpCall ℕ ℕ, Serving 0 asking 7 t ∧ t.main 0 = .wait true 2 ∧
    t.ran 0 = [(0, 5, 7)] ∧ t.handler 1 = some (0, .acp) ∧ 7 ≤ 243 ∧ ∃ u, Serves 0 t u := by
  have serving₁ :=
    (Serving.refl (p := 0) (s := asking)).own (.prev 0 ⟨5, 7, true, true⟩ rfl rfl rfl) trivial nofun
  have serving₂ := serving₁.own (.status 0 ⟨5, 7, true, true⟩ 2 rfl rfl) trivial nofun
  have serving₃ := serving₂.own (.func 0 ⟨5, 7, true, true⟩ 2 rfl rfl) trivial nofun
  have serving₄ := serving₃.own (.param 0 ⟨5, 7, true, true⟩ 2 rfl rfl) trivial nofun
  have serving₅ := serving₄.own (.ipi 0 ⟨5, 7, true, true⟩ 2 rfl rfl) trivial nofun
  have serving₆ := serving₅.own (.self 0 ⟨5, 7, true, true⟩ 2 rfl rfl) trivial nofun
  have serving₇ := serving₆.serve _ _ _ trivial ⟨.interrupt 1 0 rfl rfl rfl,
    .inr (handler_ne (q := 1) rfl rfl (Option.some_ne_none _))⟩
  have hfour : ∀ q : Prid, q = 0 ∨ q = 1 ∨ q = 2 ∨ q = 3 := by decide
  obtain ⟨hle, hheld | hnext⟩ := smpc_req_returns (p := 0) asking_run trivial serving₇
  · cases hheld
  · refine ⟨_, serving₇, rfl, rfl, rfl, hle, hnext fun q hq hfree => ?_⟩
    obtain rfl | rfl | rfl | rfl := hfour q
    · exact (hq trivial).elim
    · cases hfree
    · rfl
    · rfl

end Work

end SmpTKernel
