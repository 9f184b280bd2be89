import SmpTKernel.SmpCall

/-!
# The calls between processors are executed once

What a processor has of a call that it has asked another one for is in a few bits: those of the
status word, the interrupt and the handler. They agree for each pair of processors with a stage of
one call, and between calls with none.
-/

namespace SmpTKernel

variable {F V : Type}

/-! ## Bits -/

theorem prid_lt (p : Prid) : p.val < 4 := p.isLt

theorem getLsbD_EXE_MASK {n : ℕ} (h : n < 32) : EXE_MASK.getLsbD n = decide (16 ≤ n) :=
  (by decide : ∀ n : Fin 32, EXE_MASK.getLsbD n = decide (16 ≤ n.val)) ⟨n, h⟩

theorem getLsbD_ACP_MASK {n : ℕ} (h : n < 32) : ACP_MASK.getLsbD n = decide (n < 16) :=
  (by decide : ∀ n : Fin 32, ACP_MASK.getLsbD n = decide (n.val < 16)) ⟨n, h⟩

theorem getLsbD_one_shift {m n : ℕ} (h : n < 32) : ((1 : UW) <<< m).getLsbD n = decide (n = m) := by
  change ((1#32) <<< m).getLsbD n = _
  rw [BitVec.getLsbD_shiftLeft, BitVec.getLsbD_one]
  by_cases hnm : n < m
  · simp [hnm, Nat.ne_of_lt hnm]
  · simp [hnm, h]
    omega

theorem getLsbD_clear (v : UW) {m n : ℕ} (h : n < 32) :
    (v &&& ~~~((1 : UW) <<< m)).getLsbD n = (v.getLsbD n && decide (n ≠ m)) := by
  rw [BitVec.getLsbD_and, BitVec.getLsbD_not, getLsbD_one_shift h]
  simp [h]

theorem EXE_MASK_eq_zero {v : UW} :
    v &&& EXE_MASK = 0 ↔ ∀ n < 32, 16 ≤ n → v.getLsbD n = false := by
  constructor
  · intro h n hn hn'
    have hbit := congrArg (BitVec.getLsbD · n) h
    simpa [getLsbD_EXE_MASK hn, hn'] using hbit
  · intro h
    refine BitVec.eq_of_getLsbD_eq fun n hn => ?_
    rw [BitVec.getLsbD_and, getLsbD_EXE_MASK hn]
    by_cases hn' : 16 ≤ n
    · simp [h n hn hn']
    · simp [hn']

theorem ACP_MASK_eq_zero {v : UW} : v &&& ACP_MASK = 0 ↔ ∀ n < 16, v.getLsbD n = false := by
  constructor
  · intro h n hn
    have hbit := congrArg (BitVec.getLsbD · n) h
    simpa [getLsbD_ACP_MASK (by omega : n < 32), hn] using hbit
  · intro h
    refine BitVec.eq_of_getLsbD_eq fun n hn => ?_
    rw [BitVec.getLsbD_and, getLsbD_ACP_MASK hn]
    by_cases hn' : n < 16
    · simp [h n hn']
    · simp [hn']

theorem getLsbD_proc_mask (p : Prid) {n : ℕ} (h : n < 32) :
    (init_pinfo p : SmpcPinfo F V).proc_mask.getLsbD n = decide (n < MAX_PROC_NUM ∧ n ≠ p) :=
  (by decide : ∀ p : Prid, ∀ n : Fin 32, (~~~((1 : UW) <<< p.val) &&&
    (((1 : UW) <<< MAX_PROC_NUM) - 1)).getLsbD n =
    decide (n.val < MAX_PROC_NUM ∧ n.val ≠ p)) p ⟨n, h⟩

/-! ## The stages of a call -/

/-- How far a call is from one processor to another. -/
inductive SmpcStage (F V : Type)
  | idle
  /-- `notify` has chosen the processor. -/
  | chosen (call : F × V)
  /-- The bits are set. -/
  | posting (call : F × V)
  /-- The interrupt is on its way. -/
  | sent (call : F × V)
  | entered (call : F × V)
  | accepted (call : F × V)
  | loaded (call : F × V)
  | executed

namespace SmpcStage

def acp : SmpcStage F V → Bool
  | posting _ | sent _ | entered _ => true
  | _ => false

def exe : SmpcStage F V → Bool
  | idle | chosen _ => false
  | _ => true

def pending : SmpcStage F V → Bool
  | sent _ => true
  | _ => false

def hdr : SmpcStage F V → Option (SmpcHdr F)
  | entered _ => some .acp
  | accepted _ => some .func
  | loaded call => some (.param call.1)
  | executed => some .exe
  | _ => none

/-- Not executed yet. -/
def missing : SmpcStage F V → List (F × V)
  | idle | executed => []
  | chosen call | posting call | sent call | entered call | accepted call | loaded call => [call]

/-- Before the interrupt. -/
def Fresh : SmpcStage F V → Prop
  | chosen _ | posting _ => True
  | _ => False

/-- What the handler is to find. -/
def Stored (i : SmpcPinfo F V) : SmpcStage F V → Prop
  | sent call | entered call | accepted call | loaded call =>
    i.func = some call.1 ∧ i.param = some call.2
  | _ => True

end SmpcStage

namespace SmpcPc

/-- The call that is asked for, and not yet left to the others. -/
def own : SmpcPc F V → List (F × V)
  | status r _ | func r _ | param r _ | ipi r _ | self r _ =>
    if r.self then [(r.func, r.param)] else []
  | _ => []

/-- The stage of the call to `q`, as far as the caller determines it. -/
def Allows (q : Prid) (st : SmpcStage F V) : SmpcPc F V → Prop
  | status r b => st = if b.getLsbD q then .chosen (r.func, r.param) else .idle
  | func r b | param r b | ipi r b => st = if b.getLsbD q then .posting (r.func, r.param) else .idle
  | self _ b | wait _ b => ¬st.Fresh ∧ (b.getLsbD q = false → st = .idle)
  | _ => ¬st.Fresh

/-- What `notify` has chosen and stored. -/
def Ok (i : SmpcPinfo F V) : SmpcPc F V → Prop
  | status _ b | func _ b => b &&& i.proc_mask = b
  | param r b => b &&& i.proc_mask = b ∧ i.func = some r.func
  | ipi r b => b &&& i.proc_mask = b ∧ i.func = some r.func ∧ i.param = some r.param
  | _ => True

/-- Not between the choice of the processors and the own execution. -/
def Calm : SmpcPc F V → Prop
  | status _ _ | func _ _ | param _ _ | ipi _ _ | self _ _ => False
  | _ => True

theorem Calm.not_fresh {pc : SmpcPc F V} (h : pc.Calm) {q : Prid} {st : SmpcStage F V}
    (ha : pc.Allows q st) :
    ¬st.Fresh := by
  cases pc <;> first | exact ha | exact ha.1 | exact absurd h id

theorem Calm.own {pc : SmpcPc F V} (h : pc.Calm) : pc.own = [] := by
  cases pc <;> first | rfl | exact absurd h id

theorem Calm.ok {pc : SmpcPc F V} (h : pc.Calm) (i : SmpcPinfo F V) : pc.Ok i := by
  cases pc <;> trivial

/-- The caller does not determine how far the others are. -/
theorem Allows.move {pc : SmpcPc F V} {q : Prid} {st st' : SmpcStage F V} (h : pc.Allows q st)
    (hst : ¬st.Fresh) (hidle : st ≠ .idle) (hst' : ¬st'.Fresh) : pc.Allows q st' := by
  cases pc with
  | status r b =>
    rw [Allows] at h
    split_ifs at h
    · exact absurd (h ▸ trivial) hst
    · exact absurd h hidle
  | func r b | param r b | ipi r b =>
    rw [Allows] at h
    split_ifs at h
    · exact absurd (h ▸ trivial) hst
    · exact absurd h hidle
  | self r b | wait _ b =>
    refine ⟨hst', fun hb => absurd (h.2 hb) hidle⟩
  | out | locking | held | prev | wai => exact hst'

end SmpcPc

/-! ## The invariant -/

namespace SmpCall

variable (s : SmpCall F V) (p q : Prid)

/-- What the handler of `q` does for `p`. -/
def hdr : Option (SmpcHdr F) := (s.handler q).bind fun h => if h.1 = p then some h.2 else none

/-- The calls that `q` has executed for `p`. -/
def ranFor : List (F × V) := (s.ran q).filterMap fun c => if c.1 = p then some c.2 else none

/-- The calls that `p` has asked `q` for. -/
def askedFor : List (F × V) :=
  (s.asked p).filterMap fun c => if c.1.getLsbD q then some c.2 else none

/-- The call from `p` to `q` is at this stage. -/
structure At (st : SmpcStage F V) : Prop where
  acp : (s.proc_info p).status.getLsbD q = st.acp
  exe : (s.proc_info p).status.getLsbD (q + 16) = st.exe
  pending : s.pending q p = st.pending
  hdr : s.hdr p q = st.hdr
  allows : (s.main p).Allows q st
  stored : st.Stored (s.proc_info p)
  log : s.ranFor p q ++ (if p = q then (s.main p).own else st.missing) = s.askedFor p q
  self : p = q → st = .idle

variable {s p q} {s' : SmpCall F V} {st : SmpcStage F V}

theorem At.congr (h : s.At p q st) (hi : s'.proc_info p = s.proc_info p) (hm : s'.main p = s.main p)
    (hpend : s'.pending q p = s.pending q p) (hh : s'.hdr p q = s.hdr p q)
    (hr : s'.ranFor p q = s.ranFor p q) (ha : s'.askedFor p q = s.askedFor p q) : s'.At p q st := by
  refine ⟨?_, ?_, ?_, ?_, ?_, ?_, ?_, h.self⟩
  · rw [hi, h.acp]
  · rw [hi, h.exe]
  · rw [hpend, h.pending]
  · rw [hh, h.hdr]
  · rw [hm]
    exact h.allows
  · rw [hi]
    exact h.stored
  · rw [hr, hm, ha, h.log]

end SmpCall

structure SmpcInv (s : SmpCall F V) : Prop where
  mask : ∀ p, (s.proc_info p).proc_mask = (init_pinfo p : SmpcPinfo F V).proc_mask
  high : ∀ p, ∀ n < 32, MAX_PROC_NUM ≤ n % 16 → (s.proc_info p).status.getLsbD n = false
  ok : ∀ p, (s.main p).Ok (s.proc_info p)
  stage : ∀ p q, ∃ st, s.At p q st

/-! ## The steps of the caller -/

section Caller

open SmpCall

variable {s s' : SmpCall F V} {x : Prid}

/-- Only `x` does something. -/
theorem SmpcInv.main (h : SmpcInv s) (hhdr : s'.handler = s.handler)
    (hi : ∀ p ≠ x, s'.proc_info p = s.proc_info p) (hm : ∀ p ≠ x, s'.main p = s.main p)
    (hpend : ∀ p ≠ x, ∀ q, s'.pending q p = s.pending q p)
    (hran : ∀ p ≠ x, ∀ q, s'.ranFor p q = s.ranFor p q) (hasked : ∀ p ≠ x, s'.asked p = s.asked p)
    (hmask : (s'.proc_info x).proc_mask = (s.proc_info x).proc_mask)
    (hhigh : ∀ n < 32, MAX_PROC_NUM ≤ n % 16 → (s'.proc_info x).status.getLsbD n = false)
    (hok : (s'.main x).Ok (s'.proc_info x)) (hstage : ∀ q st, s.At x q st → ∃ st', s'.At x q st') :
    SmpcInv s' := by
  refine ⟨fun p => ?_, fun p => ?_, fun p => ?_, fun p q => ?_⟩
  · by_cases hp : p = x
    · rw [hp, hmask, h.mask]
    · rw [hi p hp, h.mask]
  · by_cases hp : p = x
    · rw [hp]
      exact hhigh
    · rw [hi p hp]
      exact h.high p
  · by_cases hp : p = x
    · rwa [hp]
    · rw [hi p hp, hm p hp]
      exact h.ok p
  · obtain ⟨st, hst⟩ := h.stage p q
    by_cases hp : p = x
    · subst hp
      exact hstage q st hst
    · refine ⟨st, hst.congr (hi p hp) (hm p hp) (hpend p hp q) ?_ (hran p hp q) ?_⟩
      · rw [hdr, hdr, hhdr]
      · rw [askedFor, askedFor, hasked p hp]

/-- Nothing that the others see. -/
theorem SmpcInv.goes (h : SmpcInv s) {pc : SmpcPc F V} (hhdr : s'.handler = s.handler)
    (hi : s'.proc_info = s.proc_info) (hpend : s'.pending = s.pending) (hran : s'.ran = s.ran)
    (hasked : s'.asked = s.asked) (hm : s'.main = Function.update s.main x pc)
    (hcalm : (s.main x).Calm) (hcalm' : pc.Calm) (hallows : ∀ q st, ¬st.Fresh → pc.Allows q st) :
    SmpcInv s' := by
  have hranFor (p q : Prid) : s'.ranFor p q = s.ranFor p q := by rw [ranFor, ranFor, hran]
  have hself : s'.main x = pc := by rw [hm, Function.update_self]
  refine h.main (x := x) hhdr (fun p _ => congrFun hi p) (fun p hp => ?_) (fun p _ q => by
    rw [hpend]) (fun p _ q => hranFor p q)
    (fun p _ => congrFun hasked p) (by rw [hi]) (fun n => ?_) ?_ fun q st hst => ⟨st, ?_⟩
  · rw [hm, Function.update_of_ne hp]
  · rw [hi]
    exact h.high x n
  · rw [hself]
    exact hcalm'.ok _
  · refine ⟨?_, ?_, ?_, ?_, ?_, ?_, ?_, hst.self⟩
    · rw [hi, hst.acp]
    · rw [hi, hst.exe]
    · rw [hpend, hst.pending]
    · rw [hdr, hhdr]
      exact hst.hdr
    · rw [hself]
      exact hallows q st (hcalm.not_fresh hst.allows)
    · rw [hi]
      exact hst.stored
    · rw [hranFor, hself, hcalm'.own, ← hcalm.own, askedFor, hasked]
      exact hst.log

theorem SmpCall.At.eq_idle {q : Prid} {st : SmpcStage F V} (h : s.At x q st)
    (hexe : (s.proc_info x).status &&& EXE_MASK = 0) (hfresh : ¬st.Fresh) : st = .idle := by
  have hbit :=
    h.exe.symm.trans (EXE_MASK_eq_zero.mp hexe (q + 16) (by have := prid_lt q; omega) (by omega))
  cases st with
  | idle => rfl
  | chosen call => exact absurd trivial hfresh
  | posting call | sent call | entered call | accepted call | loaded call => cases hbit
  | executed => cases hbit

theorem SmpcInv.getLsbD_bitmap (h : SmpcInv s) {b : UW} (hb : b &&& (s.proc_info x).proc_mask = b)
    {n : ℕ} (hn : n < 32) (hbit : b.getLsbD n = true) : n < MAX_PROC_NUM ∧ n ≠ x := by
  rw [← hb, BitVec.getLsbD_and, h.mask, getLsbD_proc_mask x hn] at hbit
  simpa using (Bool.and_eq_true_iff.mp hbit).2

theorem askedFor_note (r : SmpcReq F V) (b : UW) (q : Prid) : (s.note x r b).askedFor x q =
    s.askedFor x q ++ if b.getLsbD q = true ∨ r.self = true ∧
      x = q then [(r.func, r.param)] else [] := by
  rw [askedFor, SmpCall.note]
  change List.filterMap _ (Function.update s.asked x _ x) = _
  rw [Function.update_self, List.filterMap_append, askedFor]
  congr 1
  have hbit : (b ||| if r.self then (1 : UW) <<< x.val else 0).getLsbD q = true ↔
      b.getLsbD q = true ∨ r.self = true ∧ x = q := by
    rw [BitVec.getLsbD_or, Bool.or_eq_true]
    split_ifs with hself
    · rw [getLsbD_one_shift (by have := prid_lt q; omega), decide_eq_true_eq]
      rw [Fin.ext_iff, eq_comm (a := x.val)]
      simp [hself]
    · simp [hself]
  rw [List.filterMap_cons, List.filterMap_nil]
  by_cases h : b.getLsbD q = true ∨ r.self = true ∧ x = q
  · rw [if_pos h, if_pos (hbit.mpr h)]
  · rw [if_neg h, if_neg (mt hbit.mp h)]

/-- The processors are chosen. -/
theorem SmpcInv.note (h : SmpcInv s) {r : SmpcReq F V} {b : UW} {pc : SmpcPc F V}
    (hidle : ∀ q, s.At x q .idle) (hcalm : (s.main x).Calm)
    (hmask : b &&& (s.proc_info x).proc_mask = b)
    (hallows : ∀ q, pc.Allows q (if b.getLsbD q then .chosen (r.func, r.param) else .idle))
    (hown : pc.own = if r.self then [(r.func, r.param)] else []) (hok : pc.Ok (s.proc_info x)) :
    SmpcInv (s.note x r b |>.go x pc) := by
  have hgo : (s.note x r b |>.go x pc).main x = pc := Function.update_self ..
  have hself : b.getLsbD x = false := by
    by_contra hbit
    exact (h.getLsbD_bitmap hmask (by have := prid_lt x; omega) (by simpa using hbit)).2 rfl
  refine h.main (x := x) rfl (fun _ _ => rfl) (fun p hp => Function.update_of_ne hp ..)
    (fun _ _ _ => rfl)
    (fun _ _ _ => rfl) (fun p hp => Function.update_of_ne hp ..) rfl (h.high x) ?_ fun q st _ => ?_
  · rw [hgo]
    exact hok
  · have hst := hidle q
    refine ⟨_, ?_, ?_, ?_, ?_, by rw [hgo]; exact hallows q, ?_, ?_, ?_⟩
    · refine hst.acp.trans ?_
      split_ifs <;> rfl
    · refine hst.exe.trans ?_
      split_ifs <;> rfl
    · refine hst.pending.trans ?_
      split_ifs <;> rfl
    · refine hst.hdr.trans ?_
      split_ifs <;> rfl
    · split_ifs <;> trivial
    · have hlog := hst.log
      rw [hgo, hown]
      change s.ranFor x q ++ _ = (s.note x r b).askedFor x q
      rw [askedFor_note, ← hlog]
      by_cases hxq : x = q
      · subst hxq
        rw [if_pos rfl, if_pos rfl, hcalm.own, List.append_nil, hself]
        simp
      · rw [if_neg hxq, if_neg hxq]
        simp only [hxq, and_false, or_false, SmpcStage.missing, List.append_nil]
        split_ifs <;> rfl
    · rintro rfl
      rw [hself]
      rfl

theorem SmpcInv.prev (h : SmpcInv s) {r : SmpcReq F V} (hmain : s.main x = .prev r)
    (hexe : (s.proc_info x).status &&& EXE_MASK = 0) :
    SmpcInv (s.note x r (s.bitmap x) |>.go x
      (if s.bitmap x ≠ 0 then .status r (s.bitmap x) else .self r (s.bitmap x))) := by
  have hidle (q : Prid) : s.At x q .idle := by
    obtain ⟨st, hst⟩ := h.stage x q
    have hallows := hst.allows
    rw [hmain] at hallows
    exact hst.eq_idle hexe hallows ▸ hst
  have hmask : s.bitmap x &&& (s.proc_info x).proc_mask = s.bitmap x := by
    rw [bitmap, BitVec.and_assoc, BitVec.and_self]
  have hcalm : (s.main x).Calm := hmain ▸ trivial
  by_cases hzero : s.bitmap x = 0
  · rw [if_neg (not_not.mpr hzero)]
    refine h.note hidle hcalm hmask (fun q => ?_) rfl trivial
    rw [hzero, if_neg (by simp)]
    exact ⟨id, fun _ => rfl⟩
  · rw [if_pos hzero]
    exact h.note hidle hcalm hmask (fun q => rfl) rfl hmask

/-- A step of `notify` takes the calls to the chosen processors from one stage to the next. -/
theorem SmpcInv.notify (h : SmpcInv s) (st st' : SmpcStage F V) {b : UW} {pc : SmpcPc F V}
    {i : SmpcPinfo F V} {pending : Prid → Prid → Bool} (hmask : b &&& (s.proc_info x).proc_mask = b)
    (hmain : ∀ q st₀, (s.main x).Allows q st₀ → st₀ = if b.getLsbD q then st else .idle)
    (hpend : ∀ p ≠ x, ∀ q, pending q p = s.pending q p)
    (himask : i.proc_mask = (s.proc_info x).proc_mask)
    (hhigh : ∀ n < 32, MAX_PROC_NUM ≤ n % 16 → i.status.getLsbD n = false) (hok : pc.Ok i)
    (hown : pc.own = (s.main x).own) (hmissing : st'.missing = st.missing) (hhdr : st'.hdr = st.hdr)
    (hallows : ∀ q, pc.Allows q (if b.getLsbD q then st' else .idle)) (hstored : st'.Stored i)
    (hchosen : ∀ q : Prid, b.getLsbD q = true → s.At x q st → i.status.getLsbD q = st'.acp ∧
      i.status.getLsbD (q + 16) = st'.exe ∧ pending q x = st'.pending)
    (hrest : ∀ q : Prid, b.getLsbD q = false → s.At x q .idle → i.status.getLsbD q = false ∧
      i.status.getLsbD (q + 16) = false ∧ pending q x = false) :
    SmpcInv ({ s with pending := pending }.setInfo x i |>.go x pc) := by
  let s' := { s with pending := pending }.setInfo x i |>.go x pc
  have hpc : s'.main x = pc := Function.update_self ..
  have hinfo : s'.proc_info x = i := Function.update_self ..
  refine h.main (x := x) rfl (fun p hp => Function.update_of_ne hp ..) (fun p hp =>
    Function.update_of_ne hp ..) hpend
    (fun _ _ _ => rfl) (fun _ _ => rfl) ?_ ?_ ?_ fun q st₀ hst => ?_
  · rw [hinfo, himask]
  · rwa [hinfo]
  · rwa [hpc, hinfo]
  have hst₀ := hmain q st₀ hst.allows
  have hnew := hallows q
  have hlog (hmissing' : (if b.getLsbD q then st' else .idle).missing = st₀.missing) :
    s'.ranFor x q ++
      (if x = q then (s'.main x).own else (if b.getLsbD q then st' else .idle).missing) =
      s'.askedFor x q := by
    rw [hpc, hown, hmissing']
    exact hst.log
  cases hbit : b.getLsbD q with
  | true =>
    rw [hbit, if_pos rfl] at hst₀ hnew hlog
    subst hst₀
    obtain ⟨hacp, hexe, hp⟩ := hchosen q hbit hst
    refine ⟨st', ?_, ?_, hp, ?_, ?_, ?_, hlog hmissing, ?_⟩
    · rw [hinfo, hacp]
    · rw [hinfo, hexe]
    · rw [hhdr]
      exact hst.hdr
    · rwa [hpc]
    · rwa [hinfo]
    · rintro rfl
      exact absurd rfl (h.getLsbD_bitmap hmask (by have := prid_lt x; omega) hbit).2
  | false =>
    rw [hbit, if_neg Bool.false_ne_true] at hst₀ hnew hlog
    subst hst₀
    obtain ⟨hacp, hexe, hp⟩ := hrest q hbit hst
    refine ⟨.idle, ?_, ?_, hp, hst.hdr, ?_, trivial, hlog rfl, fun _ => rfl⟩
    · rw [hinfo, hacp]
      rfl
    · rw [hinfo, hexe]
      rfl
    · rwa [hpc]

theorem SmpcInv.status (h : SmpcInv s) {r : SmpcReq F V} {b : UW} (hmain : s.main x = .status r b) :
    SmpcInv (s.setStatus x (b ||| b <<< EXE_SHIFT) |>.go x (.func r b)) := by
  have hok := h.ok x
  rw [hmain] at hok
  have hout {n : ℕ} (hn : n < 32) (hn' : 4 ≤ n) : b.getLsbD n = false := by
    by_contra hbit
    exact absurd (h.getLsbD_bitmap hok hn (by simpa using hbit)).1 (Nat.not_lt.mpr hn')
  have hacp {n : ℕ} (hn : n < 16) : (b ||| b <<< EXE_SHIFT).getLsbD n = b.getLsbD n := by
    rw [BitVec.getLsbD_or, BitVec.getLsbD_shiftLeft]
    simp [hn]
  have hexe {n : ℕ} (hn : n < 16) : (b ||| b <<< EXE_SHIFT).getLsbD (n + 16) = b.getLsbD n := by
    have : n + 16 < 32 := by omega
    rw [BitVec.getLsbD_or, BitVec.getLsbD_shiftLeft, hout this (by omega)]
    simp [this]
  have hq (q : Prid) : q.val < 16 := by have := prid_lt q; omega
  refine h.notify (.chosen (r.func, r.param)) (.posting (r.func, r.param)) hok
    (fun q st₀ hst₀ => ?_) (fun _ _ _ => rfl) rfl (fun n hn hn' => ?_) hok ?_ rfl rfl (fun q =>
      rfl) trivial
    (fun q hbit hst => ?_) fun q hbit hst => ?_
  · rwa [hmain] at hst₀
  · by_cases hlow : n < 16
    · rw [Nat.mod_eq_of_lt hlow] at hn'
      exact (hacp hlow).trans (hout hn hn')
    · obtain ⟨m, rfl⟩ := Nat.exists_eq_add_of_le' (Nat.not_lt.mp hlow)
      rw [Nat.add_mod_right, Nat.mod_eq_of_lt (by omega)] at hn'
      exact (hexe (by omega)).trans (hout (by omega) hn')
  · rw [hmain]
    rfl
  · exact ⟨(hacp (hq q)).trans hbit, (hexe (hq q)).trans hbit, hst.pending⟩
  · exact ⟨(hacp (hq q)).trans hbit, (hexe (hq q)).trans hbit, hst.pending⟩

theorem SmpcInv.func (h : SmpcInv s) {r : SmpcReq F V} {b : UW} (hmain : s.main x = .func r b) :
    SmpcInv (s.setInfo x { s.proc_info x with func := some r.func } |>.go x (.param r b)) := by
  have hok := h.ok x
  rw [hmain] at hok
  refine h.notify (.posting (r.func, r.param)) (.posting (r.func, r.param)) hok
    (fun q st₀ hst₀ => ?_)
    (fun _ _ _ => rfl) rfl (h.high x) ⟨hok, rfl⟩ ?_ rfl rfl (fun q => rfl) trivial
    (fun q _ hst => ⟨hst.acp, hst.exe, hst.pending⟩) fun q _ hst => ⟨hst.acp, hst.exe, hst.pending⟩
  · rwa [hmain] at hst₀
  · rw [hmain]
    rfl

theorem SmpcInv.param (h : SmpcInv s) {r : SmpcReq F V} {b : UW} (hmain : s.main x = .param r b) :
    SmpcInv (s.setInfo x { s.proc_info x with param := some r.param } |>.go x (.ipi r b)) := by
  have hok := h.ok x
  rw [hmain] at hok
  obtain ⟨hmask, hfunc⟩ := hok
  refine h.notify (.posting (r.func, r.param)) (.posting (r.func, r.param)) hmask
    (fun q st₀ hst₀ => ?_)
    (fun _ _ _ => rfl) rfl (h.high x) ⟨hmask, hfunc, rfl⟩ ?_ rfl rfl (fun q => rfl) trivial
    (fun q _ hst => ⟨hst.acp, hst.exe, hst.pending⟩) fun q _ hst => ⟨hst.acp, hst.exe, hst.pending⟩
  · rwa [hmain] at hst₀
  · rw [hmain]
    rfl

theorem SmpcInv.ipi (h : SmpcInv s) {r : SmpcReq F V} {b : UW} (hmain : s.main x = .ipi r b) :
    SmpcInv (s.setIpi x b |>.go x (.self r b)) := by
  have hok := h.ok x
  rw [hmain] at hok
  obtain ⟨hmask, hstored⟩ := hok
  have hnotify :
      SmpcInv ({ s with pending := (s.setIpi x b).pending }.setInfo x (s.proc_info x) |>.go x
        (.self r b)) := by
    refine h.notify (.posting (r.func, r.param)) (.sent (r.func, r.param)) hmask
      (fun q st₀ hst₀ => ?_)
      (fun p hp q => ?_) rfl (h.high x) trivial ?_ rfl rfl (fun q => ?_) hstored
      (fun q hbit hst => ⟨hst.acp, hst.exe, ?_⟩) fun q hbit hst => ⟨hst.acp, hst.exe, ?_⟩
    · rwa [hmain] at hst₀
    · simp [setIpi, hp]
    · rw [hmain]
      rfl
    · refine ⟨?_, fun hb => by rw [hb, if_neg Bool.false_ne_true]⟩
      split_ifs <;> exact id
    · simp [setIpi, hbit, SmpcStage.pending]
    · simpa [setIpi, hbit, SmpcStage.pending] using hst.pending
  have hinfo : { s with pending := (s.setIpi x b).pending }.setInfo x (s.proc_info x) =
      s.setIpi x b := by
    rw [setInfo, Function.update_eq_self]
    rfl
  rwa [hinfo] at hnotify

theorem ranFor_execute (p q source : Prid) (f : F) (v : V) : (s.execute x source f v).ranFor p q =
    s.ranFor p q ++ if q = x ∧ source = p then [(f, v)] else [] := by
  rw [ranFor, ranFor, SmpCall.execute]
  by_cases hq : q = x
  · subst hq
    change List.filterMap _ (Function.update s.ran q _ q) = _
    rw [Function.update_self, List.filterMap_append, List.filterMap_cons, List.filterMap_nil]
    by_cases hp : source = p
    · rw [if_pos hp, if_pos ⟨rfl, hp⟩]
    · rw [if_neg hp, if_neg fun hf => hp hf.2]
  · change List.filterMap _ (Function.update s.ran x _ q) = _
    rw [Function.update_of_ne hq, if_neg fun hf => hq hf.1, List.append_nil]

theorem SmpcInv.self (h : SmpcInv s) {r : SmpcReq F V} {res : UW} (hmain : s.main x = .self r res) :
    SmpcInv ((if r.self then s.execute x x r.func r.param else s).go x (.wait r.sync res)) := by
  let s₁ := if r.self then s.execute x x r.func r.param else s
  have hran (p q : Prid) : s₁.ranFor p q = s.ranFor p q ++
      if q = x ∧ x = p ∧ r.self = true then [(r.func, r.param)] else [] := by
    by_cases hself : r.self = true
    · simp only [s₁, if_pos hself, ranFor_execute, hself, and_true]
    · simp only [s₁, if_neg hself, hself, and_false, if_false, List.append_nil, Bool.false_eq_true]
  have hsame : s₁.proc_info = s.proc_info ∧ s₁.main = s.main ∧ s₁.pending = s.pending ∧
    s₁.handler = s.handler ∧
      s₁.asked = s.asked := by
    by_cases hself : r.self = true
    · simp [s₁, hself, SmpCall.execute]
    · simp [s₁, hself]
  obtain ⟨hinfo, hm, hpend, hhdr, hasked⟩ := hsame
  change SmpcInv (s₁.go x (.wait r.sync res))
  have hgo : (s₁.go x (.wait r.sync res)).main x = .wait r.sync res := Function.update_self ..
  refine h.main (x := x) hhdr (fun p _ => congrFun hinfo p) (fun p hp => ?_) (fun p _ q => ?_)
    (fun p hp q => ?_)
    (fun p _ => congrFun hasked p) ?_ ?_ ?_ fun q st hst => ⟨st, ?_⟩
  · exact (Function.update_of_ne hp ..).trans (congrFun hm p)
  · exact congrFun (congrFun hpend q) p
  · refine (hran p q).trans ?_
    rw [if_neg fun hf => hp hf.2.1.symm, List.append_nil]
  · exact congrArg SmpcPinfo.proc_mask (congrFun hinfo x)
  · change ∀ n < 32, _ → (s₁.proc_info x).status.getLsbD n = false
    rw [hinfo]
    exact h.high x
  · rw [hgo]
    trivial
  have hallows := hst.allows
  rw [hmain] at hallows
  refine ⟨?_, ?_, ?_, ?_, ?_, ?_, ?_, hst.self⟩
  · change (s₁.proc_info x).status.getLsbD q = _
    rw [hinfo, hst.acp]
  · change (s₁.proc_info x).status.getLsbD (q + 16) = _
    rw [hinfo, hst.exe]
  · change s₁.pending q x = _
    rw [hpend, hst.pending]
  · change (s₁.handler q).bind _ = _
    rw [hhdr]
    exact hst.hdr
  · rw [hgo]
    exact hallows
  · change st.Stored (s₁.proc_info x)
    rw [hinfo]
    exact hst.stored
  · rw [hgo]
    change s₁.ranFor x q ++ _ = List.filterMap _ (s₁.asked x)
    rw [hran, hasked]
    refine Eq.trans ?_ hst.log
    rw [hmain, List.append_assoc]
    congr 1
    by_cases hq : x = q
    · subst hq
      simp [SmpcPc.own]
    · simp [hq, Ne.symm hq]

end Caller

/-! ## The steps of the handler -/

section Handler

open SmpCall

variable {s s' : SmpCall F V} {x y : Prid}

/-- What the handler of `x` does for `y` takes one call from one stage to the next. -/
theorem SmpcInv.handled (h : SmpcInv s) {st : SmpcStage F V} (st' : SmpcStage F V)
    (hst : s.At y x st) (hfresh : ¬st.Fresh) (hidle : st ≠ .idle) (hfresh' : ¬st'.Fresh)
    (hm : s'.main = s.main) (hasked : s'.asked = s.asked)
    (hi : ∀ p, ∃ status, s'.proc_info p = { s.proc_info p with status := status } ∧
      ∀ n < 32, (MAX_PROC_NUM ≤ n % 16 → status.getLsbD n = false) ∧
        (p ≠ y ∨ n % 16 ≠ x → status.getLsbD n = (s.proc_info p).status.getLsbD n))
    (hpend : ∀ p q, p ≠ y ∨ q ≠ x → s'.pending q p = s.pending q p)
    (hhdr : ∀ p q, p ≠ y ∨ q ≠ x → s'.hdr p q = s.hdr p q)
    (hran : ∀ p q, p ≠ y ∨ q ≠ x → s'.ranFor p q = s.ranFor p q)
    (hacp : (s'.proc_info y).status.getLsbD x = st'.acp)
    (hexe : (s'.proc_info y).status.getLsbD (x + 16) = st'.exe)
    (hpend' : s'.pending x y = st'.pending) (hhdr' : s'.hdr y x = st'.hdr)
    (hstored : st'.Stored (s.proc_info y))
    (hlog : s'.ranFor y x ++ st'.missing = s.ranFor y x ++ st.missing) : SmpcInv s' := by
  have hok {pc : SmpcPc F V} {i : SmpcPinfo F V} {status : UW} (hpc : pc.Ok i) :
      pc.Ok { i with status := status } := by
    cases pc <;> exact hpc
  have hstored' {st : SmpcStage F V} {i : SmpcPinfo F V} {status : UW} (hst : st.Stored i) :
      st.Stored { i with status := status } := by
    cases st <;> exact hst
  refine ⟨fun p => ?_, fun p n hn hn' => ?_, fun p => ?_, fun p q => ?_⟩
  · obtain ⟨status, hp, -⟩ := hi p
    rw [hp]
    exact h.mask p
  · obtain ⟨status, hp, hbits⟩ := hi p
    rw [hp]
    exact (hbits n hn).1 hn'
  · obtain ⟨status, hp, -⟩ := hi p
    rw [hm, hp]
    exact hok (h.ok p)
  obtain ⟨status, hp, hbits⟩ := hi p
  have hq := prid_lt q
  by_cases hpq : p = y ∧ q = x
  · obtain ⟨rfl, rfl⟩ := hpq
    refine ⟨st', hacp, hexe, hpend', hhdr', ?_, ?_, ?_, fun hself => absurd (hst.self hself) hidle⟩
    · rw [hm]
      exact hst.allows.move hfresh hidle hfresh'
    · rw [hp]
      exact hstored' hstored
    · have hne : p ≠ q := fun hself => hidle (hst.self hself)
      have hold := hst.log
      rw [if_neg hne] at hold ⊢
      rw [hlog, hold, askedFor, askedFor, hasked]
  · have hpq : p ≠ y ∨ q ≠ x := by tauto
    obtain ⟨st₀, hst₀⟩ := h.stage p q
    have hbit {n : ℕ} (hn : n < 32) (hmod : n % 16 = q) :
        status.getLsbD n = (s.proc_info p).status.getLsbD n := by
      refine (hbits n hn).2 (hpq.imp id fun hq => ?_)
      rw [hmod]
      exact fun hf => hq (Fin.ext hf)
    refine ⟨st₀, ?_, ?_, ?_, ?_, ?_, ?_, ?_, hst₀.self⟩
    · rw [hp]
      exact (hbit (by omega) (Nat.mod_eq_of_lt (by omega))).trans hst₀.acp
    · rw [hp]
      exact (hbit (by omega) (by omega)).trans hst₀.exe
    · rw [hpend p q hpq, hst₀.pending]
    · rw [hhdr p q hpq, hst₀.hdr]
    · rw [hm]
      exact hst₀.allows
    · rw [hp]
      exact hstored' hst₀.stored
    · rw [hran p q hpq, hm, askedFor, hasked]
      exact hst₀.log

theorem hdr_of_handler {p q : Prid} {pc : SmpcHdr F} (hh : s.handler q = some (y, pc)) :
    s.hdr p q = if y = p then some pc else none := by
  rw [hdr, hh]
  rfl

theorem hdr_setHandler {p q : Prid} {o : Option (SmpcHdr F)} (hx : ∀ p ≠ y, s.hdr p x = none)
    (h : p ≠ y ∨ q ≠ x) : (s.setHandler x (o.map (y, ·))).hdr p q = s.hdr p q := by
  rw [hdr, setHandler]
  by_cases hq : q = x
  · subst hq
    have hp : p ≠ y := h.resolve_right (not_not.mpr rfl)
    dsimp only
    rw [Function.update_self, hx p hp]
    cases o with
    | none => rfl
    | some pc => exact if_neg (Ne.symm hp)
  · dsimp only
    rw [Function.update_of_ne hq]
    rfl

theorem hdr_setHandler_self (o : Option (SmpcHdr F)) :
    (s.setHandler x (o.map (y, ·))).hdr y x = o := by
  rw [hdr, setHandler]
  dsimp only
  rw [Function.update_self]
  cases o with
  | none => rfl
  | some pc => exact if_pos rfl

theorem hdr_of_ne {pc : SmpcHdr F} (hh : s.handler x = some (y, pc)) {p : Prid} (hp : p ≠ y) :
    s.hdr p x = none := by
  rw [hdr_of_handler hh, if_neg (Ne.symm hp)]

theorem hdr_of_none (hh : s.handler x = none) (p : Prid) : s.hdr p x = none := by
  rw [hdr, hh]
  rfl

theorem SmpcInv.interrupt (h : SmpcInv s) (hh : s.handler x = none) (hp : s.pending x y = true) :
    SmpcInv (s.clrIpi x y |>.setEnabled x false |>.setHandler x (some (y, .acp))) := by
  obtain ⟨st, hst⟩ := h.stage y x
  have hpend := hst.pending
  rw [hp] at hpend
  have hhdr (p q : Prid) (hpq : p ≠ y ∨ q ≠ x) :=
    hdr_setHandler (s := s) (o := some .acp) (fun p _ => hdr_of_none hh p) hpq
  cases st with
  | sent call =>
    refine h.handled (.entered call) hst id (by simp) id rfl rfl
      (fun p => ⟨(s.proc_info p).status, rfl, fun n hn => ⟨h.high p n hn, fun _ => rfl⟩⟩)
      (fun p q hpq => ?_) hhdr
      (fun _ _ _ => rfl) hst.acp hst.exe ?_ (hdr_setHandler_self (some .acp)) hst.stored rfl
    · change Function.update s.pending x (Function.update (s.pending x) y false) q p = s.pending q p
      by_cases hq : q = x
      · subst hq
        rw [Function.update_self, Function.update_of_ne (hpq.resolve_right (not_not.mpr rfl))]
      · rw [Function.update_of_ne hq]
    · change Function.update s.pending x (Function.update (s.pending x) y false) x y = false
      rw [Function.update_self, Function.update_self]
  | idle => cases hpend
  | chosen call | posting call | entered call | accepted call | loaded call => cases hpend
  | executed => cases hpend

theorem clear_bit (h : SmpcInv s) {m : ℕ} (hm : m % 16 = x) (p : Prid) :
    ∃ status, (s.setStatus y ((s.proc_info y).status &&& ~~~((1 : UW) <<< m))).proc_info p =
        { s.proc_info p with status := status } ∧
      ∀ n < 32, (MAX_PROC_NUM ≤ n % 16 → status.getLsbD n = false) ∧
        (p ≠ y ∨ n % 16 ≠ x → status.getLsbD n = (s.proc_info p).status.getLsbD n) := by
  by_cases hp : p = y
  · subst hp
    refine ⟨_, Function.update_self .., fun n hn => ?_⟩
    rw [getLsbD_clear _ hn]
    refine ⟨fun hn' => by rw [h.high p n hn hn', Bool.false_and], fun hne => ?_⟩
    have hnm : n ≠ m := by
      rintro rfl
      exact hne.elim (absurd rfl) (absurd hm)
    rw [decide_eq_true hnm, Bool.and_true]
  · exact ⟨(s.proc_info p).status, Function.update_of_ne hp .., fun n hn =>
      ⟨h.high p n hn, fun _ => rfl⟩⟩

theorem SmpcInv.clrAcp (h : SmpcInv s) (hh : s.handler x = some (y, .acp)) :
    SmpcInv (s.setStatus y ((s.proc_info y).status &&& ~~~ACP_BIT x) |>.setHandler x
      (some (y, .func))) := by
  obtain ⟨st, hst⟩ := h.stage y x
  have hhdr := (hst.hdr.symm.trans (hdr_of_handler hh)).trans (if_pos rfl)
  have hx := prid_lt x
  have hinfo : (s.setStatus y ((s.proc_info y).status &&& ~~~ACP_BIT x)).proc_info y =
      { s.proc_info y with status := (s.proc_info y).status &&& ~~~ACP_BIT x } :=
        Function.update_self ..
  cases st with
  | entered call =>
    refine h.handled (.accepted call) hst id (by simp) id rfl rfl
      (clear_bit h (m := x) (Nat.mod_eq_of_lt (by omega))) (fun _ _ _ => rfl)
      (fun p q hpq => hdr_setHandler (o := some .func) (fun p hp => hdr_of_ne hh hp) hpq)
      (fun _ _ _ => rfl) ?_ ?_
      hst.pending (hdr_setHandler_self (some .func)) hst.stored rfl
    · change ((s.setStatus y _).proc_info y).status.getLsbD x = false
      rw [hinfo, ACP_BIT, getLsbD_clear _ (by omega)]
      simp
    · change ((s.setStatus y _).proc_info y).status.getLsbD (x + 16) = true
      rw [hinfo, ACP_BIT, getLsbD_clear _ (by omega), hst.exe]
      simp [SmpcStage.exe]
  | accepted call | loaded call => cases hhdr
  | executed => cases hhdr
  | idle => cases hhdr
  | chosen call | posting call | sent call => cases hhdr

theorem SmpcInv.loadFunc (h : SmpcInv s) {f : F} (hh : s.handler x = some (y, .func))
    (hf : (s.proc_info y).func = some f) : SmpcInv (s.setHandler x (some (y, .param f))) := by
  obtain ⟨st, hst⟩ := h.stage y x
  have hhdr := (hst.hdr.symm.trans (hdr_of_handler hh)).trans (if_pos rfl)
  cases st with
  | accepted call =>
    obtain rfl : call.1 = f := Option.some.inj (hst.stored.1.symm.trans hf)
    exact h.handled (.loaded call) hst id (by simp) id rfl rfl
      (fun p => ⟨(s.proc_info p).status, rfl, fun n hn => ⟨h.high p n hn, fun _ => rfl⟩⟩)
      (fun _ _ _ => rfl)
      (fun p q hpq => hdr_setHandler (o := some (.param call.1)) (fun p hp => hdr_of_ne hh hp) hpq)
      (fun _ _ _ => rfl)
      hst.acp hst.exe hst.pending (hdr_setHandler_self (some (.param call.1))) hst.stored rfl
  | entered call | loaded call => cases hhdr
  | executed => cases hhdr
  | idle => cases hhdr
  | chosen call | posting call | sent call => cases hhdr

theorem SmpcInv.execute (h : SmpcInv s) {f : F} {v : V} (hh : s.handler x = some (y, .param f))
    (hv : (s.proc_info y).param = some v) :
    SmpcInv (s.execute x y f v |>.setHandler x (some (y, .exe))) := by
  obtain ⟨st, hst⟩ := h.stage y x
  have hhdr := (hst.hdr.symm.trans (hdr_of_handler hh)).trans (if_pos rfl)
  cases st with
  | loaded call =>
    obtain rfl : call.1 = f := SmpcHdr.param.inj (Option.some.inj hhdr)
    obtain rfl : call.2 = v := Option.some.inj (hst.stored.2.symm.trans hv)
    refine h.handled .executed hst id (by simp) id rfl rfl
      (fun p => ⟨(s.proc_info p).status, rfl, fun n hn => ⟨h.high p n hn, fun _ => rfl⟩⟩)
      (fun _ _ _ => rfl)
      (fun p q hpq => hdr_setHandler (s := s) (o := some .exe) (fun p hp => hdr_of_ne hh hp) hpq)
      (fun p q hpq => ?_)
      hst.acp hst.exe hst.pending (hdr_setHandler_self (s := s) (some .exe)) trivial ?_
    · refine (ranFor_execute p q y call.1 call.2).trans ?_
      rw [if_neg fun hf => hpq.elim (absurd hf.2.symm) (absurd hf.1), List.append_nil]
    · refine congrArg (· ++ []) ((ranFor_execute y x y call.1 call.2).trans ?_) |>.trans
        (List.append_nil _)
      rw [if_pos ⟨rfl, rfl⟩]
      rfl
  | entered call | accepted call => cases hhdr
  | executed => cases hhdr
  | idle => cases hhdr
  | chosen call | posting call | sent call => cases hhdr

theorem SmpcInv.clrExe (h : SmpcInv s) (hh : s.handler x = some (y, .exe)) :
    SmpcInv (s.setStatus y ((s.proc_info y).status &&& ~~~EXE_BIT x) |>.setHandler x none
      |>.setEnabled x true) := by
  obtain ⟨st, hst⟩ := h.stage y x
  have hhdr := (hst.hdr.symm.trans (hdr_of_handler hh)).trans (if_pos rfl)
  have hx := prid_lt x
  have hinfo : (s.setStatus y ((s.proc_info y).status &&& ~~~EXE_BIT x)).proc_info y =
      { s.proc_info y with status := (s.proc_info y).status &&& ~~~EXE_BIT x } :=
        Function.update_self ..
  cases st with
  | executed =>
    refine h.handled .idle hst id (by simp) id rfl rfl
      (clear_bit h (m := x + EXE_SHIFT) ((Nat.add_mod_right ..).trans
        (Nat.mod_eq_of_lt (hx.trans (by decide))))) (fun _ _ _ => rfl)
      (fun p q hpq => hdr_setHandler (o := none) (fun p hp => hdr_of_ne hh hp) hpq) (fun _ _ _ =>
        rfl) ?_ ?_
      hst.pending (hdr_setHandler_self (y := y) none) trivial rfl
    · change ((s.setStatus y _).proc_info y).status.getLsbD x = false
      rw [hinfo, EXE_BIT, getLsbD_clear _ (by omega), hst.acp]
      simp [SmpcStage.acp]
    · change ((s.setStatus y _).proc_info y).status.getLsbD (x + 16) = false
      rw [hinfo, EXE_BIT, getLsbD_clear _ (by omega)]
      simp
  | entered call | accepted call | loaded call => cases hhdr
  | idle => cases hhdr
  | chosen call | posting call | sent call => cases hhdr

end Handler

theorem SmpcInv.step {s s' : SmpCall F V} (h : SmpcInv s) (step : SmpcStep s s') : SmpcInv s' := by
  cases step with
  | own p b _ hmain =>
    exact h.goes (x := p) rfl rfl rfl rfl rfl (Function.update_eq_self p s.main).symm
      (hmain ▸ trivial) (hmain ▸ trivial)
      fun q st => hmain ▸ id
  | regist p _ hmain =>
    exact h.goes (x := p) rfl rfl rfl rfl rfl (Function.update_eq_self p s.main).symm
      (hmain ▸ trivial) (hmain ▸ trivial)
      fun q st => hmain ▸ id
  | lock p _ hmain | wai p _ hmain | req p r _ hmain | unlock p _ hmain =>
    exact h.goes rfl rfl rfl rfl rfl rfl (hmain ▸ trivial) trivial fun _ _ => id
  | locked p _ hmain | waited p _ hmain | returns p sync res _ hmain =>
    exact h.goes rfl rfl rfl rfl rfl rfl (hmain ▸ trivial) trivial fun _ _ => id
  | prev p r _ hmain hexe => exact h.prev hmain hexe
  | status p r b _ hmain => exact h.status hmain
  | func p r b _ hmain => exact h.func hmain
  | param p r b _ hmain => exact h.param hmain
  | ipi p r b _ hmain => exact h.ipi hmain
  | self p r res _ hmain => exact h.self hmain
  | interrupt p source hh _ hp => exact h.interrupt hh hp
  | clrAcp p source hh => exact h.clrAcp hh
  | loadFunc p source f hh hf => exact h.loadFunc hh hf
  | execute p source f v hh hv => exact h.execute hh hv
  | clrExe p source hh => exact h.clrExe hh

theorem smpcInv_start : SmpcInv (SmpCall.start : SmpCall F V) where
  mask _ := rfl
  high p n _ _ := by
    change BitVec.getLsbD 0 n = false
    simp
  ok _ := trivial
  stage p q := by
    refine ⟨.idle, ?_, ?_, rfl, rfl, id, trivial, ?_, fun _ => rfl⟩
    · change BitVec.getLsbD 0 _ = false
      simp
    · change BitVec.getLsbD 0 _ = false
      simp
    · split_ifs <;> rfl

theorem smpcInv_run {s : SmpCall F V} (run : Relation.ReflTransGen SmpcStep SmpCall.start s) :
    SmpcInv s := by
  induction run with
  | refl => exact smpcInv_start
  | tail _ hstep ih => exact ih.step hstep

/-! ## Completion -/

section Return

open SmpCall

variable {s s' : SmpCall F V} {p : Prid} {sync : Bool} {res : UW}

/-- `smpc_req` returns as its loop ends. -/
theorem SmpcStep.returned (step : SmpcStep s s') (hm : s.main p = .wait sync res)
    (hm' : s'.main p = .held) :
    (res ≠ 0 → (s.proc_info p).status &&& (if sync then EXE_MASK else ACP_MASK) = 0) ∧
    s' = s.go p .held := by
  have hstay (hf : s.main p = .held) : False := by
    rw [hm] at hf
    cases hf
  have hgo {x : Prid} {pc pc' : SmpcPc F V} (hx : s.main x = pc) (hpc : pc ≠ .wait sync res)
      (hf : Function.update s.main x pc' p = .held) : False := by
    by_cases hp : p = x
    · exact hpc (hx.symm.trans (hp ▸ hm))
    · rw [Function.update_of_ne hp] at hf
      exact hstay hf
  cases step with
  | returns x sync' res' _ hx hloop =>
    by_cases hp : p = x
    · subst hp
      obtain ⟨rfl, rfl⟩ := SmpcPc.wait.inj (hm.symm.trans hx)
      exact ⟨hloop, rfl⟩
    · exact (hstay ((Function.update_of_ne hp ..).symm.trans hm')).elim
  | own | regist | interrupt | clrAcp | loadFunc | execute | clrExe => exact (hstay hm').elim
  | lock x _ hx | unlock x _ hx | wai x _ hx | req x r _ hx => exact (hgo hx (by simp) hm').elim
  | locked x _ hx | waited x _ hx | prev x r _ hx => exact (hgo hx (by simp) hm').elim
  | status x r b _ hx | func x r b _ hx | param x r b _ hx => exact (hgo hx (by simp) hm').elim
  | ipi x r b _ hx => exact (hgo hx (by simp) hm').elim
  | self x r b _ hx =>
    have hwait : Function.update s.main x (.wait r.sync b) p = .held := by
      split_ifs at hm' <;> exact hm'
    exact (hgo hx (by simp) hwait).elim

/-- **Calls between processors.** In every interleaving of the accesses, each processor executes the
calls that another one asks it for in their order, each exactly once with its own function and
parameter, and at any time at most one is still to come. When `smpc_req` returns, all interrupts
have been accepted, and with `sync` all calls have been executed. -/
theorem smpc_executed (run : Relation.ReflTransGen SmpcStep SmpCall.start s) :
    (∀ p q, ∃ l, s.ranFor p q ++ l = s.askedFor p q ∧ l.length ≤ 1) ∧
      ∀ p sync res s', SmpcStep s s' → s.main p = .wait sync res → s'.main p = .held →
        ∀ q, s'.pending q p = false ∧ (sync = true → s'.ranFor p q = s'.askedFor p q) := by
  have h := smpcInv_run run
  refine ⟨fun p q => ?_, fun p sync res s' hstep hm hm' q => ?_⟩
  · obtain ⟨st, hst⟩ := h.stage p q
    refine ⟨_, hst.log, ?_⟩
    split_ifs
    · cases s.main p <;> simp only [SmpcPc.own] <;> (try split_ifs) <;> simp
    · cases st <;> simp [SmpcStage.missing]
  · obtain ⟨hloop, rfl⟩ := hstep.returned hm hm'
    obtain ⟨st, hst⟩ := h.stage p q
    have hallows := hst.allows
    have hlog := hst.log
    rw [hm] at hallows hlog
    have hdone (hidle : st = .idle) : s.pending q p = false ∧ s.ranFor p q = s.askedFor p q := by
      rw [hst.pending, ← hlog, hidle]
      refine ⟨rfl, ?_⟩
      split_ifs <;> exact (List.append_nil _).symm
    change s.pending q p = false ∧ (sync = true → s.ranFor p q = s.askedFor p q)
    by_cases hres : res = 0
    · obtain ⟨hpend, hran⟩ := hdone (hallows.2 (by rw [hres]; simp))
      exact ⟨hpend, fun _ => hran⟩
    have hbits := hloop hres
    cases hsync : sync with
    | true =>
      rw [hsync, if_pos rfl] at hbits
      obtain ⟨hpend, hran⟩ := hdone (hst.eq_idle hbits hallows.1)
      exact ⟨hpend, fun _ => hran⟩
    | false =>
      rw [hsync, if_neg Bool.false_ne_true] at hbits
      have hacp := hst.acp.symm.trans (ACP_MASK_eq_zero.mp hbits q (by have := prid_lt q; omega))
      refine ⟨?_, fun hf => absurd hf Bool.false_ne_true⟩
      rw [hst.pending]
      cases st <;> first | rfl | cases hacp

/-- The first processor has the second one execute a call, and waits for it. -/
theorem smpcRun_two : ∃ s : SmpCall ℕ ℕ, Relation.ReflTransGen SmpcStep start s ∧
    s.handler 0 = none ∧
    s.main 0 = .wait true 2 ∧ (s.proc_info 0).status &&& EXE_MASK = 0 ∧
      s.askedFor 0 1 = [(5, 7)] := by
  have run := (((Relation.ReflTransGen.refl (r := SmpcStep) (a := (start : SmpCall ℕ ℕ))).tail
    (.regist 1 rfl rfl)).tail (.lock 0 rfl rfl)).tail (.locked 0 rfl rfl rfl)
  have run := (((run.tail (.req 0 ⟨5, 7, true, false⟩ rfl rfl)).tail (.prev 0 _ rfl rfl rfl)).tail
    (.status 0 _ 2 rfl rfl)).tail (.func 0 _ 2 rfl rfl)
  have run :=
    ((run.tail (.param 0 _ 2 rfl rfl)).tail (.ipi 0 _ 2 rfl rfl)).tail (.self 0 _ 2 rfl rfl)
  have run :=
    ((run.tail (.interrupt 1 0 rfl rfl rfl)).tail (.clrAcp 1 0 rfl)).tail (.loadFunc 1 0 5 rfl rfl)
  have run := (run.tail (.execute 1 0 5 7 rfl rfl)).tail (.clrExe 1 0 rfl)
  exact ⟨_, run, rfl, rfl, rfl, rfl⟩

/-- As it returns the call has been executed. -/
theorem smpc_executed_two : ∃ s : SmpCall ℕ ℕ, s.main 0 = .held ∧ s.ranFor 0 1 = [(5, 7)] := by
  obtain ⟨s, run, hh, hm, hbits, hasked⟩ := smpcRun_two
  have hstep := SmpcStep.returns 0 true 2 hh hm fun _ => hbits
  have hheld : (s.go 0 .held).main 0 = .held := by simp [SmpCall.go]
  exact ⟨_, hheld, (((smpc_executed run).2 0 true 2 _ hstep hm hheld 1).2 rfl).trans hasked⟩

end Return

end SmpTKernel
