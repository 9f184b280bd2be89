import SmpTKernel.DeviceOpen

/-!
# Open and close calls of a driver alternate

For each unit, the phases of its blocks and what the driver takes the unit to be go together. A step
changes the phase of one block, so it changes one unit, and leaves the others as they are.
-/

namespace SmpTKernel

open History

/-! ## One unit -/

/-- The block is in `openq`. -/
def OpnPhase.queued : OpnPhase → Bool
  | toOpen | inOpen | opened | failed _ | returned | closing _ => true
  | _ => false

/-- The block relies on an open unit. -/
def OpnPhase.serves : OpnPhase → Bool
  | opened | returned | closing _ => true
  | _ => false

theorem queued_of_isFailed {p : OpnPhase} (h : p.isFailed) : p.queued := by
  cases p <;> first | rfl | exact absurd h Bool.false_ne_true

theorem queued_of_serves {p : OpnPhase} (h : p.serves) : p.queued := by
  cases p <;> first | rfl | exact absurd h Bool.false_ne_true

theorem not_serves_of_isFailed {p : OpnPhase} (h : p.isFailed) : p.serves = false := by
  cases p <;> first | rfl | exact absurd h Bool.false_ne_true

theorem not_isToClose_of_queued {p : OpnPhase} (h : p.queued) : p.isToClose = false := by
  cases p <;> first | rfl | exact absurd h Bool.false_ne_true

variable {d : DrvState} {ph : ℕ → OpnPhase} {o o₀ : ℕ} {u : ℤ} {p q : OpnPhase} {ercd : ER}
  {option : BitVec 32}

/-- The first open of the unit has come to `p`, and others rely on it to succeed. -/
structure First (ph : ℕ → OpnPhase) (p : OpnPhase) (o₀ : ℕ) : Prop where
  phase : ph o₀ = p
  others : ∀ o, (ph o).queued → o = o₀ ∨ ph o = .opened

/-- Nobody uses the unit, or the first open has not called `openfn`. -/
def Waiting (ph : ℕ → OpnPhase) : Prop := (∀ o, (ph o).queued = false) ∨ ∃ o₀, First ph .toOpen o₀

/-- No `closefn` is to be called. -/
def Staying (ph : ℕ → OpnPhase) : Prop := ∀ o, (ph o).isToClose = false

/-- The states of a unit. -/
inductive UnitInv : DrvState → (ℕ → OpnPhase) → Prop
  | used {ph : ℕ → OpnPhase} (o₀ : ℕ) (first : (ph o₀).queued)
      (serves : ∀ o, (ph o).queued → (ph o).serves) (staying : Staying ph) : UnitInv .opened ph
  | leaving {ph : ℕ → OpnPhase} (c : ℕ) (last : (ph c).isToClose)
      (only : ∀ o, (ph o).isToClose → o = c) (waiting : Waiting ph) : UnitInv .opened ph
  | idle {ph : ℕ → OpnPhase} (staying : Staying ph) (waiting : Waiting ph) : UnitInv .closed ph
  | opening {ph : ℕ → OpnPhase} (o₀ : ℕ) (first : First ph .inOpen o₀) (staying : Staying ph) :
      UnitInv .opening ph
  | failed {ph : ℕ → OpnPhase} (o₀ : ℕ) (fails : (ph o₀).isFailed)
      (only : ∀ o, (ph o).queued → o = o₀) (staying : Staying ph) : UnitInv .closed ph

theorem First.update (h : First ph p o₀) : First (Function.update ph o₀ q) q o₀ := by
  refine ⟨Function.update_self .., fun o ho => ?_⟩
  rcases eq_or_ne o o₀ with rfl | hne
  · exact .inl rfl
  · rw [Function.update_of_ne hne] at ho ⊢
    exact h.others o ho

theorem First.join (h : First ph p o₀) (hne : o ≠ o₀) :
    First (Function.update ph o .opened) p o₀ := by
  refine ⟨(Function.update_of_ne hne.symm ..).trans h.phase, fun o' ho' => ?_⟩
  rcases eq_or_ne o' o with rfl | hne'
  · exact .inr (Function.update_self ..)
  · rw [Function.update_of_ne hne'] at ho' ⊢
    exact h.others o' ho'

theorem Staying.update (h : Staying ph) (hp : p.isToClose = false) :
    Staying (Function.update ph o p) := by
  intro o'
  rcases eq_or_ne o' o with rfl | hne
  · rw [Function.update_self]
    exact hp
  · rw [Function.update_of_ne hne]
    exact h o'

theorem queued_update (hp : p.queued = false) {o' : ℕ} (h : (Function.update ph o p o').queued) :
    o' ≠ o ∧ (ph o').queued := by
  rcases eq_or_ne o' o with rfl | hne
  · rw [Function.update_self, hp] at h
    exact absurd h Bool.false_ne_true
  · rw [Function.update_of_ne hne] at h
    exact ⟨hne, h⟩

theorem Waiting.of_unqueued (h : Waiting ph) (ho : (ph o).queued = false) (hp : p.queued = false) :
    Waiting (Function.update ph o p) := by
  rcases h with hnone | ⟨o₀, first⟩
  · refine .inl fun o' => ?_
    by_contra hq
    obtain ⟨-, hq'⟩ := queued_update hp (Bool.eq_true_of_not_eq_false hq)
    rw [hnone o'] at hq'
    exact absurd hq' Bool.false_ne_true
  · have hne : o₀ ≠ o := by
      rintro rfl
      rw [first.phase] at ho
      exact absurd ho (by decide)
    refine .inr ⟨o₀, (Function.update_of_ne hne ..).trans first.phase, fun o' ho' => ?_⟩
    obtain ⟨hne', hq⟩ := queued_update hp ho'
    rw [Function.update_of_ne hne']
    exact first.others o' hq

/-! ### Steps of a unit -/

/-- A block has another phase in which it is queued and relies on the unit. -/
theorem UnitInv.used_update (o₀ : ℕ) (first : (Function.update ph o p o₀).queued)
    (serves : ∀ o', o' ≠ o → (ph o').queued → (ph o').serves) (staying : Staying ph)
    (hp : p.queued → p.serves) (hstay : p.isToClose = false) :
    UnitInv .opened (Function.update ph o p) := by
  refine .used o₀ first (fun o' ho' => ?_) (staying.update hstay)
  rcases eq_or_ne o' o with rfl | hne
  · rw [Function.update_self] at ho' ⊢
    exact hp ho'
  · rw [Function.update_of_ne hne] at ho' ⊢
    exact serves o' hne ho'

/-- A block moves on outside the queue. -/
theorem UnitInv.outside (h : UnitInv d ph) (ho : (ph o).queued = false)
    (hleave : (ph o).isToClose = false) (hp : p.queued = false) (hstay : p.isToClose = false) :
    UnitInv d (Function.update ph o p) := by
  have hkeep : ∀ {o'}, (ph o').queued → o' ≠ o := by
    rintro o' hq rfl
    rw [ho] at hq
    exact absurd hq Bool.false_ne_true
  have hfirst : ∀ {q o₀}, q.queued → First ph q o₀ → First (Function.update ph o p) q o₀ := by
    intro q o₀ hq first
    have hne : o₀ ≠ o := hkeep (by rw [first.phase]; exact hq)
    refine ⟨(Function.update_of_ne hne ..).trans first.phase, fun o' ho' => ?_⟩
    obtain ⟨hne', hq'⟩ := queued_update hp ho'
    rw [Function.update_of_ne hne']
    exact first.others o' hq'
  cases h with
  | used o₀ first serves staying =>
    have hne := hkeep first
    refine .used_update o₀ ?_ (fun o' _ => serves o') staying (fun h => ?_) hstay
    · rw [Function.update_of_ne hne]
      exact first
    · exact absurd (hp.symm.trans h) Bool.false_ne_true
  | leaving c last only waiting =>
    have hne : c ≠ o := by
      rintro rfl
      rw [hleave] at last
      exact absurd last Bool.false_ne_true
    refine .leaving c ?_ (fun o' ho' => ?_) (waiting.of_unqueued ho hp)
    · rw [Function.update_of_ne hne]
      exact last
    · rcases eq_or_ne o' o with rfl | hne'
      · rw [Function.update_self, hstay] at ho'
        exact absurd ho' Bool.false_ne_true
      · rw [Function.update_of_ne hne'] at ho'
        exact only o' ho'
  | idle staying waiting => exact .idle (staying.update hstay) (waiting.of_unqueued ho hp)
  | opening o₀ first staying => exact .opening o₀ (hfirst rfl first) (staying.update hstay)
  | failed o₀ fails only staying =>
    have hne : o₀ ≠ o := by
      rintro rfl
      rw [queued_of_isFailed fails] at ho
      exact absurd ho.symm Bool.false_ne_true
    refine .failed o₀ ?_ (fun o' ho' => ?_) (staying.update hstay)
    · rw [Function.update_of_ne hne]
      exact fails
    · exact only o' (queued_update hp ho').2

/-- A block is added: the first one has yet to open the unit, the others rely on it. -/
theorem UnitInv.add (h : UnitInv d ph) (ho : ph o = .free) (hfail : ∀ o', (ph o').isFailed = false)
    (hp : p = .opened ∧ (∃ o', (ph o').queued) ∨ p = .toOpen ∧ ∀ o', (ph o').queued = false) :
    UnitInv d (Function.update ph o p) := by
  have hnew : ∀ {o'}, (ph o').queued → o' ≠ o := by
    rintro o' hq rfl
    rw [ho] at hq
    exact absurd hq Bool.false_ne_true
  have hwait : Waiting ph → Waiting (Function.update ph o p) := by
    rintro (hnone | ⟨o₀, first⟩)
    · rcases hp with ⟨-, o', hq⟩ | ⟨rfl, -⟩
      · rw [hnone o'] at hq
        exact absurd hq Bool.false_ne_true
      · refine .inr ⟨o, Function.update_self .., fun o' ho' => ?_⟩
        rcases eq_or_ne o' o with rfl | hne
        · exact .inl rfl
        · rw [Function.update_of_ne hne, hnone o'] at ho'
          exact absurd ho' Bool.false_ne_true
    · have hq : (ph o₀).queued := by rw [first.phase]; rfl
      rcases hp with ⟨rfl, -⟩ | ⟨-, hnone⟩
      · exact .inr ⟨o₀, first.join (hnew hq).symm⟩
      · rw [hnone o₀] at hq
        exact absurd hq Bool.false_ne_true
  have hstay : p.isToClose = false := by
    rcases hp with ⟨rfl, -⟩ | ⟨rfl, -⟩ <;> rfl
  have hjoin : ∀ {o'}, (ph o').queued → p = .opened := by
    intro o' hq
    rcases hp with ⟨rfl, -⟩ | ⟨-, hnone⟩
    · rfl
    · rw [hnone o'] at hq
      exact absurd hq Bool.false_ne_true
  cases h with
  | used o₀ first serves staying =>
    obtain rfl := hjoin first
    refine .used_update o₀ ?_ (fun o' _ => serves o') staying (fun _ => rfl) rfl
    rw [Function.update_of_ne (hnew first)]
    exact first
  | leaving c last only waiting =>
    have hne : c ≠ o := by
      rintro rfl
      rw [ho] at last
      exact absurd last Bool.false_ne_true
    refine .leaving c ?_ (fun o' ho' => ?_) (hwait waiting)
    · rw [Function.update_of_ne hne]
      exact last
    · rcases eq_or_ne o' o with rfl | hne'
      · rw [Function.update_self, hstay] at ho'
        exact absurd ho' Bool.false_ne_true
      · rw [Function.update_of_ne hne'] at ho'
        exact only o' ho'
  | idle staying waiting => exact .idle (staying.update hstay) (hwait waiting)
  | opening o₀ first staying =>
    have hq : (ph o₀).queued := by rw [first.phase]; rfl
    obtain rfl := hjoin hq
    exact .opening o₀ (first.join (hnew hq).symm) (staying.update rfl)
  | failed o₀ fails only staying =>
    rw [hfail o₀] at fails
    exact absurd fails Bool.false_ne_true

/-- `openfn` is called. -/
theorem UnitInv.callOpenfn (h : UnitInv d ph) (ho : ph o = .toOpen) (hstay : Staying ph) :
    d = .closed ∧ UnitInv .opening (Function.update ph o .inOpen) := by
  have hq : (ph o).queued := by rw [ho]; rfl
  cases h with
  | used o₀ first serves staying =>
    have hs := serves o hq
    rw [ho] at hs
    exact absurd hs Bool.false_ne_true
  | leaving c last only waiting =>
    rw [hstay c] at last
    exact absurd last Bool.false_ne_true
  | idle staying waiting =>
    rcases waiting with hnone | ⟨o₀, first⟩
    · rw [hnone o] at hq
      exact absurd hq Bool.false_ne_true
    · rcases first.others o hq with rfl | hopened
      · exact ⟨rfl, .opening o first.update (staying.update rfl)⟩
      · exact absurd (ho.symm.trans hopened) (by decide)
  | opening o₀ first staying =>
    rcases first.others o hq with rfl | hopened
    · exact absurd (ho.symm.trans first.phase) (by decide)
    · exact absurd (ho.symm.trans hopened) (by decide)
  | failed o₀ fails only staying =>
    obtain rfl := only o hq
    rw [ho] at fails
    exact absurd fails Bool.false_ne_true

/-- `openfn` returns. -/
theorem UnitInv.openfnReturns (h : UnitInv d ph) (ho : ph o = .inOpen)
    (halone : ercd < E_OK → ∀ o', (ph o').queued → o' = o) :
    d = .opening ∧ UnitInv (if ercd < E_OK then .closed else .opened)
      (Function.update ph o (if ercd < E_OK then .failed ercd else .opened)) := by
  have hq : (ph o).queued := by rw [ho]; rfl
  have hwait : ¬Waiting ph := by
    rintro (hnone | ⟨o₀, first⟩)
    · rw [hnone o] at hq
      exact Bool.false_ne_true hq
    · rcases first.others o hq with rfl | hopened
      · exact absurd (ho.symm.trans first.phase) (by decide)
      · exact absurd (ho.symm.trans hopened) (by decide)
  cases h with
  | used o₀ first serves staying =>
    have hs := serves o hq
    rw [ho] at hs
    exact absurd hs Bool.false_ne_true
  | leaving c last only waiting => exact absurd waiting hwait
  | idle staying waiting => exact absurd waiting hwait
  | opening o₀ first staying =>
    refine ⟨rfl, ?_⟩
    by_cases hercd : ercd < E_OK
    · rw [if_pos hercd, if_pos hercd]
      refine .failed o ?_ (fun o' ho' => ?_) (staying.update rfl)
      · rw [Function.update_self]
        rfl
      · by_contra hne
        rw [Function.update_of_ne hne] at ho'
        exact hne (halone hercd o' ho')
    · rw [if_neg hercd, if_neg hercd]
      rcases first.others o hq with rfl | hopened
      · refine .used_update o ?_ (fun o' hne ho' => ?_) staying (fun _ => rfl) rfl
        · rw [Function.update_self]
          rfl
        · rw [(first.others o' ho').resolve_left hne]
          rfl
      · exact absurd (ho.symm.trans hopened) (by decide)
  | failed o₀ fails only staying =>
    obtain rfl := only o hq
    rw [ho] at fails
    exact absurd fails Bool.false_ne_true

/-- A block that failed goes away. -/
theorem UnitInv.fails (h : UnitInv d ph) (ho : (ph o).isFailed) :
    UnitInv d (Function.update ph o .free) := by
  have hq := queued_of_isFailed ho
  have hother : ∀ {q}, q ≠ .opened → q.isFailed = false → ∀ o₀, First ph q o₀ → False := by
    intro q hne hqf o₀ first
    rcases first.others o hq with rfl | hopened
    · rw [first.phase, hqf] at ho
      exact absurd ho Bool.false_ne_true
    · rw [hopened] at ho
      exact absurd ho Bool.false_ne_true
  have hwait : ¬Waiting ph := by
    rintro (hnone | ⟨o₀, first⟩)
    · rw [hnone o] at hq
      exact Bool.false_ne_true hq
    · exact hother (by decide) rfl o₀ first
  cases h with
  | used o₀ first serves staying =>
    have hs := serves o hq
    rw [not_serves_of_isFailed ho] at hs
    exact absurd hs Bool.false_ne_true
  | leaving c last only waiting => exact absurd waiting hwait
  | idle staying waiting => exact absurd waiting hwait
  | opening o₀ first staying => exact (hother (by decide) rfl o₀ first).elim
  | failed o₀ fails only staying =>
    refine .idle (staying.update rfl) (.inl fun o' => ?_)
    by_contra hq'
    obtain ⟨hne, hq'⟩ := queued_update rfl (Bool.eq_true_of_not_eq_false hq')
    exact hne ((only o' hq').trans (only o hq).symm)

/-- Whoever has a descriptor, or closes one, uses an open unit. -/
theorem UnitInv.serving (h : UnitInv d ph) (hs : (ph o).serves) (hne : ph o ≠ .opened) :
    d = .opened ∧ (∀ o', (ph o').queued → (ph o').serves) ∧ Staying ph := by
  have hq := queued_of_serves hs
  have hother : ∀ {q}, q.serves = false → ∀ o₀, First ph q o₀ → False := by
    intro q hqs o₀ first
    rcases first.others o hq with rfl | hopened
    · rw [first.phase, hqs] at hs
      exact absurd hs Bool.false_ne_true
    · exact hne hopened
  have hwait : ¬Waiting ph := by
    rintro (hnone | ⟨o₀, first⟩)
    · rw [hnone o] at hq
      exact Bool.false_ne_true hq
    · exact hother rfl o₀ first
  cases h with
  | used o₀ first serves staying => exact ⟨rfl, serves, staying⟩
  | leaving c last only waiting => exact absurd waiting hwait
  | idle staying waiting => exact absurd waiting hwait
  | opening o₀ first staying => exact (hother rfl o₀ first).elim
  | failed o₀ fails only staying =>
    obtain rfl := only o hq
    rw [not_serves_of_isFailed fails] at hs
    exact absurd hs Bool.false_ne_true

theorem UnitInv.returns (h : UnitInv d ph) (ho : ph o = .opened)
    (hpend : ∀ o', (ph o').queued → ph o' ≠ .toOpen ∧ ph o' ≠ .inOpen) :
    UnitInv d (Function.update ph o .returned) := by
  have hq : (ph o).queued := by rw [ho]; rfl
  have hwait : ¬Waiting ph := by
    rintro (hnone | ⟨o₀, first⟩)
    · rw [hnone o] at hq
      exact Bool.false_ne_true hq
    · exact (hpend o₀ (by rw [first.phase]; rfl)).1 first.phase
  cases h with
  | used o₀ first serves staying =>
    refine .used_update o ?_ (fun o' _ => serves o') staying (fun _ => rfl) rfl
    rw [Function.update_self]
    rfl
  | leaving c last only waiting => exact absurd waiting hwait
  | idle staying waiting => exact absurd waiting hwait
  | opening o₀ first staying => exact absurd first.phase (hpend o₀ (by rw [first.phase]; rfl)).2
  | failed o₀ fails only staying =>
    obtain rfl := only o hq
    rw [ho] at fails
    exact absurd fails Bool.false_ne_true

theorem UnitInv.closes (h : UnitInv d ph) (ho : ph o = .returned) :
    UnitInv d (Function.update ph o (.closing option)) := by
  obtain ⟨rfl, serves, staying⟩ :=
    h.serving (o := o) (by rw [ho]; rfl) (by rw [ho]; exact OpnPhase.noConfusion)
  refine .used_update o ?_ (fun o' _ => serves o') staying (fun _ => rfl) rfl
  rw [Function.update_self]
  rfl

theorem UnitInv.closeOne (h : UnitInv d ph) (ho : ph o = .closing option) {o' : ℕ} (hne : o' ≠ o)
    (hq : (ph o').queued) : UnitInv d (Function.update ph o (.closed E_OK)) := by
  obtain ⟨rfl, serves, staying⟩ :=
    h.serving (o := o) (by rw [ho]; rfl) (by rw [ho]; exact OpnPhase.noConfusion)
  refine .used_update o' ?_ (fun o' _ => serves o') staying (fun h =>
    absurd h Bool.false_ne_true) rfl
  rw [Function.update_of_ne hne]
  exact hq

theorem UnitInv.closeLast (h : UnitInv d ph) (ho : ph o = .closing option)
    (halone : ∀ o', o' ≠ o → (ph o').queued = false)
    {option' : BitVec 32} : UnitInv d (Function.update ph o (.toClose option')) := by
  obtain ⟨rfl, serves, staying⟩ :=
    h.serving (o := o) (by rw [ho]; rfl) (by rw [ho]; exact OpnPhase.noConfusion)
  refine .leaving o ?_ (fun o' ho' => ?_) (.inl fun o' => ?_)
  · rw [Function.update_self]
    rfl
  · by_contra hne
    rw [Function.update_of_ne hne, staying o'] at ho'
    exact Bool.false_ne_true ho'
  · rcases eq_or_ne o' o with rfl | hne
    · rw [Function.update_self]
      rfl
    · rw [Function.update_of_ne hne]
      exact halone o' hne

theorem UnitInv.callClosefn (h : UnitInv d ph) (ho : (ph o).isToClose) :
    d = .opened ∧ UnitInv .closed (Function.update ph o .inClose) := by
  have hstay : ¬Staying ph := by
    intro staying
    rw [staying o] at ho
    exact Bool.false_ne_true ho
  cases h with
  | used o₀ first serves staying => exact absurd staying hstay
  | leaving c last only waiting =>
    obtain rfl := only o ho
    refine ⟨rfl, .idle (fun o' => ?_) (waiting.of_unqueued ?_ rfl)⟩
    · rcases eq_or_ne o' o with rfl | hne
      · rw [Function.update_self]
        rfl
      · rw [Function.update_of_ne hne]
        by_contra hc
        exact hne (only o' (Bool.eq_true_of_not_eq_false hc))
    · by_contra hq
      rw [not_isToClose_of_queued (Bool.eq_true_of_not_eq_false hq)] at ho
      exact Bool.false_ne_true ho
  | idle staying waiting => exact absurd staying hstay
  | opening o₀ first staying => exact absurd staying hstay
  | failed o₀ fails only staying => exact absurd staying hstay

/-! ## The device -/

namespace DevCB

/-- The phases of the blocks of one unit. -/
def unitPhase (s : DevCB) (unitno : ℤ) (o : ℕ) : OpnPhase :=
  if (s.opncb o).unitno = unitno then s.phase o else .free

end DevCB

theorem chkopenmode_le (s : DevCB) (unitno : ℤ) (omode : BitVec 32) :
    s.chkopenmode unitno omode ≤ E_OK := by
  unfold DevCB.chkopenmode
  dsimp only
  split_ifs <;> decide

structure DevInv (s : DevCB) : Prop where
  noOpenreq : s.drvatr &&& TDA_OPENREQ = 0
  nodup : s.openq.Nodup
  queued : ∀ o, o ∈ s.openq ↔ (s.phase o).queued
  described : ∀ o, (s.opncb o).resid ≠ 0 ↔ s.phase o = .returned
  alternate : Right Paired s.log
  unit : ∀ u, UnitInv (drvState u s.log) (s.unitPhase u)

/-- What a step does: block `o` comes to `p`, the other blocks stay as they are. -/
structure DevMoves (s s' : DevCB) (o : ℕ) (p : OpnPhase) : Prop where
  drvatr : s'.drvatr = s.drvatr
  phase : s'.phase = Function.update s.phase o p
  unitno : (s'.opncb o).unitno = (s.opncb o).unitno ∨ s.phase o = .free
  opncb : ∀ o', o' ≠ o → s'.opncb o' = s.opncb o'
  mem : ∀ o', o' ≠ o → (o' ∈ s'.openq ↔ o' ∈ s.openq)

variable {s s' : DevCB} {rid : ℕ} {unitno : ℤ}

theorem DevMoves.unitPhase (h : DevMoves s s' o p) :
    s'.unitPhase (s'.opncb o).unitno = Function.update (s.unitPhase (s'.opncb o).unitno) o p := by
  funext o'
  rcases eq_or_ne o' o with rfl | hne
  · rw [Function.update_self, DevCB.unitPhase, if_pos rfl, h.phase, Function.update_self]
  · rw [Function.update_of_ne hne, DevCB.unitPhase, DevCB.unitPhase, h.opncb o' hne, h.phase,
      Function.update_of_ne hne]

theorem DevMoves.unitPhase_other (h : DevMoves s s' o p) (hu : (s'.opncb o).unitno ≠ u) :
    s'.unitPhase u = s.unitPhase u := by
  funext o'
  rcases eq_or_ne o' o with rfl | hne
  · rw [DevCB.unitPhase, DevCB.unitPhase, if_neg hu]
    rcases h.unitno with heq | hfree
    · rw [if_neg (heq ▸ hu)]
    · rw [hfree, ite_self]
  · rw [DevCB.unitPhase, DevCB.unitPhase, h.opncb o' hne, h.phase, Function.update_of_ne hne]

/-- A block goes on, and the driver sees at most something of its unit. -/
theorem DevInv.moves (inv : DevInv s) (h : DevMoves s s' o p) (nodup : s'.openq.Nodup)
    (hqueued : o ∈ s'.openq ↔ p.queued) (hresid : (s'.opncb o).resid ≠ 0 ↔ p = .returned)
    (halt : Right Paired s'.log)
    (hdrv : ∀ u, (s'.opncb o).unitno ≠ u → drvState u s'.log = drvState u s.log)
    (hunit : UnitInv (drvState (s'.opncb o).unitno s'.log)
      (Function.update (s.unitPhase (s'.opncb o).unitno) o p)) :
    DevInv s' := by
  refine ⟨h.drvatr.symm ▸ inv.noOpenreq, nodup, fun o' => ?_, fun o' => ?_, halt, fun u => ?_⟩
  · rw [h.phase]
    rcases eq_or_ne o' o with rfl | hne
    · rw [Function.update_self]
      exact hqueued
    · rw [Function.update_of_ne hne, h.mem o' hne]
      exact inv.queued o'
  · rw [h.phase]
    rcases eq_or_ne o' o with rfl | hne
    · rw [Function.update_self]
      exact hresid
    · rw [Function.update_of_ne hne, h.opncb o' hne]
      exact inv.described o'
  · rcases eq_or_ne (s'.opncb o).unitno u with rfl | hne
    · rw [h.unitPhase]
      exact hunit
    · rw [h.unitPhase_other hne, hdrv u hne]
      exact inv.unit u

theorem moves_goTo (s : DevCB) (o : ℕ) (p : OpnPhase) : DevMoves s (s.goTo o p) o p :=
  ⟨rfl, rfl, .inl rfl, fun _ _ => rfl, fun _ _ => Iff.rfl⟩

theorem unitPhase_self (s : DevCB) (o : ℕ) : s.unitPhase (s.opncb o).unitno o = s.phase o :=
  if_pos rfl

theorem mem_of_unitPhase (inv : DevInv s) (h : (s.unitPhase u o).queued) :
    o ∈ s.openq ∧ (s.opncb o).unitno = u := by
  rw [DevCB.unitPhase] at h
  by_cases hu : (s.opncb o).unitno = u
  · rw [if_pos hu] at h
    exact ⟨(inv.queued o).mpr h, hu⟩
  · rw [if_neg hu] at h
    exact absurd h Bool.false_ne_true

theorem unitPhase_of_unitno (hu : (s.opncb o).unitno = u) : s.unitPhase u o = s.phase o := if_pos hu

theorem unitPhase_of_ne (hu : (s.opncb o).unitno ≠ u) : s.unitPhase u o = .free := if_neg hu

/-! ### Opening -/

theorem chkopen_iff (inv : DevInv s) : s.chkopen u ↔ ∃ o, (s.unitPhase u o).queued := by
  unfold DevCB.chkopen
  rw [List.any_eq_true]
  constructor
  · rintro ⟨o, ho, hu⟩
    refine ⟨o, ?_⟩
    rw [unitPhase_of_unitno (of_decide_eq_true hu)]
    exact (inv.queued o).mp ho
  · rintro ⟨o, hq⟩
    obtain ⟨ho, hu⟩ := mem_of_unitPhase inv hq
    exact ⟨o, ho, decide_eq_true hu⟩

theorem DevInv.opnDev (inv : DevInv s) {omode : BitVec 32} {new : Option ℕ}
    (legal : (DevOp.opnDev unitno omode new).Legal s)
    (hop : (DevOp.opnDev unitno omode new).Keeps s) :
    DevInv (s.opnDev unitno omode new).2 := by
  unfold DevCB.opnDev
  by_cases hno : unitno > s.nsub
  · rw [if_pos hno]
    exact inv
  rw [if_neg hno]
  by_cases hmode : s.chkopenmode unitno omode < E_OK
  · rw [if_pos hmode]
    exact inv
  rw [if_neg hmode]
  cases new with
  | none => exact inv
  | some o =>
    have hfree : s.phase o = .free := legal o rfl
    have hmem : o ∉ s.openq := by
      rw [inv.queued o, hfree]
      exact Bool.false_ne_true
    have hok : s.chkopenmode unitno omode = E_OK :=
      le_antisymm (chkopenmode_le s unitno omode) (not_lt.mp hmode)
    have hfail : ∀ o', (s.unitPhase unitno o').isFailed = false := by
      intro o'
      by_contra hf
      have hf := Bool.eq_true_of_not_eq_false hf
      obtain ⟨ho', hu⟩ := mem_of_unitPhase inv (queued_of_isFailed hf)
      rw [unitPhase_of_unitno hu, hop (Option.some_ne_none o) (not_lt.mp hno) hok o' ho' hu] at hf
      exact Bool.false_ne_true hf
    have hself : s.unitPhase unitno o = .free := by
      rw [DevCB.unitPhase, hfree, ite_self]
    have hmoves : ∀ p, DevMoves s ((s.newOpnCB o unitno omode).goTo o p) o p := by
      intro p
      refine ⟨rfl, rfl, .inr hfree, fun o' hne => Function.update_of_ne hne .., fun o' hne => ?_⟩
      exact ⟨fun h => (List.mem_append.mp h).resolve_right (mt List.mem_singleton.mp hne),
        List.mem_append_left _⟩
    have hopn : ∀ p, ((s.newOpnCB o unitno omode).goTo o p).opncb o = ⟨unitno, omode, 0⟩ := fun p =>
      Function.update_self ..
    have hnodup : (s.openq ++ [o]).Nodup := by
      rw [← List.concat_eq_append]
      exact inv.nodup.concat hmem
    have hlast : o ∈ s.openq ++ [o] := List.mem_append_right _ (List.mem_singleton_self o)
    by_cases hopen : s.chkopen unitno ∧ s.drvatr &&& TDA_OPENREQ = 0
    · simp only [if_pos hopen]
      refine inv.moves (hmoves .opened) hnodup ⟨fun _ => rfl, fun _ => hlast⟩ ?_ inv.alternate
        (fun _ _ => rfl) ?_
      · rw [hopn]
        exact iff_of_false (fun h => h rfl) (by decide)
      · rw [hopn]
        exact (inv.unit unitno).add hself hfail (.inl ⟨rfl, (chkopen_iff inv).mp hopen.1⟩)
    · simp only [if_neg hopen]
      refine inv.moves (hmoves .toOpen) hnodup ⟨fun _ => rfl, fun _ => hlast⟩ ?_ inv.alternate
        (fun _ _ => rfl) ?_
      · rw [hopn]
        exact iff_of_false (fun h => h rfl) (by decide)
      · rw [hopn]
        refine (inv.unit unitno).add hself hfail (.inr ⟨rfl, fun o' => ?_⟩)
        by_contra hq
        exact hopen ⟨(chkopen_iff inv).mpr ⟨o', Bool.eq_true_of_not_eq_false hq⟩, inv.noOpenreq⟩

theorem drvState_concat (log : List DrvEvent) (e : DrvEvent) :
    drvState u (log ++ [e]) = drvStep u (drvState u log) e := summary_concat ..

theorem DevInv.callOpenfn (inv : DevInv s) (ho : s.phase o = .toOpen)
    (hop : (DevOp.callOpenfn o).Keeps s) :
    DevInv (s.callOpenfn o) := by
  have hself := unitPhase_self s o
  have hstay : Staying (s.unitPhase (s.opncb o).unitno) := by
    intro c
    by_cases hc : (s.opncb c).unitno = (s.opncb o).unitno
    · rw [unitPhase_of_unitno hc]
      exact hop c hc
    · rw [unitPhase_of_ne hc]
      rfl
  obtain ⟨hd, hunit⟩ := (inv.unit _).callOpenfn (hself.trans ho) hstay
  have hmem : o ∈ s.openq := (inv.queued o).mpr (by rw [ho]; rfl)
  have hresid : (s.opncb o).resid ≠ 0 ↔ OpnPhase.inOpen = .returned := by
    rw [inv.described o, ho]
    decide
  have hm : DevMoves s (s.callOpenfn o) o .inOpen :=
    ⟨rfl, rfl, .inl rfl, fun _ _ => rfl, fun _ _ => Iff.rfl⟩
  refine inv.moves hm inv.nodup
    ⟨fun _ => rfl, fun _ => hmem⟩ hresid (inv.alternate.concat hd) (fun u hu => ?_) ?_
  · exact (drvState_concat ..).trans (if_neg hu)
  · have hd' : drvState (s.opncb o).unitno (s.callOpenfn o).log = .opening :=
      (drvState_concat ..).trans (if_pos rfl)
    show UnitInv (drvState (s.opncb o).unitno (s.callOpenfn o).log) _
    rw [hd']
    exact hunit

theorem DevInv.openfnReturns (inv : DevInv s) (ho : s.phase o = .inOpen)
    (hop : (DevOp.openfnReturns o ercd).Keeps s) :
    DevInv (s.openfnReturns o ercd) := by
  have hself := unitPhase_self s o
  have halone : ercd < E_OK → ∀ o', (s.unitPhase (s.opncb o).unitno o').queued → o' = o := by
    intro hercd o' hq
    obtain ⟨ho', hu⟩ := mem_of_unitPhase inv hq
    exact hop hercd o' ho' hu
  obtain ⟨hd, hunit⟩ := (inv.unit _).openfnReturns (hself.trans ho) halone
  have hmem : o ∈ s.openq := (inv.queued o).mpr (by rw [ho]; rfl)
  have hphase : (if ercd < E_OK then OpnPhase.failed ercd else .opened).queued ∧
      (if ercd < E_OK then OpnPhase.failed ercd else .opened) ≠ .returned := by
    split_ifs
    · exact ⟨rfl, OpnPhase.noConfusion⟩
    · exact ⟨rfl, OpnPhase.noConfusion⟩
  have hresid : (s.opncb o).resid ≠ 0 ↔ (if ercd < E_OK then OpnPhase.failed ercd else .opened) =
      .returned := by
    rw [inv.described o, ho]
    exact iff_of_false (by decide) hphase.2
  have hm : DevMoves s (s.openfnReturns o ercd) o (if ercd < E_OK then .failed ercd else .opened) :=
    ⟨rfl, rfl, .inl rfl, fun _ _ => rfl, fun _ _ => Iff.rfl⟩
  refine inv.moves hm inv.nodup
    ⟨fun _ => hphase.1, fun _ => hmem⟩ hresid (inv.alternate.concat hd) (fun u hu => ?_) ?_
  · exact (drvState_concat ..).trans (if_neg hu)
  · have hd' : drvState (s.opncb o).unitno (s.openfnReturns o ercd).log = if ercd < E_OK then
        .closed else .opened :=
      (drvState_concat ..).trans (if_pos rfl)
    show UnitInv (drvState (s.opncb o).unitno (s.openfnReturns o ercd).log) _
    rw [hd']
    exact hunit

theorem setResid_other {o' : ℕ} (hne : o' ≠ o) : (s.setResid o rid).opncb o' = s.opncb o' :=
  Function.update_of_ne hne ..

theorem setResid_self : (s.setResid o rid).opncb o = { s.opncb o with resid := rid } :=
  Function.update_self ..

theorem DevInv.opnDevReturns (inv : DevInv s) (ho : s.phase o = .opened) (hrid : 0 < rid)
    (hop : (DevOp.opnDevReturns o rid).Keeps s) : DevInv (s.opnDevReturns o rid) := by
  have hopn : (s.opnDevReturns o rid).opncb o = { s.opncb o with resid := rid } := setResid_self
  have hmem : o ∈ s.openq := (inv.queued o).mpr (by rw [ho]; rfl)
  have hm : DevMoves s (s.opnDevReturns o rid) o .returned :=
    ⟨rfl, rfl, .inl (by rw [hopn]), fun _ hne => setResid_other hne, fun _ _ => Iff.rfl⟩
  refine inv.moves hm inv.nodup
    ⟨fun _ => rfl, fun _ => hmem⟩ ?_ inv.alternate (fun _ _ => rfl) ?_
  · rw [hopn]
    exact iff_of_true hrid.ne' rfl
  · rw [hopn]
    refine (inv.unit _).returns ((unitPhase_self s o).trans ho) fun o' hq => ?_
    obtain ⟨ho', hu⟩ := mem_of_unitPhase inv hq
    rw [unitPhase_of_unitno hu]
    exact hop o' ho' hu

/-! ### Closing -/

theorem delOpnCB_self : (s.delOpnCB o).opncb o = { s.opncb o with resid := 0 } := setResid_self

theorem delOpnCB_mem (inv : DevInv s) {o' : ℕ} :
    o' ∈ (s.delOpnCB o).openq ↔ o' ≠ o ∧ o' ∈ s.openq :=
  inv.nodup.mem_erase_iff

theorem DevInv.del (inv : DevInv s) (hq : p.queued = false)
    (hunit : UnitInv (drvState (s.opncb o).unitno s.log)
      (Function.update (s.unitPhase (s.opncb o).unitno) o p)) :
    DevInv ((s.delOpnCB o).goTo o p) := by
  have hopn : ((s.delOpnCB o).goTo o p).opncb o = { s.opncb o with resid := 0 } := delOpnCB_self
  have hp : p ≠ .returned := by
    rintro rfl
    exact absurd hq (by decide)
  have hm : DevMoves s ((s.delOpnCB o).goTo o p) o p :=
    ⟨rfl, rfl, .inl (by rw [hopn]), fun _ hne => setResid_other hne,
      fun o' hne => (delOpnCB_mem inv).trans (and_iff_right hne)⟩
  refine inv.moves hm (inv.nodup.erase o) ?_ ?_ inv.alternate (fun _ _ => rfl) ?_
  · rw [hq]
    exact iff_of_false (fun h => ((delOpnCB_mem inv).mp h).1 rfl) Bool.false_ne_true
  · rw [hopn]
    exact iff_of_false (fun h => h rfl) hp
  · rw [hopn]
    exact hunit

theorem DevInv.opnDevFails (inv : DevInv s) (ho : (s.phase o).isFailed) :
    DevInv (s.opnDevFails o) :=
  inv.del rfl ((inv.unit _).fails (by rw [unitPhase_self]; exact ho))

theorem DevInv.clsDev (inv : DevInv s) : DevInv (s.clsDev o rid option).2 := by
  unfold DevCB.clsDev
  by_cases hchk : s.checkDevdesc o rid < E_OK
  · rw [if_pos hchk]
    exact inv
  rw [if_neg hchk]
  have hresid : (s.opncb o).resid ≠ 0 := by
    intro h
    rw [DevCB.checkDevdesc, if_pos h] at hchk
    exact hchk (by decide)
  have ho := (inv.described o).mp hresid
  have hopn : ((s.setResid o 0).goTo o (.closing option)).opncb o = { s.opncb o with resid := 0 } :=
    setResid_self
  have hmem : o ∈ s.openq := (inv.queued o).mpr (by rw [ho]; rfl)
  have hm : DevMoves s ((s.setResid o 0).goTo o (.closing option)) o (.closing option) :=
    ⟨rfl, rfl, .inl (by rw [hopn]), fun _ hne => setResid_other hne, fun _ _ => Iff.rfl⟩
  refine inv.moves hm inv.nodup
    ⟨fun _ => rfl, fun _ => hmem⟩ ?_ inv.alternate (fun _ _ => rfl) ?_
  · rw [hopn]
    exact iff_of_false (fun h => h rfl) OpnPhase.noConfusion
  · rw [hopn]
    exact (inv.unit _).closes ((unitPhase_self s o).trans ho)

theorem DevInv.closeDevice (inv : DevInv s) (ho : s.phase o = .closing option) :
    DevInv (s.closeDevice o option) := by
  have hself := (unitPhase_self s o).trans ho
  have hothers : (s.delOpnCB o).chkopen (s.opncb o).unitno ↔
      ∃ o', o' ≠ o ∧ (s.unitPhase (s.opncb o).unitno o').queued := by
    unfold DevCB.chkopen
    rw [List.any_eq_true]
    constructor
    · rintro ⟨o', ho', hu⟩
      obtain ⟨hne, hmem⟩ := (delOpnCB_mem inv).mp ho'
      have hu : ((s.delOpnCB o).opncb o').unitno = (s.opncb o).unitno := of_decide_eq_true hu
      rw [show (s.delOpnCB o).opncb o' = s.opncb o' from setResid_other hne] at hu
      refine ⟨o', hne, ?_⟩
      rw [unitPhase_of_unitno hu]
      exact (inv.queued o').mp hmem
    · rintro ⟨o', hne, hq⟩
      obtain ⟨hmem, hu⟩ := mem_of_unitPhase inv hq
      refine ⟨o', (delOpnCB_mem inv).mpr ⟨hne, hmem⟩, decide_eq_true ?_⟩
      rw [show (s.delOpnCB o).opncb o' = s.opncb o' from setResid_other hne]
      exact hu
  unfold DevCB.closeDevice
  by_cases hopen : (s.delOpnCB o).chkopen (s.opncb o).unitno
  · simp only [hopen, inv.noOpenreq, if_true]
    obtain ⟨o', hne, hq⟩ := hothers.mp hopen
    exact inv.del rfl ((inv.unit _).closeOne hself hne hq)
  · simp only [hopen]
    refine inv.del rfl ((inv.unit _).closeLast hself fun o' hne => ?_)
    by_contra hq
    exact hopen (hothers.mpr ⟨o', hne, Bool.eq_true_of_not_eq_false hq⟩)

theorem unqueued_of_isToClose {p : OpnPhase} (h : p.isToClose) :
    p.queued = false ∧ p ≠ .returned := by
  cases p <;> first | exact ⟨rfl, OpnPhase.noConfusion⟩ | exact absurd h Bool.false_ne_true

theorem DevInv.callClosefn (inv : DevInv s) (ho : (s.phase o).isToClose) :
    DevInv (s.callClosefn o) := by
  obtain ⟨hq, hret⟩ := unqueued_of_isToClose ho
  obtain ⟨hd, hunit⟩ := (inv.unit _).callClosefn (by rw [unitPhase_self]; exact ho)
  have hmem : o ∉ s.openq := by
    rw [inv.queued o, hq]
    exact Bool.false_ne_true
  have hresid : (s.opncb o).resid ≠ 0 ↔ OpnPhase.inClose = .returned := by
    rw [inv.described o]
    exact iff_of_false hret (by decide)
  have hm : DevMoves s (s.callClosefn o) o .inClose :=
    ⟨rfl, rfl, .inl rfl, fun _ _ => rfl, fun _ _ => Iff.rfl⟩
  refine inv.moves hm inv.nodup
    (iff_of_false hmem Bool.false_ne_true) hresid (inv.alternate.concat hd) (fun u hu => ?_) ?_
  · exact (drvState_concat ..).trans (if_neg hu)
  · have hd' : drvState (s.opncb o).unitno (s.callClosefn o).log = .closed :=
      (drvState_concat ..).trans (if_pos rfl)
    show UnitInv (drvState (s.opncb o).unitno (s.callClosefn o).log) _
    rw [hd']
    exact hunit

theorem DevInv.outside (inv : DevInv s) (ho : (s.phase o).queued = false)
    (hleave : (s.phase o).isToClose = false) (hp : p.queued = false) (hstay : p.isToClose = false) :
    DevInv (s.goTo o p) := by
  have hnot : ∀ {q : OpnPhase}, q.queued = false → q ≠ .returned := by
    rintro q hq rfl
    exact absurd hq (by decide)
  have hmem : o ∉ s.openq := by
    rw [inv.queued o, ho]
    exact Bool.false_ne_true
  refine inv.moves (moves_goTo s o p) inv.nodup
    (iff_of_false hmem (by rw [hp]; exact Bool.false_ne_true)) ?_ inv.alternate
    (fun _ _ => rfl) ((inv.unit _).outside ?_ ?_ hp hstay)
  · show (s.opncb o).resid ≠ 0 ↔ _
    rw [inv.described o]
    exact iff_of_false (hnot ho) (hnot hp)
  · rw [show ((s.goTo o p).opncb o).unitno = (s.opncb o).unitno from rfl, unitPhase_self]
    exact ho
  · rw [show ((s.goTo o p).opncb o).unitno = (s.opncb o).unitno from rfl, unitPhase_self]
    exact hleave

/-! ## Runs -/

theorem DevInv.exec (inv : DevInv s) {op : DevOp} (legal : op.Legal s) (hop : op.Keeps s) :
    DevInv (op.exec s) := by
  cases op with
  | opnDev unitno omode new => exact inv.opnDev legal hop
  | callOpenfn o => exact inv.callOpenfn legal hop
  | openfnReturns o ercd => exact inv.openfnReturns legal hop
  | opnDevReturns o rid => exact inv.opnDevReturns legal.1 legal.2 hop
  | opnDevFails o => exact inv.opnDevFails legal
  | clsDev o rid option => exact inv.clsDev
  | closeDevice o option => exact inv.closeDevice legal
  | callClosefn o => exact inv.callClosefn legal
  | closefnReturns o ercd =>
    have ho : s.phase o = .inClose := legal
    refine inv.outside ?_ ?_ rfl rfl
    · rw [ho]
      rfl
    · rw [ho]
      rfl
  | freeOpnCB o =>
    obtain ⟨ercd, ho⟩ := legal
    refine inv.outside ?_ ?_ rfl rfl
    · rw [ho]
      rfl
    · rw [ho]
      rfl

theorem DevCB.Unused.inv (h : s.Unused) (hreq : s.drvatr &&& TDA_OPENREQ = 0) : DevInv s := by
  have hphase : ∀ u o, s.unitPhase u o = .free := by
    intro u o
    rw [DevCB.unitPhase, h.phase o, ite_self]
  refine ⟨hreq, ?_, fun o => ?_, fun o => ?_, ?_, fun u => ?_⟩
  · rw [h.openq]
    exact List.nodup_nil
  · rw [h.openq, h.phase o]
    exact iff_of_false List.not_mem_nil Bool.false_ne_true
  · rw [h.phase o]
    exact iff_of_false (fun hne => hne (h.resid o)) (by decide)
  · rw [h.log]
    exact right_nil
  · rw [h.log]
    refine .idle (fun o => ?_) (.inl fun o => ?_)
    · rw [hphase]
      rfl
    · rw [hphase]
      rfl

variable {s₀ : DevCB}

theorem DevRun.inv (run : DevRun DevOp.Keeps s₀ s) (hreq : s₀.drvatr &&& TDA_OPENREQ = 0) :
    DevInv s := by
  induction run with
  | start h => exact h.inv hreq
  | step op _ legal h ih => exact ih.exec legal h

/-- A unit that is open has been opened with success, and not been closed since. -/
theorem opened_since {log : List DrvEvent} (h : drvState u log = .opened) :
    ∃ a ercd b, E_OK ≤ ercd ∧ log = a ++ .openReturned u ercd :: b ∧ .closeCalled u ∉ b := by
  have hnot : ¬DrvState.closed = .opened := by decide
  obtain ⟨a, e, b, hlog, hbefore, hsince⟩ := exists_since (P := (· = DrvState.opened)) hnot h
  have he : drvStep u (drvState u a) e = .opened := by
    have hat := hsince [] b rfl
    rwa [summary_concat] at hat
  have hclose : .closeCalled u ∉ b := by
    intro hmem
    obtain ⟨b₁, b₂, rfl⟩ := List.append_of_mem hmem
    have hat := hsince (b₁ ++ [.closeCalled u]) b₂ (List.append_cons ..)
    rw [← List.cons_append, ← List.append_assoc, summary_concat] at hat
    exact hnot ((if_pos rfl).symm.trans hat)
  cases e with
  | openCalled u' =>
    rw [drvStep] at he
    split_ifs at he
    exact absurd he hbefore
  | openReturned u' ercd =>
    rw [drvStep] at he
    split_ifs at he with hu hercd
    · subst hu
      exact ⟨a, ercd, b, not_lt.mp hercd, hlog, hclose⟩
    · exact absurd he hbefore
  | closeCalled u' =>
    rw [drvStep] at he
    split_ifs at he
    exact absurd he hbefore

theorem DevInv.right (inv : DevInv s) : DevRight s := by
  refine ⟨inv.alternate, fun o hresid => ?_⟩
  have ho := (inv.described o).mp hresid
  have hself := (unitPhase_self s o).trans ho
  have hserves : (s.unitPhase (s.opncb o).unitno o).serves := by rw [hself]; rfl
  have hne : s.unitPhase (s.opncb o).unitno o ≠ .opened := by rw [hself]; exact OpnPhase.noConfusion
  exact opened_since ((inv.unit _).serving hserves hne).1

end SmpTKernel
