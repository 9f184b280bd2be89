import SmpTKernel.HandlerQueues

/-!
# Handlers and their events

The event of a handler is in a queue exactly while the handler is started. A routine that moves an
event and changes the mark of its owner to match keeps this; the check of the handler queues and
their execution keep `act` where handlers are pending.
-/

namespace SmpTKernel

open LinkRing Fuel

/-! ## Marks -/

def Cyccb.Started (cyccb : Cyccb) : Prop := cyccb.cychdr ≠ 0 ∧ cyccb.cycstat &&& TCYC_STA ≠ 0

def Almcb.Started (almcb : Almcb) : Prop := almcb.almhdr ≠ 0 ∧ almcb.almstat &&& TALM_STA ≠ 0

/-- `TS_WAIT` is set. -/
def WaitTcb.Waits (tcb : WaitTcb) : Prop := tcb.state = .wait ∨ tcb.state = .waitsus

/-- The owner of an event is started, or waits. -/
def Hdrs.Marked (h : Hdrs) : Tmeb → Prop
  | .wtmeb t => (h.tcb t).Waits
  | .cyctmeb i => (h.cyccb i).Started
  | .almtmeb i => (h.almcb i).Started

/-- The event of a wait without a time is linked to itself. -/
def Parked (s : Timer) : Tmeb → Prop
  | .wtmeb t => (s.que (.tmeb (.wtmeb t))).next = .tmeb (.wtmeb t)
  | _ => False

/-- The callback of an event in a queue. -/
def Tmeb.cback : Tmeb → TimerQue → Option Cback
  | .wtmeb _, .timerQueue => some .waitReleaseTmout
  | .cyctmeb _, .timerQueue => some .distributeCychdr
  | .almtmeb _, .timerQueue => some .distributeAlmhdr
  | .wtmeb _, .hdrque _ => none
  | .cyctmeb _, .hdrque _ => some .callCychdr
  | .almtmeb _, .hdrque _ => some .callAlmhdr

def Tmeb.index : Tmeb → ℕ
  | .wtmeb t => t
  | .cyctmeb i | .almtmeb i => i

structure Called (s : Timer) (h : TimerQue) (e : Tmeb) : Prop where
  callback : s.callback e = e.cback h
  exists' : e.cback h ≠ none
  arg : s.arg e = e.index

theorem Called.congr {s s' : Timer} {h : TimerQue} {e : Tmeb} (c : Called s h e)
    (hcallback : s'.callback = s.callback) (harg : s'.arg = s.arg) : Called s' h e :=
  ⟨hcallback ▸ c.callback, c.exists', harg ▸ c.arg⟩

/-- Handlers run on processors of the board, and free blocks belong to no handler. -/
structure BlocksRight (maxProc : ℕ) (h : Hdrs) : Prop where
  cycPrid : ∀ i, (h.cyccb i).cychdr ≠ 0 → (h.cyccb i).isAssprc = true →
    assprcToPrid (h.cyccb i).assprc < maxProc
  almPrid : ∀ i, (h.almcb i).almhdr ≠ 0 → (h.almcb i).isAssprc = true →
    assprcToPrid (h.almcb i).assprc < maxProc
  cycFree : ∀ i ∈ h.free_cyccb, (h.cyccb i).cychdr = 0
  almFree : ∀ i ∈ h.free_almcb, (h.almcb i).almhdr = 0
  cycNodup : h.free_cyccb.Nodup
  almNodup : h.free_almcb.Nodup

/-- The handlers of the loop of `handler_execution`. -/
def HdrFrame.drains : HdrFrame → Bool
  | cychdr _ _ | almhdr _ _ => true
  | immCychdr _ _ | immAlmhdr _ _ => false

/-- Who has been told to execute handlers is about to do so, or does so, or is among the processors
`X`. -/
def ActRight (X : ℕ → Prop) (w : HdrState) : Prop :=
  ∀ p, (w.1.handler_queue p).act = true → w.2.request p = true ∨
    (∃ f ∈ w.2.running p, f.drains = true) ∨ X p

structure HdrInv (maxProc : ℕ) (X : ℕ → Prop) (w : HdrState) (q : TimerQue → List Tmeb) : Prop where
  rings : EventRings maxProc w.1.que q
  on : ∀ e, (∃ h, e ∈ q h) ↔ w.2.Marked e ∧ ¬Parked w.1 e
  called : ∀ h e, e ∈ q h → Called w.1 h e
  act : ∀ p, q (.hdrque p) ≠ [] →
    (w.1.handler_queue p).act = true ∨ (w.1.handler_queue p).upd = true
  told : ActRight X w
  blocks : BlocksRight maxProc w.2

/-- No update of a handler queue is left to be noted. -/
def UpdNoted (maxProc : ℕ) (s : Timer) : Prop := ∀ p < maxProc, (s.handler_queue p).upd = false

/-- The end of a critical section. -/
def Settled (maxProc : ℕ) (w : HdrState) : Prop :=
  ∃ q, HdrInv maxProc (fun _ => False) w q ∧ UpdNoted maxProc w.1

/-- What is done ends, and right. -/
def Settles (maxProc : ℕ) (f : ℕ → Option HdrState) : Prop := ∃ w, Returns f w ∧ Settled maxProc w

variable {maxProc prid i : ℕ} {X Y : ℕ → Prop} {s s' : Timer} {h h' : Hdrs} {w : HdrState}
  {q q' : TimerQue → List Tmeb} {e x : Tmeb} {d : Option TimerQue}

theorem sta_iff (stat : BitVec 32) : stat &&& 1 ≠ 0 ↔ stat.getLsbD 0 = true := by
  constructor
  · intro h
    by_contra hc
    apply h
    apply BitVec.eq_of_getLsbD_eq
    intro i hi
    rw [BitVec.getLsbD_and]
    cases i with
    | zero => simpa using hc
    | succ i => simp
  · intro h hc
    have hbit := congrArg (fun b => b.getLsbD 0) hc
    simp at h hbit
    rw [h] at hbit
    exact absurd hbit.symm Bool.false_ne_true

theorem Cyccb.started_congr {c c' : Cyccb} (hhdr : c'.cychdr = c.cychdr)
    (hstat : c'.cycstat.getLsbD 0 = c.cycstat.getLsbD 0) : c'.Started ↔ c.Started := by
  unfold Started
  rw [hhdr, sta_iff, sta_iff, hstat]

theorem Almcb.started_congr {c c' : Almcb} (hhdr : c'.almhdr = c.almhdr)
    (hstat : c'.almstat.getLsbD 0 = c.almstat.getLsbD 0) : c'.Started ↔ c.Started := by
  unfold Started
  rw [hhdr, sta_iff, sta_iff, hstat]

/-! ## Moves and marks -/

theorem not_parked_of_mem (r : EventRings maxProc s.que q) {g : TimerQue} (he : e ∈ q g) :
    ¬Parked s e := by
  obtain ⟨a, b, hq⟩ := List.append_of_mem he
  have hnext : (s.que (.tmeb e)).next = (b.map .tmeb).headD (.que g) := r.next_elem hq
  cases e with
  | wtmeb t =>
    intro hp
    change (s.que (.tmeb (.wtmeb t))).next = .tmeb (.wtmeb t) at hp
    rw [hnext] at hp
    cases b with
    | nil => exact TimerNode.noConfusion hp
    | cons y b =>
      have hnodup := r.nodup g
      rw [hq] at hnodup
      obtain ⟨-, hnodup, -⟩ := List.nodup_append.mp hnodup
      apply (List.nodup_cons.mp hnodup).1
      rw [← TimerNode.tmeb.inj hp]
      exact List.mem_cons_self
  | cyctmeb i => exact id
  | almtmeb i => exact id

/-- An event other than the moved one is parked as before. -/
theorem Moves.parked (m : Moves maxProc e d s q s' q') (r : EventRings maxProc s.que q)
    (hx : x ≠ e) :
    Parked s' x ↔ Parked s x := by
  by_cases hq : ∃ g, x ∈ q g
  · obtain ⟨g, hg⟩ := hq
    exact iff_of_false (not_parked_of_mem m.rings ((m.other g x hx).mpr hg))
      (not_parked_of_mem r hg)
  · have hcell := m.cell x hx fun g hg => hq ⟨g, hg⟩
    cases x with
    | wtmeb t =>
      show (s'.que _).next = _ ↔ (s.que _).next = _
      rw [hcell]
    | cyctmeb i => exact Iff.rfl
    | almtmeb i => exact Iff.rfl

/-- **One event moves**, and its owner is marked to match. -/
theorem HdrInv.moves (inv : HdrInv maxProc X w q) (m : Moves maxProc e d w.1 q s' q')
    (hmark : ∀ x, x ≠ e → (h'.Marked x ↔ w.2.Marked x))
    (hd : (∃ g, d = some g) ↔ h'.Marked e ∧ ¬Parked s' e)
    (hcalled : ∀ g, d = some g → Called s' g e)
    (hact : ∀ p, (w.1.handler_queue p).act = true ∨ (w.1.handler_queue p).upd = true →
      (s'.handler_queue p).act = true ∨ (s'.handler_queue p).upd = true)
    (hnew : ∀ p, d = some (.hdrque p) → (s'.handler_queue p).act = true ∨
      (s'.handler_queue p).upd = true) (htold : ActRight Y (s', h'))
    (hblocks : BlocksRight maxProc h') :
    HdrInv maxProc Y (s', h') q' := by
  refine ⟨m.rings, fun x => ?_, fun g x hx => ?_, fun p hp => ?_, htold, hblocks⟩
  · by_cases hx : x = e
    · subst hx
      simp only [m.place]
      exact hd
    · show _ ↔ h'.Marked x ∧ ¬Parked s' x
      rw [hmark x hx, m.parked inv.rings hx, ← inv.on x]
      exact exists_congr fun g => m.other g x hx
  · by_cases hxe : x = e
    · subst hxe
      exact hcalled g ((m.place g).mp hx)
    · obtain ⟨hcallback, hsome, harg⟩ := inv.called g x ((m.other g x hxe).mp hx)
      exact ⟨(m.callback x hxe).trans hcallback, hsome, (m.arg x hxe).trans harg⟩
  · obtain ⟨x, hx⟩ := List.exists_mem_of_ne_nil _ hp
    by_cases hxe : x = e
    · subst hxe
      exact hnew p ((m.place _).mp hx)
    · exact hact p (inv.act p (List.ne_nil_of_mem ((m.other _ x hxe).mp hx)))

theorem HdrInv.stays (inv : HdrInv maxProc X w q) (hmark : ∀ x, h'.Marked x ↔ w.2.Marked x)
    (htold : ActRight Y (w.1, h')) (hblocks : BlocksRight maxProc h') :
    HdrInv maxProc Y (w.1, h') q := by
  refine ⟨inv.rings, fun x => ?_, inv.called, inv.act, htold, hblocks⟩
  rw [hmark x]
  exact inv.on x

/-! ## Changes of control blocks -/

section Blocks

variable {cyccb : Cyccb} {almcb : Almcb} {frame : HdrFrame}

theorem setCyccb_cyccb_self : (h.setCyccb i cyccb).cyccb i = cyccb := Function.update_self ..

theorem setAlmcb_almcb_self : (h.setAlmcb i almcb).almcb i = almcb := Function.update_self ..

theorem setCyccb_marked (hx : x ≠ .cyctmeb i) : (h.setCyccb i cyccb).Marked x ↔ h.Marked x := by
  cases x with
  | wtmeb t => exact Iff.rfl
  | almtmeb j => exact Iff.rfl
  | cyctmeb j =>
    have hj : j ≠ i := fun hc => hx (congrArg Tmeb.cyctmeb hc)
    show (Function.update h.cyccb i cyccb j).Started ↔ _
    rw [Function.update_of_ne hj]
    rfl

theorem setAlmcb_marked (hx : x ≠ .almtmeb i) : (h.setAlmcb i almcb).Marked x ↔ h.Marked x := by
  cases x with
  | wtmeb t => exact Iff.rfl
  | cyctmeb j => exact Iff.rfl
  | almtmeb j =>
    have hj : j ≠ i := fun hc => hx (congrArg Tmeb.almtmeb hc)
    show (Function.update h.almcb i almcb j).Started ↔ _
    rw [Function.update_of_ne hj]
    rfl

theorem setCyccb_marked_self : (h.setCyccb i cyccb).Marked (.cyctmeb i) ↔ cyccb.Started := by
  show ((h.setCyccb i cyccb).cyccb i).Started ↔ _
  rw [setCyccb_cyccb_self]

theorem setAlmcb_marked_self : (h.setAlmcb i almcb).Marked (.almtmeb i) ↔ almcb.Started := by
  show ((h.setAlmcb i almcb).almcb i).Started ↔ _
  rw [setAlmcb_almcb_self]

theorem leave_marked : (h.leave prid frame).Marked x ↔ h.Marked x := by
  cases x <;> exact Iff.rfl

theorem BlocksRight.leave (b : BlocksRight maxProc h) : BlocksRight maxProc (h.leave prid frame) :=
  ⟨b.cycPrid, b.almPrid, b.cycFree, b.almFree, b.cycNodup, b.almNodup⟩

/-- A change that leaves the handler, its processor and its block's place alone. -/
theorem BlocksRight.setCyccb (b : BlocksRight maxProc h)
    (hprid : cyccb.cychdr ≠ 0 → cyccb.isAssprc = true → assprcToPrid cyccb.assprc < maxProc)
    (hfree : i ∈ h.free_cyccb → cyccb.cychdr = 0) : BlocksRight maxProc (h.setCyccb i cyccb) := by
  refine ⟨fun j => ?_, b.almPrid, fun j hj => ?_, b.almFree, b.cycNodup, b.almNodup⟩
  · show (Function.update h.cyccb i cyccb j).cychdr ≠ 0 →
      (Function.update h.cyccb i cyccb j).isAssprc = true →
      assprcToPrid (Function.update h.cyccb i cyccb j).assprc < maxProc
    by_cases hj : j = i
    · subst hj
      rw [Function.update_self]
      exact hprid
    · rw [Function.update_of_ne hj]
      exact b.cycPrid j
  · show (Function.update h.cyccb i cyccb j).cychdr = 0
    by_cases hji : j = i
    · subst hji
      rw [Function.update_self]
      exact hfree hj
    · rw [Function.update_of_ne hji]
      exact b.cycFree j hj

theorem BlocksRight.setAlmcb (b : BlocksRight maxProc h)
    (hprid : almcb.almhdr ≠ 0 → almcb.isAssprc = true → assprcToPrid almcb.assprc < maxProc)
    (hfree : i ∈ h.free_almcb → almcb.almhdr = 0) : BlocksRight maxProc (h.setAlmcb i almcb) := by
  refine ⟨b.cycPrid, fun j => ?_, b.cycFree, fun j hj => ?_, b.cycNodup, b.almNodup⟩
  · show (Function.update h.almcb i almcb j).almhdr ≠ 0 →
      (Function.update h.almcb i almcb j).isAssprc = true →
      assprcToPrid (Function.update h.almcb i almcb j).assprc < maxProc
    by_cases hj : j = i
    · subst hj
      rw [Function.update_self]
      exact hprid
    · rw [Function.update_of_ne hj]
      exact b.almPrid j
  · show (Function.update h.almcb i almcb j).almhdr = 0
    by_cases hji : j = i
    · subst hji
      rw [Function.update_self]
      exact hfree hj
    · rw [Function.update_of_ne hji]
      exact b.almFree j hj

end Blocks

end SmpTKernel
