import SmpTKernel.Lib.Histories
import SmpTKernel.TaskException

/-!
# Task exceptions by their history

What happens to the exceptions of a task is written down, and the words of its control block are a
summary of it: `pendtex` has the exceptions that were raised and neither started nor withdrawn
since, and `texflg` says which handlers are in execution.
-/

namespace SmpTKernel

/-! ## Bits -/

/-- The lowest bit that is set. -/
def LowestBit (w : BitVec 32) (c : ℕ) : Prop := w.getLsbD c = true ∧ ∀ d < c, w.getLsbD d = false

section Bits

variable {w : BitVec 32} {c d : ℕ}

theorem LowestBit.lt (h : LowestBit w c) : c < 32 := BitVec.lt_of_getLsbD h.1

theorem LowestBit.le (h : LowestBit w c) (hd : w.getLsbD d = true) : c ≤ d := by
  by_contra hlt
  exact absurd (hd.symm.trans (h.2 d (by omega))) Bool.noConfusion

theorem bit_of_ne_zero (h : w ≠ 0) : ∃ c, w.getLsbD c = true := by
  by_contra hno
  apply h
  apply BitVec.eq_of_getLsbD_eq
  intro c hc
  simpa using fun hbit => hno ⟨c, hbit⟩

theorem ne_zero_of_bit (h : w.getLsbD c = true) : w ≠ 0 := by
  rintro rfl
  simp at h

theorem texBit_getLsbD (c d : ℕ) : (1#32 <<< c).getLsbD d = (decide (c < 32) && decide (c = d)) :=
  BitVec.getLsbD_twoPow c d

theorem and_texBit_ne_zero (hc : c < 32) : w &&& 1#32 <<< c ≠ 0 ↔ w.getLsbD c = true := by
  constructor
  · intro h
    obtain ⟨d, hd⟩ := bit_of_ne_zero h
    rw [BitVec.getLsbD_and, texBit_getLsbD] at hd
    simp only [Bool.and_eq_true, decide_eq_true_eq] at hd
    exact hd.2.2 ▸ hd.1
  · intro h
    apply ne_zero_of_bit (c := c)
    rw [BitVec.getLsbD_and, texBit_getLsbD, h]
    simp [hc]

theorem and_not_texBit (hc : c < 32) :
    (w &&& ~~~(1#32 <<< c)).getLsbD d = (w.getLsbD d && decide (d ≠ c)) := by
  rw [BitVec.getLsbD_and, BitVec.getLsbD_not, texBit_getLsbD]
  by_cases hdc : d = c
  · subst hdc
    simp [hc]
  · by_cases hd : d < 32
    · simp [hd, hdc, Ne.symm hdc]
    · simp [BitVec.getLsbD_of_ge w d (by omega)]

theorem and_one_eq_zero : w &&& 1 = 0 ↔ w.getLsbD 0 = false := by
  have h := and_texBit_ne_zero (w := w) (c := 0) (by omega)
  rw [← Bool.not_eq_true, ← h, not_not]
  rfl

theorem texflg_and (x : BitVec 16) :
    x &&& TEX0_RUNNING = (if x.getLsbD 0 then TEX0_RUNNING else 0) ∧
    x &&& TEX1_RUNNING = (if x.getLsbD 1 then TEX1_RUNNING else 0) :=
  ⟨BitVec.and_twoPow x 0, BitVec.and_twoPow x 1⟩

theorem texflg_tex0 (x : BitVec 16) : x &&& TEX0_RUNNING ≠ 0 ↔ x.getLsbD 0 = true := by
  rw [(texflg_and x).1]
  cases x.getLsbD 0 <;> decide

theorem texflg_tex1 (x : BitVec 16) : x &&& TEX1_RUNNING = 0 ↔ x.getLsbD 1 = false := by
  rw [(texflg_and x).2]
  cases x.getLsbD 1 <;> decide

theorem texflg_only_tex1 (x : BitVec 16) : x &&& (TEX0_RUNNING ||| TEX1_RUNNING) = TEX1_RUNNING ↔
    x.getLsbD 0 = false ∧ x.getLsbD 1 = true := by
  rw [BitVec.and_or_distrib_left, (texflg_and x).1, (texflg_and x).2]
  cases x.getLsbD 0 <;> cases x.getLsbD 1 <;> decide

theorem texflg_started {x : BitVec 16} {c : ℕ} (i : ℕ) :
    (x ||| if c = 0 then TEX0_RUNNING else TEX1_RUNNING).getLsbD i =
      (x.getLsbD i || if c = 0 then decide (i = 0) else decide (i = 1)) := by
  rw [BitVec.getLsbD_or]
  by_cases hc : c = 0
  · rw [if_pos hc, if_pos hc, show TEX0_RUNNING = BitVec.twoPow 16 0 from rfl,
      BitVec.getLsbD_twoPow]
    simp [eq_comm]
  · rw [if_neg hc, if_neg hc, show TEX1_RUNNING = BitVec.twoPow 16 1 from rfl,
      BitVec.getLsbD_twoPow]
    simp [eq_comm]

theorem texflg_ended {x : BitVec 16} (i : ℕ) :
    (x &&& ~~~TEX1_RUNNING).getLsbD i = (x.getLsbD i && decide (i ≠ 1)) := by
  rw [BitVec.getLsbD_and, BitVec.getLsbD_not, show TEX1_RUNNING = BitVec.twoPow 16 1 from rfl,
    BitVec.getLsbD_twoPow]
  by_cases hi : i = 1
  · simp [hi]
  · by_cases hlt : i < 16
    · simp [hi, hlt, Ne.symm hi]
    · simp [BitVec.getLsbD_of_ge x i (by omega)]

/-- The loop of `setup_texhdr` stops at the lowest bit from `texcd` on. -/
theorem setupLoop_spec (w : BitVec 32) (left texcd : ℕ) (hleft : texcd + left = 32) :
    let r := TexBlock.setupLoop w left texcd (1#32 <<< texcd)
    r.1 ≤ 32 ∧ r.2 = 1#32 <<< r.1 ∧ (∀ d, texcd ≤ d → d < r.1 → w.getLsbD d = false) ∧
    (r.1 < 32 → w.getLsbD r.1 = true) := by
  induction left generalizing texcd with
  | zero =>
    obtain rfl : texcd = 32 := by omega
    exact ⟨le_rfl, rfl, fun d hd hlt => absurd hd (Nat.not_le.mpr hlt), fun h =>
      absurd h (lt_irrefl 32)⟩
  | succ left ih =>
    intro r
    by_cases hbit : w &&& 1#32 <<< texcd ≠ 0
    · have hr : r = (texcd, 1#32 <<< texcd) := if_pos hbit
      rw [hr]
      refine ⟨by dsimp only; omega, rfl, fun d hd hlt => absurd hd (by dsimp only at hlt; omega),
        fun h => ?_⟩
      exact (and_texBit_ne_zero h).mp hbit
    · have hr : r = TexBlock.setupLoop w left (texcd + 1) (1#32 <<< (texcd + 1)) := by
        rw [BitVec.shiftLeft_add]
        exact if_neg hbit
      obtain ⟨hle, hm, hbelow, hset⟩ := ih (texcd + 1) (by omega)
      rw [← hr] at hle hm hbelow hset
      refine ⟨hle, hm, fun d hd hlt => ?_, hset⟩
      rcases eq_or_lt_of_le hd with rfl | hd
      · rw [not_not] at hbit
        have hne := (and_texBit_ne_zero (w := w) (c := texcd) (by omega)).not.mp (not_not.mpr hbit)
        rwa [Bool.not_eq_true] at hne
      · exact hbelow d hd hlt

theorem endLoop_spec {fuel : ℕ} (hfuel : w.getLsbD d = true) (hd : d < fuel) (texcd : ℕ) :
    ∃ c, LowestBit w c ∧ TexBlock.endLoop fuel texcd w = texcd + c := by
  induction fuel generalizing w d texcd with
  | zero => exact absurd hd (Nat.not_lt_zero d)
  | succ fuel ih =>
    by_cases hzero : w &&& 1 = 0
    · have hbit := and_one_eq_zero.mp hzero
      obtain ⟨d, rfl⟩ : ∃ e, d = e + 1 := Nat.exists_eq_succ_of_ne_zero (by
        rintro rfl
        exact absurd (hfuel.symm.trans hbit) Bool.noConfusion)
      have hshift (e : ℕ) : (w >>> 1).getLsbD e = w.getLsbD (e + 1) := by
        rw [BitVec.getLsbD_ushiftRight, Nat.add_comm]
      obtain ⟨c, hc, heq⟩ := ih ((hshift d).trans hfuel) (by omega) (texcd + 1)
      refine ⟨c + 1, ⟨hshift c ▸ hc.1, fun e he => ?_⟩, ?_⟩
      · rcases Nat.eq_zero_or_pos e with rfl | hpos
        · exact hbit
        · obtain ⟨e, rfl⟩ := Nat.exists_eq_succ_of_ne_zero hpos.ne'
          exact hshift e ▸ hc.2 e (by omega)
      · rw [TexBlock.endLoop, if_pos hzero, heq]
        omega
    · refine ⟨0, ⟨?_, fun e he => absurd he (Nat.not_lt_zero e)⟩, if_neg hzero⟩
      rw [and_one_eq_zero, Bool.not_eq_false] at hzero
      exact hzero

end Bits

/-! ## What happens to the exceptions of a task -/

inductive TexEvent
  /-- `tk_ras_tex` takes the exception. -/
  | raised (texcd : ℕ)
  /-- The handler starts with the code, or `tk_end_tex` has it go on with the code. -/
  | started (texcd : ℕ)
  /-- `tk_end_tex` ends the handler. -/
  | ended
  /-- `tk_dis_tex` or `tk_def_tex` withdraws what is pending. -/
  | dropped (texptn : BitVec 32)
deriving DecidableEq

/-- What a history comes to. -/
structure TexView where
  /-- Raised, and neither started nor withdrawn since. -/
  pending : ℕ → Bool
  /-- A handler of the codes from 1 on is in execution. -/
  running : Bool
  /-- The handler of code 0 has started. -/
  aborted : Bool

namespace TexView

def step (v : TexView) : TexEvent → TexView
  | .raised c => { v with pending := fun d => v.pending d || decide (d = c) }
  | .started c =>
    { pending := fun d => v.pending d && decide (d ≠ c)
      running := v.running || decide (c ≠ 0)
      aborted := v.aborted || decide (c = 0) }
  | .ended => { v with running := false }
  | .dropped texptn => { v with pending := fun c => v.pending c && !texptn.getLsbD c }

end TexView

def texView (log : List TexEvent) : TexView :=
  History.summary TexView.step ⟨fun _ => false, false, false⟩ log

/-- The exception was raised more often than it was started. -/
def TexDue (log : List TexEvent) (c : ℕ) : Prop := log.count (.started c) < log.count (.raised c)

/-- The event is right after those before it: nothing is raised or started once the handler of code
0 has, only that handler starts while another one is in execution, and every start has an exception
raised for it. -/
def TexRight (log : List TexEvent) : TexEvent → Prop
  | .raised c => c ≤ 31 ∧ (texView log).aborted = false
  | .started c =>
    (texView log).aborted = false ∧ (c = 0 ∨ (texView log).running = false) ∧ TexDue log c
  | .ended => (texView log).running = true ∧ (texView log).aborted = false
  | .dropped _ => True

section Log

variable {log : List TexEvent} {c : ℕ} {e : TexEvent}

@[simp] theorem texView_concat : texView (log ++ [e]) = (texView log).step e :=
  History.summary_concat ..

theorem count_concat_of_ne {e' : TexEvent} (h : e ≠ e') : (log ++ [e]).count e' = log.count e' := by
  rw [List.count_append, List.count_singleton]
  simp [h]

theorem TexDue.concat (h : TexDue log c) (hs : e ≠ .started c) : TexDue (log ++ [e]) c := by
  unfold TexDue
  rw [count_concat_of_ne hs, List.count_append]
  exact Nat.lt_add_right _ h

/-- What is pending has been raised more often than started, and nothing has been started more often
than raised. -/
theorem texDue_of_pending (h : History.Right TexRight log) (c : ℕ) :
    log.count (.started c) ≤ log.count (.raised c) ∧ ((texView log).pending c = true →
      TexDue log c) := by
  induction log using List.reverseRecOn with
  | nil => exact ⟨le_rfl, fun hp => absurd hp Bool.noConfusion⟩
  | append_singleton log e ih =>
    obtain ⟨hle, hdue⟩ := ih h.left
    have hlast := h.last
    rw [texView_concat]
    have hmono : e ≠ .started c → (log ++ [e]).count (.started c) ≤ (log ++ [e]).count
        (.raised c) := fun hne => by
      rw [count_concat_of_ne hne, List.count_append]
      exact hle.trans (Nat.le_add_right ..)
    cases e with
    | raised d =>
      refine ⟨hmono (by simp), fun hp => ?_⟩
      by_cases hdc : d = c
      · subst hdc
        unfold TexDue
        rw [count_concat_of_ne (by simp), List.count_append, List.count_singleton_self]
        exact Nat.lt_succ_of_le hle
      · refine (hdue ?_).concat (by simp)
        simpa [TexView.step, Ne.symm hdc] using hp
    | started d =>
      by_cases hdc : d = c
      · subst hdc
        refine ⟨?_, fun hp => ?_⟩
        · rw [List.count_append, List.count_singleton_self, count_concat_of_ne (by simp)]
          exact hlast.2.2
        · simp [TexView.step] at hp
      · refine ⟨hmono (by simp [hdc]), fun hp => ?_⟩
        refine (hdue ?_).concat (by simp [hdc])
        simp only [TexView.step, Bool.and_eq_true] at hp
        exact hp.1
    | ended => exact ⟨hmono (by simp), fun hp => (hdue hp).concat (by simp)⟩
    | dropped texptn =>
      refine ⟨hmono (by simp), fun hp => (hdue ?_).concat (by simp)⟩
      simp only [TexView.step, Bool.and_eq_true] at hp
      exact hp.1

end Log

/-! ## Specifications -/

namespace TexBlock

variable (tcb : TexBlock)

/-- `tk_ras_tex` gets past its checks, and the handler of code 0 is not in execution. -/
def Takes (state : TaskState) (prot : ER) : Prop :=
  state ≠ .nonexist ∧ prot = E_OK ∧ tcb.texhdr = true ∧ state ≠ .dormant ∧
    tcb.texflg &&& TEX0_RUNNING = 0

instance (state : TaskState) (prot : ER) : Decidable (tcb.Takes state prot) :=
  inferInstanceAs (Decidable (_ ∧ _ ∧ _ ∧ _ ∧ _))

/-- What a call of `tk_ras_tex` writes in the history. -/
def rasNotes (state : TaskState) (prot : ER) (texcd : ℤ) : List TexEvent :=
  if tcb.Takes state prot ∧ tcb.texmask.getLsbD texcd.toNat = true then [.raised texcd.toNat]
  else []

/-- What a call of `tk_end_tex` writes in the history. -/
def endNotes (ddsp enatex : Bool) : List TexEvent :=
  if ddsp then []
  else if tcb.texflg &&& (TEX0_RUNNING ||| TEX1_RUNNING) ≠ TEX1_RUNNING then []
  else if enatex ∨ tcb.endCode = 0 then [.ended]
  else [.ended, .started tcb.endCode]

/-- What `tk_dis_tex` writes in the history. -/
def maskNotes (state : TaskState) (prot : ER) (texmsk : BitVec 32) (enable : Bool) :
    List TexEvent :=
  if (tcb.setTexMask state prot texmsk enable).1 = E_OK ∧ enable = false then [.dropped texmsk]
  else []

/-- What `tk_def_tex` writes in the history. -/
def defNotes (state : TaskState) (prot : ER) (rng0 texhdr : Bool) : List TexEvent :=
  if (tcb.defTex state prot rng0 texhdr).1 = E_OK then [.dropped (BitVec.allOnes 32)] else []

theorem raise_of_not_takes {state : TaskState} {prot : ER} (texcd : ℤ) (h : ¬tcb.Takes state prot) :
    (tcb.raise state prot texcd).1.2 = false ∧ (tcb.raise state prot texcd).2 = tcb := by
  unfold raise
  by_cases hstate : state = .nonexist
  · rw [if_pos hstate]
    exact ⟨rfl, rfl⟩
  rw [if_neg hstate]
  by_cases hprot : prot ≠ E_OK
  · rw [if_pos hprot]
    exact ⟨rfl, rfl⟩
  rw [if_neg hprot]
  by_cases hhdr : (!tcb.texhdr) = true
  · rw [if_pos hhdr]
    exact ⟨rfl, rfl⟩
  rw [if_neg hhdr]
  by_cases hdormant : state = .dormant
  · rw [if_pos hdormant]
    exact ⟨rfl, rfl⟩
  rw [if_neg hdormant, if_pos]
  · exact ⟨rfl, rfl⟩
  · intro hflg
    exact h ⟨hstate, not_not.mp hprot, by simpa using hhdr, hdormant, hflg⟩

theorem setTexMask_of {state : TaskState} {prot : ER} {texmsk : BitVec 32} (enable : Bool)
    (h : state ≠ .nonexist ∧ prot = E_OK ∧ tcb.texhdr = true) :
    tcb.setTexMask state prot texmsk enable =
      let texmask := bif enable then tcb.texmask ||| texmsk else tcb.texmask &&& ~~~texmsk
      (E_OK, { tcb with texmask := texmask, pendtex := tcb.pendtex &&& texmask &&& texmask }) := by
  obtain ⟨hstate, hprot, hhdr⟩ := h
  unfold setTexMask
  rw [if_neg hstate, if_neg (not_not.mpr hprot), if_neg (by simp [hhdr])]
  cases enable <;> rfl

theorem setTexMask_of_not {state : TaskState} {prot : ER} (texmsk : BitVec 32) (enable : Bool)
    (h : ¬(state ≠ .nonexist ∧ prot = E_OK ∧ tcb.texhdr = true)) :
    (tcb.setTexMask state prot texmsk enable).1 ≠ E_OK ∧
      ((tcb.setTexMask state prot texmsk enable).2 = tcb ∨
        (tcb.setTexMask state prot texmsk enable).2 = { tcb with pendtex := tcb.pendtex &&&
          tcb.texmask }) := by
  unfold setTexMask
  by_cases hstate : state = .nonexist
  · rw [if_pos hstate]
    exact ⟨by simp, Or.inl rfl⟩
  rw [if_neg hstate]
  by_cases hprot : prot ≠ E_OK
  · rw [if_pos hprot]
    exact ⟨hprot, Or.inl rfl⟩
  rw [if_neg hprot, if_pos]
  · exact ⟨by simp, Or.inr rfl⟩
  · rw [not_and, not_and] at h
    simpa using h hstate (not_not.mp hprot)

/-- What `tk_ras_tex` does when it gets past its checks. -/
theorem raise_of_takes {state : TaskState} {prot : ER} {texcd : ℤ} (h : tcb.Takes state prot) :
    tcb.raise state prot texcd =
      let tcb := { tcb with pendtex := tcb.pendtex ||| (1#32 <<< texcd.toNat &&& tcb.texmask) }
      if tcb.pendtex = 0 then ((E_OK, false), tcb)
      else if tcb.pendtex &&& 1 ≠ 0 ∨ tcb.texflg &&& TEX1_RUNNING = 0 then
        ((E_OK, true), { tcb with exectex := tcb.exectex ||| tcb.pendtex })
      else ((E_OK, false), tcb) := by
  obtain ⟨hstate, hprot, hhdr, hdormant, hflg⟩ := h
  unfold raise
  rw [if_neg hstate, if_neg (not_not.mpr hprot), if_neg (by simp [hhdr]), if_neg hdormant,
    if_neg (not_not.mpr hflg)]

theorem setupTexhdr_spec : (tcb.exectex = 0 ∧ tcb.setupTexhdr = (none, tcb)) ∨
    ∃ c, LowestBit tcb.exectex c ∧ tcb.setupTexhdr = (some c, { tcb with
      exectex := 0
      pendtex := tcb.pendtex &&& ~~~(1#32 <<< c)
      texflg := tcb.texflg ||| if c = 0 then TEX0_RUNNING else TEX1_RUNNING }) := by
  have hspec := setupLoop_spec tcb.exectex 32 0 rfl
  rw [BitVec.shiftLeft_zero] at hspec
  obtain ⟨hle, hm, hbelow, hset⟩ := hspec
  by_cases hno : (setupLoop tcb.exectex 32 0 1#32).1 > 31
  · refine Or.inl ⟨?_, if_pos hno⟩
    by_contra hne
    obtain ⟨c, hc⟩ := bit_of_ne_zero hne
    have hlt : c < 32 := BitVec.lt_of_getLsbD hc
    exact absurd (hc.symm.trans (hbelow c (Nat.zero_le c) (by omega))) Bool.noConfusion
  · refine Or.inr ⟨_, ⟨hset (by omega), fun d hd => hbelow d (Nat.zero_le d) hd⟩, ?_⟩
    exact (if_neg hno).trans (by rw [hm])

/-- `texcd` is the lowest exception from 1 on that is pending, if there is one. -/
theorem endCode_spec : (tcb.endCode = 0 ∧ ∀ c > 0, tcb.pendtex.getLsbD c = false) ∨
    (0 < tcb.endCode ∧ tcb.pendtex.getLsbD tcb.endCode = true ∧ ∀ d > 0, d < tcb.endCode →
      tcb.pendtex.getLsbD d = false) := by
  have hbit (c : ℕ) : (tcb.pendtex &&& ~~~1).getLsbD c =
      (tcb.pendtex.getLsbD c && decide (c ≠ 0)) :=
    and_not_texBit (c := 0) (by omega)
  by_cases hno : tcb.pendtex &&& ~~~1 = 0
  · refine Or.inl ⟨if_neg (not_not.mpr hno), fun c hc => ?_⟩
    have h := hbit c
    rw [hno] at h
    simpa [Nat.pos_iff_ne_zero.mp hc] using h.symm
  · obtain ⟨d, hd⟩ := bit_of_ne_zero hno
    obtain ⟨c, hc, heq⟩ := endLoop_spec hd (BitVec.lt_of_getLsbD hd) 0
    have hcode : tcb.endCode = c := (if_pos hno).trans (heq.trans (Nat.zero_add c))
    have hset := hc.1
    rw [hbit, Bool.and_eq_true, decide_eq_true_eq] at hset
    rw [hcode]
    refine Or.inr ⟨Nat.pos_of_ne_zero hset.2, hset.1, fun e he hlt => ?_⟩
    have hzero := hc.2 e hlt
    rw [hbit] at hzero
    simpa [Nat.pos_iff_ne_zero.mp he] using hzero

end TexBlock

/-! ## The invariant -/

/-- The exceptions that `svc_ientry` has put aside. -/
def Frame.exectex : Frame → Option (BitVec 32)
  | svcUnlock save | svcHandler save | svcRelock save _ | svcEnd save _ => some save.exectex
  | _ => none

/-- The `texflg` that is put aside while a subsystem function runs. -/
def Frame.texflg : Frame → Option (BitVec 16)
  | brkFn texflg => some texflg
  | _ => none

/-- The exceptions in break processing, and those put aside. -/
def texWords (tcb : TexBlock) (calls : List Frame) : List (BitVec 32) :=
  tcb.exectex :: calls.filterMap Frame.exectex

/-- What may stand in `exectex`: exceptions that have not started; while a handler is in execution
code 0 is among them. -/
structure TexWord (log : List TexEvent) (w : BitVec 32) : Prop where
  zero : w.getLsbD 0 = true → TexDue log 0
  other : ∀ c, w.getLsbD c = true → w.getLsbD 0 = false →
    TexDue log c ∧ (texView log).running = false
  aborted : (texView log).aborted = true → w = 0

/-- The control block of a task, its calls and its history. -/
structure TexCore (tcb : TexBlock) (reqdct : Bool) (isysmode : BitVec 16) (calls : List Frame)
    (log : List TexEvent) : Prop where
  right : History.Right TexRight log
  pend : ∀ c, tcb.pendtex.getLsbD c = (texView log).pending c
  mask : ∀ c, tcb.pendtex.getLsbD c = true → tcb.texmask.getLsbD c = true
  hdr : tcb.texhdr = false → tcb.texmask = 0
  user : tcb.texhdr = true → isysmode = 0
  tex0 : tcb.texflg.getLsbD 0 = (texView log).aborted
  tex1 : tcb.texflg.getLsbD 1 = (texView log).running
  saved : ∀ texflg ∈ calls.filterMap Frame.texflg,
    texflg.getLsbD 0 = tcb.texflg.getLsbD 0 ∧ texflg.getLsbD 1 = tcb.texflg.getLsbD 1
  words : ∀ w ∈ texWords tcb calls, TexWord log w
  req : ∀ w ∈ texWords tcb calls, w ≠ 0 → reqdct = true

/-- A handler may start. -/
def TexView.Free (v : TexView) : Prop :=
  v.aborted = false ∧ (v.running = false ∨ v.pending 0 = true)

/-- Besides, the pending exceptions are in break processing, or put aside, when a handler may
start. -/
structure TexInv (tcb : TexBlock) (reqdct : Bool) (isysmode : BitVec 16) (calls : List Frame)
    (log : List TexEvent) : Prop
    extends TexCore tcb reqdct isysmode calls log where
  asked : (texView log).Free → ∀ c, (texView log).pending c = true →
    ∃ w ∈ texWords tcb calls, w.getLsbD c = true

section Words

variable {log : List TexEvent} {w w' : BitVec 32} {e : TexEvent}

theorem texWord_zero : TexWord log 0 := by
  refine ⟨fun h => ?_, fun c h => ?_, fun _ => rfl⟩
  · simp at h
  · simp at h

theorem TexWord.or (h : TexWord log w) (h' : TexWord log w') : TexWord log (w ||| w') := by
  refine ⟨fun hz => ?_, fun c hc hz => ?_, fun ha => ?_⟩
  · rw [BitVec.getLsbD_or, Bool.or_eq_true] at hz
    exact hz.elim h.zero h'.zero
  · rw [BitVec.getLsbD_or, Bool.or_eq_true] at hc
    rw [BitVec.getLsbD_or, Bool.or_eq_false_iff] at hz
    exact hc.elim (fun hc => h.other c hc hz.1) fun hc => h'.other c hc hz.2
  · rw [h.aborted ha, h'.aborted ha]
    rfl

theorem TexWord.concat (h : TexWord log w) (hs : ∀ c, e ≠ .started c)
    (hr : (texView log).running = false → ((texView log).step e).running = false)
    (ha : ((texView log).step e).aborted = (texView log).aborted) : TexWord (log ++ [e]) w := by
  refine ⟨fun hz => (h.zero hz).concat (hs 0), fun c hc hz => ?_, fun hab => ?_⟩
  · obtain ⟨hdue, hrun⟩ := h.other c hc hz
    exact ⟨hdue.concat (hs c), texView_concat ▸ hr hrun⟩
  · rw [texView_concat, ha] at hab
    exact h.aborted hab

/-- Exceptions that are pending, when a handler may start. -/
theorem texWord_of_pending (hr : History.Right TexRight log)
    (hw : ∀ c, w.getLsbD c = (texView log).pending c) (hfree : (texView log).Free) :
    TexWord log w := by
  have hdue (c : ℕ) (hc : w.getLsbD c = true) : TexDue log c :=
    (texDue_of_pending hr c).2 ((hw c).symm.trans hc)
  refine ⟨hdue 0, fun c hc hz => ⟨hdue c hc, ?_⟩, fun ha =>
    absurd (ha.symm.trans hfree.1) Bool.noConfusion⟩
  exact hfree.2.resolve_right fun hp => absurd (hp.symm.trans ((hw 0).symm.trans hz))
    Bool.noConfusion

end Words

section Steps

variable {tcb tcb' : TexBlock} {reqdct reqdct' : Bool} {isysmode : BitVec 16}
  {calls calls' : List Frame} {log : List TexEvent} {c : ℕ} {w : BitVec 32}

theorem texInv_dormant (isysmode : BitVec 16) :
    TexInv (.dormant isysmode) false isysmode [] [] where
  right := History.right_nil
  pend c := BitVec.getLsbD_zero
  mask c h := by simp [TexBlock.dormant] at h
  hdr _ := rfl
  user h := absurd h Bool.noConfusion
  tex0 := BitVec.getLsbD_zero
  tex1 := BitVec.getLsbD_zero
  saved _ h := absurd h List.not_mem_nil
  words w hw := List.mem_singleton.mp hw ▸ texWord_zero
  req w hw hne := absurd (List.mem_singleton.mp hw) hne
  asked _ c h := absurd h Bool.noConfusion

theorem TexInv.congr (h : TexInv tcb reqdct isysmode calls log) (hhdr : tcb'.texhdr = tcb.texhdr)
    (hmask : tcb'.texmask = tcb.texmask)
    (hpend : ∀ c, tcb'.pendtex.getLsbD c = tcb.pendtex.getLsbD c)
    (hexec : tcb'.exectex = tcb.exectex) (h0 : tcb'.texflg.getLsbD 0 = tcb.texflg.getLsbD 0)
    (h1 : tcb'.texflg.getLsbD 1 = tcb.texflg.getLsbD 1) :
    TexInv tcb' reqdct isysmode calls log := by
  have hwords : texWords tcb' calls = texWords tcb calls := by rw [texWords, texWords, hexec]
  exact {
    right := h.right
    pend c := (hpend c).trans (h.pend c)
    mask c hc := hmask ▸ h.mask c ((hpend c).symm.trans hc)
    hdr hn := hmask.trans (h.hdr (hhdr.symm.trans hn))
    user hs := h.user (hhdr.symm.trans hs)
    tex0 := h0.trans h.tex0
    tex1 := h1.trans h.tex1
    saved f hf := ⟨(h.saved f hf).1.trans h0.symm, (h.saved f hf).2.trans h1.symm⟩
    words := hwords ▸ h.words
    req := hwords ▸ h.req
    asked := hwords ▸ h.asked }

theorem TexInv.goOn (h : TexInv tcb reqdct isysmode calls log)
    (hw : ∀ w ∈ texWords tcb calls', w ∈ texWords tcb calls)
    (hc : ∀ w ∈ texWords tcb calls, ∀ c, w.getLsbD c = true →
      ∃ w' ∈ texWords tcb calls', w'.getLsbD c = true)
    (hf : ∀ f ∈ calls'.filterMap Frame.texflg, f ∈ calls.filterMap Frame.texflg ∨
      f.getLsbD 0 = tcb.texflg.getLsbD 0 ∧ f.getLsbD 1 = tcb.texflg.getLsbD 1) :
    TexInv tcb reqdct isysmode calls' log where
  right := h.right
  pend := h.pend
  mask := h.mask
  hdr := h.hdr
  user := h.user
  tex0 := h.tex0
  tex1 := h.tex1
  saved f hmem := (hf f hmem).elim (h.saved f) id
  words w hmem := h.words w (hw w hmem)
  req w hmem := h.req w (hw w hmem)
  asked hfree c hp := by
    obtain ⟨w, hmem, hbit⟩ := h.asked hfree c hp
    exact hc w hmem c hbit

theorem TexCore.setExec (h : TexCore tcb reqdct isysmode calls log) (hword : TexWord log w)
    (hreq : w ≠ 0 → reqdct' = true) (hmono : reqdct = true → reqdct' = true) :
    TexCore { tcb with exectex := w } reqdct' isysmode calls log where
  right := h.right
  pend := h.pend
  mask := h.mask
  hdr := h.hdr
  user := h.user
  tex0 := h.tex0
  tex1 := h.tex1
  saved := h.saved
  words w' hmem := by
    rcases List.mem_cons.mp hmem with rfl | hmem
    · exact hword
    · exact h.words w' (List.mem_cons_of_mem _ hmem)
  req w' hmem hne := by
    rcases List.mem_cons.mp hmem with rfl | hmem
    · exact hreq hne
    · exact hmono (h.req w' (List.mem_cons_of_mem _ hmem) hne)

/-- The critical section of `svc_ientry` before the handler, when it has put `exectex` aside. -/
theorem TexInv.beginSvc (h : TexInv tcb reqdct isysmode calls log) (ssid : BitVec 16)
    (haside : tcb.exectex ∈ calls.filterMap Frame.exectex) :
    TexInv (tcb.beginSvc ssid).2 reqdct isysmode calls log := by
  by_cases hran : tcb.execssid.toInt < 0
  · have hzero : TexInv { tcb with exectex := 0 } reqdct isysmode calls log := by
      refine ⟨h.setExec texWord_zero (fun hne => absurd rfl hne) id, fun hfree c hp => ?_⟩
      obtain ⟨w, hmem, hbit⟩ := h.asked hfree c hp
      refine ⟨w, List.mem_cons_of_mem _ ?_, hbit⟩
      rcases List.mem_cons.mp hmem with rfl | hmem
      · exact haside
      · exact hmem
    exact hzero.congr rfl rfl (fun _ => rfl) (if_pos hran) rfl rfl
  · exact h.congr rfl rfl (fun _ => rfl) (if_neg hran) rfl rfl

/-- The critical section of `svc_ientry` after the handler. -/
theorem TexInv.endSvc (h : TexInv tcb reqdct isysmode calls log) (save : SvcSave)
    (haside : save.exectex ∈ calls.filterMap Frame.exectex) :
    TexInv (tcb.endSvc save) reqdct isysmode calls log := by
  have hmem : save.exectex ∈ texWords tcb calls := List.mem_cons_of_mem _ haside
  have hself : tcb.exectex ∈ texWords tcb calls := List.mem_cons_self
  have hor : TexInv { tcb with exectex := tcb.exectex ||| save.exectex } reqdct isysmode
      calls log := by
    refine ⟨h.setExec ((h.words _ hself).or (h.words _ hmem)) (fun hne => ?_) id,
      fun hfree c hp => ?_⟩
    · obtain ⟨c, hc⟩ := bit_of_ne_zero hne
      rw [BitVec.getLsbD_or, Bool.or_eq_true] at hc
      rcases hc with hc | hc
      · exact h.req _ hself (ne_zero_of_bit hc)
      · exact h.req _ hmem (ne_zero_of_bit hc)
    · obtain ⟨w, hw, hbit⟩ := h.asked hfree c hp
      rcases List.mem_cons.mp hw with rfl | hw
      · refine ⟨_, List.mem_cons_self, ?_⟩
        rw [BitVec.getLsbD_or, hbit, Bool.true_or]
      · exact ⟨w, List.mem_cons_of_mem _ hw, hbit⟩
  exact hor.congr rfl rfl (fun _ => rfl) rfl rfl rfl

theorem TexCore.post (h : TexCore tcb reqdct isysmode calls log) (hfree : (texView log).Free)
    (hreq : tcb.exectex ||| tcb.pendtex ≠ 0 → reqdct' = true)
    (hmono : reqdct = true → reqdct' = true) :
    TexInv { tcb with exectex := tcb.exectex ||| tcb.pendtex } reqdct' isysmode calls log := by
  have hword := (h.words _ List.mem_cons_self).or (texWord_of_pending h.right h.pend hfree)
  refine ⟨h.setExec hword hreq hmono, fun _ c hp => ⟨_, List.mem_cons_self, ?_⟩⟩
  rw [BitVec.getLsbD_or, h.pend, hp, Bool.or_true]

/-- `tk_ras_tex` is past its checks. -/
theorem TexCore.raised (h : TexCore tcb reqdct isysmode calls log)
    (hab : (texView log).aborted = false) (c : ℕ) :
    TexCore { tcb with pendtex := tcb.pendtex ||| (1#32 <<< c &&& tcb.texmask) } reqdct
      isysmode calls
      (if tcb.texmask.getLsbD c then log ++ [.raised c] else log) := by
  have hbit (d : ℕ) : (1#32 <<< c &&& tcb.texmask).getLsbD d =
      (decide (d = c) && tcb.texmask.getLsbD c) := by
    rw [BitVec.getLsbD_and, texBit_getLsbD]
    by_cases hdc : d = c
    · subst hdc
      by_cases hd : d < 32
      · simp [hd]
      · simp [BitVec.getLsbD_of_ge tcb.texmask d (by omega)]
    · simp [hdc, Ne.symm hdc]
  by_cases hmask : tcb.texmask.getLsbD c = true
  · rw [if_pos hmask]
    have hc : c < 32 := BitVec.lt_of_getLsbD hmask
    have hpend (d : ℕ) : (tcb.pendtex ||| (1#32 <<< c &&& tcb.texmask)).getLsbD d =
        ((texView log).pending d || decide (d = c)) := by
      rw [BitVec.getLsbD_or, hbit, h.pend, hmask, Bool.and_true]
    exact {
      right := h.right.concat ⟨by omega, hab⟩
      pend d := by rw [texView_concat]; exact hpend d
      mask d hd := by
        rw [hpend, Bool.or_eq_true, decide_eq_true_eq] at hd
        rcases hd with hd | rfl
        · exact h.mask d ((h.pend d).trans hd)
        · exact hmask
      hdr := h.hdr
      user := h.user
      tex0 := by rw [texView_concat]; exact h.tex0
      tex1 := by rw [texView_concat]; exact h.tex1
      saved := h.saved
      words w hw := (h.words w hw).concat (fun _ => TexEvent.noConfusion) id rfl
      req := h.req }
  · rw [if_neg hmask]
    have hpend (d : ℕ) : (tcb.pendtex ||| (1#32 <<< c &&& tcb.texmask)).getLsbD d =
        tcb.pendtex.getLsbD d := by
      rw [Bool.not_eq_true] at hmask
      rw [BitVec.getLsbD_or, hbit, hmask, Bool.and_false, Bool.or_false]
    exact { h with
      pend d := (hpend d).trans (h.pend d)
      mask d hd := h.mask d ((hpend d).symm.trans hd) }

theorem TexCore.free_iff (h : TexCore tcb reqdct isysmode calls log)
    (hab : (texView log).aborted = false) :
    (texView log).Free ↔ tcb.pendtex &&& 1 ≠ 0 ∨ tcb.texflg &&& TEX1_RUNNING = 0 := by
  rw [Ne, and_one_eq_zero, Bool.not_eq_false, texflg_tex1, h.pend, h.tex1, or_comm]
  exact and_iff_right hab

/-- The critical section of `_tk_ras_tex`. -/
theorem TexInv.raise (h : TexInv tcb reqdct isysmode calls log) (state : TaskState) (prot : ER)
    (texcd : ℤ) :
    TexInv (tcb.raise state prot texcd).2 (reqdct || (tcb.raise state prot texcd).1.2)
      isysmode calls
      (log ++ tcb.rasNotes state prot texcd) := by
  by_cases htakes : tcb.Takes state prot
  · have hab : (texView log).aborted = false := by
      rw [← h.tex0, ← Bool.not_eq_true, ← texflg_tex0, not_not]
      exact htakes.2.2.2.2
    have hcore := h.toTexCore.raised hab texcd.toNat
    have hnotes : log ++ tcb.rasNotes state prot texcd =
        if tcb.texmask.getLsbD texcd.toNat then log ++ [.raised texcd.toNat] else log := by
      unfold TexBlock.rasNotes
      by_cases hmask : tcb.texmask.getLsbD texcd.toNat = true
      · rw [if_pos ⟨htakes, hmask⟩, if_pos hmask]
      · rw [if_neg fun hc => hmask hc.2, if_neg hmask, List.append_nil]
    have hab' :
        (texView (if tcb.texmask.getLsbD texcd.toNat then log ++ [.raised texcd.toNat]
          else log)).aborted = false := by
      split_ifs
      · rw [texView_concat]
        exact hab
      · exact hab
    rw [tcb.raise_of_takes htakes, hnotes]
    generalize (if tcb.texmask.getLsbD texcd.toNat then log ++ [.raised texcd.toNat] else log) =
      log' at hcore hab' ⊢
    generalize { tcb with pendtex := tcb.pendtex ||| (1#32 <<< texcd.toNat &&& tcb.texmask) } =
      tcb' at hcore ⊢
    dsimp only
    by_cases hnone : tcb'.pendtex = 0
    · rw [if_pos hnone, Bool.or_false]
      refine ⟨hcore, fun _ c hp => ?_⟩
      rw [← hcore.pend, hnone] at hp
      simp at hp
    rw [if_neg hnone]
    by_cases hstart : tcb'.pendtex &&& 1 ≠ 0 ∨ tcb'.texflg &&& TEX1_RUNNING = 0
    · rw [if_pos hstart, Bool.or_true]
      exact hcore.post ((hcore.free_iff hab').mpr hstart) (fun _ => rfl) fun _ => rfl
    · rw [if_neg hstart, Bool.or_false]
      exact ⟨hcore, fun hfree => absurd ((hcore.free_iff hab').mp hfree) hstart⟩
  · obtain ⟨hreq, htcb⟩ := tcb.raise_of_not_takes texcd htakes
    rw [hreq, htcb, Bool.or_false, TexBlock.rasNotes, if_neg fun hc => htakes hc.1, List.append_nil]
    exact h

/-- The critical section of `_tk_def_tex`. -/
theorem TexInv.defTex (h : TexInv tcb reqdct isysmode calls log) (state : TaskState) (prot : ER)
    (texhdr : Bool) :
    TexInv (tcb.defTex state prot (isysmode ≠ 0) texhdr).2 reqdct isysmode calls
      (log ++ tcb.defNotes state prot (isysmode ≠ 0) texhdr) := by
  unfold TexBlock.defNotes TexBlock.defTex
  by_cases hstate : state = .nonexist
  · rw [if_pos hstate, if_neg (by simp), List.append_nil]
    exact h
  rw [if_neg hstate]
  by_cases hprot : prot ≠ E_OK
  · rw [if_pos hprot, if_neg hprot, List.append_nil]
    exact h
  rw [if_neg hprot]
  by_cases hrng : decide (isysmode ≠ 0) = true
  · rw [if_pos hrng, if_neg (by simp), List.append_nil]
    exact h
  rw [if_neg hrng, if_pos rfl]
  have hno (c : ℕ) : ((texView log).step (.dropped (BitVec.allOnes 32))).pending c = false := by
    by_cases hc : c < 32
    · simp only [TexView.step, BitVec.getLsbD_allOnes, hc, decide_true, Bool.not_true,
        Bool.and_false]
    · simp [TexView.step, ← h.pend, BitVec.getLsbD_of_ge tcb.pendtex c (by omega)]
  have haside {w : BitVec 32} (hw : w ∈ 0 :: calls.filterMap Frame.exectex) :
      w = 0 ∨ w ∈ texWords tcb calls :=
    (List.mem_cons.mp hw).imp_right (List.mem_cons_of_mem _)
  refine ⟨{
    right := h.right.concat trivial
    pend c := by rw [texView_concat, hno]; exact BitVec.getLsbD_zero
    mask c hc := by simp at hc
    hdr _ := rfl
    user _ := by simpa using hrng
    tex0 := by rw [texView_concat]; exact h.tex0
    tex1 := by rw [texView_concat]; exact h.tex1
    saved := h.saved
    words w hw := ?_
    req w hw hne := h.req w ((haside hw).resolve_left hne) hne }, fun _ c hp => ?_⟩
  · refine TexWord.concat ?_ (fun _ => TexEvent.noConfusion) id rfl
    rcases haside hw with rfl | hw
    · exact texWord_zero
    · exact h.words w hw
  · rw [texView_concat, hno] at hp
    exact absurd hp Bool.noConfusion

/-- The critical section of `set_tex_mask`. -/
theorem TexInv.setTexMask (h : TexInv tcb reqdct isysmode calls log) (state : TaskState) (prot : ER)
    (texmsk : BitVec 32) (enable : Bool) :
    TexInv (tcb.setTexMask state prot texmsk enable).2 reqdct isysmode calls
      (log ++ tcb.maskNotes state prot texmsk enable) := by
  unfold TexBlock.maskNotes
  by_cases hset : state ≠ .nonexist ∧ prot = E_OK ∧ tcb.texhdr = true
  · have hhdr := hset.2.2
    cases enable with
    | true =>
      rw [tcb.setTexMask_of true hset, if_neg fun hc => absurd hc.2.symm Bool.noConfusion,
        List.append_nil]
      dsimp only [cond_true]
      have hpend (c : ℕ) :
        (tcb.pendtex &&& (tcb.texmask ||| texmsk) &&& (tcb.texmask ||| texmsk)).getLsbD c =
          tcb.pendtex.getLsbD c := by
        have hm := h.mask c
        simp only [BitVec.getLsbD_and, BitVec.getLsbD_or]
        cases hp : tcb.pendtex.getLsbD c
        · simp
        · simp [hm hp]
      exact { h with
        pend c := (hpend c).trans (h.pend c)
        mask c hc := by
          rw [BitVec.getLsbD_or, h.mask c ((hpend c).symm.trans hc), Bool.true_or]
        hdr hn := absurd (hhdr.symm.trans hn) Bool.noConfusion }
    | false =>
      rw [tcb.setTexMask_of false hset, if_pos ⟨rfl, rfl⟩]
      dsimp only [cond_false]
      have hpend (c : ℕ) :
        (tcb.pendtex &&& (tcb.texmask &&& ~~~texmsk) &&& (tcb.texmask &&& ~~~texmsk)).getLsbD c =
          ((texView log).step (.dropped texmsk)).pending c := by
        have hm := h.mask c
        simp only [BitVec.getLsbD_and, BitVec.getLsbD_not, TexView.step, ← h.pend]
        cases hp : tcb.pendtex.getLsbD c
        · simp
        · simp [hm hp, BitVec.lt_of_getLsbD hp]
      refine ⟨{
        right := h.right.concat trivial
        pend c := by rw [texView_concat]; exact hpend c
        mask c hc := by
          simp only [BitVec.getLsbD_and, Bool.and_eq_true] at hc ⊢
          exact hc.2
        hdr hn := absurd (hhdr.symm.trans hn) Bool.noConfusion
        user := h.user
        tex0 := by rw [texView_concat]; exact h.tex0
        tex1 := by rw [texView_concat]; exact h.tex1
        saved := h.saved
        words w hw := (h.words w hw).concat (fun _ => TexEvent.noConfusion) id rfl
        req := h.req }, fun hfree c hp => ?_⟩
      have hless {d : ℕ} (hd : ((texView log).step (.dropped texmsk)).pending d = true) :
          (texView log).pending d = true := by
        simp only [TexView.step, Bool.and_eq_true] at hd
        exact hd.1
      rw [texView_concat] at hfree hp
      exact h.asked ⟨hfree.1, hfree.2.imp_right hless⟩ c (hless hp)
  · obtain ⟨herr, hsame | hsame⟩ := tcb.setTexMask_of_not texmsk enable hset
    · rw [if_neg fun hc => herr hc.1, List.append_nil, hsame]
      exact h
    · rw [if_neg fun hc => herr hc.1, List.append_nil, hsame]
      refine h.congr rfl rfl (fun c => ?_) rfl rfl rfl
      have hm := h.mask c
      rw [BitVec.getLsbD_and]
      cases hp : tcb.pendtex.getLsbD c
      · rfl
      · rw [hm hp, Bool.and_self]

/-- `setup_texhdr`, at user level. -/
theorem TexInv.setupTexhdr (h : TexInv tcb reqdct isysmode [] log) :
    TexInv tcb.setupTexhdr.2 false isysmode []
      (log ++ (tcb.setupTexhdr.1.map TexEvent.started).toList) := by
  have hself {w : BitVec 32} (hw : w ∈ texWords tcb []) : w = tcb.exectex :=
    List.mem_singleton.mp hw
  have hword := h.words _ List.mem_cons_self
  rcases tcb.setupTexhdr_spec with ⟨hzero, heq⟩ | ⟨c, hc, heq⟩
  · rw [heq]
    have hlog : log ++ (Option.map TexEvent.started none).toList = log := List.append_nil log
    rw [hlog]
    exact { h with req := fun w hw hne => absurd ((hself hw).trans hzero) hne }
  · rw [heq]
    have hab : (texView log).aborted = false := by
      rw [← Bool.not_eq_true]
      exact fun hab => ne_zero_of_bit hc.1 (hword.aborted hab)
    have hstart : (c = 0 ∨ (texView log).running = false) ∧ TexDue log c := by
      rcases Nat.eq_zero_or_pos c with rfl | hpos
      · exact ⟨Or.inl rfl, hword.zero hc.1⟩
      · obtain ⟨hdue, hrun⟩ := hword.other c hc.1 (hc.2 0 hpos)
        exact ⟨Or.inr hrun, hdue⟩
    show TexInv _ false isysmode [] (log ++ [.started c])
    refine ⟨{
      right := h.right.concat ⟨hab, hstart⟩
      pend d := by rw [texView_concat, and_not_texBit hc.lt, h.pend]; rfl
      mask d hd := by
        rw [and_not_texBit hc.lt, Bool.and_eq_true] at hd
        exact h.mask d hd.1
      hdr := h.hdr
      user := h.user
      tex0 := ?_
      tex1 := ?_
      saved := fun _ hf => absurd hf List.not_mem_nil
      words := fun w hw => List.mem_singleton.mp hw ▸ texWord_zero
      req := fun w hw hne => absurd (List.mem_singleton.mp hw) hne }, fun hfree d hp => ?_⟩
    · rw [texView_concat, texflg_started 0, h.tex0]
      by_cases hzero : c = 0 <;> simp [TexView.step, hzero]
    · rw [texView_concat, texflg_started 1, h.tex1]
      by_cases hzero : c = 0 <;> simp [TexView.step, hzero]
    · rw [texView_concat] at hfree
      obtain ⟨hnab, hfree⟩ := hfree
      have hpos : c ≠ 0 := fun hzero => by simp [TexView.step, hzero] at hnab
      simp only [TexView.step, hpos, ne_eq, not_false_eq_true, decide_true, Bool.or_true,
        Bool.true_eq_false, false_or, Bool.and_eq_true] at hfree
      -- code 0 would have been the lowest
      obtain ⟨w, hw, hbit⟩ :=
        h.asked ⟨hab, hstart.1.imp_left (absurd · hpos) |>.elim False.elim Or.inl⟩ 0 hfree.1
      exact absurd (hc.le (hself hw ▸ hbit)) (by omega)

/-- `tk_end_tex` ends the handler. -/
theorem TexInv.ended (h : TexInv tcb reqdct isysmode calls log)
    (hab : (texView log).aborted = false) (hrun : (texView log).running = true)
    (hsaved : calls.filterMap Frame.texflg = []) :
    TexInv { tcb with texflg := tcb.texflg &&& ~~~TEX1_RUNNING, exectex := tcb.exectex |||
      tcb.pendtex }
      (reqdct || decide (tcb.endCode > 0)) isysmode calls (log ++ [.ended]) := by
  have hcore : TexCore { tcb with texflg := tcb.texflg &&& ~~~TEX1_RUNNING } reqdct isysmode calls
    (log ++ [.ended]) := {
    right := h.right.concat ⟨hrun, hab⟩
    pend c := by rw [texView_concat]; exact h.pend c
    mask := h.mask
    hdr := h.hdr
    user := h.user
    tex0 := by
      rw [texView_concat, texflg_ended]
      simpa [TexView.step] using h.tex0
    tex1 := by
      rw [texView_concat, texflg_ended]
      simp [TexView.step]
    saved _ hf := absurd hf (hsaved ▸ List.not_mem_nil)
    words w hw := (h.words w hw).concat (fun _ => TexEvent.noConfusion) (fun _ => rfl) rfl
    req := h.req }
  refine hcore.post ?_ (fun hne => ?_) fun hreq => by rw [hreq, Bool.true_or]
  · rw [texView_concat]
    exact ⟨hab, Or.inl rfl⟩
  · rw [Bool.or_eq_true, decide_eq_true_eq]
    refine or_iff_not_imp_right.mpr fun hcode => ?_
    obtain ⟨c, hc⟩ := bit_of_ne_zero hne
    rw [BitVec.getLsbD_or, Bool.or_eq_true] at hc
    rcases hc with hc | hc
    · exact h.req _ List.mem_cons_self (ne_zero_of_bit hc)
    -- only code 0 may be pending, and it has been asked for
    · have hc0 : c = 0 := by
        by_contra hne0
        rcases tcb.endCode_spec with ⟨-, hnone⟩ | ⟨hpos, -⟩
        · exact absurd (hc.symm.trans (hnone c (by omega))) Bool.noConfusion
        · omega
      subst hc0
      have hp := (h.pend 0).symm.trans hc
      obtain ⟨w, hw, hbit⟩ := h.asked ⟨hab, Or.inr hp⟩ 0 hp
      exact h.req w hw (ne_zero_of_bit hbit)

/-- `tk_end_tex` has the handler go on with the next exception. -/
theorem TexInv.continued (h : TexInv tcb reqdct isysmode calls log)
    (hab : (texView log).aborted = false) (hrun : (texView log).running = true)
    (hcode : tcb.endCode ≠ 0) :
    TexInv { tcb with pendtex := tcb.pendtex &&& ~~~(1#32 <<< tcb.endCode) } reqdct isysmode calls
      (log ++ [.ended] ++ [.started tcb.endCode]) := by
  obtain ⟨hpos, hset, -⟩ := tcb.endCode_spec.resolve_left fun hzero => hcode hzero.1
  have hlt : tcb.endCode < 32 := BitVec.lt_of_getLsbD hset
  generalize tcb.endCode = c at hpos hset hlt
  have hdue : TexDue log c := (texDue_of_pending h.right c).2 ((h.pend c).symm.trans hset)
  have hended : History.Right TexRight (log ++ [.ended]) := h.right.concat ⟨hrun, hab⟩
  have hview : texView (log ++ [.ended] ++ [.started c]) = ((texView log).step .ended).step
      (.started c) := by
    rw [texView_concat, texView_concat]
  have hrun' : (texView (log ++ [.ended] ++ [.started c])).running = true := by
    rw [hview]
    simp [TexView.step, hpos.ne']
  have hab' : (texView (log ++ [.ended] ++ [.started c])).aborted = (texView log).aborted := by
    rw [hview]
    simp [TexView.step, hpos.ne']
  have hpend (d : ℕ) : (texView (log ++ [.ended] ++ [.started c])).pending d =
      (tcb.pendtex &&& ~~~(1#32 <<< c)).getLsbD d := by
    rw [hview, and_not_texBit hlt, h.pend]
    rfl
  have hless {d : ℕ} (hd : (texView (log ++ [.ended] ++ [.started c])).pending d = true) :
      (texView log).pending d = true := by
    rw [hpend, and_not_texBit hlt, h.pend, Bool.and_eq_true] at hd
    exact hd.1
  refine ⟨{
    right := hended.concat ⟨?_, Or.inr ?_, hdue.concat TexEvent.noConfusion⟩
    pend d := (hpend d).symm
    mask d hd := by
      rw [and_not_texBit hlt, Bool.and_eq_true] at hd
      exact h.mask d hd.1
    hdr := h.hdr
    user := h.user
    tex0 := h.tex0.trans hab'.symm
    tex1 := (h.tex1.trans hrun).trans hrun'.symm
    saved := h.saved
    words w hw := ?_
    req := h.req }, fun hfree d hp => ?_⟩
  · rw [texView_concat]
    exact hab
  · rw [texView_concat]
    rfl
  · -- while a handler is in execution, what is in break processing has code 0 with it
    have hword := h.words w hw
    have hzero (d : ℕ) (hd : w.getLsbD d = true) : w.getLsbD 0 = true := by
      by_contra hz
      rw [Bool.not_eq_true] at hz
      exact absurd ((hword.other d hd hz).2.symm.trans hrun) Bool.noConfusion
    refine ⟨fun hz => ?_, fun d hd hz => absurd ((hzero d hd).symm.trans hz) Bool.noConfusion,
      fun ha => ?_⟩
    · exact ((hword.zero hz).concat TexEvent.noConfusion).concat (by simp [hpos.ne'])
    · exact hword.aborted (hab'.symm.trans ha)
  · have hp0 := hfree.2.resolve_left fun hr => absurd (hrun'.symm.trans hr) Bool.noConfusion
    exact h.asked ⟨hab, Or.inr (hless hp0)⟩ d (hless hp)

/-- `_tk_end_tex`, called from no subsystem function. -/
theorem TexInv.tkEndTex (h : TexInv tcb reqdct isysmode calls log)
    (hfn : ∀ texflg, Frame.brkFn texflg ∉ calls) (ddsp enatex : Bool) :
    TexInv (tcb.tkEndTex ddsp enatex).2 (reqdct || (tcb.tkEndTex ddsp enatex).1.2) isysmode calls
      (log ++ tcb.endNotes ddsp enatex) := by
  unfold TexBlock.tkEndTex TexBlock.endNotes
  by_cases hddsp : ddsp = true
  · rw [if_pos hddsp, if_pos hddsp, Bool.or_false, List.append_nil]
    exact h
  rw [if_neg hddsp, if_neg hddsp]
  by_cases hflg : tcb.texflg &&& (TEX0_RUNNING ||| TEX1_RUNNING) ≠ TEX1_RUNNING
  · rw [if_pos hflg, if_pos hflg, Bool.or_false, List.append_nil]
    exact h
  rw [if_neg hflg, if_neg hflg]
  rw [not_not, texflg_only_tex1, h.tex0, h.tex1] at hflg
  obtain ⟨hab, hrun⟩ := hflg
  unfold TexBlock.endTex
  by_cases hend : enatex = true ∨ tcb.endCode = 0
  · rw [if_pos hend, if_pos hend]
    refine h.ended hab hrun ?_
    rw [List.filterMap_eq_nil_iff]
    intro f hf
    cases f with
    | brkFn texflg => exact absurd hf (hfn texflg)
    | _ => rfl
  · rw [if_neg hend, if_neg hend, Bool.or_false]
    have hcont := h.continued hab hrun fun hcode => hend (Or.inr hcode)
    rwa [List.append_assoc] at hcont

end Steps

end SmpTKernel
