import SmpTKernel.TaskStackSteps

/-!
# The stacks of the tasks in every run

While all packets are `StackRoomy`, the stacks of a task have room for what was asked for and
`_del_tsk` frees what was allocated. A packet that is not gets too little, or is refused by
`imalloc`: there is no block of pages of that size, and without a positive size no user stack is
asked for, as `StackShape` says of all runs. Nothing refuses a packet that overflows.
-/

namespace SmpTKernel

open Ownership

variable {cfg : StackCfg} {P Q : T_CTSK → Prop} {pk : T_CTSK} {s₀ s : StackSys} {g : StackHist}
  {sstack : ℕ} {stack : Option ℕ} {areas : List ImallocArea} {k t q n : ℕ} {c : ℕ × ℕ} {im : Imacb}
  {held : List (ℕ × ℕ)}

/-- Runs, with their history; the packets passed to `tk_cre_tsk` satisfy `P`. -/
inductive StackRun (cfg : StackCfg) (P : T_CTSK → Prop) (s₀ : StackSys) :
    StackSys → StackHist → Prop
  | init : StackRun cfg P s₀ s₀ ⟨fun _ => [], fun _ => none⟩
  | step {s : StackSys} {g : StackHist} (op : StackOp) :
      StackRun cfg P s₀ s g → op.Legal cfg P s g →
      StackRun cfg P s₀ (op.run cfg s).sys (g.after cfg s op)

theorem StackRun.mono (run : StackRun cfg P s₀ s g) (h : ∀ pk, P pk → Q pk) :
    StackRun cfg Q s₀ s g := by
  induction run with
  | init => exact .init
  | step op _ hop ih =>
    refine ih.step op ?_
    cases op with
    | creTsk k pk => exact ⟨hop.1, h pk hop.2⟩
    | im c op => exact hop
    | malloc k => exact hop
    | pages k q => exact hop
    | enter k t ercd => exact hop
    | delTsk k t => exact hop
    | free k di => exact hop

/-! ## Runs with packets that can be met -/

theorem StackStart.inv (start : StackStart s₀) :
    StackInv cfg s₀ s₀ ⟨fun _ => [], fun _ => none⟩ := by
  refine ⟨fun _ => .init, holdings_empty fun o => ?_, fun k pk stage hk => ?_, nofun, fun t ht =>
    absurd (start.tcb t) ht⟩
  · rcases o with k | t
    · exact owners_idle (start.call k)
    · rfl
  · rw [start.call k] at hk
    cases hk

theorem StackOp.after_of_nil (op : StackOp) (h : (op.run cfg s).ev = []) :
    g.after cfg s op = ⟨g.ev, op.made s g.made⟩ := by
  unfold StackHist.after
  rw [h, List.append_nil, Function.update_eq_self]

theorem creTsk_ev : (s.creTsk cfg pk k).ev = [] := by
  unfold StackSys.creTsk
  split_ifs <;> rfl

theorem enter_ev {ercd : ER} : (s.enter cfg k t ercd).ev = [] := by
  unfold StackSys.enter
  split
  · split_ifs <;> rfl
  · rfl

theorem delTsk_ev : (s.delTsk cfg k t).ev = [] := by
  unfold StackSys.delTsk
  split <;> rfl

theorem StackInv.run (inv : StackInv cfg s₀ s g) (start : StackStart s₀) {op : StackOp}
    (hop : op.Legal cfg (fun pk => creTskCheck cfg pk = E_OK → StackRoomy cfg pk) s g) :
    StackInv cfg s₀ (op.run cfg s).sys (g.after cfg s op) := by
  cases op with
  | im c op => exact inv.im start hop
  | creTsk k pk =>
    rw [(StackOp.creTsk k pk).after_of_nil creTsk_ev]
    exact inv.creTsk hop.1 hop.2
  | malloc k => exact inv.malloc start k
  | pages k q => exact inv.pages start hop
  | enter k t ercd =>
    rw [(StackOp.enter k t ercd).after_of_nil enter_ev]
    exact inv.enter start hop
  | delTsk k t =>
    rw [(StackOp.delTsk k t).after_of_nil delTsk_ev]
    exact inv.delTsk hop
  | free k di => exact inv.free k di

theorem StackRun.inv (start : StackStart s₀)
    (run : StackRun cfg (fun pk => creTskCheck cfg pk = E_OK → StackRoomy cfg pk) s₀ s g) :
    StackInv cfg s₀ s g := by
  induction run with
  | init => exact start.inv
  | step op _ hop ih => exact ih.run start hop

/-! ## All runs -/

/-- Which stacks a call has got, whatever was asked for. -/
def StageShape (pk : T_CTSK) : CreStage → Prop
  | .sstack => True
  | .sstackPages => True
  | .stack _ => 0 < (stkszOf pk).toInt
  | .stackPages _ => 0 < (stkszOf pk).toInt
  | .enter _ stack => stack.isSome ↔ 0 < (stkszOf pk).toInt

/-- What holds in all runs: blocks of pages come from the page allocator, and a user stack is
allocated if its size is positive. -/
structure StackShape (s : StackSys) (g : StackHist) : Prop where
  pagesz : ∀ c, (s.im c).pagesz = PAGESZ
  held : ∀ c, ∀ b ∈ heldBlocks (g.ev c), InPool b.1 b.2
  call : ∀ k pk stage, s.call k = some (.creTsk pk stage) → StageShape pk stage
  task : ∀ t pk areas, g.made t = some (pk, areas) →
    ∃ sstack stack, areas = allocated pk sstack stack ∧ (stack.isSome ↔ 0 < (stkszOf pk).toInt)

theorem mem_trackPages {e : List ImEvent} {b : ℕ × ℕ} (h : b ∈ e.foldl ImEvent.trackPages held) :
    b ∈ held ∨ .getSysMemBlk b.1 b.2 ∈ e := by
  induction e generalizing held with
  | nil => exact Or.inl h
  | cons x e ih =>
    rcases ih h with h | h
    · cases x with
      | got size ptr => exact Or.inl h
      | fails size => exact Or.inl h
      | freed ptr => exact Or.inl h
      | getSysMemBlk q n =>
        rcases List.mem_cons.mp h with rfl | h
        · exact Or.inr List.mem_cons_self
        · exact Or.inl h
      | relSysMemBlk q => exact Or.inl (List.mem_of_mem_filter h)
    · exact Or.inr (List.mem_cons_of_mem _ h)

theorem ImOp.getSysMemBlk_mem {op : ImOp} (h : .getSysMemBlk q n ∈ (op.run im).2) :
    ∃ call, op = .pages call (some q) ∧ n = imPages im call := by
  have hmalloc (call : ImCall) : .getSysMemBlk q n ∉ (imalloc im call).2 := by
    rcases imalloc_events im call with e | ⟨p, e⟩ <;> rw [e] <;> simp
  cases op with
  | malloc size => exact absurd h (hmalloc _)
  | calloc nmemb size => exact absurd h (hmalloc _)
  | pages call z =>
    cases z with
    | none => simp [ImOp.run, imallocPages_none] at h
    | some z =>
      obtain ⟨p, e⟩ := imallocPages_some im call z
      have h : .getSysMemBlk q n ∈ (imallocPages im call (some z)).2 := h
      rw [e] at h
      simp only [List.mem_cons, ImEvent.getSysMemBlk.injEq, reduceCtorEq, List.not_mem_nil,
        or_false] at h
      obtain ⟨rfl, rfl⟩ := h
      exact ⟨call, rfl, rfl⟩
  | free ptr di =>
    have h : .getSysMemBlk q n ∈ (ifree im ptr di).2 := h
    unfold ifree at h
    dsimp only at h
    split_ifs at h <;> simp at h
  | write mem => cases h

/-- A memory does an operation. -/
theorem StackShape.heap (shape : StackShape s g) {op : ImOp}
    (hop : ∀ call z, op = .pages call (some z) → InPool z (imPages (s.im c) call)) :
    (∀ d, (Function.update s.im c (op.run (s.im c)).1 d).pagesz = PAGESZ) ∧
      ∀ d, ∀ b ∈ heldBlocks ((g.append c (op.run (s.im c)).2).ev d), InPool b.1 b.2 := by
  constructor
  · intro d
    by_cases h : d = c
    · subst h
      rw [Function.update_self, op.run_pagesz]
      exact shape.pagesz d
    · rw [Function.update_of_ne h]
      exact shape.pagesz d
  · intro d b hb
    unfold StackHist.append at hb
    dsimp only at hb
    by_cases h : d = c
    · subst h
      rw [Function.update_self, heldBlocks, List.foldl_append] at hb
      rcases mem_trackPages hb with hb | hb
      · exact shape.held d b hb
      · obtain ⟨call, e, hn⟩ := ImOp.getSysMemBlk_mem hb
        rw [hn]
        exact hop call b.1 e
    · rw [Function.update_of_ne h] at hb
      exact shape.held d b hb

/-- A call goes on to `call'`, and no task is created or deleted. -/
theorem StackShape.onHeap (shape : StackShape s g) {op : ImOp} {call' : Option TskCall}
    {ret : Option ER} (hop : ∀ call z, op = .pages call (some z) → InPool z (imPages (s.im c) call))
    (hk : ∀ pk stage, call' = some (.creTsk pk stage) → StageShape pk stage) :
    StackShape (s.onHeap k c (op.run (s.im c)) call' ret).sys (g.append c (op.run (s.im c)).2) := by
  obtain ⟨hpagesz, hheld⟩ := shape.heap hop
  refine ⟨hpagesz, hheld, fun j pk stage hj => ?_, shape.task⟩
  have hj : Function.update s.call k call' j = some (.creTsk pk stage) := hj
  by_cases h : j = k
  · subst h
    rw [Function.update_self] at hj
    exact hk pk stage hj
  · rw [Function.update_of_ne h] at hj
    exact shape.call j pk stage hj

theorem StackShape.setCall (shape : StackShape s g) (k : ℕ) (call' : Option TskCall)
    (hk : ∀ pk stage, call' = some (.creTsk pk stage) → StageShape pk stage) :
    StackShape (s.setCall k call') g := by
  refine ⟨shape.pagesz, shape.held, fun j pk stage hj => ?_, shape.task⟩
  have hj : Function.update s.call k call' j = some (.creTsk pk stage) := hj
  by_cases h : j = k
  · subst h
    rw [Function.update_self] at hj
    exact hk pk stage hj
  · rw [Function.update_of_ne h] at hj
    exact shape.call j pk stage hj

theorem afterSstack_shape : StageShape pk (afterSstack pk sstack) := by
  unfold afterSstack
  split_ifs with hpos
  · exact hpos
  · exact iff_of_false (by simp) hpos

theorem StackShape.malloc (shape : StackShape s g) (k : ℕ) :
    StackShape (s.malloc cfg k).sys (g.append (s.malloc cfg k).imacb (s.malloc cfg k).ev) := by
  have hstill : StackShape s (g.append (0, 0) []) := by
    rw [append_nil]
    exact shape
  unfold StackSys.malloc
  rcases hc : s.call k with _ | ⟨pk, stage⟩ | ⟨areas, ret⟩
  · exact hstill
  · have hst := shape.call k pk _ hc
    cases stage with
    | sstack =>
      refine @onHeap _ _ _ _ shape (.malloc _) _ _ nofun fun pk' stage e => ?_
      cases e
      cases gotPtr (IAmalloc (s.im (SelIMACB TA_RNG0)) (sstkszOf cfg pk).toNat).2 with
      | none => trivial
      | some p => exact afterSstack_shape
    | stack sstack =>
      refine @onHeap _ _ _ _ shape (.malloc _) _ _ nofun fun pk' stage e => ?_
      cases e
      cases gotPtr (IAmalloc (s.im (SelIMACB pk.tskatr)) (stkszOf pk).toNat).2 with
      | none => exact hst
      | some p => exact iff_of_true rfl hst
    | sstackPages | stackPages | enter => exact hstill
  · exact hstill

theorem StackShape.pages (shape : StackShape s g) {z : Option ℕ}
    (hop : (StackOp.pages k z).Legal cfg P s g) :
    StackShape (s.pages cfg k z).sys (g.append (s.pages cfg k z).imacb (s.pages cfg k z).ev) := by
  have hstill : StackShape s (g.append (0, 0) []) := by
    rw [append_nil]
    exact shape
  have hpool {a : (ℕ × ℕ) × ImCall} {call : TskCall} (hc : s.call k = some call)
      (ha : call.asks cfg = some a) (call' : ImCall) (q : ℕ)
      (e : ImOp.pages a.2 z = .pages call' (some q)) :
      InPool q (imPages (s.im a.1) call') := by
    cases e
    exact ((hop call hc a ha).2 q rfl).2
  unfold StackSys.pages
  rcases hc : s.call k with _ | ⟨pk, stage⟩ | ⟨areas, ret⟩
  · exact hstill
  · have hst := shape.call k pk _ hc
    cases stage with
    | sstackPages =>
      refine @onHeap _ _ _ _ shape (.pages _ _) _ _ (hpool hc rfl) fun pk' stage e => ?_
      obtain ⟨p, -, e⟩ := Option.map_eq_some_iff.mp e
      cases e
      exact afterSstack_shape
    | stackPages sstack =>
      refine @onHeap _ _ _ _ shape (.pages _ _) _ _ (hpool hc rfl) fun pk' stage e => ?_
      cases hp :
        gotPtr (imallocPages (s.im (SelIMACB pk.tskatr)) ⟨(stkszOf pk).toNat, false⟩ z).2 with
      | none =>
        rw [hp] at e
        cases e
      | some p =>
        rw [hp] at e
        cases e
        exact iff_of_true rfl hst
    | sstack | stack | enter => exact hstill
  · exact hstill

theorem StackShape.run (shape : StackShape s g) {op : StackOp} (hop : op.Legal cfg P s g) :
    StackShape (op.run cfg s).sys (g.after cfg s op) := by
  cases op with
  | im c op =>
    obtain ⟨hpagesz, hheld⟩ := shape.heap hop.2.2
    exact ⟨hpagesz, hheld, shape.call, shape.task⟩
  | creTsk k pk =>
    rw [(StackOp.creTsk k pk).after_of_nil creTsk_ev]
    show StackShape (s.creTsk cfg pk k).sys g
    unfold StackSys.creTsk
    split_ifs
    · exact shape
    · refine shape.setCall k _ fun pk' stage e => ?_
      cases e
      trivial
  | malloc k => exact shape.malloc k
  | pages k q => exact shape.pages hop
  | enter k t ercd =>
    rw [(StackOp.enter k t ercd).after_of_nil enter_ev]
    show StackShape (s.enter cfg k t ercd).sys ⟨g.ev, madeBy g.made t ercd (s.call k)⟩
    unfold StackSys.enter
    rcases hc : s.call k with _ | ⟨pk, stage⟩ | ⟨areas, ret⟩
    · exact shape
    · cases stage with
      | enter sstack stack =>
        have hst : stack.isSome ↔ 0 < (stkszOf pk).toInt := shape.call k pk _ hc
        unfold madeBy
        by_cases herr : ercd < E_OK
        · simp only [if_pos herr]
          refine shape.setCall k _ fun pk' stage e => ?_
          cases e
        · simp only [if_neg herr]
          have hidle := shape.setCall k none nofun
          refine ⟨hidle.pagesz, hidle.held, hidle.call, fun u pk' areas hu => ?_⟩
          have hu : Function.update g.made t (some (pk, allocated pk sstack stack)) u =
            some (pk', areas) := hu
          by_cases h : u = t
          · subst h
            rw [Function.update_self] at hu
            cases hu
            exact ⟨sstack, stack, rfl, hst⟩
          · rw [Function.update_of_ne h] at hu
            exact shape.task u pk' areas hu
      | sstack | sstackPages | stack | stackPages => exact shape
    · exact shape
  | delTsk k t =>
    rw [(StackOp.delTsk k t).after_of_nil delTsk_ev]
    have htask (u : ℕ) (pk : T_CTSK) (areas : List ImallocArea)
        (hu : Function.update g.made t none u = some (pk, areas)) :
        ∃ sstack stack, areas = allocated pk sstack stack ∧
        (stack.isSome ↔ 0 < (stkszOf pk).toInt) := by
      by_cases h : u = t
      · subst h
        rw [Function.update_self] at hu
        cases hu
      · rw [Function.update_of_ne h] at hu
        exact shape.task u pk areas hu
    show StackShape (s.delTsk cfg k t).sys ⟨g.ev, Function.update g.made t none⟩
    unfold StackSys.delTsk
    rcases s.tcb t with _ | tcb
    · exact ⟨shape.pagesz, shape.held, shape.call, htask⟩
    · have hfrees := shape.setCall k (some (.frees (delAreas cfg tcb) none)) fun pk stage e => by
        cases e
      exact ⟨hfrees.pagesz, hfrees.held, hfrees.call, htask⟩
  | free k di =>
    show StackShape (s.free k di).sys (g.append (s.free k di).imacb (s.free k di).ev)
    have hstill : StackShape s (g.append (0, 0) []) := by
      rw [append_nil]
      exact shape
    unfold StackSys.free
    rcases s.call k with _ | ⟨pk, stage⟩ | ⟨_ | ⟨a, areas⟩, ret⟩
    · exact hstill
    · exact hstill
    · exact hstill
    · dsimp only
      split_ifs
      · exact @onHeap _ _ _ _ shape (.free a.ptr di) _ _ nofun nofun
      · exact @onHeap _ _ _ _ shape (.free a.ptr di) _ _ nofun fun pk stage e => by cases e

theorem StackRun.shape (start : StackStart s₀) (run : StackRun cfg P s₀ s g) : StackShape s g := by
  induction run with
  | init =>
    refine ⟨start.pagesz, nofun, fun k pk stage hk => ?_, nofun⟩
    rw [start.call k] at hk
    cases hk
  | step op _ hop ih => exact ih.run hop

/-! ## The stacks -/

/-- The areas `areas` of task `t`, created with `pk`, have room for what was asked for, and
`_del_tsk` frees them. -/
structure StacksThere (cfg : StackCfg) (s : StackSys) (g : StackHist) (t : ℕ) (pk : T_CTSK)
    (areas : List ImallocArea) : Prop where
  room : ∃ sstack stack, areas = allocated pk sstack stack ∧
    AreaRoom (s.im (SelIMACB TA_RNG0)) (outAreas (g.ev (SelIMACB TA_RNG0)))
      (heldBlocks (g.ev (SelIMACB TA_RNG0))) sstack (pk.sysNeed cfg) ∧
    (0 < pk.userNeed → ∃ p ∈ stack,
      AreaRoom (s.im (SelIMACB pk.tskatr)) (outAreas (g.ev (SelIMACB pk.tskatr)))
        (heldBlocks (g.ev (SelIMACB pk.tskatr))) p pk.userNeed)
  freed : ∃ c ∈ s.tcb t, delAreas cfg c = areas

/-- Moreover the packet does not overflow: otherwise it should have been refused. -/
structure StacksRight (cfg : StackCfg) (s : StackSys) (g : StackHist) (t : ℕ) (pk : T_CTSK)
    (areas : List ImallocArea) : Prop extends StacksThere cfg s g t pk areas where
  refused : StackFits cfg pk

theorem StackInv.there (inv : StackInv cfg s₀ s g) (start : StackStart s₀)
    (h : g.made t = some (pk, areas)) :
    StacksThere cfg s g t pk areas := by
  have htask := inv.task t pk areas h
  obtain ⟨⟨hacc, hroomy⟩, ⟨sstack, stack, e, hall⟩, hfreed⟩ := htask
  refine ⟨⟨sstack, stack, e, (inv.imInv start _).room hall.sys (hroomy.sstksz hacc).1,
    fun hpos => ?_⟩, hfreed⟩
  obtain ⟨p, hp⟩ := Option.isSome_iff_exists.mp (hall.iff.mpr (hroomy.user_pos hacc hpos))
  exact ⟨p, hp, (inv.imInv start _).room (hall.user p hp) (hroomy.stksz hacc).1⟩

/-- Stacks that are there are within what can be allocated. -/
theorem StackShape.roomy (shape : StackShape s g) (h : g.made t = some (pk, areas))
    (there : StacksThere cfg s g t pk areas) : StackRoomy cfg pk := by
  have hp : PAGESZ = 2048 := rfl
  have hq : QUEUESZ = 8 := rfl
  obtain ⟨sstack, stack, e, hsys, huser⟩ := there.room
  constructor
  · obtain ⟨b, hb, h₁, h₂⟩ := hsys.inside
    have hpool := shape.held _ b hb
    have hle := hpool.le
    have hlt := hpool.lt
    rw [shape.pagesz, hp] at h₂
    rw [hp] at hle hlt
    omega
  · by_contra hover
    have hneg : (stkszOf pk).toInt < 0 := stksz_overflow (by omega)
    obtain ⟨sstack', stack', e', hiff⟩ := shape.task t pk areas h
    obtain ⟨p, hp, -⟩ := huser (by omega)
    have hp : stack = some p := hp
    have hnone : stack' = none := Option.not_isSome_iff_eq_none.mp fun hc => by
      have := hiff.mp hc
      omega
    rw [e, hp, hnone] at e'
    cases e'

/-- **The stacks of a task.** In every run of the system in which all other packets are
`StackRoomy`: a task created with this packet has a system stack area and, if it asks for one, a
user stack area with room for the bytes asked for, inside one block of pages and apart from the
other outstanding areas, and these are what `_del_tsk` frees, if and only if the packet is
`StackRoomy`. Sums and roundings that overflow `INT` are not refused, so that all that is promised
holds if and only if the packet is `StackFits`. -/
theorem creTsk_stacks (start : StackStart s₀)
    (run : StackRun cfg (fun p => (creTskCheck cfg p = E_OK → StackRoomy cfg p) ∨ p = pk) s₀ s g)
    (h : g.made t = some (pk, areas)) :
    (StacksRight cfg s g t pk areas ↔ StackFits cfg pk) ∧
      (StacksThere cfg s g t pk areas ↔ StackRoomy cfg pk) := by
  have hthere : StacksThere cfg s g t pk areas ↔ StackRoomy cfg pk := by
    refine ⟨(run.shape start).roomy h, fun hroomy => ?_⟩
    have hall (p : T_CTSK) (hp : (creTskCheck cfg p = E_OK → StackRoomy cfg p) ∨ p = pk) :
        creTskCheck cfg p = E_OK → StackRoomy cfg p := by
      rcases hp with hp | rfl
      · exact hp
      · exact fun _ => hroomy
    exact ((run.mono hall).inv start).there start h
  refine ⟨⟨fun hr => hr.refused, fun hfits => ⟨hthere.mpr hfits.roomy, hfits⟩⟩, hthere⟩

/-! ## A packet that is not refused -/

/-- Nothing is held yet. -/
def newStackSys : StackSys :=
  ⟨fun _ => initIMACB ⟨8, PAGESZ, fun _ => ⟨0, 0⟩, []⟩, fun _ => none, fun _ => none⟩

theorem newStackSys_start : StackStart newStackSys :=
  ⟨fun _ => rfl, fun _ => rfl, fun _ => ⟨_, rfl, by decide, by decide, rfl⟩⟩

def smallStacks : StackCfg where
  dom := ⟨fun _ => 16, 0⟩
  numProc := 4
  maxResid := 8
  availableCop := 0
  defaultSstksz := 1024
  reserveSstack := fun _ => 0
  default_ge := by decide

/-- A task in the outermost protection level with a user stack of `n` bytes. -/
def userTask (n : BitVec 32) : T_CTSK := ⟨TA_RNG3, 1, n, 0, 0, 0, 0, 0, 0⟩

theorem pages_legal {call : TskCall} {a : (ℕ × ℕ) × ImCall} (hc : s.call k = some call)
    (ha : call.asks cfg = some a) (hp : a.2 ∈ (s.im a.1).pending)
    (hq : Fresh (s.im a.1) (heldBlocks (g.ev a.1)) q (imPages (s.im a.1) a.2))
    (hpool : InPool q (imPages (s.im a.1) a.2)) : (StackOp.pages k (some q)).Legal cfg P s g := by
  intro call' hc' a' ha'
  have e : call = call' := Option.some.inj (hc.symm.trans hc')
  subst e
  have e : a = a' := Option.some.inj (ha.symm.trans ha')
  subst e
  refine ⟨hp, fun z hz => ?_⟩
  cases hz
  exact ⟨hq, hpool⟩

/-- A task gets both its stacks. -/
theorem creTsk_stacks_user : ∃ s g areas, StackRun smallStacks (fun _ => True) newStackSys s g ∧
    g.made 1 = some (userTask 100, areas) ∧ StacksRight smallStacks s g 1 (userTask 100) areas := by
  have hfits : StackFits smallStacks (userTask 100) := by constructor <;> decide
  have start : StackRun smallStacks
      (fun p => (creTskCheck smallStacks p = E_OK → StackRoomy smallStacks p) ∨ p = userTask 100)
      newStackSys newStackSys ⟨fun _ => [], fun _ => none⟩ := .init
  have run₁ := start.step (.creTsk 0 (userTask 100)) ⟨rfl, Or.inr rfl⟩
  have run₂ := run₁.step (.malloc 0) trivial
  have run₃ :=
    run₂.step (.pages 0 (some 2048)) (pages_legal (a := (SelIMACB TA_RNG0, ⟨1024, false⟩)) rfl rfl
    (by decide +kernel) (by constructor <;> decide +kernel) (by constructor <;> decide +kernel))
  have run₄ := run₃.step (.malloc 0) trivial
  have run₅ :=
    run₄.step (.pages 0 (some 8192)) (pages_legal (a := (SelIMACB TA_RNG3, ⟨104, false⟩)) rfl rfl
    (by decide +kernel) (by constructor <;> decide +kernel) (by constructor <;> decide +kernel))
  have run₆ := run₅.step (.enter 0 1 1) (fun _ => rfl)
  refine ⟨_, _, [⟨SelIMACB TA_RNG0, 2056⟩, ⟨SelIMACB TA_RNG3, 8200⟩], run₆.mono fun _ _ =>
    trivial, rfl, ?_⟩
  exact (creTsk_stacks newStackSys_start run₆ rfl).1.mpr hfits

/-- No user stack is allocated for the largest size there is. -/
theorem creTsk_stacks_overflow : ∃ s g areas, StackRun smallStacks (fun _ => True) newStackSys s g ∧
    g.made 1 = some (userTask 0x7fffffff, areas) ∧
      ¬StacksThere smallStacks s g 1 (userTask 0x7fffffff) areas := by
  have start : StackRun smallStacks (fun _ => True) newStackSys newStackSys ⟨fun _ => [], fun _ =>
    none⟩ := .init
  have run₁ := start.step (.creTsk 0 (userTask 0x7fffffff)) ⟨rfl, trivial⟩
  have run₂ := run₁.step (.malloc 0) trivial
  have run₃ :=
    run₂.step (.pages 0 (some 2048)) (pages_legal (a := (SelIMACB TA_RNG0, ⟨1024, false⟩)) rfl rfl
    (by decide +kernel) (by constructor <;> decide +kernel) (by constructor <;> decide +kernel))
  have run₄ := run₃.step (.enter 0 1 1) (fun _ => rfl)
  refine ⟨_, _, [⟨SelIMACB TA_RNG0, 2056⟩], run₄, rfl, fun there => ?_⟩
  exact absurd ((run₄.shape newStackSys_start).roomy rfl there).user (by decide)

end SmpTKernel
