import SmpTKernel.Timer
import SmpTKernel.Lib.Agenda

/-!
# Histories of the timer

What happened to timer events, oldest first, and what follows from a history in which every entry is
right where it stands: a tick fires the events that are due, in their order, and a wait ends with
the tick its timeout names.
-/

namespace SmpTKernel

open Agenda

/-- An event in the queue, with what starts at its time. -/
structure Entry where
  event : Tmeb
  time : ℤ
  callback : Option Cback
  arg : ℕ
  deriving DecidableEq, Repr

inductive TimerEvent
  | inserted (x : Entry)
  /-- A task begins to wait with a timeout. -/
  | waited (tmout : ℤ) (x : Entry)
  /-- An event without a time: its cell is set up, and it is in no queue. -/
  | parked (e : Tmeb)
  | deleted (e : Tmeb)
  /-- A tick begins, which brings the clock to `now`. -/
  | ticked (now : ℤ)
  | fired (x : Entry)
  | tickEnd
  deriving DecidableEq, Repr

/-- `p` without the entry of an event. -/
def dropEvent (e : Tmeb) (p : List Entry) : List Entry := p.filter fun x => x.event ≠ e

def TimerEvent.pending (p : List Entry) : TimerEvent → List Entry
  | inserted x | waited _ x => p ++ [x]
  | deleted e => dropEvent e p
  | fired x => dropEvent x.event p
  | _ => p

def TimerEvent.parkedAfter (l : List Tmeb) : TimerEvent → List Tmeb
  | inserted x | waited _ x => l.filter fun e => e ≠ x.event
  | parked e => e :: l
  | _ => l

def TimerEvent.clock (now : ℤ) : TimerEvent → ℤ
  | ticked now => now
  | _ => now

def TimerEvent.ticking (b : Bool) : TimerEvent → Bool
  | ticked _ => true
  | tickEnd => false
  | _ => b

/-- The events in the queue, in the order they were inserted. -/
def pendingEvents (log : List TimerEvent) : List Entry := log.foldl TimerEvent.pending []

def parkedEvents (log : List TimerEvent) : List Tmeb := log.foldl TimerEvent.parkedAfter []

def clockOf (log : List TimerEvent) : ℤ := log.foldl TimerEvent.clock 0

/-- A tick is under way. -/
def inTick (log : List TimerEvent) : Bool := log.foldl TimerEvent.ticking false

/-- The entries fired, in their order. -/
def firedIn (log : List TimerEvent) : List Entry :=
  log.filterMap fun | .fired x => some x | _ => none

section Simp

variable (log : List TimerEvent) (ev : TimerEvent)

@[simp] theorem pendingEvents_concat :
    pendingEvents (log ++ [ev]) = ev.pending (pendingEvents log) :=
  List.foldl_append

@[simp] theorem parkedEvents_concat :
    parkedEvents (log ++ [ev]) = ev.parkedAfter (parkedEvents log) :=
  List.foldl_append

@[simp] theorem clockOf_concat : clockOf (log ++ [ev]) = ev.clock (clockOf log) := List.foldl_append

@[simp] theorem inTick_concat : inTick (log ++ [ev]) = ev.ticking (inTick log) := List.foldl_append

end Simp

theorem mem_dropEvent {e : Tmeb} {p : List Entry} {x : Entry} :
    x ∈ dropEvent e p ↔ x ∈ p ∧ x.event ≠ e := by
  unfold dropEvent
  rw [List.mem_filter, decide_eq_true_iff]

/-! ## Right histories -/

/-- An event can go into the queue: it is not there yet, and the loop of a tick will not meet it. -/
def Arrives (log : List TimerEvent) (x : Entry) : Prop :=
  (∀ y ∈ pendingEvents log, y.event ≠ x.event) ∧ (inTick log → clockOf log < x.time)

def RightEvent (P : ℕ) (log : List TimerEvent) : TimerEvent → Prop
  | .inserted x => Arrives log x
  | .waited tmout x =>
    Arrives log x ∧ ∃ t, x = ⟨.wtmeb t, clockOf log + tmout + P, some .waitReleaseTmout, t⟩
  | .fired x => x.time ≤ clockOf log ∧ ∃ l, Sorts Entry.time (pendingEvents log) (x :: l)
  | .tickEnd => ∀ x ∈ pendingEvents log, clockOf log < x.time
  | .ticked now => now = clockOf log + P
  | .parked _ | .deleted _ => True

def RightHistory (P : ℕ) (log : List TimerEvent) : Prop :=
  ∀ a ev b, log = a ++ ev :: b → RightEvent P a ev

variable {P : ℕ} {log a b : List TimerEvent} {ev : TimerEvent} {x y : Entry} {e : Tmeb}

/-- `ev` puts `x` into the queue. -/
def TimerEvent.Inserts (ev : TimerEvent) (x : Entry) : Prop :=
  ev = inserted x ∨ ∃ tmout, ev = waited tmout x

theorem mem_pending {p : List Entry} (h : y ∈ ev.pending p) : y ∈ p ∨ ev.Inserts y := by
  cases ev with
  | inserted x =>
    exact (List.mem_append.mp h).imp_right fun h => Or.inl (by rw [List.mem_singleton.mp h])
  | waited tmout x =>
    exact (List.mem_append.mp h).imp_right fun h => Or.inr ⟨tmout, by rw [List.mem_singleton.mp h]⟩
  | deleted e => exact Or.inl (mem_dropEvent.mp h).1
  | fired x => exact Or.inl (mem_dropEvent.mp h).1
  | parked _ => exact Or.inl h
  | ticked _ => exact Or.inl h
  | tickEnd => exact Or.inl h

theorem RightEvent.arrives (h : RightEvent P log ev) (hx : ev.Inserts x) : Arrives log x := by
  rcases hx with rfl | ⟨tmout, rfl⟩
  · exact h
  · exact h.1

theorem RightHistory.nil : RightHistory P [] := by
  intro a ev b h
  exact absurd h.symm (List.append_ne_nil_of_right_ne_nil a (List.cons_ne_nil ev b))

theorem RightHistory.concat (h : RightHistory P log) (he : RightEvent P log ev) :
    RightHistory P (log ++ [ev]) := by
  intro a ev' b hab
  rcases List.eq_nil_or_concat' b with rfl | ⟨b, z, rfl⟩
  · obtain ⟨rfl, hev⟩ := List.append_inj' hab rfl
    obtain rfl := List.singleton_inj.mp hev
    exact he
  · rw [← List.cons_append, ← List.append_assoc] at hab
    exact h a ev' b (List.append_inj' hab rfl).1

theorem RightHistory.left (h : RightHistory P (a ++ b)) : RightHistory P a := by
  intro c ev d hcd
  exact h c ev (d ++ b) (by rw [hcd, List.append_assoc, List.cons_append])

theorem RightHistory.last (h : RightHistory P (a ++ [ev])) : RightEvent P a ev := h a ev [] rfl

theorem RightHistory.nodup (h : RightHistory P log) :
    ((pendingEvents log).map Entry.event).Nodup := by
  induction log using List.reverseRecOn with
  | nil => exact List.nodup_nil
  | append_singleton log ev ih =>
    have ih := ih h.left
    have arrive {x : Entry} (hx : Arrives log x) :
        ((pendingEvents log ++ [x]).map Entry.event).Nodup := by
      rw [List.map_append, List.map_singleton, List.nodup_append]
      refine ⟨ih, List.nodup_singleton _, ?_⟩
      intro e he e' he'
      obtain ⟨y, hy, rfl⟩ := List.mem_map.mp he
      rw [List.mem_singleton.mp he']
      exact hx.1 y hy
    have drop (e : Tmeb) : ((dropEvent e (pendingEvents log)).map Entry.event).Nodup :=
      ih.sublist (List.filter_sublist.map _)
    have hev := h.last
    rw [pendingEvents_concat]
    cases ev with
    | inserted x => exact arrive hev
    | waited tmout x => exact arrive hev.1
    | deleted e => exact drop e
    | fired x => exact drop x.event
    | parked _ => exact ih
    | ticked _ => exact ih
    | tickEnd => exact ih

theorem RightHistory.eq_of_event (h : RightHistory P log) (hx : x ∈ pendingEvents log)
    (hy : y ∈ pendingEvents log) (e : x.event = y.event) : x = y :=
  List.inj_on_of_nodup_map h.nodup hx hy e

/-- What is fired was in the queue, and its time had come. -/
theorem RightHistory.fired_pending (h : RightHistory P log) (hab : log = a ++ .fired x :: b) :
    x ∈ pendingEvents a ∧ x.time ≤ clockOf a := by
  obtain ⟨hx, l, hl⟩ := h a _ b hab
  exact ⟨hl.mem_iff.mp List.mem_cons_self, hx⟩

/-! ## Ticks -/

/-- The beginning or the end of a tick. -/
def TimerEvent.Bounds : TimerEvent → Prop
  | ticked _ | tickEnd => True
  | _ => False

/-- The entries whose time has come. -/
def dueBy (now : ℤ) (l : List Entry) : List Entry := l.filter fun x => x.time ≤ now

theorem mem_dueBy {now : ℤ} {l : List Entry} : x ∈ dueBy now l ↔ x ∈ l ∧ x.time ≤ now := by
  unfold dueBy
  rw [List.mem_filter, decide_eq_true_iff]

/-- A tick with the events `b` between its two ends: what it fires are the entries that were due, in
the order of the queue and each once, but for those a callback deleted before their turn came. -/
structure TickFires (now : ℤ) (l : List Entry) (b : List TimerEvent) : Prop where
  inOrder : (firedIn b).Sublist (dueBy now l)
  once : (firedIn b).Nodup
  all : ∀ x ∈ dueBy now l, x ∈ firedIn b ∨ .deleted x.event ∈ b
  deleted : ∀ b₁ e b₂, b = b₁ ++ .deleted e :: b₂ → ∀ x ∈ firedIn b₂, x.event ≠ e

/-- Every tick fires what it has to. -/
def TicksRight (log : List TimerEvent) : Prop :=
  ∀ a now b c, log = a ++ .ticked now :: (b ++ .tickEnd :: c) → (∀ ev ∈ b, ¬ev.Bounds) →
    ∃ l, Sorts Entry.time (pendingEvents a) l ∧ TickFires now l b

section Tick

variable {now : ℤ} {l d p p' : List Entry}

theorem dueBy_cons_of_le (h : x.time ≤ now) (l : List Entry) :
    dueBy now (x :: l) = x :: dueBy now l :=
  List.filter_cons_of_pos (decide_eq_true h)

theorem dueBy_concat_of_lt (h : now < x.time) (l : List Entry) :
    dueBy now (l ++ [x]) = dueBy now l := by
  unfold dueBy
  rw [List.filter_append, List.filter_cons_of_neg (by simpa using h), List.filter_nil,
    List.append_nil]

theorem dueBy_dropEvent (e : Tmeb) (l : List Entry) :
    dueBy now (dropEvent e l) = dropEvent e (dueBy now l) :=
  List.filter_comm ..

theorem dropEvent_cons_self (x : Entry) (l : List Entry) :
    dropEvent x.event (x :: l) = dropEvent x.event l :=
  List.filter_cons_of_neg (by simp)

theorem firedIn_concat (b : List TimerEvent) (ev : TimerEvent) :
    firedIn (b ++ [ev]) = firedIn b ++ firedIn [ev] := List.filterMap_append

theorem firedIn_concat_of_nil (b : List TimerEvent) (h : firedIn [ev] = []) :
    firedIn (b ++ [ev]) = firedIn b := by
  rw [firedIn_concat, h, List.append_nil]

/-- Within a tick, after the events `b`: the entries still due are `d`, those of the beginning that
were neither fired nor deleted; `p` is in the queue. -/
structure Remains (now : ℤ) (l : List Entry) (b : List TimerEvent) (p d : List Entry) : Prop where
  sorts : Sorts Entry.time (dueBy now p) d
  inOrder : (firedIn b ++ d).Sublist (dueBy now l)
  all : ∀ x ∈ dueBy now l, x ∈ firedIn b ∨ .deleted x.event ∈ b ∨ x ∈ d

theorem Remains.skip (h : Remains now l b p d) (hf : firedIn [ev] = [])
    (hp : dueBy now p' = dueBy now p) :
    Remains now l (b ++ [ev]) p' d := by
  refine ⟨hp ▸ h.sorts, ?_, fun x hx => ?_⟩
  · rw [firedIn_concat_of_nil b hf]
    exact h.inOrder
  · rw [firedIn_concat_of_nil b hf]
    exact (h.all x hx).imp_right fun h => h.imp_left fun h => List.mem_append_left _ h

theorem Remains.delete (h : Remains now l b p d) (e : Tmeb) :
    Remains now l (b ++ [.deleted e]) (dropEvent e p) (dropEvent e d) := by
  refine ⟨?_, ?_, fun x hx => ?_⟩
  · rw [dueBy_dropEvent]
    exact h.sorts.filter _
  · rw [firedIn_concat_of_nil b rfl]
    exact (List.Sublist.append_left List.filter_sublist _).trans h.inOrder
  · rw [firedIn_concat_of_nil b rfl]
    rcases h.all x hx with hf | hd | hd
    · exact Or.inl hf
    · exact Or.inr (Or.inl (List.mem_append_left _ hd))
    · by_cases he : x.event = e
      · exact Or.inr (Or.inl (List.mem_append_right _ (he ▸ List.mem_cons_self)))
      · exact Or.inr (Or.inr (mem_dropEvent.mpr ⟨hd, he⟩))

theorem Remains.fire (h : Remains now l b p d) (hx : x.time ≤ now) {l' : List Entry}
    (hl' : Sorts Entry.time p (x :: l')) (heq : ∀ y ∈ p, y.event = x.event → y = x) :
    ∃ d', Remains now l (b ++ [.fired x]) (dropEvent x.event p) d' := by
  have hd : d = x :: dueBy now l' := by
    apply h.sorts.unique
    rw [← dueBy_cons_of_le hx]
    exact hl'.filter _
  subst hd
  refine ⟨dropEvent x.event (dueBy now l'), ?_, ?_, fun y hy => ?_⟩
  · rw [dueBy_dropEvent, ← dropEvent_cons_self x (dueBy now l')]
    exact h.sorts.filter _
  · rw [firedIn_concat, List.append_assoc]
    refine List.Sublist.trans (List.Sublist.append_left ?_ _) h.inOrder
    exact List.Sublist.cons_cons x List.filter_sublist
  · rw [firedIn_concat]
    rcases h.all y hy with hf | hd | hd
    · exact Or.inl (List.mem_append_left _ hf)
    · exact Or.inr (Or.inl (List.mem_append_left _ hd))
    · by_cases he : y.event = x.event
      · have hy : y = x := heq y (mem_dueBy.mp (h.sorts.mem_iff.mp hd)).1 he
        exact Or.inl (List.mem_append_right _ (hy ▸ List.mem_cons_self))
      · rcases List.mem_cons.mp hd with rfl | hd
        · exact absurd rfl he
        · exact Or.inr (Or.inr (mem_dropEvent.mpr ⟨hd, he⟩))

theorem inside_tick (hb : ∀ ev ∈ b, ¬ev.Bounds) :
    clockOf (a ++ .ticked now :: b) = now ∧ inTick (a ++ .ticked now :: b) = true := by
  induction b using List.reverseRecOn with
  | nil => exact ⟨clockOf_concat a _, inTick_concat a _⟩
  | append_singleton b ev ih =>
    have hev : ¬ev.Bounds := hb ev (List.mem_append_right b List.mem_cons_self)
    obtain ⟨hclock, htick⟩ := ih fun ev' h => hb ev' (List.mem_append_left _ h)
    rw [← List.cons_append, ← List.append_assoc, clockOf_concat, inTick_concat, hclock, htick]
    cases ev with
    | ticked _ => exact absurd trivial hev
    | tickEnd => exact absurd trivial hev
    | _ => exact ⟨rfl, rfl⟩

theorem Arrives.late (hb : ∀ ev ∈ b, ¬ev.Bounds) (hx : Arrives (a ++ .ticked now :: b) x) :
    now < x.time := by
  obtain ⟨hclock, htick⟩ := @inside_tick a b now hb
  rw [← hclock]
  exact hx.2 htick

theorem tick_remains (h : RightHistory P (a ++ .ticked now :: b)) (hb : ∀ ev ∈ b, ¬ev.Bounds)
    (hl : Sorts Entry.time (pendingEvents a) l) :
    ∃ d, Remains now l b (pendingEvents (a ++ .ticked now :: b)) d := by
  induction b using List.reverseRecOn with
  | nil =>
    refine ⟨dueBy now l, ?_, List.Sublist.refl _, fun x hx => Or.inr (Or.inr hx)⟩
    rw [pendingEvents_concat]
    exact hl.filter _
  | append_singleton b ev ih =>
    rw [← List.cons_append, ← List.append_assoc] at h ⊢
    have hb' : ∀ ev' ∈ b, ¬ev'.Bounds := fun ev' h => hb ev' (List.mem_append_left _ h)
    have hbev : ¬ev.Bounds := hb ev (List.mem_append_right b List.mem_cons_self)
    obtain ⟨d, hd⟩ := ih h.left hb'
    have hev := h.last
    rw [pendingEvents_concat]
    cases ev with
    | inserted x => exact ⟨d, hd.skip rfl (dueBy_concat_of_lt (Arrives.late hb' hev) _)⟩
    | waited tmout x => exact ⟨d, hd.skip rfl (dueBy_concat_of_lt (Arrives.late hb' hev.1) _)⟩
    | parked _ => exact ⟨d, hd.skip rfl rfl⟩
    | ticked _ => exact absurd trivial hbev
    | tickEnd => exact absurd trivial hbev
    | deleted e => exact ⟨_, hd.delete e⟩
    | fired x =>
      obtain ⟨hdue, l', hl'⟩ := hev
      rw [(inside_tick hb').1] at hdue
      refine hd.fire hdue hl' fun y hy he => ?_
      exact h.left.eq_of_event hy (hl'.mem_iff.mp List.mem_cons_self) he

/-- After its deletion an event is not due within the tick. -/
theorem tick_deleted {b₁ b₂ : List TimerEvent}
    (h : RightHistory P (a ++ .ticked now :: (b₁ ++ .deleted e :: b₂)))
    (hb : ∀ ev ∈ b₁ ++ .deleted e :: b₂, ¬ev.Bounds)
    (hx : x ∈ pendingEvents (a ++ .ticked now :: (b₁ ++ .deleted e :: b₂))) (he : x.event = e) :
    now < x.time := by
  induction b₂ using List.reverseRecOn with
  | nil =>
    rw [← List.cons_append, ← List.append_assoc, pendingEvents_concat] at hx
    exact absurd he (mem_dropEvent.mp hx).2
  | append_singleton b₂ ev ih =>
    have hsplit : a ++ TimerEvent.ticked now :: (b₁ ++ .deleted e :: (b₂ ++ [ev])) =
        a ++ .ticked now :: (b₁ ++ .deleted e :: b₂) ++ [ev] := by simp
    rw [hsplit] at h hx
    rw [← List.cons_append, ← List.append_assoc] at hb
    have hb' : ∀ ev' ∈ b₁ ++ .deleted e :: b₂, ¬ev'.Bounds :=
      fun ev' h => hb ev' (List.mem_append_left _ h)
    rw [pendingEvents_concat] at hx
    rcases mem_pending hx with hx | hx
    · exact ih h.left hb' hx
    · exact (h.last.arrives hx).late hb'

theorem mem_firedIn : x ∈ firedIn log ↔ .fired x ∈ log := by
  unfold firedIn
  rw [List.mem_filterMap]
  constructor
  · rintro ⟨ev, hev, h⟩
    cases ev with
    | fired y => exact Option.some.inj h ▸ hev
    | _ => exact absurd h (Option.some_ne_none x).symm
  · exact fun h => ⟨_, h, rfl⟩

theorem dueBy_nodup (h : RightHistory P a) (hl : Sorts Entry.time (pendingEvents a) l) :
    (dueBy now l).Nodup :=
  (hl.perm.nodup_iff.mpr h.nodup.of_map).sublist List.filter_sublist

theorem RightHistory.ticksRight (h : RightHistory P log) : TicksRight log := by
  intro a now b c hlog hb
  rw [← List.cons_append, ← List.append_assoc] at hlog
  have hright : RightHistory P (a ++ .ticked now :: b) := by
    apply RightHistory.left (b := .tickEnd :: c)
    rwa [← hlog]
  have hend : ∀ x ∈ pendingEvents (a ++ .ticked now :: b), now < x.time := by
    have hev := h _ _ _ hlog
    unfold RightEvent at hev
    rwa [(inside_tick hb).1] at hev
  obtain ⟨l, hl⟩ := Sorts.exists Entry.time (pendingEvents a)
  obtain ⟨d, hd⟩ := tick_remains hright hb hl
  have hnil : d = [] := by
    apply List.eq_nil_iff_forall_not_mem.mpr
    intro x hx
    obtain ⟨hx, hdue⟩ := mem_dueBy.mp (hd.sorts.mem_iff.mp hx)
    have := hend x hx
    omega
  subst hnil
  have horder : (firedIn b).Sublist (dueBy now l) := List.append_nil (firedIn b) ▸ hd.inOrder
  refine ⟨l, hl, horder, (dueBy_nodup hright.left hl).sublist horder, fun x hx => ?_, ?_⟩
  · exact (hd.all x hx).imp_right fun h => h.resolve_right List.not_mem_nil
  · rintro b₁ e b₂ rfl x hx
    obtain ⟨c₁, c₂, rfl⟩ := List.append_of_mem (mem_firedIn.mp hx)
    rw [← List.cons_append, ← List.append_assoc] at hb
    have hb' : ∀ ev ∈ b₁ ++ .deleted e :: c₁, ¬ev.Bounds :=
      fun ev h => hb ev (List.mem_append_left _ h)
    have hsplit : a ++ TimerEvent.ticked now :: (b₁ ++ .deleted e :: (c₁ ++ .fired x :: c₂)) =
        a ++ .ticked now :: (b₁ ++ .deleted e :: c₁) ++ .fired x :: c₂ := by simp
    obtain ⟨hpend, hdue⟩ := hright.fired_pending hsplit
    rw [(inside_tick hb').1] at hdue
    intro he
    rw [hsplit] at hright
    have := tick_deleted hright.left hb' hpend he
    omega

end Tick

/-! ## Waits -/

/-- The event leaves the queue. -/
def TimerEvent.Ends (e : Tmeb) : TimerEvent → Prop
  | deleted e' => e' = e
  | fired x => x.event = e
  | _ => False

/-- A wait with a timeout is entered for the time of the call, the timeout and one tick. It is over
when a tick ends that has reached this time, and if it times out, then not earlier. -/
def WaitsRight (P : ℕ) (log : List TimerEvent) : Prop :=
  ∀ a tmout x b, log = a ++ .waited tmout x :: b →
    (∃ t, x = ⟨.wtmeb t, clockOf a + tmout + P, some .waitReleaseTmout, t⟩) ∧
      ∀ b₁ ev b₂, b = b₁ ++ ev :: b₂ → (∀ ev' ∈ b₁, ¬ev'.Ends x.event) →
        (ev = .tickEnd → clockOf (a ++ .waited tmout x :: b₁) < x.time) ∧
          ∀ y, ev = .fired y → y.event = x.event → y = x ∧
            x.time ≤ clockOf (a ++ .waited tmout x :: b₁)

theorem stays_pending (hx : x ∈ pendingEvents a) (hb : ∀ ev ∈ b, ¬ev.Ends x.event) :
    x ∈ pendingEvents (a ++ b) := by
  induction b using List.reverseRecOn with
  | nil => rwa [List.append_nil]
  | append_singleton b ev ih =>
    have ih := ih fun ev' h => hb ev' (List.mem_append_left _ h)
    have hev : ¬ev.Ends x.event := hb ev (List.mem_append_right b List.mem_cons_self)
    rw [← List.append_assoc, pendingEvents_concat]
    cases ev with
    | inserted _ => exact List.mem_append_left _ ih
    | waited _ _ => exact List.mem_append_left _ ih
    | deleted e => exact mem_dropEvent.mpr ⟨ih, fun h => hev h.symm⟩
    | fired y => exact mem_dropEvent.mpr ⟨ih, fun h => hev h.symm⟩
    | parked _ => exact ih
    | ticked _ => exact ih
    | tickEnd => exact ih

theorem RightHistory.waitsRight (h : RightHistory P log) : WaitsRight P log := by
  intro a tmout x b hlog
  refine ⟨(h a _ b hlog).2, fun b₁ ev b₂ hb hends => ?_⟩
  have hlog' : log = (a ++ .waited tmout x :: b₁) ++ ev :: b₂ := by
    rw [hlog, hb, List.append_assoc, List.cons_append]
  have hpend : x ∈ pendingEvents (a ++ .waited tmout x :: b₁) := by
    rw [List.append_cons a]
    apply stays_pending _ hends
    rw [pendingEvents_concat]
    exact List.mem_append_right _ List.mem_cons_self
  have hev := h _ _ _ hlog'
  refine ⟨fun he => ?_, fun y he hy => ?_⟩
  · subst he
    exact hev x hpend
  · subst he
    obtain ⟨hin, htime⟩ := h.fired_pending hlog'
    have hright : RightHistory P (a ++ .waited tmout x :: b₁) := by
      rw [hlog'] at h
      exact h.left
    obtain rfl := hright.eq_of_event hin hpend hy
    exact ⟨rfl, htime⟩

end SmpTKernel
