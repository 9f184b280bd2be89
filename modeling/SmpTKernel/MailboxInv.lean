import SmpTKernel.Mailbox
import SmpTKernel.Lib.Fuel
import SmpTKernel.Lib.StableQueue
import SmpTKernel.Lib.Stacks

/-!
# The order of packets

The packets that are sent and not yet received are those in the list of the mailbox. Their order
there is that of their priorities, and of sending among equals; in a mailbox without priorities they
all count as equal. A task waits only while there are none.
-/

namespace SmpTKernel

open History LinkedStack StableQueue

/-- What packets are ordered by. -/
def mbxKey (mbxatr : ℕ) (m : Packet) : ℤ := if mbxatr &&& TA_MPRI ≠ 0 then m.msgpri else 0

/-- The packets in the list of the mailbox. -/
def Mbxcb.MsgQueue (s : Mbxcb) (l : List ℕ) : Prop :=
  IsStack (fun msg => ptr? (s.msgque msg)) (ptr? s.headmsg) l

variable {mbxatr pk_msg : ℕ} {s s' : Mbxcb} {P q : List Packet} {log : List MbxEvent} {t : Tsk}
  {prevmsg : Option ℕ} {l : List ℕ}

/-! ## Insertion -/

@[simp] theorem ptr?_of_ne {p : ℕ} (h : p ≠ nullPtr) : ptr? p = some p := if_neg h

@[simp] theorem ptr?_null : ptr? nullPtr = none := rfl

theorem nextmsg_setNextmsg (s : Mbxcb) (prevmsg : Option ℕ) (next : ℕ) :
    (s.setNextmsg prevmsg next).nextmsg prevmsg = next := by
  cases prevmsg with
  | none => rfl
  | some msg => exact Function.update_self msg next s.msgque

theorem nextmsg_setNextmsg_of_ne (s : Mbxcb) {msg prevmsg : Option ℕ} (next : ℕ)
    (h : msg ≠ prevmsg) :
    (s.setNextmsg prevmsg next).nextmsg msg = s.nextmsg msg := by
  cases prevmsg with
  | none =>
    cases msg with
    | none => exact absurd rfl h
    | some msg => rfl
  | some p =>
    cases msg with
    | none => rfl
    | some msg => exact Function.update_of_ne (fun c => h (congrArg some c)) next s.msgque

/-- A change of the list and nothing else. -/
structure Relinks (s s' : Mbxcb) : Prop where
  frame : s' = { s with headmsg := s'.headmsg, msgque := s'.msgque }

theorem relinks_setNextmsg (s : Mbxcb) (prevmsg : Option ℕ) (next : ℕ) :
    Relinks s (s.setNextmsg prevmsg next) := by
  cases prevmsg <;> exact ⟨rfl⟩

theorem Relinks.trans {s'' : Mbxcb} (h : Relinks s s') (h' : Relinks s' s'') : Relinks s s'' := by
  refine ⟨?_⟩
  rw [h'.frame, h.frame]

/-- A packet goes between `prevmsg` and what follows it. -/
theorem isStack_splice (h : IsStack (fun msg => ptr? (s.msgque msg)) (ptr? (s.nextmsg prevmsg)) l)
    (hnull : pk_msg ≠ nullPtr) (hpk : pk_msg ∉ l) (hne : prevmsg ≠ some pk_msg)
    (hprev : ∀ x ∈ l, prevmsg ≠ some x) :
    let s' := (s.setNextmsg (some pk_msg) (s.nextmsg prevmsg)).setNextmsg prevmsg pk_msg
    IsStack (fun msg => ptr? (s'.msgque msg)) (ptr? (s'.nextmsg prevmsg)) (pk_msg :: l) := by
  intro s'
  have hnext : s'.nextmsg (some pk_msg) = s.nextmsg prevmsg :=
    (nextmsg_setNextmsg_of_ne _ _ hne.symm).trans (nextmsg_setNextmsg s _ _)
  refine ⟨?_, ?_⟩
  · rw [nextmsg_setNextmsg]
    exact ptr?_of_ne hnull
  · show IsStack _ (ptr? (s'.nextmsg (some pk_msg))) l
    rw [hnext]
    refine h.congr fun x hx => congrArg ptr? ?_
    show s'.nextmsg (some x) = s.nextmsg (some x)
    have hx' : some x ≠ some pk_msg := fun c => hpk (Option.some.inj c ▸ hx)
    rw [nextmsg_setNextmsg_of_ne _ _ (hprev x hx).symm, nextmsg_setNextmsg_of_ne _ _ hx']

/-- **The search for a place.** The packet goes behind those of its priority and before the first of
a larger one. -/
theorem queueInsertMpri_spec (hnull : pk_msg ≠ nullPtr)
    (h : IsStack (fun msg => ptr? (s.msgque msg)) (ptr? (s.nextmsg prevmsg)) l) (hnd : l.Nodup)
    (hpk : pk_msg ∉ l) (hne : prevmsg ≠ some pk_msg) (hprev : ∀ x ∈ l, prevmsg ≠ some x) :
    ∃ a b s', l = a ++ b ∧ (∀ x ∈ a, s.msgpri x ≤ s.msgpri pk_msg) ∧
      (∀ x ∈ b.head?, s.msgpri pk_msg < s.msgpri x) ∧
      (∀ turns, s.queueInsertMpri pk_msg prevmsg turns = if a.length < turns then
        some s' else none) ∧
      IsStack (fun msg => ptr? (s'.msgque msg)) (ptr? (s'.nextmsg prevmsg)) (a ++ pk_msg :: b) ∧
        Relinks s s' ∧
      ∀ msg, msg ≠ some pk_msg → msg ≠ prevmsg → (∀ x ∈ l, msg ≠ some x) →
        s'.nextmsg msg = s.nextmsg msg := by
  induction l generalizing prevmsg with
  | nil =>
    have hend : s.nextmsg prevmsg = nullPtr := by
      by_contra hc
      exact absurd ((ptr?_of_ne hc).symm.trans h) (Option.some_ne_none _)
    refine ⟨[], [], _, rfl, nofun, nofun, fun turns => ?_, isStack_splice h hnull hpk hne hprev,
      (relinks_setNextmsg _ _ _).trans (relinks_setNextmsg _ _ _), fun msg h₁ h₂ _ => ?_⟩
    · cases turns with
      | zero => rfl
      | succ turns =>
        rw [Mbxcb.queueInsertMpri, if_neg fun c => c.1 hend]
        exact (if_pos (Nat.succ_pos turns)).symm
    · rw [nextmsg_setNextmsg_of_ne _ _ h₂, nextmsg_setNextmsg_of_ne _ _ h₁]
  | cons x l ih =>
    obtain ⟨hx, hl⟩ := List.nodup_cons.mp hnd
    have hnext : s.nextmsg prevmsg = x := ptr?_eq_some h.1
    have hxnull : x ≠ nullPtr := by
      rintro rfl
      rw [hnext] at h
      exact absurd h.1 (Option.some_ne_none _).symm
    by_cases hpri : s.msgpri x > s.msgpri pk_msg
    · -- the first packet of a larger priority
      refine ⟨[], x :: l, _, rfl, nofun, fun y hy => ?_, fun turns => ?_, isStack_splice h hnull hpk
        hne hprev, (relinks_setNextmsg _ _ _).trans (relinks_setNextmsg _ _ _),
        fun msg h₁ h₂ _ => ?_⟩
      · rwa [← Option.some.inj hy]
      · cases turns with
        | zero => rfl
        | succ turns =>
          rw [Mbxcb.queueInsertMpri, hnext, if_neg fun c => c.2 hpri]
          exact (if_pos (Nat.succ_pos turns)).symm
      · rw [nextmsg_setNextmsg_of_ne _ _ h₂, nextmsg_setNextmsg_of_ne _ _ h₁]
    · obtain ⟨a, b, s', rfl, ha, hb, hturns, hstack, hrel, hframe⟩ := @ih (some x) h.2 hl
        (List.not_mem_of_not_mem_cons hpk) (fun c =>
          List.ne_of_not_mem_cons hpk (Option.some.inj c).symm)
        fun y hy c => hx (Option.some.inj c ▸ hy)
      refine ⟨x :: a, b, s', rfl, fun y hy => ?_, hb, fun turns => ?_, ⟨?_, hstack⟩, hrel,
        fun msg h₁ _ h₃ => ?_⟩
      · rcases List.mem_cons.mp hy with rfl | hy
        · exact not_lt.mp hpri
        · exact ha y hy
      · cases turns with
        | zero => rfl
        | succ turns =>
          rw [Mbxcb.queueInsertMpri, hnext, if_pos ⟨hxnull, hpri⟩, hturns]
          simp only [List.length_cons, Nat.add_lt_add_iff_right]
      · rw [hframe prevmsg hne (hprev x List.mem_cons_self) fun y hy =>
          hprev y (List.mem_cons_of_mem x hy), hnext]
        exact ptr?_of_ne hxnull
      · exact hframe msg h₁ (h₃ x List.mem_cons_self) fun y hy => h₃ y (List.mem_cons_of_mem x hy)

/-! ## The invariant -/

/-- The list of the mailbox holds the packets `q`, which are those of `P` in order. -/
structure Queued (mbxatr : ℕ) (s : Mbxcb) (P q : List Packet) : Prop where
  queue : s.MsgQueue (q.map Packet.pk_msg)
  msgpri : ∀ m ∈ q, s.msgpri m.pk_msg = m.msgpri
  stable : Stable (mbxKey mbxatr) q P
  nodup : (q.map Packet.pk_msg).Nodup
  /-- Only a mailbox without priorities keeps track of the last packet. -/
  tail : mbxatr &&& TA_MPRI = 0 → ∀ m ∈ q.getLast?, s.mq_tail = m.pk_msg

structure MbxInv (mbxatr : ℕ) (s : Mbxcb) (P : List Packet) : Prop where
  atr : s.mbxatr = mbxatr
  queued : ∃ q, Queued mbxatr s P q
  fresh : (P.map Packet.pk_msg).Nodup
  waiting : s.wait_queue ≠ [] → P = []

/-- The packet is the next to be received: the oldest one, of the smallest priority. -/
def NextPacket (mbxatr : ℕ) (P : List Packet) (pk_msg : ℕ) : Prop :=
  ∃ a m b, P = a ++ m :: b ∧ m.pk_msg = pk_msg ∧
    if mbxatr &&& TA_MPRI ≠ 0 then
      (∀ x ∈ a, m.msgpri < x.msgpri) ∧ ∀ x ∈ b, m.msgpri ≤ x.msgpri
    else a = []

/-- An event that may happen when the packets `P` are sent and not yet received. -/
def MbxEvent.Fits (mbxatr : ℕ) (P : List Packet) : MbxEvent → Prop
  | sent pk_msg _ => pk_msg ∉ P.map Packet.pk_msg
  | received _ pk_msg => NextPacket mbxatr P pk_msg
  | waitEnds .. => True

/-- The state after a step and its events. -/
structure MbxKeeps (mbxatr : ℕ) (P : List Packet) (r : MbxResult) : Prop where
  inv : MbxInv mbxatr r.1 (summary MbxEvent.track P r.2.1)
  events : RightFrom MbxEvent.track (MbxEvent.Fits mbxatr) P r.2.1

theorem mbxKeeps_ite {c : Prop} [Decidable c] {r r' : MbxResult} (h : c → MbxKeeps mbxatr P r)
    (h' : ¬c → MbxKeeps mbxatr P r') : MbxKeeps mbxatr P (if c then r else r') := by
  split_ifs with hc
  · exact h hc
  · exact h' hc

theorem MbxInv.same (inv : MbxInv mbxatr s P) (res : Option ℤ) : MbxKeeps mbxatr P (s, [], res) :=
  ⟨inv, trivial⟩

theorem MbxInv.wait (inv : MbxInv mbxatr s P) {queue : List Tsk} {priority waitmask : Tsk → ℕ}
    {nodiswai : Tsk → Bool} (h : queue ≠ [] → P = []) :
    MbxInv mbxatr
      { s with
      wait_queue := queue, priority := priority, waitmask := waitmask, nodiswai := nodiswai }
      P := by
  obtain ⟨q, hq⟩ := inv.queued
  exact ⟨inv.atr, ⟨q, hq.queue, hq.msgpri, hq.stable, hq.nodup, hq.tail⟩, inv.fresh, h⟩

theorem Queued.mem_map_iff (h : Queued mbxatr s P q) {msg : ℕ} :
    msg ∈ q.map Packet.pk_msg ↔ msg ∈ P.map Packet.pk_msg := by
  rw [List.mem_map, List.mem_map]
  exact exists_congr fun m => and_congr_left fun _ => h.stable.mem_iff

/-- There is no packet if and only if the list is empty. -/
theorem Queued.headmsg_eq_null_iff (h : Queued mbxatr s P q) : s.headmsg = nullPtr ↔ P = [] := by
  rw [← h.stable.eq_nil_iff]
  have htop := h.queue.top
  constructor
  · intro e
    rw [e, List.head?_map] at htop
    exact List.head?_eq_none_iff.mp (Option.map_eq_none_iff.mp htop.symm)
  · rintro rfl
    by_contra hc
    exact absurd ((ptr?_of_ne hc).symm.trans htop) (Option.some_ne_none _)

theorem fresh_concat (h : (P.map Packet.pk_msg).Nodup) (hpk : pk_msg ∉ P.map Packet.pk_msg)
    (msgpri : ℤ) :
    ((P ++ [Packet.mk pk_msg msgpri]).map Packet.pk_msg).Nodup := by
  rw [List.map_append, List.map_singleton]
  exact (List.perm_append_singleton pk_msg _).symm.nodup (List.nodup_cons.mpr ⟨hpk, h⟩)

/-! ## System calls -/

/-- A packet goes to the end of the list. -/
theorem Queued.connectLast (h : Queued mbxatr s P q) (hatr : mbxatr &&& TA_MPRI = 0)
    (hnull : pk_msg ≠ nullPtr) (hpk : pk_msg ∉ P.map Packet.pk_msg) :
    Queued mbxatr (s.connectLast pk_msg) (P ++ [⟨pk_msg, s.msgpri pk_msg⟩])
      (q ++ [⟨pk_msg, s.msgpri pk_msg⟩]) := by
  have hq : pk_msg ∉ q.map Packet.pk_msg := fun c => hpk (h.mem_map_iff.mp c)
  have hkey (m : Packet) : mbxKey mbxatr m = 0 := if_neg (not_not.mpr hatr)
  have hpri : (s.connectLast pk_msg).msgpri = s.msgpri := by
    unfold Mbxcb.connectLast
    dsimp only
    split_ifs <;> rfl
  refine ⟨?_, fun m hm => ?_, ?_, fresh_concat h.nodup hq _, fun _ m hm => ?_⟩
  · rw [List.map_append, List.map_singleton]
    unfold Mbxcb.MsgQueue Mbxcb.connectLast
    dsimp only [Mbxcb.setNextmsg]
    rcases List.eq_nil_or_concat' q with rfl | ⟨q', m, rfl⟩
    · rw [if_pos (h.headmsg_eq_null_iff.mpr (h.stable.eq_nil_iff.mp rfl))]
      refine ⟨ptr?_of_ne hnull, ?_⟩
      show ptr? (Function.update s.msgque pk_msg nullPtr pk_msg) = none
      rw [Function.update_self, ptr?_null]
    · have hhead : s.headmsg ≠ nullPtr := fun c =>
        absurd (h.stable.eq_nil_iff.mpr (h.headmsg_eq_null_iff.mp c)) (by simp)
      have htail : s.mq_tail = m.pk_msg := h.tail hatr m (by simp)
      rw [if_neg hhead]
      have hstack := h.queue
      have hnodup := h.nodup
      rw [List.map_append, List.map_singleton] at hstack hq hnodup ⊢
      have hm : pk_msg ≠ m.pk_msg := fun c => hq (by simp [c])
      refine hstack.snoc ?_ ?_ fun z hz => ?_
      · show ptr? (Function.update (Function.update s.msgque pk_msg nullPtr) s.mq_tail pk_msg
          m.pk_msg) = _
        rw [htail, Function.update_self, ptr?_of_ne hnull]
      · show ptr? (Function.update (Function.update s.msgque pk_msg nullPtr) s.mq_tail pk_msg
          pk_msg) = _
        rw [htail, Function.update_of_ne hm, Function.update_self, ptr?_null]
      · have hz₁ : z ≠ m.pk_msg :=
          fun c => (List.nodup_append.mp hnodup).2.2 z hz m.pk_msg (by simp) c
        have hz₂ : z ≠ pk_msg := fun c => hq (by rw [← c]; exact List.mem_append_left _ hz)
        show ptr? (Function.update (Function.update s.msgque pk_msg nullPtr) s.mq_tail pk_msg z) = _
        rw [htail, Function.update_of_ne hz₁, Function.update_of_ne hz₂]
  · rw [hpri]
    rcases List.mem_append.mp hm with hm | hm
    · exact h.msgpri m hm
    · rw [List.mem_singleton.mp hm]
  · have := h.stable
    rw [← List.append_nil q] at this
    exact this.insert (fun x _ => by rw [hkey, hkey]) nofun
  · rw [List.getLast?_concat] at hm
    rw [← Option.some.inj hm]
    rfl

/-- A packet goes to its place; the number of turns only has to be large enough. -/
theorem Queued.queueInsertMpri (h : Queued mbxatr s P q) (hatr : mbxatr &&& TA_MPRI ≠ 0)
    (hnull : pk_msg ≠ nullPtr) (hpk : pk_msg ∉ P.map Packet.pk_msg) :
    ∃ s' q' n, (∀ turns, s.queueInsertMpri pk_msg none turns = if n < turns then
      some s' else none) ∧ Relinks s s' ∧
      Queued mbxatr s' (P ++ [⟨pk_msg, s.msgpri pk_msg⟩]) q' := by
  have hq : pk_msg ∉ q.map Packet.pk_msg := fun c => hpk (h.mem_map_iff.mp c)
  have hkey (m : Packet) : mbxKey mbxatr m = m.msgpri := if_pos hatr
  obtain ⟨a, b, s', hab, ha, hb, hturns, hstack, hrel, -⟩ :=
    @queueInsertMpri_spec pk_msg s none _ hnull h.queue h.nodup hq nofun nofun
  obtain ⟨qa, qb, rfl, rfl, rfl⟩ := List.map_eq_append_iff.mp hab
  have hpri : s'.msgpri = s.msgpri := by rw [hrel.frame]
  refine ⟨s', qa ++ ⟨pk_msg, s.msgpri pk_msg⟩ :: qb, _, hturns, hrel, ?_, fun m hm => ?_, ?_, ?_,
    fun hfifo => absurd hfifo hatr⟩
  · rw [List.map_append, List.map_cons]
    exact hstack
  · rw [hpri]
    rcases List.mem_append.mp hm with hm | hm
    · exact h.msgpri m (List.mem_append_left _ hm)
    · rcases List.mem_cons.mp hm with rfl | hm
      · rfl
      · exact h.msgpri m (List.mem_append_right _ hm)
  · refine h.stable.insert (fun x hx => ?_) fun x hx => ?_
    · rw [hkey, hkey, ← h.msgpri x (List.mem_append_left _ hx)]
      exact ha _ (List.mem_map.mpr ⟨x, hx, rfl⟩)
    · -- the first one behind has a larger priority, and the list is sorted
      obtain ⟨y, qb, rfl⟩ := List.exists_cons_of_ne_nil (List.ne_nil_of_mem hx)
      have hy : s.msgpri pk_msg < y.msgpri := by
        rw [← h.msgpri y (by simp)]
        exact hb _ (by simp)
      rw [hkey, hkey]
      rcases List.mem_cons.mp hx with rfl | hx'
      · exact hy
      · have hle := (List.pairwise_cons.mp (List.pairwise_append.mp h.stable.sorted).2.1).1 x hx'
        rw [hkey, hkey] at hle
        exact hy.trans_le hle
  · rw [List.map_append, List.map_cons]
    refine List.perm_middle.symm.nodup (List.nodup_cons.mpr ⟨?_, ?_⟩)
    · rwa [← List.map_append]
    · rw [← List.map_append]
      exact h.nodup

/-- The head of the list is received. -/
theorem MbxInv.receive (inv : MbxInv mbxatr s P) (hne : s.headmsg ≠ nullPtr) (self : Tsk) :
    MbxKeeps mbxatr P (s.setNextmsg none (s.msgque s.headmsg), [.received self s.headmsg], some
      E_OK) := by
  obtain ⟨q, h⟩ := inv.queued
  have hqueue := h.queue
  have hnodup := h.nodup
  have htail := h.tail
  have hmsgpri := h.msgpri
  have hstable := h.stable
  cases q with
  | nil => exact absurd (h.headmsg_eq_null_iff.mpr (h.stable.eq_nil_iff.mp rfl)) hne
  | cons m q =>
    have hhead : s.headmsg = m.pk_msg := ptr?_eq_some hqueue.1
    obtain ⟨a, b, rfl, ha, hb, hpop⟩ := hstable.pop
    have hfresh := inv.fresh
    rw [List.map_append, List.map_cons] at hfresh
    -- no other packet has this address
    have ha' : ∀ x ∈ a, ¬x.pk_msg = s.headmsg := fun x hx c =>
      (List.nodup_append.mp hfresh).2.2 _ (List.mem_map.mpr ⟨x, hx, rfl⟩) m.pk_msg (by simp)
      (c.trans hhead)
    have htrack : MbxEvent.track (a ++ m :: b) (.received self s.headmsg) = a ++ b := by
      show (a ++ m :: b).eraseP _ = _
      rw [List.eraseP_append_right _ (by simpa using ha'), List.eraseP_cons_of_pos
        (by simp [hhead])]
    have hsub : (a ++ b).Sublist (a ++ m :: b) := (List.sublist_cons_self m b).append_left a
    refine ⟨?_, ⟨a, m, b, rfl, hhead.symm, ?_⟩, trivial⟩
    · show MbxInv mbxatr _ (MbxEvent.track (a ++ m :: b) (.received self s.headmsg))
      rw [htrack]
      refine ⟨inv.atr, ⟨q, ?_, fun x hx => hmsgpri x (List.mem_cons_of_mem m hx), hpop,
        (List.nodup_cons.mp hnodup).2, fun hatr x hx => htail hatr x ?_⟩,
          (hsub.map _).nodup inv.fresh, fun hw => ?_⟩
      · show IsStack _ (ptr? (s.msgque s.headmsg)) _
        rw [hhead]
        exact hqueue.2
      · cases q with
        | nil => exact absurd hx nofun
        | cons y q => exact hx
      · exact absurd (inv.waiting hw) (by simp)
    · unfold mbxKey at ha hb
      split_ifs with hatr
      · simp only [if_pos hatr] at ha hb
        exact ⟨ha, hb⟩
      · simp only [if_neg hatr] at ha
        exact List.eq_nil_iff_forall_not_mem.mpr fun x hx => lt_irrefl _ (ha x hx)

theorem MbxInv.tkRcvMbx (inv : MbxInv mbxatr s P) (self : Tsk) (idOk ddsp : Bool) (prot : ER)
    (tmout : ℤ) :
    MbxKeeps mbxatr P (s.tkRcvMbx self idOk ddsp prot tmout) := by
  obtain ⟨q, h⟩ := inv.queued
  refine mbxKeeps_ite (fun _ => inv.same _) fun _ => mbxKeeps_ite (fun _ => inv.same _) fun _ =>
    mbxKeeps_ite (fun _ => inv.same _) fun _ => mbxKeeps_ite (fun _ => inv.same _) fun _ =>
    mbxKeeps_ite (fun _ => inv.same _) fun _ => mbxKeeps_ite (fun hne => inv.receive hne self)
    fun hempty =>
    mbxKeeps_ite (fun _ => inv.same _) fun _ => mbxKeeps_ite (fun _ => inv.same _) fun _ =>
    ⟨inv.wait fun _ => h.headmsg_eq_null_iff.mp (not_not.mp hempty), trivial⟩

theorem MbxInv.queue (inv : MbxInv mbxatr s P) (hpk : pk_msg ∉ P.map Packet.pk_msg)
    (hq : s'.wait_queue = []) (hatr : s'.mbxatr = s.mbxatr) {msgpri : ℤ}
    (h : Queued mbxatr s' (P ++ [⟨pk_msg, msgpri⟩]) q) :
    MbxKeeps mbxatr P (s', [.sent pk_msg msgpri], some E_OK) :=
  ⟨⟨hatr.trans inv.atr, ⟨q, h⟩, fresh_concat inv.fresh hpk _, fun hne => absurd hq hne⟩,
    hpk, trivial⟩

/-- **A packet that is sent while tasks wait goes to the head of the wait queue.** -/
theorem tkSndMbx_waiting {queue : List Tsk} (hq : s.wait_queue = t :: queue)
    (hpri : s.mbxatr &&& TA_MPRI ≠ 0 → 0 < s.msgpri pk_msg) (turns : ℕ) :
    s.tkSndMbx true E_OK pk_msg turns = some ({ s with wait_queue := queue },
      [.sent pk_msg (s.msgpri pk_msg), .received t pk_msg], some E_OK) := by
  unfold Mbxcb.tkSndMbx
  rw [if_neg (by decide), if_neg (by decide), if_neg fun c => (hpri c.1).not_ge c.2, hq]

/-- Sending returns one result, with turns enough, and this is right. -/
theorem MbxInv.tkSndMbx (inv : MbxInv mbxatr s P) (hnull : pk_msg ≠ nullPtr)
    (hpk : pk_msg ∉ P.map Packet.pk_msg) (idOk : Bool) (prot : ER) :
    ∃ r, Fuel.Returns (s.tkSndMbx idOk prot pk_msg) r ∧
      ∀ turns r', s.tkSndMbx idOk prot pk_msg turns = some r' → MbxKeeps mbxatr P r' := by
  have hsame {ercd : ER}
      (e : ∀ turns, s.tkSndMbx idOk prot pk_msg turns = some (s, [], some ercd)) :
      ∃ r, Fuel.Returns (s.tkSndMbx idOk prot pk_msg) r ∧
        ∀ turns r', s.tkSndMbx idOk prot pk_msg turns = some r' → MbxKeeps mbxatr P r' :=
    ⟨_, ⟨0, fun turns _ => e turns⟩, fun turns r' h => Option.some.inj ((e turns).symm.trans h) ▸
      inv.same _⟩
  by_cases hid : (!idOk) = true
  · exact hsame fun turns => by rw [Mbxcb.tkSndMbx, if_pos hid]
  by_cases hprot : prot ≠ E_OK
  · exact hsame fun turns => by rw [Mbxcb.tkSndMbx, if_neg hid, if_pos hprot]
  by_cases hpri : s.mbxatr &&& TA_MPRI ≠ 0 ∧ s.msgpri pk_msg ≤ 0
  · exact hsame fun turns => by rw [Mbxcb.tkSndMbx, if_neg hid, if_neg hprot, if_pos hpri]
  cases hq : s.wait_queue with
  | cons tcb queue =>
    have hcall (turns : ℕ) : s.tkSndMbx idOk prot pk_msg turns =
      some ({ s with wait_queue := queue },
        [.sent pk_msg (s.msgpri pk_msg), .received tcb pk_msg], some E_OK) := by
      rw [Mbxcb.tkSndMbx, if_neg hid, if_neg hprot, if_neg hpri, hq]
    have hnil : P = [] := inv.waiting (by rw [hq]; exact List.cons_ne_nil tcb queue)
    subst hnil
    refine ⟨_, ⟨0, fun turns _ => hcall turns⟩, fun turns r' h => ?_⟩
    rw [← Option.some.inj ((hcall turns).symm.trans h)]
    have hinv : MbxInv mbxatr { s with wait_queue := queue } [] := inv.wait fun _ => rfl
    refine ⟨?_, hpk, ⟨[], ⟨pk_msg, s.msgpri pk_msg⟩, [], rfl, rfl, ?_⟩, trivial⟩
    · have htrack : MbxEvent.track [⟨pk_msg, s.msgpri pk_msg⟩] (.received tcb pk_msg) = [] := by
        simp [MbxEvent.track]
      show MbxInv mbxatr _ (MbxEvent.track [⟨pk_msg, s.msgpri pk_msg⟩] (.received tcb pk_msg))
      rw [htrack]
      exact hinv
    · split_ifs
      · exact ⟨nofun, nofun⟩
      · rfl
  | nil =>
    obtain ⟨q, h⟩ := inv.queued
    by_cases hatr : mbxatr &&& TA_MPRI ≠ 0
    · obtain ⟨s', q', n, hturns, hrel, hq'⟩ := h.queueInsertMpri hatr hnull hpk
      have hcall (turns : ℕ) : s.tkSndMbx idOk prot pk_msg turns =
          if n < turns then some (s', [.sent pk_msg (s.msgpri pk_msg)], some E_OK) else none := by
        rw [Mbxcb.tkSndMbx, if_neg hid, if_neg hprot, if_neg hpri, hq]
        simp only [inv.atr, if_pos hatr, hturns]
        split_ifs <;> rfl
      refine ⟨_, ⟨n + 1, fun turns hle => (hcall turns).trans (if_pos hle)⟩, fun turns r' hr => ?_⟩
      rw [hcall] at hr
      split_ifs at hr
      rw [← Option.some.inj hr]
      exact inv.queue hpk (by rw [hrel.frame]; exact hq) (by rw [hrel.frame]) hq'
    · have hcall (turns : ℕ) : s.tkSndMbx idOk prot pk_msg turns =
          some (s.connectLast pk_msg, [.sent pk_msg (s.msgpri pk_msg)], some E_OK) := by
        rw [Mbxcb.tkSndMbx, if_neg hid, if_neg hprot, if_neg hpri, hq]
        simp only [inv.atr, if_neg hatr]
        rfl
      refine ⟨_, ⟨0, fun turns _ => hcall turns⟩, fun turns r' hr => ?_⟩
      rw [← Option.some.inj ((hcall turns).symm.trans hr)]
      have hframe : (s.connectLast pk_msg).wait_queue = s.wait_queue ∧
          (s.connectLast pk_msg).mbxatr = s.mbxatr := by
        unfold Mbxcb.connectLast
        dsimp only
        split_ifs <;> exact ⟨rfl, rfl⟩
      exact inv.queue hpk (hframe.1.trans hq) hframe.2 (h.connectLast (not_not.mp hatr) hnull hpk)

theorem MbxInv.endWait (inv : MbxInv mbxatr s P) (t : Tsk) (ercd : Option ER) (res : Option ℤ)
    (hmem : t ∈ s.wait_queue) :
    MbxKeeps mbxatr P ((s.endWait t ercd).1, (s.endWait t ercd).2, res) :=
  ⟨inv.wait fun _ => inv.waiting (List.ne_nil_of_mem hmem), trivial, trivial⟩

theorem MbxInv.changeTaskPriority (inv : MbxInv mbxatr s P) (t : Tsk) (priority : ℕ) :
    MbxInv mbxatr (s.changeTaskPriority t priority) P := by
  unfold Mbxcb.changeTaskPriority
  dsimp only
  split_ifs with h
  · exact inv.wait fun _ => inv.waiting (List.ne_nil_of_mem h.1)
  · exact inv.wait inv.waiting

/-- The owners of other packets do not change the list. -/
theorem MbxInv.write (inv : MbxInv mbxatr s P) {msgque : ℕ → ℕ} {msgpri : ℕ → ℤ}
    (h : ∀ msg ∈ P.map Packet.pk_msg, msgque msg = s.msgque msg ∧ msgpri msg = s.msgpri msg) :
    MbxInv mbxatr { s with msgque := msgque, msgpri := msgpri } P := by
  obtain ⟨q, hq⟩ := inv.queued
  refine ⟨inv.atr, ⟨q, ?_, fun m hm => ?_, hq.stable, hq.nodup, hq.tail⟩, inv.fresh, inv.waiting⟩
  · exact hq.queue.congr fun x hx => congrArg ptr? (h x (hq.mem_map_iff.mp hx)).1
  · exact (h _ (hq.mem_map_iff.mp (List.mem_map.mpr ⟨m, hm, rfl⟩))).2.trans (hq.msgpri m hm)

/-- Every operation returns, and what it does is right. -/
theorem MbxInv.exec (inv : MbxInv mbxatr s P) {op : MbxOp} (legal : op.Legal s P) :
    ∃ r, Fuel.Returns (op.exec s) r ∧ ∀ turns r', op.exec s turns = some r' →
      MbxKeeps mbxatr P r' := by
  have hone {r : MbxResult} (hr : MbxKeeps mbxatr P r) :
      ∃ r', Fuel.Returns (fun _ => some r) r' ∧ ∀ _ : ℕ, ∀ r', some r = some r' →
      MbxKeeps mbxatr P r' :=
    ⟨r, Fuel.returns_const r, fun _ r' e => Option.some.inj e ▸ hr⟩
  cases op with
  | sndMbx idOk prot pk_msg => exact inv.tkSndMbx legal.1 legal.2 idOk prot
  | rcvMbx self idOk ddsp prot tmout => exact hone (inv.tkRcvMbx self idOk ddsp prot tmout)
  | timeout t => exact hone (mbxKeeps_ite (inv.endWait t _ _) fun _ => inv.same _)
  | relWai t chk =>
    exact hone (mbxKeeps_ite (fun _ => inv.same _) fun _ =>
      mbxKeeps_ite (inv.endWait t _ _) fun _ => inv.same _)
  | disWai t waitmask chk elsewhere =>
    have inv' : MbxInv mbxatr { s with waitmask := Function.update s.waitmask t waitmask } P :=
      inv.wait inv.waiting
    exact hone (mbxKeeps_ite (fun _ => inv.same _) fun _ => mbxKeeps_ite
      (fun hmem => mbxKeeps_ite (fun _ => inv'.endWait t _ _ hmem) fun _ => inv'.same _) fun _ =>
        inv'.same _)
  | enaWai t chk => exact hone (mbxKeeps_ite (fun _ => inv.same _) fun _ =>
      ⟨inv.wait inv.waiting, trivial⟩)
  | terTsk t chk =>
    exact hone (mbxKeeps_ite (fun _ => inv.same _) fun _ =>
      mbxKeeps_ite (inv.endWait t _ _) fun _ => inv.same _)
  | chgPri t priority chk =>
    exact hone (mbxKeeps_ite (fun _ => inv.same _) fun _ =>
      ⟨inv.changeTaskPriority t priority, trivial⟩)
  | write msgque msgpri => exact hone ⟨inv.write legal, trivial⟩

/-! ## Runs -/

theorem mbxInv_create {chk : ER} {s₀ : Mbxcb} (h : tkCreMbx chk mbxatr s₀ = .ok s) :
    MbxInv mbxatr s [] := by
  unfold tkCreMbx at h
  split at h
  · cases h
  obtain rfl := Except.ok.inj h
  exact ⟨rfl, ⟨[], rfl, nofun, stable_nil _, List.nodup_nil, fun _ _ hm => absurd hm nofun⟩,
    List.nodup_nil, fun hne => absurd rfl hne⟩

theorem MbxRun.keeps (run : MbxRun mbxatr s log) :
    MbxInv mbxatr s (pendingPackets log) ∧
      Right (fun a => MbxEvent.Fits mbxatr (pendingPackets a)) log := by
  induction run with
  | create h => exact ⟨mbxInv_create h, right_nil⟩
  | @step s log r op turns _ legal h ih =>
    obtain ⟨inv, right⟩ := ih
    obtain ⟨-, -, hkeeps⟩ := inv.exec legal
    have keeps := hkeeps turns r h
    refine ⟨?_, right.append keeps.events⟩
    unfold pendingPackets
    rw [summary_append]
    exact keeps.inv

/-- What is promised of a mailbox whose packets `P` are sent and not yet received. -/
structure MbxRight (s : Mbxcb) (P : List Packet) : Prop where
  /-- None of them is lost. -/
  queued : ∃ l, s.MsgQueue l ∧ l.Perm (P.map Packet.pk_msg)
  /-- The first of them is there for every task that may receive. -/
  receives : P ≠ [] → ∀ self tmout, tmout ≥ TMO_FEVR →
    isDiswai s.mbxatr (s.waitmask self) TTW_MBX = false →
    ∃ pk_msg, (s.tkRcvMbx self true false E_OK tmout).2 = ([.received self pk_msg], some E_OK)
  /-- Packets and waiting tasks never exist together. -/
  waiting : s.wait_queue ≠ [] → P = []
  handOver : ∀ t queue, s.wait_queue = t :: queue → ∀ pk_msg,
    (s.mbxatr &&& TA_MPRI ≠ 0 → 0 < s.msgpri pk_msg) →
    ∀ turns, s.tkSndMbx true E_OK pk_msg turns = some ({ s with wait_queue := queue },
      [.sent pk_msg (s.msgpri pk_msg), .received t pk_msg], some E_OK)
  returns : ∀ op : MbxOp, op.Legal s P → ∃ r, Fuel.Returns (op.exec s) r

theorem MbxInv.right (inv : MbxInv mbxatr s P) : MbxRight s P := by
  obtain ⟨q, h⟩ := inv.queued
  refine ⟨⟨_, h.queue, ?_⟩, fun hne self tmout htmo hdis => ⟨s.headmsg, ?_⟩, inv.waiting,
    fun t queue hq pk_msg hpri turns => tkSndMbx_waiting hq hpri turns, fun op legal => ?_⟩
  · exact (List.perm_ext_iff_of_nodup h.nodup inv.fresh).mpr fun msg => h.mem_map_iff
  · have hhead : s.headmsg ≠ nullPtr := fun c => hne (h.headmsg_eq_null_iff.mp c)
    unfold Mbxcb.tkRcvMbx
    rw [if_neg (by decide), if_neg (not_not.mpr htmo), if_neg (by decide), if_neg (by decide),
      if_neg (by rw [hdis]; decide), if_pos hhead]
  · obtain ⟨r, hr, -⟩ := inv.exec legal
    exact ⟨r, hr⟩

/-- **Mailboxes.** In every run each packet that is received was sent and not yet received, and was
the next one in order; no packet is lost. -/
theorem mbxRun_right (run : MbxRun mbxatr s log) :
    Right (fun a => MbxEvent.Fits mbxatr (pendingPackets a)) log ∧
      MbxRight s (pendingPackets log) :=
  ⟨run.keeps.2, run.keeps.1.right⟩

/-- A mailbox with priorities; the packet at 100 has priority 5, the others 3. -/
def smallMbx : Mbxcb :=
  ⟨[], TA_MPRI, nullPtr, nullPtr, fun _ => 0, fun msg => if msg = 100 then 5 else 3,
    fun _ => 1, fun _ => 0, fun _ => false⟩

/-- The second packet overtakes the first one. -/
theorem mbxRun_right_small : ∃ s log, log = [.sent 100 5, .sent 200 3, .received 1 200] ∧
    Right (fun a => MbxEvent.Fits TA_MPRI (pendingPackets a)) log ∧ MbxRight s [⟨100, 5⟩] := by
  have run₀ : MbxRun TA_MPRI smallMbx [] :=
    .create (show tkCreMbx E_OK TA_MPRI smallMbx = .ok smallMbx from rfl)
  have run₁ := run₀.step (.sndMbx true E_OK 100) 1 ⟨by decide, by decide⟩ rfl
  have run₂ := run₁.step (.sndMbx true E_OK 200) 1 ⟨by decide, by decide⟩ rfl
  have run₃ := run₂.step (.rcvMbx 1 true false E_OK TMO_POL) 1 List.not_mem_nil rfl
  exact ⟨_, _, rfl, mbxRun_right run₃⟩

end SmpTKernel
