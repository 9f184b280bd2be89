import Mathlib.Data.List.Rotate
import SmpTKernel.ReadyQueueCache

/-!
# The ready queue invariant

`ReadyInv` says that the rings under the heads `rdy p` hold the tasks of priority `p`, that the
bitmap marks the rings in use, and that `top[]` holds the first `num_proc` tasks in order of
precedence. Each of the five operations does to the queues what its name says and keeps the
invariant, whatever else is queued in the same memory under other heads; `ReadyRun` is any sequence
of them.
-/

namespace SmpTKernel

open LinkRing

/-- The queues by priority. -/
def rdyQ (Q : QHead → List Tsk) (p : ℕ) : List Tsk := Q (.rdy p)

/-- Bit `p` is set exactly when the queue of priority `p` is in use. -/
def Marks (bitmap : Bytes) (Q : QHead → List Tsk) : Prop :=
  ∀ p < NUM_PRI, bitAt bitmap p = true ↔ Q (.rdy p) ≠ []

/-- The links of the ready queue and the tasks linked in it. -/
structure ReadyLinks (live : QHead → Prop) (Q : QHead → List Tsk) (c : Core) : Prop where
  rings : Rings queues c.que live Q
  live_rdy : ∀ p, live (.rdy p) ↔ p < NUM_PRI
  priority : ∀ p t, t ∈ Q (.rdy p) → (c.tcb t).priority = p
  klockwait : ∀ p t, t ∈ Q (.rdy p) → (c.tcb t).klockwait = false

/-- The ready queue invariant. -/
structure ReadyInv (numProc : ℕ) (live : QHead → Prop) (Q : QHead → List Tsk) (c : Core) : Prop
    extends ReadyLinks live Q c where
  bitmap : Marks c.ready_queue.bitmap Q
  top : Caches numProc c.ready_queue.top (ordered (rdyQ Q))

variable {numProc : ℕ} {live : QHead → Prop} {Q : QHead → List Tsk} {c : Core}

/-! ## Edits of one queue -/

theorem rdyQ_update (p : ℕ) (l : List Tsk) :
    rdyQ (Function.update Q (.rdy p) l) = Function.update (rdyQ Q) p l := by
  funext r
  unfold rdyQ
  by_cases h : r = p
  · subst h; rw [Function.update_self, Function.update_self]
  · rw [Function.update_of_ne h, Function.update_of_ne (by simpa using h)]

/-- The whole list when the queue of priority `p` is replaced. -/
theorem ordered_update {p : ℕ} (hp : p < NUM_PRI) (l : List Tsk) :
    ordered (rdyQ (Function.update Q (.rdy p) l)) =
      before (rdyQ Q) p ++ l ++ after (rdyQ Q) p := by
  have hb : before (Function.update (rdyQ Q) p l) p = before (rdyQ Q) p :=
    before_congr fun r hr => Function.update_of_ne (Nat.ne_of_lt hr) _ _
  have ha : after (Function.update (rdyQ Q) p l) p = after (rdyQ Q) p :=
    after_congr fun r hr => Function.update_of_ne (Nat.ne_of_gt hr) _ _
  rw [rdyQ_update, ordered_split _ hp, Function.update_self, hb, ha]

theorem ordered_eq {p : ℕ} (hp : p < NUM_PRI) :
    ordered (rdyQ Q) = before (rdyQ Q) p ++ Q (.rdy p) ++ after (rdyQ Q) p :=
  ordered_split _ hp

theorem Marks.set {bitmap : Bytes} {p : ℕ} {l : List Tsk} (h : Marks bitmap Q) (hl : l ≠ []) :
    Marks (tstdlibBitset bitmap p) (Function.update Q (.rdy p) l) := by
  intro r hr
  rw [bitAt_bitset]
  by_cases e : r = p
  · subst e; simp [hl]
  · rw [Function.update_of_ne (by simpa using e), decide_eq_false e, Bool.false_or]
    exact h r hr

theorem Marks.clear {bitmap : Bytes} {p : ℕ} (h : Marks bitmap Q) :
    Marks (tstdlibBitclr bitmap p) (Function.update Q (.rdy p) []) := by
  intro r hr
  rw [bitAt_bitclr]
  by_cases e : r = p
  · subst e; simp
  · rw [Function.update_of_ne (by simpa using e), decide_eq_true e, Bool.true_and]
    exact h r hr

theorem Marks.keep {bitmap : Bytes} {p : ℕ} {l : List Tsk} (h : Marks bitmap Q) (hl : l ≠ [])
    (hQ : Q (.rdy p) ≠ []) : Marks bitmap (Function.update Q (.rdy p) l) := by
  intro r hr
  by_cases e : r = p
  · subst e
    rw [Function.update_self]
    exact ⟨fun _ => hl, fun _ => (h r hr).mpr hQ⟩
  · rw [Function.update_of_ne (by simpa using e)]
    exact h r hr

namespace ReadyLinks

variable (r : ReadyLinks live Q c)
include r

theorem live_of_lt {p : ℕ} (hp : p < NUM_PRI) : live (.rdy p) := (r.live_rdy p).mpr hp

theorem lt_of_mem {p : ℕ} {t : Tsk} (ht : t ∈ Q (.rdy p)) : p < NUM_PRI :=
  (r.live_rdy p).mp (r.rings.live_of_mem ht)

theorem isQueEmpty_iff {p : ℕ} (hp : p < NUM_PRI) :
    isQueEmpty (.que (.rdy p)) c.que = true ↔ Q (.rdy p) = [] := by
  have := (r.rings.ring _ (r.live_of_lt hp)).next_eq_self_iff
  rw [List.map_eq_nil_iff] at this
  rw [← this]
  exact decide_eq_true_iff

theorem nodup_ordered : (ordered (rdyQ Q)).Nodup := by
  refine List.nodup_flatMap.mpr ⟨fun p _ => r.rings.nodup _, ?_⟩
  refine (List.nodup_range (n := NUM_PRI)).imp fun {p p'} hne t hp hp' => hne ?_
  have := r.rings.disj _ _ t hp hp'
  exact QHead.rdy.inj this

/-- What `get_next_tcb` finds, from a task whose `next` link says that `b` comes next. -/
theorem getNextTcb_of_next (hm : Marks c.ready_queue.bitmap Q) {p : ℕ} {t : Tsk} {b : List Tsk}
    (hp : (c.tcb t).priority = p) (hlt : p < NUM_PRI)
    (hnext : (c.que (.tsk t)).next = (b.map Node.tsk).headD (.que (.rdy p))) :
    getNextTcb c t = (b ++ after (rdyQ Q) p).head? := by
  unfold getNextTcb
  rw [hp, hnext]
  cases b with
  | cons u b => simp
  | nil =>
    have hsearch : SearchRight true c.ready_queue.bitmap (p + 1) (NUM_PRI - (p + 1))
        (tstdlibBitsearch1 (NUM_PRI + 1) c.ready_queue.bitmap ((p + 1 : ℕ) : ℤ)
          ((NUM_PRI - (p + 1) : ℕ) : ℤ)) :=
      bitsearch_right looks_tests1 (by simp only [NUM_PRI]; omega)
        (Or.inl (by simp only [NUM_PRI]; omega)) (by omega)
    obtain ⟨⟨i, hs, hi⟩, -⟩ := hsearch
    rw [Nat.cast_sub (by omega)] at hs
    push_cast at hs
    simp only [List.map_nil, List.headD_nil, ne_eq, not_true_eq_false, if_false, List.nil_append]
    push_cast
    rw [hs]
    have hbit : ∀ j, p + 1 + j < NUM_PRI →
        (bitAt c.ready_queue.bitmap (p + 1 + j) = false ↔ rdyQ Q (p + 1 + j) = []) := by
      intro j hj
      have := hm _ hj
      rw [← Bool.not_eq_true, this]
      exact not_not
    rcases hi with ⟨rfl, hnone⟩ | ⟨j, hj, rfl, hset, hfirst⟩
    · rw [after_eq_nil fun j hj => (hbit j (by omega)).mp (hnone j hj)]
      rfl
    · have hne : rdyQ Q (p + 1 + j) ≠ [] := (hm _ (by omega)).mp hset
      rw [head?_after (by omega) (fun k hk => (hbit k (by omega)).mp (hfirst k hk)) hne]
      have hn := r.rings.next_head (r.live_of_lt (p := p + 1 + j) (by omega))
      rw [queues_head] at hn
      have h0 : (j : ℤ) ≥ 0 := by omega
      simp only [h0, if_true, Int.toNat_natCast, hn]
      unfold rdyQ at hne ⊢
      rcases hQ : Q (.rdy (p + 1 + j)) with _ | ⟨u, l⟩
      · exact absurd hQ hne
      · rfl

/-- From a queued task `get_next_tcb` goes one place on in the order of precedence. -/
theorem getNextTcb_ordered (hm : Marks c.ready_queue.bitmap Q) {i : ℕ} {t : Tsk}
    (h : (ordered (rdyQ Q))[i]? = some t) :
    getNextTcb c t = (ordered (rdyQ Q))[i + 1]? := by
  obtain ⟨p, -, hp⟩ := List.mem_flatMap.mp (List.mem_of_getElem? h)
  have hlt := r.lt_of_mem hp
  obtain ⟨a, b, e⟩ := List.append_of_mem hp
  have hnext := r.rings.next_elem e
  rw [r.getNextTcb_of_next hm (r.priority p t hp) hlt hnext]
  have hL : ordered (rdyQ Q) = (before (rdyQ Q) p ++ a) ++ t :: (b ++ after (rdyQ Q) p) := by
    rw [ordered_eq hlt, show Q (.rdy p) = a ++ t :: b from e]
    simp
  have nd := r.nodup_ordered
  rw [hL] at h nd ⊢
  have hi : i = (before (rdyQ Q) p ++ a).length := by
    have hlen : i < ((before (rdyQ Q) p ++ a) ++ t :: (b ++ after (rdyQ Q) p)).length :=
      (List.getElem?_eq_some_iff.mp h).1
    refine (List.getElem?_inj hlen nd).mp (h.trans ?_)
    rw [List.getElem?_append_right le_rfl]
    simp
  rw [hi, List.getElem?_append_right (by omega)]
  simp [List.head?_eq_getElem?]

theorem priority_before {p : ℕ} {t : Tsk} (ht : t ∈ before (rdyQ Q) p) :
    (c.tcb t).priority < p := by
  obtain ⟨p', hp', ht⟩ := mem_before.mp ht
  rw [r.priority p' t ht]
  exact hp'

theorem priority_after {p : ℕ} {t : Tsk} (ht : t ∈ after (rdyQ Q) p) :
    p < (c.tcb t).priority := by
  obtain ⟨p', hp', -, ht⟩ := mem_after.mp ht
  rw [r.priority p' t ht]
  exact hp'

/-- A new ring under one head; the TCBs keep what the invariant reads. -/
theorem update {p : ℕ} {l : List Tsk} {c' : Core}
    (hr : Rings queues c'.que live (Function.update Q (.rdy p) l))
    (hl : ∀ t ∈ l, (c.tcb t).priority = p ∧ (c.tcb t).klockwait = false)
    (hp : ∀ t, (c'.tcb t).priority = (c.tcb t).priority)
    (hk : ∀ t, (c'.tcb t).klockwait = (c.tcb t).klockwait) :
    ReadyLinks live (Function.update Q (.rdy p) l) c' := by
  have key : ∀ p' t, t ∈ Function.update Q (.rdy p) l (.rdy p') →
      (c.tcb t).priority = p' ∧ (c.tcb t).klockwait = false := by
    intro p' t ht
    by_cases e : p' = p
    · subst e
      rw [Function.update_self] at ht
      exact hl t ht
    · rw [Function.update_of_ne (by simpa using e)] at ht
      exact ⟨r.priority p' t ht, r.klockwait p' t ht⟩
  exact ⟨hr, r.live_rdy, fun p' t ht => (hp t).trans (key p' t ht).1,
    fun p' t ht => (hk t).trans (key p' t ht).2⟩

/-- The `top[]` refill after `t` is unlinked from `a ++ t :: b`. `c'` is the memory as the routine
sees it then. -/
theorem remove_top {p : ℕ} {t : Tsk} {a b : List Tsk} {c' : Core} (e : Q (.rdy p) = a ++ t :: b)
    (htop : Caches numProc c'.ready_queue.top (ordered (rdyQ Q)))
    (r' : ReadyLinks live (Function.update Q (.rdy p) (a ++ b)) c')
    (hm : Marks c'.ready_queue.bitmap (Function.update Q (.rdy p) (a ++ b)))
    (hp : (c'.tcb t).priority = p)
    (hnext : (c'.que (.tsk t)).next = (c.que (.tsk t)).next) :
    Caches numProc (updateTopWhenRemove numProc c' t)
      (before (rdyQ Q) p ++ (a ++ b) ++ after (rdyQ Q) p) := by
  have hlt := r.lt_of_mem (p := p) (t := t) (by simp [e])
  have hL : ordered (rdyQ Q) = (before (rdyQ Q) p ++ a) ++ t :: (b ++ after (rdyQ Q) p) := by
    rw [ordered_eq hlt, e]; simp
  have hL' : ordered (rdyQ (Function.update Q (.rdy p) (a ++ b))) =
      (before (rdyQ Q) p ++ a) ++ (b ++ after (rdyQ Q) p) := by
    rw [ordered_update hlt]; simp
  have hL'' : before (rdyQ Q) p ++ (a ++ b) ++ after (rdyQ Q) p =
      (before (rdyQ Q) p ++ a) ++ (b ++ after (rdyQ Q) p) := by simp
  have nd := r.nodup_ordered
  rw [hL] at htop nd
  rw [hL'']
  refine htop.remove (fun ht => ?_) (fun hA => ?_) fun i u hu => ?_
  · exact (List.nodup_append.mp nd).2.2 t ht t List.mem_cons_self rfl
  · have hstale := hnext.trans (r.rings.next_elem e)
    rw [r'.getNextTcb_of_next hm hp hlt hstale]
    have : after (rdyQ (Function.update Q (.rdy p) (a ++ b))) p = after (rdyQ Q) p :=
      after_congr fun r hr => by
        rw [rdyQ_update, Function.update_of_ne (Nat.ne_of_gt hr)]
    rw [this]
  · rw [← hL'] at hu ⊢
    exact r'.getNextTcb_ordered hm hu

/-- `top[]` after `t` is put behind the tasks `l` of its own priority. -/
theorem insert_top {p : ℕ} {t : Tsk} {l : List Tsk} {tcb : Tsk → Tcb} {top : ℕ → Option Tsk}
    (htop : Caches numProc top (before (rdyQ Q) p ++ l ++ after (rdyQ Q) p))
    (hl : ∀ u ∈ l, (c.tcb u).priority = p) (hp : (c.tcb t).priority = p)
    (htcb : ∀ u, (tcb u).priority = (c.tcb u).priority) :
    Caches numProc (updateTopWhenInsert numProc tcb top t)
      (before (rdyQ Q) p ++ (l ++ [t]) ++ after (rdyQ Q) p) := by
  have := Caches.insert (t := t) tcb (fun p q => p > q) htop ?_ ?_
  · rw [List.append_assoc, List.append_assoc, List.singleton_append, ← List.append_assoc]
    exact this
  · intro u hu
    rw [htcb, htcb, hp]
    rcases List.mem_append.mp hu with hu | hu
    · have := r.priority_before hu
      simp; omega
    · simp [hl u hu]
  · intro u hu
    rw [htcb, htcb, hp]
    simpa using r.priority_after hu

end ReadyLinks

/-! ## The operations -/

@[simp] theorem clearSlicecnt_ready_queue (c : Core) (t : Tsk) :
    (clearSlicecnt c t).ready_queue = c.ready_queue := rfl

theorem slicecnt_priority (tcb : Tsk → Tcb) (t u : Tsk) (n : ℕ) :
    (Function.update tcb t { tcb t with slicecnt := n } u).priority = (tcb u).priority := by
  by_cases h : u = t
  · subst h; rw [Function.update_self]
  · rw [Function.update_of_ne h]

theorem slicecnt_klockwait (tcb : Tsk → Tcb) (t u : Tsk) (n : ℕ) :
    (Function.update tcb t { tcb t with slicecnt := n } u).klockwait = (tcb u).klockwait := by
  by_cases h : u = t
  · subst h; rw [Function.update_self]
  · rw [Function.update_of_ne h]

namespace ReadyInv

variable (r : ReadyInv numProc live Q c)
include r

theorem top_split {p : ℕ} (hp : p < NUM_PRI) :
    Caches numProc c.ready_queue.top
      (before (rdyQ Q) p ++ Q (.rdy p) ++ after (rdyQ Q) p) := by
  rw [← ordered_eq hp]
  exact r.top

theorem insert {t : Tsk} (ht : ∀ h, t ∉ Q h) (hp : (c.tcb t).priority < NUM_PRI)
    (hk : (c.tcb t).klockwait = false) :
    ReadyInv numProc live
      (Function.update Q (.rdy (c.tcb t).priority) (Q (.rdy (c.tcb t).priority) ++ [t]))
      (readyQueueInsert numProc c t) := by
  have hl : ∀ u ∈ Q (.rdy (c.tcb t).priority) ++ [t],
      (c.tcb u).priority = (c.tcb t).priority ∧ (c.tcb u).klockwait = false := by
    intro u hu
    rcases List.mem_append.mp hu with hu | hu
    · exact ⟨r.priority _ u hu, r.klockwait _ u hu⟩
    · rw [List.mem_singleton.mp hu]
      exact ⟨rfl, hk⟩
  refine ⟨r.update ?_ hl (slicecnt_priority c.tcb t · 0) (slicecnt_klockwait c.tcb t · 0), ?_, ?_⟩
  · exact r.rings.insertBefore (a := Q (.rdy (c.tcb t).priority)) (b := []) (r.live_of_lt hp)
      (by simp) ht
  · exact r.bitmap.set (by simp)
  · rw [ordered_update hp]
    exact r.insert_top (r.top_split hp) (fun u hu => r.priority _ u hu) rfl
      (slicecnt_priority c.tcb t · 0)

theorem insertTop {t : Tsk} (ht : ∀ h, t ∉ Q h) (hp : (c.tcb t).priority < NUM_PRI)
    (hk : (c.tcb t).klockwait = false) :
    ReadyInv numProc live
      (Function.update Q (.rdy (c.tcb t).priority) (t :: Q (.rdy (c.tcb t).priority)))
      (readyQueueInsertTop numProc c t) := by
  have hl : ∀ u ∈ t :: Q (.rdy (c.tcb t).priority),
      (c.tcb u).priority = (c.tcb t).priority ∧ (c.tcb u).klockwait = false := by
    intro u hu
    rcases List.mem_cons.mp hu with rfl | hu
    · exact ⟨rfl, hk⟩
    · exact ⟨r.priority _ u hu, r.klockwait _ u hu⟩
  refine ⟨r.update ?_ hl (fun _ => rfl) (fun _ => rfl), ?_, ?_⟩
  · have := r.rings.insertBefore (a := []) (b := Q (.rdy (c.tcb t).priority)) (r.live_of_lt hp)
      (by simp) ht
    rw [← r.rings.next_head (r.live_of_lt hp)] at this
    exact this
  · exact r.bitmap.set (by simp)
  · rw [ordered_update hp]
    have := r.top_split hp
    rw [List.append_assoc] at this
    have := Caches.insert (t := t) c.tcb (fun p q => p ≥ q) this ?_ ?_
    · rw [List.append_assoc]
      exact this
    · intro u hu
      have := r.priority_before hu
      simp; omega
    · intro u hu
      rcases List.mem_append.mp hu with hu | hu
      · simp [r.priority _ u hu]
      · have := r.priority_after hu
        simp; omega

theorem delete {p : ℕ} {t : Tsk} {a b : List Tsk} (e : Q (.rdy p) = a ++ t :: b) :
    ReadyInv numProc live (Function.update Q (.rdy p) (a ++ b)) (readyQueueDelete numProc c t) := by
  have ht : t ∈ Q (.rdy p) := by simp [e]
  have hp := r.priority p t ht
  have hlt := r.lt_of_mem ht
  have hr := r.rings.unlink e
  have hl : ∀ u ∈ a ++ b, (c.tcb u).priority = p ∧ (c.tcb u).klockwait = false := by
    intro u hu
    have hu : u ∈ Q (.rdy p) := by
      rw [e]; simp only [List.mem_append, List.mem_cons] at hu ⊢; tauto
    exact ⟨r.priority p u hu, r.klockwait p u hu⟩
  -- the memory after the task is unlinked and the bitmap is brought up to date
  let rq : Rdyque := { c.ready_queue with
    klocktsk := if c.ready_queue.klocktsk = some t then none else c.ready_queue.klocktsk
    bitmap := if isQueEmpty (.que (.rdy (c.tcb t).priority)) (queRemove (.tsk t) c.que) then
        tstdlibBitclr c.ready_queue.bitmap (c.tcb t).priority
      else c.ready_queue.bitmap }
  let c' : Core := { que := queRemove (.tsk t) c.que, tcb := c.tcb, ready_queue := rq }
  have hdel : readyQueueDelete numProc c t =
      { c' with ready_queue := { rq with
        top := updateTopWhenRemove numProc c' t, chg := true } } := by
    unfold readyQueueDelete
    rw [r.klockwait p t ht]
    rfl
  have r' : ReadyLinks live (Function.update Q (.rdy p) (a ++ b)) c' :=
    r.update hr hl (fun _ => rfl) (fun _ => rfl)
  have hm : Marks rq.bitmap (Function.update Q (.rdy p) (a ++ b)) := by
    have hempty := r'.isQueEmpty_iff hlt
    rw [Function.update_self] at hempty
    have hbitmap : rq.bitmap = if isQueEmpty (.que (.rdy (c.tcb t).priority)) c'.que then
        tstdlibBitclr c.ready_queue.bitmap (c.tcb t).priority
      else c.ready_queue.bitmap := rfl
    rw [hbitmap, hp]
    by_cases hab : a ++ b = []
    · rw [if_pos (hempty.mpr hab), hab]
      exact r.bitmap.clear
    · rw [if_neg fun h => hab (hempty.mp h)]
      exact r.bitmap.keep hab (by simp [e])
  rw [hdel]
  refine ⟨⟨hr, r.live_rdy, r'.priority, r'.klockwait⟩, hm, ?_⟩
  rw [ordered_update hlt]
  exact r.remove_top e r.top r' hm hp (congrArg Cell.next (r.rings.unlink_self e))

/-- The move of a task of the queue `a ++ t :: b`, more than `t` alone, to its end: the common part
of rotation and `ready_queue_move_last`. -/
theorem moveToEnd {p : ℕ} {t : Tsk} {a b : List Tsk} (e : Q (.rdy p) = a ++ t :: b)
    (hab : a ++ b ≠ []) (c₁ c₂ : Core) (hq₁ : c₁.que = queRemove (.tsk t) c.que)
    (ht₁ : c₁.tcb = c.tcb) (hrq₁ : c₁.ready_queue = c.ready_queue)
    (hq₂ : c₂.que = queInsert (.tsk t) (.que (.rdy p)) c₁.que) (ht₂ : c₂.tcb = c.tcb)
    (hb₂ : c₂.ready_queue.bitmap = c.ready_queue.bitmap)
    (htop₂ : c₂.ready_queue.top =
      updateTopWhenInsert numProc c.tcb (updateTopWhenRemove numProc c₁ t) t) :
    ReadyInv numProc live (Function.update Q (.rdy p) (a ++ b ++ [t])) (clearSlicecnt c₂ t) := by
  have ht : t ∈ Q (.rdy p) := by simp [e]
  have hp := r.priority p t ht
  have hlt := r.lt_of_mem ht
  have hsub : ∀ u ∈ a ++ b ++ [t], u ∈ Q (.rdy p) := by
    intro u hu
    rw [e]
    simp only [List.mem_append, List.mem_cons, List.not_mem_nil, or_false] at hu ⊢
    tauto
  have hl : ∀ u ∈ a ++ b ++ [t], (c.tcb u).priority = p ∧ (c.tcb u).klockwait = false :=
    fun u hu => ⟨r.priority p u (hsub u hu), r.klockwait p u (hsub u hu)⟩
  have hr₁ := r.rings.unlink e
  have r₁ : ReadyLinks live (Function.update Q (.rdy p) (a ++ b)) c₁ :=
    r.update (by rw [hq₁]; exact hr₁) (fun u hu => hl u (by simp at hu ⊢; tauto))
      (fun u => by rw [ht₁]) (fun u => by rw [ht₁])
  have hm₁ : Marks c₁.ready_queue.bitmap (Function.update Q (.rdy p) (a ++ b)) := by
    rw [hrq₁]
    exact r.bitmap.keep hab (by simp [e])
  have htop₁ : Caches numProc (updateTopWhenRemove numProc c₁ t)
      (before (rdyQ Q) p ++ (a ++ b) ++ after (rdyQ Q) p) := by
    refine r.remove_top e (hrq₁ ▸ r.top) r₁ hm₁ (by rw [ht₁, hp]) ?_
    rw [hq₁]
    exact congrArg Cell.next (r.rings.unlink_self e)
  have hnot : ∀ h, t ∉ Function.update Q (.rdy p) (a ++ b) h := r.rings.not_mem_of_unlink e
  have hr₂ : Rings queues c₂.que live (Function.update Q (.rdy p) (a ++ b ++ [t])) := by
    have := (hq₁ ▸ r₁.rings).insertBefore (a := a ++ b) (b := []) (r.live_of_lt hlt) (by simp) hnot
    rw [Function.update_idem] at this
    rw [hq₂, hq₁]
    exact this
  refine ⟨r.update hr₂ hl (fun u => ?_) (fun u => ?_), ?_, ?_⟩
  · exact (slicecnt_priority c₂.tcb t u 0).trans (by rw [ht₂])
  · exact (slicecnt_klockwait c₂.tcb t u 0).trans (by rw [ht₂])
  · rw [clearSlicecnt_ready_queue, hb₂]
    exact r.bitmap.keep (by simp) (by simp [e])
  · rw [ordered_update hlt, clearSlicecnt_ready_queue, htop₂]
    exact r.insert_top htop₁ (fun u hu => (hl u (by simp at hu ⊢; tauto)).1) hp (fun _ => rfl)

/-- Clearing a time slice counter touches nothing the invariant reads. -/
theorem clearSlicecnt (t : Tsk) : ReadyInv numProc live Q (clearSlicecnt c t) :=
  ⟨⟨r.rings, r.live_rdy,
    fun p u hu => (slicecnt_priority c.tcb t u 0).trans (r.priority p u hu),
    fun p u hu => (slicecnt_klockwait c.tcb t u 0).trans (r.klockwait p u hu)⟩, r.bitmap, r.top⟩

theorem moveLast {p : ℕ} {t : Tsk} {a b : List Tsk} (e : Q (.rdy p) = a ++ t :: b) :
    ReadyInv numProc live (Function.update Q (.rdy p) (a ++ b ++ [t]))
      (readyQueueMoveLast numProc c t).2 := by
  have hp := r.priority p t (by simp [e])
  have hn := r.rings.next_elem e
  rw [queues_elem, queues_head] at hn
  unfold readyQueueMoveLast
  rw [hp, hn]
  cases b with
  | nil =>
    rw [if_neg (by simp), List.append_nil, ← e, Function.update_eq_self]
    exact r.clearSlicecnt t
  | cons u b =>
    rw [if_pos (by simp)]
    let c₁ : Core := { c with que := queRemove (.tsk t) c.que }
    let c₂ : Core :=
      { que := queInsert (.tsk t) (.que (.rdy p)) c₁.que
        tcb := c.tcb
        ready_queue := { c.ready_queue with
          top := updateTopWhenInsert numProc c.tcb (updateTopWhenRemove numProc c₁ t) t } }
    exact r.moveToEnd e (by simp) c₁ c₂ rfl rfl rfl rfl rfl rfl rfl

theorem rotate {p : ℕ} (hlt : p < NUM_PRI) :
    ReadyInv numProc live (Function.update Q (.rdy p) ((Q (.rdy p)).rotate 1))
      (readyQueueRotate numProc c p) := by
  have hring := r.rings.ring _ (r.live_of_lt hlt)
  have hempty := r.isQueEmpty_iff hlt
  have hhead := r.rings.next_head (r.live_of_lt hlt)
  unfold readyQueueRotate
  rcases e : Q (.rdy p) with _ | ⟨t, b⟩
  · rw [if_pos (hempty.mpr e), List.rotate_nil, ← e, Function.update_eq_self]
    exact r
  · have ha : Q (.rdy p) = [] ++ t :: b := e
    have hn := r.rings.next_elem ha
    rw [if_neg fun h => by simpa [e] using hempty.mp h]
    rw [e, queues_head] at hhead
    rw [queues_elem, queues_head] at hn
    have hht : (c.que (.que (.rdy p))).next = .tsk t := hhead
    rw [hht, hn]
    cases b with
    | nil =>
      rw [if_neg (by simp)]
      rw [List.rotate_singleton, ← e, Function.update_eq_self]
      exact r.clearSlicecnt t
    | cons u b =>
      rw [if_pos (by simp)]
      have hrem : queRemoveNext (.que (.rdy p)) c.que = (.tsk t, queRemove (.tsk t) c.que) := by
        rw [e] at hring
        exact queRemoveNext_eq hring
      rw [hrem]
      rw [List.rotate_cons_succ, List.rotate_zero]
      let c₁ : Core := { c with que := queRemove (.tsk t) c.que }
      let c₂ : Core :=
        { que := queInsert (.tsk t) (.que (.rdy p)) c₁.que
          tcb := c.tcb
          ready_queue := { c.ready_queue with
            top := updateTopWhenInsert numProc c.tcb (updateTopWhenRemove numProc c₁ t) t
            chg := true } }
      exact r.moveToEnd ha (by simp) c₁ c₂ rfl rfl rfl rfl rfl rfl rfl

end ReadyInv

/-! ## Runs -/

/-- The heads of the ready queue. -/
def IsRdy (h : QHead) : Prop := ∃ p < NUM_PRI, h = .rdy p

/-- Sequences of ready queue operations from the initialized queue, with the tasks queued under each
head. Between two calls the rest of the kernel writes anything but the links, the priority and
the kernel lock mark of a queued task. -/
inductive ReadyRun (numProc : ℕ) : (QHead → List Tsk) → Core → Prop
  | init (c : Core) : ReadyRun numProc (fun _ => []) (readyQueueInitialize c)
  | insert {Q : QHead → List Tsk} {c : Core} (t : Tsk) : ReadyRun numProc Q c →
      (∀ h, t ∉ Q h) → (c.tcb t).priority < NUM_PRI → (c.tcb t).klockwait = false →
      ReadyRun numProc
        (Function.update Q (.rdy (c.tcb t).priority) (Q (.rdy (c.tcb t).priority) ++ [t]))
        (readyQueueInsert numProc c t)
  | insertTop {Q : QHead → List Tsk} {c : Core} (t : Tsk) : ReadyRun numProc Q c →
      (∀ h, t ∉ Q h) → (c.tcb t).priority < NUM_PRI → (c.tcb t).klockwait = false →
      ReadyRun numProc
        (Function.update Q (.rdy (c.tcb t).priority) (t :: Q (.rdy (c.tcb t).priority)))
        (readyQueueInsertTop numProc c t)
  | delete {Q : QHead → List Tsk} {c : Core} {p : ℕ} {t : Tsk} {a b : List Tsk} :
      ReadyRun numProc Q c → Q (.rdy p) = a ++ t :: b →
      ReadyRun numProc (Function.update Q (.rdy p) (a ++ b)) (readyQueueDelete numProc c t)
  | rotate {Q : QHead → List Tsk} {c : Core} {p : ℕ} : ReadyRun numProc Q c → p < NUM_PRI →
      ReadyRun numProc (Function.update Q (.rdy p) ((Q (.rdy p)).rotate 1))
        (readyQueueRotate numProc c p)
  | moveLast {Q : QHead → List Tsk} {c : Core} {p : ℕ} {t : Tsk} {a b : List Tsk} :
      ReadyRun numProc Q c → Q (.rdy p) = a ++ t :: b →
      ReadyRun numProc (Function.update Q (.rdy p) (a ++ b ++ [t]))
        (readyQueueMoveLast numProc c t).2
  | other {Q : QHead → List Tsk} {c c' : Core} : ReadyRun numProc Q c →
      (∀ p < NUM_PRI, c'.que (.que (.rdy p)) = c.que (.que (.rdy p))) →
      (∀ h t, t ∈ Q h → c'.que (.tsk t) = c.que (.tsk t) ∧
        (c'.tcb t).priority = (c.tcb t).priority ∧ (c'.tcb t).klockwait = (c.tcb t).klockwait) →
      c'.ready_queue.bitmap = c.ready_queue.bitmap → c'.ready_queue.top = c.ready_queue.top →
      ReadyRun numProc Q c'

theorem queInit_foldl (l : List ℕ) (p : ℕ) : ∀ m : Links Node,
    (p ∈ l ∨ m (.que (.rdy p)) = ⟨.que (.rdy p), .que (.rdy p)⟩) →
    l.foldl (fun m i => queInit (.que (.rdy i)) m) m (.que (.rdy p)) =
      ⟨.que (.rdy p), .que (.rdy p)⟩ := by
  induction l with
  | nil =>
    intro m h
    exact h.resolve_left List.not_mem_nil
  | cons i l ih =>
    intro m h
    refine ih _ ?_
    by_cases e : p = i
    · subst e
      exact Or.inr (single_apply_self _ m)
    · rcases h with h | h
      · exact Or.inl (List.mem_of_ne_of_mem e h)
      · refine Or.inr ((single_apply_of_ne ?_ m).trans h)
        simpa using e

theorem readyInv_initialize (c : Core) (hn : numProc ≤ MAX_PROC) :
    ReadyInv numProc IsRdy (fun _ => []) (readyQueueInitialize c) := by
  have hnil : ordered (rdyQ fun _ => []) = [] :=
    List.flatMap_eq_nil_iff.mpr fun _ _ => rfl
  refine ⟨⟨⟨?_, fun _ _ => rfl, ?_⟩, ?_, ?_, ?_⟩, ?_, ?_⟩
  · rintro h ⟨p, hp, rfl⟩
    exact isRing_nil.mpr (queInit_foldl _ p c.que (Or.inl (List.mem_range.mpr hp)))
  · intro h h' t ht
    exact absurd ht List.not_mem_nil
  · intro p
    constructor
    · rintro ⟨p', hp', e⟩
      rwa [QHead.rdy.inj e]
    · exact fun hp => ⟨p, hp, rfl⟩
  · intro p t ht
    exact absurd ht List.not_mem_nil
  · intro p t ht
    exact absurd ht List.not_mem_nil
  · intro p _
    simp [readyQueueInitialize, bitAt]
  · intro i hi
    rw [hnil]
    exact if_pos (lt_of_lt_of_le hi hn)

theorem ReadyRun.inv (hn : numProc ≤ MAX_PROC) (h : ReadyRun numProc Q c) :
    ReadyInv numProc IsRdy Q c := by
  induction h with
  | init c => exact readyInv_initialize c hn
  | insert t _ ht hp hk ih => exact ih.insert ht hp hk
  | insertTop t _ ht hp hk ih => exact ih.insertTop ht hp hk
  | delete _ e ih => exact ih.delete e
  | rotate _ hp ih => exact ih.rotate hp
  | moveLast _ e ih => exact ih.moveLast e
  | other _ hh ht hb htop ih =>
    refine ⟨⟨ih.rings.congr ?_ fun h t hq => (ht h t hq).1, ih.live_rdy, ?_, ?_⟩, ?_, ?_⟩
    · rintro h ⟨p, hp, rfl⟩
      exact hh p hp
    · exact fun p t hq => (ht _ t hq).2.1.trans (ih.priority p t hq)
    · exact fun p t hq => (ht _ t hq).2.2.trans (ih.klockwait p t hq)
    · rw [hb]; exact ih.bitmap
    · rw [htop]; exact ih.top

/-- **The cache and the bitmap are right after any sequence of operations.** The rings hold the
queued tasks, `top[]` the first `num_proc` of them in order of precedence and `NULL` after them, and
the bitmap marks exactly the priorities in use. -/
theorem readyRun_top_and_bitmap (hn : numProc ≤ MAX_PROC) (h : ReadyRun numProc Q c) :
    (∀ p < NUM_PRI, IsRing c.que (.que (.rdy p)) ((Q (.rdy p)).map Node.tsk)) ∧
      (∀ i < numProc, c.ready_queue.top i = (ordered (rdyQ Q))[i]?) ∧
      ∀ p < NUM_PRI, bitAt c.ready_queue.bitmap p = true ↔ Q (.rdy p) ≠ [] :=
  ⟨fun p hp => (h.inv hn).rings.ring _ ⟨p, hp, rfl⟩, (h.inv hn).top, (h.inv hn).bitmap⟩

/-- Memory in which task `t` has priority `t`. -/
def idleCore : Core where
  que _ := ⟨.null, .null⟩
  tcb t := { tskatr := 0, priority := t, klockwait := false, klocked := false, slicecnt := 0,
             assprc := 3 }
  ready_queue := { bitmap := fun _ => 0, klocktsk := none, top := fun _ => none, chg := false }

/-- Task `3` is queued on a system of two processors, then the more urgent task `2`. -/
theorem readyRun_top_two_tasks :
    let c := readyQueueInsert 2 (readyQueueInsert 2 (readyQueueInitialize idleCore) 3) 2
    c.ready_queue.top 0 = some 2 ∧ c.ready_queue.top 1 = some 3 := by
  have h := ((ReadyRun.init idleCore : ReadyRun 2 _ _).insert 3 (by simp) (by decide) rfl).insert 2
    (fun h => by rw [Function.update_apply]; split_ifs <;> simp) (by decide) rfl
  have htop := (readyRun_top_and_bitmap (by decide) h).2.1
  exact ⟨(htop 0 (by decide)).trans rfl, (htop 1 (by decide)).trans rfl⟩

end SmpTKernel
