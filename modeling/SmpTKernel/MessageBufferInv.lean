import SmpTKernel.MessageRing

/-!
# Messages are neither lost nor duplicated

The history of a message buffer is a list of events. `Ledger` is what holds of the calls in it,
`MbfInv` ties it to the state: the accepted messages are the delivered ones followed by those in the
ring, every queued sender has an open call, and receivers wait only while the ring is empty and
nobody waits to send. Each routine keeps `MbfInv`; `MbfRun` is any sequence of them.
-/

namespace SmpTKernel

/-- The messages accepted in a history, in order. -/
def accepted (h : List MbfEvent) : List (List UB) :=
  h.filterMap fun
    | .accepted _ m => some m
    | _ => none

/-- The messages delivered in a history, in order. -/
def delivered (h : List MbfEvent) : List (List UB) :=
  h.filterMap fun
    | .delivered _ m => some m
    | _ => none

/-- The calls whose message was accepted, in order. -/
def acceptedCalls (h : List MbfEvent) : List ℕ :=
  h.filterMap fun
    | .accepted c _ => some c
    | _ => none

/-- The calls made, in order. -/
def startedCalls (h : List MbfEvent) : List ℕ :=
  h.filterMap fun
    | .started c _ => some c
    | _ => none

theorem accepted_append (h k : List MbfEvent) : accepted (h ++ k) = accepted h ++ accepted k :=
  List.filterMap_append

theorem delivered_append (h k : List MbfEvent) : delivered (h ++ k) = delivered h ++ delivered k :=
  List.filterMap_append

theorem acceptedCalls_append (h k : List MbfEvent) :
    acceptedCalls (h ++ k) = acceptedCalls h ++ acceptedCalls k :=
  List.filterMap_append

theorem mem_acceptedCalls {h : List MbfEvent} {c : ℕ} :
    c ∈ acceptedCalls h ↔ ∃ m, MbfEvent.accepted c m ∈ h := by
  unfold acceptedCalls
  rw [List.mem_filterMap]
  constructor
  · rintro ⟨e, he, hc⟩
    cases e with
    | accepted c' m =>
      cases hc
      exact ⟨m, he⟩
    | _ => cases hc
  · exact fun ⟨m, hm⟩ => ⟨_, hm, rfl⟩

theorem mem_startedCalls {h : List MbfEvent} {c : ℕ} {m : List UB} (hm : .started c m ∈ h) :
    c ∈ startedCalls h :=
  List.mem_filterMap.mpr ⟨_, hm, rfl⟩

/-- The books on the send calls of a history. -/
structure Ledger (h : List MbfEvent) : Prop where
  accepted_started : ∀ c m, .accepted c m ∈ h → .started c m ∈ h
  ends_started : ∀ c e, .sendEnds c e ∈ h → ∃ m, .started c m ∈ h
  ok_iff : ∀ c, .sendEnds c E_OK ∈ h ↔ ∃ m, .accepted c m ∈ h
  result : ∀ c e e', .sendEnds c e ∈ h → .sendEnds c e' ∈ h → e = e'
  once : (acceptedCalls h).Nodup

/-- The call was made with this message and has no result yet. -/
def Open (h : List MbfEvent) (c : ℕ) (m : List UB) : Prop :=
  .started c m ∈ h ∧ ∀ e, .sendEnds c e ∉ h

variable {h ev : List MbfEvent} {c : ℕ} {m : List UB}

theorem Open.append (o : Open h c m) (he : ∀ e, .sendEnds c e ∉ ev) : Open (h ++ ev) c m :=
  ⟨List.mem_append_left _ o.1, fun e hm => (List.mem_append.mp hm).elim (o.2 e) (he e)⟩

theorem Ledger.perm {h' : List MbfEvent} (l : Ledger h) (p : h.Perm h') : Ledger h' := by
  have hm (e : MbfEvent) : e ∈ h' ↔ e ∈ h := p.symm.mem_iff
  refine ⟨?_, ?_, ?_, ?_, (p.filterMap _).nodup_iff.mp l.once⟩
  · simpa only [hm] using l.accepted_started
  · simpa only [hm] using l.ends_started
  · simpa only [hm] using l.ok_iff
  · simpa only [hm] using l.result

theorem Ledger.not_accepted (l : Ledger h) (o : Open h c m) (m' : List UB) : .accepted c m' ∉ h :=
  fun hm => o.2 E_OK ((l.ok_iff c).mpr ⟨m', hm⟩)

theorem ledger_nil : Ledger [] := by
  refine ⟨?_, ?_, ?_, ?_, List.nodup_nil⟩ <;> simp

theorem Ledger.start (l : Ledger h) (c : ℕ) (m : List UB) : Ledger (h ++ [.started c m]) := by
  constructor
  · intro c' m' hm
    simp only [List.mem_append, List.mem_singleton, reduceCtorEq, or_false] at hm ⊢
    exact Or.inl (l.accepted_started _ _ hm)
  · intro c' e he
    simp only [List.mem_append, List.mem_singleton, reduceCtorEq, or_false] at he
    obtain ⟨m', hm⟩ := l.ends_started _ _ he
    exact ⟨m', List.mem_append_left _ hm⟩
  · simpa using l.ok_iff
  · simpa using l.result
  · rw [acceptedCalls_append]
    simpa [acceptedCalls] using l.once

theorem Ledger.deliver (l : Ledger h) (t : Tsk) (m : List UB) : Ledger (h ++ [.delivered t m]) := by
  constructor
  · simpa using l.accepted_started
  · simpa using l.ends_started
  · simpa using l.ok_iff
  · simpa using l.result
  · rw [acceptedCalls_append]
    simpa [acceptedCalls] using l.once

theorem Ledger.receiveFail (l : Ledger h) (t : Tsk) (e : ER) :
    Ledger (h ++ [.receiveFails t e]) := by
  constructor
  · simpa using l.accepted_started
  · simpa using l.ends_started
  · simpa using l.ok_iff
  · simpa using l.result
  · rw [acceptedCalls_append]
    simpa [acceptedCalls] using l.once

theorem Ledger.fail (l : Ledger h) (o : Open h c m) {e : ER} (he : e ≠ E_OK) :
    Ledger (h ++ [.sendEnds c e]) := by
  constructor
  · simpa using l.accepted_started
  · intro c' e' hm
    simp only [List.mem_append, List.mem_singleton, MbfEvent.sendEnds.injEq] at hm
    rcases hm with hm | ⟨rfl, rfl⟩
    · obtain ⟨m', hm⟩ := l.ends_started _ _ hm
      exact ⟨m', List.mem_append_left _ hm⟩
    · exact ⟨m, List.mem_append_left _ o.1⟩
  · intro c'
    rw [List.mem_append, List.mem_singleton, MbfEvent.sendEnds.injEq, or_iff_left fun hc =>
      he hc.2.symm, l.ok_iff]
    simp
  · intro c' e₁ e₂ h₁ h₂
    simp only [List.mem_append, List.mem_singleton, MbfEvent.sendEnds.injEq] at h₁ h₂
    rcases h₁ with h₁ | ⟨rfl, rfl⟩ <;> rcases h₂ with h₂ | ⟨hc, rfl⟩
    · exact l.result _ _ _ h₁ h₂
    · exact absurd (hc ▸ h₁) (o.2 _)
    · exact absurd h₂ (o.2 _)
    · rfl
  · rw [acceptedCalls_append]
    simpa [acceptedCalls] using l.once

/-- The message of an open call is accepted and the call ends with `E_OK`. -/
theorem Ledger.accept (l : Ledger h) (o : Open h c m) :
    Ledger (h ++ [.accepted c m, .sendEnds c E_OK]) := by
  constructor
  · intro c' m' hm
    simp only [List.mem_append, List.mem_cons, MbfEvent.accepted.injEq, reduceCtorEq,
      List.not_mem_nil, or_false] at hm
    rcases hm with hm | ⟨rfl, rfl⟩
    · exact List.mem_append_left _ (l.accepted_started _ _ hm)
    · exact List.mem_append_left _ o.1
  · intro c' e' hm
    simp only [List.mem_append, List.mem_cons, MbfEvent.sendEnds.injEq, reduceCtorEq,
      List.not_mem_nil, or_false, false_or] at hm
    rcases hm with hm | ⟨rfl, rfl⟩
    · obtain ⟨m', hm⟩ := l.ends_started _ _ hm
      exact ⟨m', List.mem_append_left _ hm⟩
    · exact ⟨m, List.mem_append_left _ o.1⟩
  · intro c'
    simp only [List.mem_append, List.mem_cons, MbfEvent.sendEnds.injEq, MbfEvent.accepted.injEq,
      reduceCtorEq, List.not_mem_nil, or_false, false_or, and_true, exists_or, exists_and_left,
      exists_eq, l.ok_iff]
  · intro c' e₁ e₂ h₁ h₂
    simp only [List.mem_append, List.mem_cons, MbfEvent.sendEnds.injEq, reduceCtorEq,
      List.not_mem_nil, or_false, false_or] at h₁ h₂
    rcases h₁ with h₁ | ⟨rfl, rfl⟩ <;> rcases h₂ with h₂ | ⟨hc, rfl⟩
    · exact l.result _ _ _ h₁ h₂
    · exact absurd (hc ▸ h₁) (o.2 _)
    · exact absurd h₂ (o.2 _)
    · rfl
  · rw [acceptedCalls_append]
    refine List.nodup_append.mpr ⟨l.once, List.nodup_singleton c, ?_⟩
    rintro a ha b hb rfl
    cases List.mem_singleton.mp hb
    obtain ⟨m', hm⟩ := mem_acceptedCalls.mp ha
    exact l.not_accepted o m' hm

/-! ## The invariant -/

/-- A queued sender: its message is there and its call is open. -/
structure Waits (h : List MbfEvent) (w : WinfoSmbf) : Prop where
  length : (w.msg.length : ℤ) = w.msgsz
  pos : 0 < w.msgsz
  lt : w.msgsz < 2 ^ 31
  isOpen : Open h w.call w.msg

/-- The invariant of a buffer of `n` bytes with a history. -/
structure MbfInv (n : ℕ) (s : Mbfcb) (h : List MbfEvent) : Prop where
  ring : ∃ stored H, RingAt s stored n H ∧ accepted h = delivered h ++ stored
  waiting : ∀ t ∈ s.send_queue, Waits h (s.smbf t)
  calls : (s.send_queue.map fun t => (s.smbf t).call).Nodup
  ledger : Ledger h
  recv : s.recv_queue ≠ [] → mbfEmpty s = true ∧ s.send_queue = []

variable {n H : ℕ} {s s' : Mbfcb} {ms : List (List UB)}

theorem RingAt.congr (r : RingAt s ms n H) (hb : s'.bufsz = s.bufsz) (hf : s'.frbufsz = s.frbufsz)
    (hh : s'.head = s.head) (ht : s'.tail = s.tail) (hm : s'.buffer = s.buffer) :
    RingAt s' ms n H :=
  ⟨hb.trans r.bufsz, r.dvd, r.lt, r.pos_dvd, hh.trans r.head, ht.trans r.tail, r.le,
    hf.trans r.frbufsz, hm ▸ r.holds⟩

theorem Waits.append {w : WinfoSmbf} (hw : Waits h w) (he : ∀ e, .sendEnds w.call e ∉ ev) :
    Waits (h ++ ev) w :=
  ⟨hw.length, hw.pos, hw.lt, hw.isOpen.append he⟩

/-- A call that is not open in the queue ends, or nothing ends: the queued ones stay open. -/
theorem MbfInv.waiting_append (inv : MbfInv n s h)
    (he : ∀ t ∈ s.send_queue, ∀ e, .sendEnds (s.smbf t).call e ∉ ev) :
    ∀ t ∈ s.send_queue, Waits (h ++ ev) (s.smbf t) :=
  fun t ht => (inv.waiting t ht).append (he t ht)

/-- The call is not that of a queued sender. -/
def NotQueued (s : Mbfcb) (c : ℕ) : Prop := ∀ t ∈ s.send_queue, (s.smbf t).call ≠ c

theorem MbfInv.start (inv : MbfInv n s h) (c : ℕ) (m : List UB) :
    MbfInv n s (h ++ [.started c m]) := by
  obtain ⟨stored, H, r, hacc⟩ := inv.ring
  refine ⟨⟨stored, H, r, ?_⟩, ?_, inv.calls, inv.ledger.start c m, inv.recv⟩
  · rw [accepted_append, delivered_append, hacc]
    simp [accepted, delivered]
  · exact inv.waiting_append fun _ _ _ => by simp

theorem MbfInv.receiveFail (inv : MbfInv n s h) (t : Tsk) (e : ER) :
    MbfInv n s (h ++ [.receiveFails t e]) := by
  obtain ⟨stored, H, r, hacc⟩ := inv.ring
  refine ⟨⟨stored, H, r, ?_⟩, ?_, inv.calls, inv.ledger.receiveFail t e, inv.recv⟩
  · rw [accepted_append, delivered_append, hacc]
    simp [accepted, delivered]
  · exact inv.waiting_append fun _ _ _ => by simp

theorem MbfInv.fail (inv : MbfInv n s h) (o : Open h c m) (hq : NotQueued s c) {e : ER}
    (he : e ≠ E_OK) :
    MbfInv n s (h ++ [.sendEnds c e]) := by
  obtain ⟨stored, H, r, hacc⟩ := inv.ring
  refine ⟨⟨stored, H, r, ?_⟩, ?_, inv.calls, inv.ledger.fail o he, inv.recv⟩
  · rw [accepted_append, delivered_append, hacc]
    simp [accepted, delivered]
  · refine inv.waiting_append fun t ht e' => ?_
    simpa using fun hc => absurd hc (hq t ht)

theorem MbfInv.store (inv : MbfInv n s h) (o : Open h c m) (hq : NotQueued s c) (h0 : 0 < m.length)
    (h31 : m.length < 2 ^ 31) (hfree : mbfFree s m.length = true) (hr : s.recv_queue = []) :
    MbfInv n (msgToMbf s m m.length) (h ++ [.accepted c m, .sendEnds c E_OK]) := by
  obtain ⟨stored, H, r, hacc⟩ := inv.ring
  refine ⟨⟨stored ++ [m], H, r.msgToMbf h0 h31 hfree, ?_⟩, ?_, inv.calls, inv.ledger.accept o, ?_⟩
  · rw [accepted_append, delivered_append, hacc]
    simp [accepted, delivered]
  · refine inv.waiting_append fun t ht e' => ?_
    simpa using fun hc => absurd hc (hq t ht)
  · exact fun hne => absurd hr hne

/-- The message of a send call is handed to a receiver. -/
theorem MbfInv.hand (inv : MbfInv n s h) (o : Open h c m) (hq : NotQueued s c) (t : Tsk)
    (hempty : mbfEmpty s = true) :
    MbfInv n s (h ++ [.accepted c m, .delivered t m, .sendEnds c E_OK]) := by
  obtain ⟨stored, H, r, hacc⟩ := inv.ring
  have hnil : stored = [] := r.mbfEmpty_iff.mp hempty
  subst hnil
  refine ⟨⟨[], H, r, ?_⟩, ?_, inv.calls, ?_, inv.recv⟩
  · rw [accepted_append, delivered_append, hacc]
    simp [accepted, delivered]
  · refine inv.waiting_append fun t ht e' => ?_
    simpa using fun hc => absurd hc (hq t ht)
  · refine ((inv.ledger.accept o).deliver t m).perm ?_
    rw [List.append_assoc]
    exact (List.Perm.cons _ (List.Perm.swap _ _ _)).append_left h

theorem MbfInv.take (inv : MbfInv n s h) (hempty : mbfEmpty s = false) (t : Tsk) :
    ∃ m s', mbfToMsg s = (m, s') ∧ MbfInv n s' (h ++ [.delivered t m]) := by
  obtain ⟨stored, H, r, hacc⟩ := inv.ring
  cases stored with
  | nil =>
    rw [r.mbfEmpty_iff.mpr rfl] at hempty
    cases hempty
  | cons m stored =>
    obtain ⟨s', hs, r', hs'⟩ := r.mbfToMsg
    refine ⟨m, s', hs, ⟨stored, _, r', ?_⟩, ?_, ?_, inv.ledger.deliver t m, ?_⟩
    · rw [accepted_append, delivered_append, hacc]
      simp [accepted, delivered]
    · rw [hs']
      exact inv.waiting_append fun _ _ _ => by simp
    · rw [hs']
      exact inv.calls
    · rw [hs']
      intro hne
      rw [(inv.recv hne).1] at hempty
      cases hempty

/-! ## The queues -/

theorem MbfInv.subperm (inv : MbfInv n s h) {q : List Tsk} (hq : q.Subperm s.send_queue) :
    MbfInv n { s with send_queue := q } h := by
  obtain ⟨stored, H, r, hacc⟩ := inv.ring
  refine ⟨⟨stored, H, r.congr rfl rfl rfl rfl rfl, hacc⟩, ?_, ?_, inv.ledger, ?_⟩
  · exact fun t ht => inv.waiting t (hq.subset ht)
  · obtain ⟨l, hp, hs⟩ := hq
    exact (hp.map _).nodup_iff.mp ((hs.map _).nodup inv.calls)
  · intro hne
    obtain ⟨he, hs⟩ := inv.recv hne
    rw [hs] at hq
    exact ⟨he, List.subperm_nil.mp hq⟩

theorem MbfInv.recvQueue (inv : MbfInv n s h) (q : List Tsk)
    (hq : q ≠ [] → mbfEmpty s = true ∧ s.send_queue = []) :
    MbfInv n { s with recv_queue := q } h := by
  obtain ⟨stored, H, r, hacc⟩ := inv.ring
  exact ⟨⟨stored, H, r.congr rfl rfl rfl rfl rfl, hacc⟩, inv.waiting, inv.calls, inv.ledger, hq⟩

theorem MbfInv.tasks (inv : MbfInv n s h) (priority waitmask : Tsk → ℕ) :
    MbfInv n { s with priority := priority, waitmask := waitmask } h := by
  obtain ⟨stored, H, r, hacc⟩ := inv.ring
  exact ⟨⟨stored, H, r.congr rfl rfl rfl rfl rfl, hacc⟩, inv.waiting, inv.calls,
    inv.ledger, inv.recv⟩

/-- What a task that is not queued has in its control block plays no part. -/
theorem MbfInv.setSmbf (inv : MbfInv n s h) {t : Tsk} (ht : t ∉ s.send_queue) (w : WinfoSmbf) :
    MbfInv n { s with smbf := Function.update s.smbf t w } h := by
  obtain ⟨stored, H, r, hacc⟩ := inv.ring
  have hsame (u : Tsk) (hu : u ∈ s.send_queue) : Function.update s.smbf t w u = s.smbf u :=
    Function.update_of_ne (ne_of_mem_of_not_mem hu ht) w s.smbf
  refine ⟨⟨stored, H, r.congr rfl rfl rfl rfl rfl, hacc⟩, ?_, ?_, inv.ledger, inv.recv⟩
  · intro u hu
    show Waits h (Function.update s.smbf t w u)
    rw [hsame u hu]
    exact inv.waiting u hu
  · show (s.send_queue.map fun u => (Function.update s.smbf t w u).call).Nodup
    rw [List.map_congr_left fun u hu => by rw [hsame u hu]]
    exact inv.calls

theorem MbfInv.enqueue (inv : MbfInv n s h) {t : Tsk} {q : List Tsk} (hw : Waits h (s.smbf t))
    (hc : NotQueued s (s.smbf t).call) (hq : q.Perm (t :: s.send_queue)) (hr : s.recv_queue = []) :
    MbfInv n { s with send_queue := q } h := by
  obtain ⟨stored, H, r, hacc⟩ := inv.ring
  refine ⟨⟨stored, H, r.congr rfl rfl rfl rfl rfl, hacc⟩, ?_, ?_, inv.ledger, fun hne =>
    absurd hr hne⟩
  · intro u hu
    rcases List.mem_cons.mp (hq.subset hu) with rfl | hu
    · exact hw
    · exact inv.waiting u hu
  · refine (hq.map _).nodup_iff.mpr (List.nodup_cons.mpr ⟨fun hm => ?_, inv.calls⟩)
    obtain ⟨u, hu, e⟩ := List.mem_map.mp hm
    exact hc u hu e

/-- The head of the queue leaves it: its call is none of the others'. -/
theorem MbfInv.pop (inv : MbfInv n s h) {t : Tsk} {q : List Tsk} (hq : s.send_queue = t :: q) :
    MbfInv n { s with send_queue := q } h ∧ Waits h (s.smbf t) ∧
      NotQueued { s with send_queue := q } (s.smbf t).call ∧ s.recv_queue = [] := by
  have hcalls := inv.calls
  rw [hq, List.map_cons, List.nodup_cons] at hcalls
  refine ⟨inv.subperm (hq ▸ (List.sublist_cons_self t q).subperm),
    inv.waiting t (hq ▸ List.mem_cons_self), fun u hu e => hcalls.1 (List.mem_map.mpr ⟨u, hu, e⟩),
    ?_⟩
  by_contra hne
  exact List.cons_ne_nil t q (hq.symm.trans (inv.recv hne).2)

/-! ## The routines -/

theorem MbfInv.wakeupLoop {queue : List Tsk} : ∀ {s : Mbfcb} {h : List MbfEvent},
    MbfInv n { s with send_queue := queue } h →
    MbfInv n (mbfWakeupLoop s queue).1 (h ++ (mbfWakeupLoop s queue).2) := by
  induction queue with
  | nil =>
    intro s h inv
    rw [mbfWakeupLoop, List.append_nil]
    exact inv
  | cons top queue ih =>
    intro s h inv
    rw [mbfWakeupLoop]
    obtain ⟨hpop, hw, hc, hr⟩ := inv.pop rfl
    by_cases hfree : mbfFree s (s.smbf top).msgsz = true
    · -- the message of the first sender is stored, the rest is the loop on the others
      rw [if_pos hfree]
      have hlen := hw.length
      have hpos := hw.pos
      have hlt := hw.lt
      have hstore := hpop.store hw.isOpen hc (by omega) (by omega) (by rwa [hlen]) hr
      rw [hlen] at hstore
      have hrest := ih (s := msgToMbf s (s.smbf top).msg (s.smbf top).msgsz) hstore
      rw [List.append_assoc] at hrest
      exact hrest
    · rw [if_neg hfree, List.append_nil]
      exact inv

theorem MbfInv.wakeup (inv : MbfInv n s h) : MbfInv n (mbfWakeup s).1 (h ++ (mbfWakeup s).2) :=
  MbfInv.wakeupLoop (s := s) inv

/-- A sender that is not queued waits, or may not wait. -/
theorem MbfInv.sndWait (inv : MbfInv n s h) {self : Tsk} {w : WinfoSmbf}
    (hself : self ∉ s.send_queue) (hw : Waits h w) (hq : NotQueued s w.call)
    (hr : s.recv_queue = []) :
    MbfInv n { s with smbf := Function.update s.smbf self w } h ∧
      NotQueued { s with smbf := Function.update s.smbf self w } w.call ∧
      ∀ q, q.Perm (self :: s.send_queue) →
        MbfInv n { s with smbf := Function.update s.smbf self w, send_queue := q } h := by
  have hset := inv.setSmbf hself w
  have hq' : NotQueued { s with smbf := Function.update s.smbf self w } w.call := by
    intro t ht
    show (Function.update s.smbf self w t).call ≠ w.call
    rw [Function.update_of_ne (ne_of_mem_of_not_mem ht hself)]
    exact hq t ht
  have hme : Function.update s.smbf self w self = w := Function.update_self self w s.smbf
  refine ⟨hset, hq', fun q hp => hset.enqueue ?_ ?_ hp hr⟩
  · show Waits h (Function.update s.smbf self w self)
    rwa [hme]
  · show NotQueued _ (Function.update s.smbf self w self).call
    rwa [hme]

theorem MbfInv.snd (inv : MbfInv n s h) (e : CallEnv) {self : Tsk} {msgsz : ℤ} (tmout : ℤ)
    (hself : e.indp = false → self ∉ s.send_queue) (ho : Open h c m) (hq : NotQueued s c)
    (hlen : m.length = msgsz.toNat) (h31 : msgsz < 2 ^ 31) :
    MbfInv n (tkSndMbf s e self c m msgsz tmout).1
      (h ++ (tkSndMbf s e self c m msgsz tmout).2) := by
  have hpar := inv.fail ho hq (by decide : E_PAR ≠ E_OK)
  have hdiswai := inv.fail ho hq (by decide : E_DISWAI ≠ E_OK)
  unfold tkSndMbf
  by_cases hpos : ¬msgsz > 0
  · rw [if_pos hpos]; exact hpar
  rw [if_neg hpos]
  by_cases htm : ¬tmout ≥ TMO_FEVR
  · rw [if_pos htm]; exact hpar
  rw [if_neg htm]
  by_cases hctx : tmout ≠ TMO_POL ∧ e.ddsp
  · rw [if_pos hctx]; exact inv.fail ho hq (by decide)
  rw [if_neg hctx]
  by_cases hprot : e.prot ≠ E_OK
  · rw [if_pos hprot]; exact inv.fail ho hq hprot
  rw [if_neg hprot]
  by_cases hmax : msgsz > s.maxmsz
  · rw [if_pos hmax]; exact hpar
  rw [if_neg hmax]
  by_cases hdis : (!e.indp && isDiswai s.mbfatr (s.waitmask self) TTW_SMBF) = true
  · rw [if_pos hdis]; exact hdiswai
  rw [if_neg hdis]
  have hsz : msgsz = m.length := by omega
  have htake : m.take msgsz.toNat = m := List.take_of_length_le hlen.le
  rw [htake]
  rcases hr : s.recv_queue with _ | ⟨t, queue⟩
  · by_cases hput : ((e.indp || gcbTopOfWaitQueue s.mbfatr s.priority self s.send_queue == self) &&
        mbfFree s msgsz) = true
    · -- into the ring
      rw [if_pos hput]
      rw [Bool.and_eq_true] at hput
      rw [hsz] at hput ⊢
      exact inv.store ho hq (by omega) (by omega) hput.2 hr
    rw [if_neg hput]
    by_cases hpol : tmout = TMO_POL
    · rw [if_pos hpol]; exact inv.fail ho hq (by decide)
    rw [if_neg hpol]
    -- only a task can come here
    have hindp : e.indp = false := by
      by_contra hi
      exact hctx ⟨hpol, e.indp_ddsp (by simpa using hi)⟩
    have hw : Waits h ⟨m, msgsz, c⟩ := ⟨hsz.symm, not_not.mp hpos, h31, ho⟩
    obtain ⟨hset, hq', hins⟩ := inv.sndWait (hself hindp) hw hq hr
    by_cases hdis' : isDiswai s.mbfatr (s.waitmask self) TTW_SMBF = true
    · have hfail := hset.fail ho hq' (by decide : E_DISWAI ≠ E_OK)
      rw [hr] at hfail
      rw [if_pos hdis']
      exact hfail
    · have hwait := hins _ (gcbInsert_perm s.mbfatr s.priority self s.send_queue)
      rw [hr] at hwait
      rw [if_neg hdis', List.append_nil]
      exact hwait
  · -- to a receiver
    have hrecv := inv.recv (by rw [hr]; exact List.cons_ne_nil t queue)
    exact (inv.recvQueue queue fun _ => hrecv).hand ho hq t hrecv.1

theorem MbfInv.rcv (inv : MbfInv n s h) (e : CallEnv) (self : Tsk) (tmout : ℤ) :
    MbfInv n (tkRcvMbf s e self tmout).1 (h ++ (tkRcvMbf s e self tmout).2) := by
  unfold tkRcvMbf
  by_cases htm : ¬tmout ≥ TMO_FEVR
  · rw [if_pos htm]; exact inv.receiveFail self _
  rw [if_neg htm]
  by_cases hctx : e.ddsp = true
  · rw [if_pos hctx]; exact inv.receiveFail self _
  rw [if_neg hctx]
  by_cases hprot : e.prot ≠ E_OK
  · rw [if_pos hprot]; exact inv.receiveFail self _
  rw [if_neg hprot]
  by_cases hdis : isDiswai s.mbfatr (s.waitmask self) TTW_RMBF = true
  · rw [if_pos hdis]; exact inv.receiveFail self _
  rw [if_neg hdis]
  by_cases hempty : (!mbfEmpty s) = true
  · -- from the ring
    rw [if_pos hempty]
    obtain ⟨m, s', hs, inv'⟩ := inv.take (by simpa using hempty) self
    have hwake := inv'.wakeup
    rw [hs]
    rw [List.append_assoc] at hwake
    exact hwake
  rw [if_neg hempty]
  have hring : mbfEmpty s = true := by simpa using hempty
  rcases hq : s.send_queue with _ | ⟨t, queue⟩
  · by_cases hpol : tmout = TMO_POL
    · rw [if_pos hpol]; exact inv.receiveFail self _
    · have hwait := inv.recvQueue (s.recv_queue ++ [self]) fun _ => ⟨hring, hq⟩
      rw [hq] at hwait
      rw [if_neg hpol, List.append_nil]
      exact hwait
  · -- from the first sender
    obtain ⟨hpop, hw, hc, -⟩ := inv.pop hq
    have hlen := hw.length
    have htake : (s.smbf t).msg.take (s.smbf t).msgsz.toNat = (s.smbf t).msg :=
      List.take_of_length_le (by omega)
    have hwake := (hpop.hand hw.isOpen hc self hring).wakeup
    rw [List.append_assoc] at hwake
    show MbfInv n _ (h ++ _ :: _ :: _ :: _)
    rw [htake]
    exact hwake

theorem MbfInv.releaseSender (inv : MbfInv n s h) {t : Tsk} (ht : t ∈ s.send_queue) {ercd : ER}
    (he : ercd ≠ E_OK) :
    MbfInv n (releaseSender s t ercd).1 (h ++ (releaseSender s t ercd).2) := by
  -- bring the task to the front, then take it out
  have inv' := inv.subperm (List.perm_cons_erase ht).symm.subperm
  obtain ⟨hpop, hw, hc, -⟩ := inv'.pop rfl
  have hwake := (hpop.fail hw.isOpen hc he).wakeup
  rw [List.append_assoc] at hwake
  exact hwake

theorem MbfInv.terminateSender (inv : MbfInv n s h) (t : Tsk) :
    MbfInv n (terminateSender s t).1 (h ++ (terminateSender s t).2) :=
  (inv.subperm (List.erase_subperm t s.send_queue)).wakeup

theorem MbfInv.releaseReceiver (inv : MbfInv n s h) (t : Tsk) (ercd : ER) :
    MbfInv n (releaseReceiver s t ercd).1 (h ++ (releaseReceiver s t ercd).2) := by
  refine (inv.recvQueue _ fun hne => inv.recv fun hr => hne ?_).receiveFail t ercd
  rw [hr]
  rfl

theorem MbfInv.terminateReceiver (inv : MbfInv n s h) (t : Tsk) :
    MbfInv n (terminateReceiver s t).1 (h ++ (terminateReceiver s t).2) := by
  unfold SmpTKernel.terminateReceiver
  rw [List.append_nil]
  refine inv.recvQueue _ fun hne => inv.recv fun hr => hne ?_
  rw [hr]
  rfl

theorem MbfInv.chgPri (inv : MbfInv n s h) (t : Tsk) (priority : ℕ) :
    MbfInv n (chgPri s t priority).1 (h ++ (chgPri s t priority).2) := by
  have inv' := inv.tasks (Function.update s.priority t priority) s.waitmask
  unfold SmpTKernel.chgPri
  by_cases hook : t ∈ s.send_queue ∧ s.mbfatr &&& TA_TPRI ≠ 0
  · rw [if_pos hook]
    unfold mbfChgPri
    rw [if_pos (Int.natCast_nonneg _)]
    exact (inv'.subperm (gcbChangePriority_perm _ hook.1).subperm).wakeup
  · rw [if_neg hook, List.append_nil]
    exact inv'

/-! ## Runs -/

/-- What can happen to a message buffer and the tasks it works with. -/
inductive MbfOp
  | snd (e : CallEnv) (self : Tsk) (call : ℕ) (msg : List UB) (msgsz tmout : ℤ)
  | rcv (e : CallEnv) (self : Tsk) (tmout : ℤ)
  | releaseSender (t : Tsk) (ercd : ER)
  | releaseReceiver (t : Tsk) (ercd : ER)
  | terminateSender (t : Tsk)
  | terminateReceiver (t : Tsk)
  | chgPri (t : Tsk) (priority : ℕ)
  | setWaitmask (t : Tsk) (waitmask : ℕ)

/-- The state after an operation, and what happened. -/
def MbfOp.run (s : Mbfcb) : MbfOp → Mbfcb × List MbfEvent
  | snd e self call msg msgsz tmout =>
    let (s', ev) := tkSndMbf s e self call msg msgsz tmout
    (s', .started call msg :: ev)
  | rcv e self tmout => tkRcvMbf s e self tmout
  | releaseSender t ercd => SmpTKernel.releaseSender s t ercd
  | releaseReceiver t ercd => SmpTKernel.releaseReceiver s t ercd
  | terminateSender t => SmpTKernel.terminateSender s t
  | terminateReceiver t => SmpTKernel.terminateReceiver s t
  | chgPri t priority => SmpTKernel.chgPri s t priority
  | setWaitmask t waitmask => ({ s with waitmask := Function.update s.waitmask t waitmask }, [])

/-- A running task is in no wait queue, `msg` points to `msgsz` bytes, every call has a number of
its own, and waits end with an error only while they last. -/
def MbfOp.Legal (s : Mbfcb) (h : List MbfEvent) : MbfOp → Prop
  | snd e self call msg msgsz _ => (e.indp = false → self ∉ s.send_queue) ∧
      call ∉ startedCalls h ∧ msg.length = msgsz.toNat ∧ msgsz < 2 ^ 31
  | releaseSender t ercd => t ∈ s.send_queue ∧ ercd ≠ E_OK
  | _ => True

instance MbfOp.decidableLegal (s : Mbfcb) (h : List MbfEvent) : (op : MbfOp) →
    Decidable (op.Legal s h)
  | .snd e self call msg msgsz _ =>
    inferInstanceAs (Decidable ((e.indp = false → self ∉ s.send_queue) ∧
      call ∉ startedCalls h ∧ msg.length = msgsz.toNat ∧ msgsz < 2 ^ 31))
  | .releaseSender t ercd => inferInstanceAs (Decidable (t ∈ s.send_queue ∧ ercd ≠ E_OK))
  | .rcv .. | .releaseReceiver .. | .terminateSender .. | .terminateReceiver .. | .chgPri ..
  | .setWaitmask .. => inferInstanceAs (Decidable True)

/-- Runs of a buffer, with their history. -/
inductive MbfRun (s₀ : Mbfcb) : Mbfcb → List MbfEvent → Prop
  | create : MbfRun s₀ s₀ []
  | step {s : Mbfcb} {h : List MbfEvent} (op : MbfOp) : MbfRun s₀ s h → op.Legal s h →
      MbfRun s₀ (op.run s).1 (h ++ (op.run s).2)

theorem MbfInv.run (inv : MbfInv n s h) {op : MbfOp} (hop : op.Legal s h) :
    MbfInv n (op.run s).1 (h ++ (op.run s).2) := by
  cases op with
  | snd e self call msg msgsz tmout =>
    obtain ⟨hself, hfresh, hlen, h31⟩ := hop
    have ho : Open (h ++ [.started call msg]) call msg := by
      refine ⟨List.mem_append_right _ (List.mem_singleton.mpr rfl), fun e hm => ?_⟩
      have hm : MbfEvent.sendEnds call e ∈ h := by simpa using hm
      obtain ⟨m, hm⟩ := inv.ledger.ends_started _ _ hm
      exact hfresh (mem_startedCalls hm)
    have hq : NotQueued s call :=
      fun t ht e => hfresh (e ▸ mem_startedCalls (inv.waiting t ht).isOpen.1)
    have hsnd := (inv.start call msg).snd e tmout hself ho hq hlen h31
    rw [List.append_assoc] at hsnd
    exact hsnd
  | rcv e self tmout => exact inv.rcv e self tmout
  | releaseSender t ercd => exact inv.releaseSender hop.1 hop.2
  | releaseReceiver t ercd => exact inv.releaseReceiver t ercd
  | terminateSender t => exact inv.terminateSender t
  | terminateReceiver t => exact inv.terminateReceiver t
  | chgPri t priority => exact inv.chgPri t priority
  | setWaitmask t waitmask =>
    rw [MbfOp.run, List.append_nil]
    exact inv.tasks s.priority _

theorem tkCreMbf_inv {mbfatr : ℕ} {bufsz maxmsz : ℤ} {mem : Bytes} {priority waitmask : Tsk → ℕ}
    {smbf : Tsk → WinfoSmbf} (h0 : 0 ≤ bufsz) (hr : bufsz ≤ 2 ^ 31 - 4) :
    MbfInv ((bufsz.toNat + 3) / 4 * 4) (tkCreMbf mbfatr bufsz maxmsz mem priority waitmask smbf)
      [] := by
  obtain ⟨b, rfl⟩ := Int.eq_ofNat_of_zero_le h0
  have hsz : INT (ROUNDSZ b) = ((b + 3) / 4 * 4 : ℕ) := by
    rw [ROUNDSZ_natCast (by omega), INT_natCast (by omega)]
  refine ⟨⟨[], 0, ?_, rfl⟩, ?_, List.nodup_nil, ledger_nil, fun hne => absurd rfl hne⟩
  · refine ⟨hsz, Nat.dvd_mul_left 4 _, ?_, Nat.dvd_zero 4, ?_, ?_, Nat.zero_le _, hsz, trivial⟩
    · rw [Int.toNat_natCast]
      omega
    · rw [Nat.zero_mod]
      rfl
    · rw [total_nil, Nat.add_zero, Nat.zero_mod]
      rfl
  · exact fun t ht => absurd ht List.not_mem_nil

/-- The messages `mbf_to_msg` gets from the ring one after the other, until it is empty. -/
def mbfDecode : ℕ → Mbfcb → List (List UB)
  | 0, _ => []
  | fuel + 1, s =>
    if mbfEmpty s then []
    else
      let (msg, s') := mbfToMsg s
      msg :: mbfDecode fuel s'

/-- What the ring decodes to: a message takes at least one byte. -/
def mbfContents (s : Mbfcb) : List (List UB) := mbfDecode s.bufsz.toNat s

theorem RingAt.decode {fuel : ℕ} : ∀ {s : Mbfcb} {ms : List (List UB)} {H : ℕ}, RingAt s ms n H →
    ms.length ≤ fuel → mbfDecode fuel s = ms := by
  induction fuel with
  | zero =>
    intro s ms H _ hf
    exact (List.length_eq_zero_iff.mp (Nat.le_zero.mp hf)).symm
  | succ fuel ih =>
    intro s ms H r hf
    rw [mbfDecode]
    cases ms with
    | nil => rw [if_pos (r.mbfEmpty_iff.mpr rfl)]
    | cons m ms =>
      obtain ⟨s', hs, r', -⟩ := r.mbfToMsg
      rw [if_neg (fun he => List.cons_ne_nil m ms (r.mbfEmpty_iff.mp he)), hs]
      exact congrArg (m :: ·) (ih r' (Nat.le_of_succ_le_succ hf))

theorem length_le_total (ms : List (List UB)) : ms.length ≤ total ms := by
  induction ms with
  | nil => exact Nat.le_refl 0
  | cons m ms ih =>
    have := length_lt_msgSize m
    rw [List.length_cons, total_cons]
    omega

theorem RingAt.contents (r : RingAt s ms n H) : mbfContents s = ms := by
  refine r.decode ?_
  rw [r.bufsz, Int.toNat_natCast]
  exact (length_le_total ms).trans r.le

theorem Holds.length_lt {buf : Bytes} : ∀ {p : ℕ} {ms : List (List UB)}, Holds buf n p ms →
    ∀ m ∈ ms, m.length < 2 ^ 31
  | _, [], _, m, hm => absurd hm List.not_mem_nil
  | _, _ :: _, ⟨⟨_, _, _, h31⟩, hms⟩, m, hm => by
    rcases List.mem_cons.mp hm with rfl | hm
    · exact h31
    · exact hms.length_lt m hm

/-- The size of what is stored, in the words of the code. -/
theorem total_eq (hms : ∀ m ∈ ms, m.length < 2 ^ 31) :
    total ms = (ms.map fun m => HEADERSZ + ROUNDSZ m.length).sum := by
  unfold total
  rw [List.map_congr_left fun m hm => ?_]
  rw [ROUNDSZ_natCast (hms m hm)]
  rfl

theorem MbfRun.inv {mbfatr : ℕ} {bufsz maxmsz : ℤ} {mem : Bytes} {priority waitmask : Tsk → ℕ}
    {smbf : Tsk → WinfoSmbf} (h0 : 0 ≤ bufsz) (hr : bufsz ≤ 2 ^ 31 - 4)
    (run : MbfRun (tkCreMbf mbfatr bufsz maxmsz mem priority waitmask smbf) s h) :
    MbfInv ((bufsz.toNat + 3) / 4 * 4) s h := by
  induction run with
  | create => exact tkCreMbf_inv h0 hr
  | step op _ hop ih => exact ih.run hop

/-- **One FIFO.** After any run the accepted messages are the delivered ones followed by what the
ring decodes to; an accepted message is that of its call, no call is accepted twice, and a call ends
with `E_OK` exactly if its message was accepted; `frbufsz` is what the stored messages leave. -/
theorem mbfRun_fifo {mbfatr : ℕ} {bufsz maxmsz : ℤ} {mem : Bytes} {priority waitmask : Tsk → ℕ}
    {smbf : Tsk → WinfoSmbf} (h0 : 0 ≤ bufsz) (hr : bufsz ≤ 2 ^ 31 - 4)
    (run : MbfRun (tkCreMbf mbfatr bufsz maxmsz mem priority waitmask smbf) s h) :
    accepted h = delivered h ++ mbfContents s ∧
      (∀ c m, .accepted c m ∈ h → .started c m ∈ h) ∧ (acceptedCalls h).Nodup ∧
      (∀ c e, .sendEnds c e ∈ h → (e = E_OK ↔ c ∈ acceptedCalls h)) ∧
      (∀ c ∈ acceptedCalls h, .sendEnds c E_OK ∈ h) ∧
      s.frbufsz = s.bufsz - ((mbfContents s).map fun m => HEADERSZ + ROUNDSZ m.length).sum ∧
      0 ≤ s.frbufsz ∧ s.frbufsz ≤ s.bufsz := by
  have inv := run.inv h0 hr
  obtain ⟨stored, H, r, hacc⟩ := inv.ring
  have hle := r.le
  have hsum := total_eq r.holds.length_lt
  refine ⟨?_, inv.ledger.accepted_started, inv.ledger.once, ?_, ?_, ?_, ?_, ?_⟩
  · rw [r.contents, hacc]
  · intro c e he
    rw [mem_acceptedCalls, ← inv.ledger.ok_iff]
    exact ⟨fun hok => hok ▸ he, fun hok => inv.ledger.result c e E_OK he hok⟩
  · intro c hc
    exact (inv.ledger.ok_iff c).mpr (mem_acceptedCalls.mp hc)
  · rw [r.contents, ← hsum, r.frbufsz, r.bufsz]
    omega
  · rw [r.frbufsz]
    exact Int.natCast_nonneg _
  · rw [r.frbufsz, r.bufsz]
    omega

/-- A call from a task, with dispatching enabled. -/
def taskCall : CallEnv where
  indp := false
  ddsp := false
  prot := E_OK
  indp_ddsp := nofun

/-- A buffer of twelve bytes for messages of up to eight. -/
def smallMbf : Mbfcb :=
  tkCreMbf 0 12 8 (fun _ => 0) (fun _ => 1) (fun _ => 0) (fun _ => ⟨[], 0, 0⟩)

/-- The second message goes round the end of the buffer, the third waits with its sender. -/
theorem mbfRun_fifo_round :
    let r := (MbfOp.snd taskCall 1 0 [1, 2, 3] 3 TMO_POL).run smallMbf
    let r := (MbfOp.rcv taskCall 2 TMO_POL).run r.1
    let r := (MbfOp.snd taskCall 1 1 [4, 5, 6, 7, 8] 5 TMO_POL).run r.1
    let r := (MbfOp.snd taskCall 3 2 [9] 1 TMO_FEVR).run r.1
    mbfContents r.1 = [[4, 5, 6, 7, 8]] ∧ r.1.send_queue = [3] := by
  intro r₁ r₂ r₃ r₄
  have run : MbfRun smallMbf r₄.1 (([] ++ r₁.2) ++ r₂.2 ++ r₃.2 ++ r₄.2) :=
    (((MbfRun.create.step _ (by decide +kernel)).step _ (by decide +kernel)).step _
      (by decide +kernel)).step _ (by decide +kernel)
  have hfifo := (mbfRun_fifo (by decide) (by decide) run).1
  have hacc : accepted (([] ++ r₁.2) ++ r₂.2 ++ r₃.2 ++ r₄.2) = [[1, 2, 3]] ++
      [[4, 5, 6, 7, 8]] := by
    decide +kernel
  have hdel : delivered (([] ++ r₁.2) ++ r₂.2 ++ r₃.2 ++ r₄.2) = [[1, 2, 3]] := by decide +kernel
  rw [hacc, hdel] at hfifo
  exact ⟨(List.append_cancel_left hfifo).symm, by decide +kernel⟩

end SmpTKernel
