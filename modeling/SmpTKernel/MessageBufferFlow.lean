import SmpTKernel.MessageBufferInv

/-!
# Nobody is stuck at a message buffer

Between two operations a task waits to receive only while the buffer holds no message and nobody
waits to send, and the message of the first sender does not fit. The free space is a multiple of the
header's size, so a stored message only makes it smaller: what did not fit before does not fit
after. Every routine that changes the head of the send queue or makes room ends with `mbf_wakeup`,
which leaves a head that does not fit.
-/

namespace SmpTKernel

open Words

variable {s : Mbfcb}

/-! ## Free space -/

theorem UINT_dvd {f : ℤ} (h : 4 ∣ f) : 4 ∣ UINT f := by
  show 4 ∣ (f % 2 ^ 32).toNat
  omega

theorem INT_dvd {k : ℕ} (h : 4 ∣ k) : 4 ∣ INT k := by
  show 4 ∣ if k < 2 ^ 31 then (k : ℤ) else (k : ℤ) - 2 ^ 32
  split_ifs <;> omega

/-- Taking off no more than there is does not wrap around. -/
theorem UINT_sub_INT {f : ℤ} {k : ℕ} (hk : k ≤ UINT f) : UINT (f - INT k) = UINT f - k := by
  have hf : UINT f = (f % 2 ^ 32).toNat := rfl
  have hd : UINT (f - INT k) = ((f - INT k) % 2 ^ 32).toNat := rfl
  have hI : INT k = if k < 2 ^ 31 then (k : ℤ) else (k : ℤ) - 2 ^ 32 := rfl
  rw [hd, hI]
  split_ifs <;> omega

/-- What a message takes in the ring, with its header. -/
def msgRoom (msgsz : ℤ) : ℕ := (HEADERSZ + ROUNDSZ msgsz) % 2 ^ 32

theorem dvd_msgRoom (msgsz : ℤ) : 4 ∣ msgRoom msgsz := by
  unfold msgRoom ROUNDSZ
  rw [clearLow_eq (Nat.mod_lt _ (by norm_num))]
  show 4 ∣ (4 + _ / 2 ^ 2 * 2 ^ 2) % 2 ^ 32
  omega

theorem msgToMbf_frbufsz (s : Mbfcb) (msg : List UB) (msgsz : ℤ) :
    (msgToMbf s msg msgsz).frbufsz = s.frbufsz - INT (msgRoom msgsz) := rfl

/-- The length of a message in bytes, as far as the free space is concerned. -/
def SizeRange (msgsz : ℤ) : Prop := 0 < msgsz ∧ msgsz < 2 ^ 31

theorem msgRoom_le {msgsz : ℤ} (hd : (4 : ℤ) ∣ s.frbufsz) (hm : SizeRange msgsz)
    (hfree : mbfFree s msgsz = true) : msgRoom msgsz ≤ UINT s.frbufsz := by
  obtain ⟨k, rfl⟩ := Int.eq_ofNat_of_zero_le hm.1.le
  have hk : k < 2 ^ 31 := by
    have := hm.2
    omega
  have h4 : 4 ∣ UINT s.frbufsz := UINT_dvd hd
  have hfit : (4 + UINT k) % 2 ^ 32 ≤ UINT s.frbufsz := of_decide_eq_true hfree
  rw [UINT_natCast (by omega), Nat.mod_eq_of_lt (by omega)] at hfit
  show (4 + ROUNDSZ k) % 2 ^ 32 ≤ _
  rw [ROUNDSZ_natCast hk, Nat.mod_eq_of_lt (by omega)]
  omega

theorem mbfFree_msgToMbf {msgsz : ℤ} (hd : (4 : ℤ) ∣ s.frbufsz) (hm : SizeRange msgsz)
    (hfree : mbfFree s msgsz = true) (msg : List UB) {other : ℤ}
    (hother : mbfFree s other = false) :
    mbfFree (msgToMbf s msg msgsz) other = false := by
  unfold mbfFree at hother ⊢
  rw [decide_eq_false_iff_not, not_le] at hother ⊢
  rw [msgToMbf_frbufsz, UINT_sub_INT (msgRoom_le hd hm hfree)]
  exact (Nat.sub_le _ _).trans_lt hother

theorem dvd_msgToMbf (hd : (4 : ℤ) ∣ s.frbufsz) (msg : List UB) (msgsz : ℤ) :
    (4 : ℤ) ∣ (msgToMbf s msg msgsz).frbufsz :=
  Int.dvd_sub hd (INT_dvd (dvd_msgRoom msgsz))

theorem dvd_mbfToMsg (hd : (4 : ℤ) ∣ s.frbufsz) : (4 : ℤ) ∣ (mbfToMsg s).2.frbufsz :=
  Int.dvd_add hd (INT_dvd (dvd_msgRoom _))

/-! ## The invariant -/

/-- What holds of a buffer, but perhaps for its first sender. -/
structure MbfRoom (s : Mbfcb) : Prop where
  dvd : (4 : ℤ) ∣ s.frbufsz
  sizes : ∀ t ∈ s.send_queue, SizeRange (s.smbf t).msgsz
  recv : s.recv_queue ≠ [] → mbfEmpty s = true ∧ s.send_queue = []

/-- The message of the first sender does not fit. -/
structure MbfFlow (s : Mbfcb) : Prop extends MbfRoom s where
  head : ∀ t ∈ s.send_queue.head?, mbfFree s (s.smbf t).msgsz = false

/-- While somebody waits to send, nobody waits to receive. -/
theorem MbfRoom.recv_nil (r : MbfRoom s) (hq : s.send_queue ≠ []) : s.recv_queue = [] := by
  by_contra hne
  exact hq (r.recv hne).2

theorem MbfRoom.subperm (r : MbfRoom s) {q : List Tsk} (hq : q.Subperm s.send_queue) :
    MbfRoom { s with send_queue := q } := by
  refine ⟨r.dvd, fun t ht => r.sizes t (hq.subset ht), fun hne => ?_⟩
  obtain ⟨he, hs⟩ := r.recv hne
  rw [hs] at hq
  exact ⟨he, List.subperm_nil.mp hq⟩

theorem MbfRoom.store (r : MbfRoom s) (hr : s.recv_queue = []) (msg : List UB) (msgsz : ℤ) :
    MbfRoom (msgToMbf s msg msgsz) :=
  ⟨dvd_msgToMbf r.dvd msg msgsz, r.sizes, fun hne => absurd hr hne⟩

theorem MbfRoom.take (r : MbfRoom s) (hempty : mbfEmpty s = false) : MbfRoom (mbfToMsg s).2 := by
  refine ⟨dvd_mbfToMsg r.dvd, r.sizes, fun hne => ?_⟩
  have hfull := (r.recv hne).1
  rw [hempty] at hfull
  cases hfull

/-- Senders are let in until the first one does not fit. -/
theorem MbfRoom.wakeupLoop {queue : List Tsk} : ∀ {s : Mbfcb},
    MbfRoom { s with send_queue := queue } → MbfFlow (mbfWakeupLoop s queue).1 := by
  induction queue with
  | nil => exact fun r => ⟨r, nofun⟩
  | cons top queue ih =>
    intro s r
    have hr : s.recv_queue = [] := r.recv_nil (List.cons_ne_nil top queue)
    rw [mbfWakeupLoop]
    by_cases hfree : mbfFree s (s.smbf top).msgsz = true
    · rw [if_pos hfree]
      exact ih ((r.subperm (List.sublist_cons_self top queue).subperm).store hr _ _)
    · rw [if_neg hfree]
      refine ⟨r, fun t ht => ?_⟩
      cases ht
      exact Bool.not_eq_true _ ▸ hfree

theorem MbfRoom.wakeup (r : MbfRoom s) : MbfFlow (mbfWakeup s).1 :=
  MbfRoom.wakeupLoop (s := s) r

/-! ## The routines -/

/-- A sender that is not queued waits: either behind the others, or in front because it is the most
urgent one, and then its message does not fit. -/
theorem MbfFlow.sndWait (f : MbfFlow s) {self : Tsk} {w : WinfoSmbf} (hself : self ∉ s.send_queue)
    (hw : SizeRange w.msgsz) (hr : s.recv_queue = [])
    (hput : gcbTopOfWaitQueue s.mbfatr s.priority self s.send_queue = self →
      mbfFree s w.msgsz = false) :
    MbfFlow { s with smbf := Function.update s.smbf self w } ∧
      MbfFlow { s with
        smbf := Function.update s.smbf self w
        send_queue := gcbInsert s.mbfatr s.priority self s.send_queue } := by
  have hme : Function.update s.smbf self w self = w := Function.update_self self w s.smbf
  have hsame (u : Tsk) (hu : u ∈ s.send_queue) : Function.update s.smbf self w u = s.smbf u :=
    Function.update_of_ne (ne_of_mem_of_not_mem hu hself) w s.smbf
  have hsizes (u : Tsk) (hu : u ∈ s.send_queue) :
      SizeRange (Function.update s.smbf self w u).msgsz := by
    rw [hsame u hu]
    exact f.sizes u hu
  have hhead (u : Tsk) (hu : u ∈ s.send_queue.head?) :
      mbfFree s (Function.update s.smbf self w u).msgsz = false := by
    rw [hsame u (List.mem_of_mem_head? hu)]
    exact f.head u hu
  refine ⟨⟨⟨f.dvd, hsizes, f.recv⟩, hhead⟩, ⟨⟨f.dvd, ?_, fun hne => absurd hr hne⟩, ?_⟩⟩
  · intro u hu
    rcases List.mem_cons.mp ((gcbInsert_perm _ _ _ _).subset hu) with rfl | hu
    · show SizeRange (Function.update s.smbf u w u).msgsz
      rwa [Function.update_self]
    · exact hsizes u hu
  · intro u hu
    show mbfFree s (Function.update s.smbf self w u).msgsz = false
    rcases head?_gcbInsert hu with ⟨rfl, htop⟩ | hu
    · rw [hme]
      exact hput htop
    · exact hhead u hu

theorem MbfFlow.snd (f : MbfFlow s) (e : CallEnv) {self : Tsk} (call : ℕ) (msg : List UB)
    {msgsz : ℤ} (tmout : ℤ) (hself : e.indp = false → self ∉ s.send_queue) (h31 : msgsz < 2 ^ 31) :
    MbfFlow (tkSndMbf s e self call msg msgsz tmout).1 := by
  unfold tkSndMbf
  by_cases hpos : ¬msgsz > 0
  · rw [if_pos hpos]; exact f
  rw [if_neg hpos]
  by_cases htm : ¬tmout ≥ TMO_FEVR
  · rw [if_pos htm]; exact f
  rw [if_neg htm]
  by_cases hctx : tmout ≠ TMO_POL ∧ e.ddsp
  · rw [if_pos hctx]; exact f
  rw [if_neg hctx]
  by_cases hprot : e.prot ≠ E_OK
  · rw [if_pos hprot]; exact f
  rw [if_neg hprot]
  by_cases hmax : msgsz > s.maxmsz
  · rw [if_pos hmax]; exact f
  rw [if_neg hmax]
  by_cases hdis : (!e.indp && isDiswai s.mbfatr (s.waitmask self) TTW_SMBF) = true
  · rw [if_pos hdis]; exact f
  rw [if_neg hdis]
  have hrange : SizeRange msgsz := ⟨not_not.mp hpos, h31⟩
  rcases hr : s.recv_queue with _ | ⟨t, queue⟩
  · by_cases hput : ((e.indp || gcbTopOfWaitQueue s.mbfatr s.priority self s.send_queue == self) &&
        mbfFree s msgsz) = true
    · -- the head still does not fit, there is less room now
      rw [if_pos hput]
      rw [Bool.and_eq_true] at hput
      exact ⟨f.store hr msg msgsz, fun u hu => mbfFree_msgToMbf f.dvd hrange hput.2 msg
        (f.head u hu)⟩
    rw [if_neg hput]
    by_cases hpol : tmout = TMO_POL
    · rw [if_pos hpol]; exact f
    rw [if_neg hpol]
    have hindp : e.indp = false := by
      by_contra hi
      exact hctx ⟨hpol, e.indp_ddsp (by simpa using hi)⟩
    obtain ⟨hset, hins⟩ :=
      f.sndWait (w := ⟨msg, msgsz, call⟩) (hself hindp) hrange hr fun htop => by
      rw [htop, beq_self_eq_true, Bool.or_true, Bool.true_and] at hput
      exact Bool.not_eq_true _ ▸ hput
    by_cases hdis' : isDiswai s.mbfatr (s.waitmask self) TTW_SMBF = true
    · rw [if_pos hdis']
      rw [hr] at hset
      exact hset
    · rw [if_neg hdis']
      rw [hr] at hins
      exact hins
  · -- straight to a receiver, with nobody in the send queue
    have hrecv := f.recv (by rw [hr]; exact List.cons_ne_nil t queue)
    refine ⟨⟨f.dvd, f.sizes, fun _ => hrecv⟩, fun u hu => ?_⟩
    change u ∈ s.send_queue.head? at hu
    rw [hrecv.2] at hu
    cases hu

theorem MbfFlow.rcv (f : MbfFlow s) (e : CallEnv) (self : Tsk) (tmout : ℤ) :
    MbfFlow (tkRcvMbf s e self tmout).1 := by
  unfold tkRcvMbf
  by_cases htm : ¬tmout ≥ TMO_FEVR
  · rw [if_pos htm]; exact f
  rw [if_neg htm]
  by_cases hctx : e.ddsp = true
  · rw [if_pos hctx]; exact f
  rw [if_neg hctx]
  by_cases hprot : e.prot ≠ E_OK
  · rw [if_pos hprot]; exact f
  rw [if_neg hprot]
  by_cases hdis : isDiswai s.mbfatr (s.waitmask self) TTW_RMBF = true
  · rw [if_pos hdis]; exact f
  rw [if_neg hdis]
  by_cases hempty : (!mbfEmpty s) = true
  · -- there is more room now
    rw [if_pos hempty]
    exact (f.take (by simpa using hempty)).wakeup
  rw [if_neg hempty]
  have hring : mbfEmpty s = true := by simpa using hempty
  rcases hq : s.send_queue with _ | ⟨t, queue⟩
  · by_cases hpol : tmout = TMO_POL
    · rw [if_pos hpol]; exact f
    · rw [if_neg hpol]
      refine ⟨⟨f.dvd, fun u hu => ?_, fun _ => ⟨hring, rfl⟩⟩, fun u hu => ?_⟩
      · exact absurd hu List.not_mem_nil
      · cases hu
  · -- the head is served, there is a new head
    exact (f.subperm (hq ▸ (List.sublist_cons_self t queue).subperm)).wakeup

theorem MbfFlow.leave (f : MbfFlow s) (t : Tsk) :
    MbfFlow (mbfRelWai { s with send_queue := s.send_queue.erase t } t).1 :=
  (f.subperm (List.erase_subperm t s.send_queue)).wakeup

theorem MbfFlow.recvLeave (f : MbfFlow s) (t : Tsk) :
    MbfFlow { s with recv_queue := s.recv_queue.erase t } := by
  refine ⟨⟨f.dvd, f.sizes, fun hne => f.recv fun hr => hne ?_⟩, f.head⟩
  rw [hr]
  rfl

theorem MbfFlow.chgPri (f : MbfFlow s) (t : Tsk) (priority : ℕ) :
    MbfFlow (chgPri s t priority).1 := by
  have f' : MbfFlow { s with priority := Function.update s.priority t priority } :=
    ⟨⟨f.dvd, f.sizes, f.recv⟩, f.head⟩
  unfold SmpTKernel.chgPri
  by_cases hook : t ∈ s.send_queue ∧ s.mbfatr &&& TA_TPRI ≠ 0
  · rw [if_pos hook]
    unfold mbfChgPri
    rw [if_pos (Int.natCast_nonneg _)]
    exact (f'.subperm (gcbChangePriority_perm _ hook.1).subperm).wakeup
  · rw [if_neg hook]
    exact f'

/-! ## Runs -/

theorem MbfFlow.run (f : MbfFlow s) {op : MbfOp} {h : List MbfEvent} (hop : op.Legal s h) :
    MbfFlow (op.run s).1 := by
  cases op with
  | snd e self call msg msgsz tmout => exact f.snd e call msg tmout hop.1 hop.2.2.2
  | rcv e self tmout => exact f.rcv e self tmout
  | releaseSender t ercd => exact f.leave t
  | releaseReceiver t ercd => exact f.recvLeave t
  | terminateSender t => exact f.leave t
  | terminateReceiver t => exact f.recvLeave t
  | chgPri t priority => exact f.chgPri t priority
  | setWaitmask t waitmask => exact ⟨⟨f.dvd, f.sizes, f.recv⟩, f.head⟩

variable {h : List MbfEvent} {mbfatr : ℕ} {bufsz maxmsz : ℤ} {mem : Bytes}
  {priority waitmask : Tsk → ℕ} {smbf : Tsk → WinfoSmbf}

theorem tkCreMbf_flow : MbfFlow (tkCreMbf mbfatr bufsz maxmsz mem priority waitmask smbf) := by
  refine ⟨⟨INT_dvd ?_, nofun, fun hne => absurd rfl hne⟩, nofun⟩
  unfold ROUNDSZ
  rw [clearLow_eq (Nat.mod_lt _ (by norm_num))]
  exact Nat.dvd_mul_left 4 _

theorem MbfRun.flow (run : MbfRun (tkCreMbf mbfatr bufsz maxmsz mem priority waitmask smbf) s h) :
    MbfFlow s := by
  induction run with
  | create => exact tkCreMbf_flow
  | step op _ hop ih => exact ih.run hop

theorem mbfContents_eq_nil (hempty : mbfEmpty s = true) : mbfContents s = [] := by
  unfold mbfContents
  cases s.bufsz.toNat with
  | zero => rfl
  | succ fuel => rw [mbfDecode, if_pos hempty]

/-- **Nobody is stuck.** In every state between two operations, if a task waits to receive then the
buffer holds no message and nobody waits to send; and the message of the first of the tasks that
wait to send does not fit in the free space. -/
theorem mbfRun_flow (run : MbfRun (tkCreMbf mbfatr bufsz maxmsz mem priority waitmask smbf) s h) :
    (s.recv_queue ≠ [] → mbfEmpty s = true ∧ mbfContents s = [] ∧ s.send_queue = []) ∧
      ∀ t ∈ s.send_queue.head?, mbfFree s (s.smbf t).msgsz = false := by
  have f := run.flow
  refine ⟨fun hne => ?_, f.head⟩
  obtain ⟨hempty, hsend⟩ := f.recv hne
  exact ⟨hempty, mbfContents_eq_nil hempty, hsend⟩

/-- Task 3 has a message that fits but waits behind task 2; it is let in when it becomes the more
urgent one, and then task 2 waits on. -/
theorem mbfRun_flow_chgPri :
    let s₀ := tkCreMbf TA_TPRI 16 8 (fun _ => 0) (fun _ => 5) (fun _ => 0) (fun _ => ⟨[], 0, 0⟩)
    let r := (MbfOp.snd taskCall 1 0 [1] 1 TMO_POL).run s₀
    let r := (MbfOp.snd taskCall 2 1 [2, 3, 4, 5, 6] 5 TMO_FEVR).run r.1
    let r := (MbfOp.snd taskCall 3 2 [7] 1 TMO_FEVR).run r.1
    let r' := (MbfOp.chgPri 3 1).run r.1
    r.1.send_queue = [2, 3] ∧ r'.1.send_queue = [2] ∧ mbfContents r'.1 = [[1], [7]] ∧
      ∀ t ∈ r'.1.send_queue.head?, mbfFree r'.1 (r'.1.smbf t).msgsz = false := by
  intro s₀ r₁ r₂ r₃ r₄
  have run : MbfRun s₀ r₄.1 (([] ++ r₁.2) ++ r₂.2 ++ r₃.2 ++ r₄.2) :=
    (((MbfRun.create.step _ (by decide +kernel)).step _ (by decide +kernel)).step _
      (by decide +kernel)).step _ (by decide +kernel)
  exact ⟨by decide +kernel, by decide +kernel, by decide +kernel, (mbfRun_flow run).2⟩

end SmpTKernel
