import SmpTKernel.MessageBuffer

/-!
# The message ring

`RingAt` says which messages the ring of a message buffer holds: they lie one after the other from
position `H`, whose cell is `head`, each behind a header with its length, on multiples of four, and
`frbufsz` counts what they leave. Storing a message puts it at the end (`msgToMbf_ringAt`), getting
one takes the first (`mbfToMsg_ringAt`), wherever headers and bodies meet the end of the buffer.
-/

namespace SmpTKernel

open ByteRing Words

/-- The bytes a message takes in the ring. -/
def msgSize (m : List UB) : ℕ := 4 + (m.length + 3) / 4 * 4

/-- The bytes a sequence of messages takes. -/
def total (ms : List (List UB)) : ℕ := (ms.map msgSize).sum

/-- Position `p` holds the header and the bytes of `m`. -/
def HoldsMsg (buf : Bytes) (n p : ℕ) (m : List UB) : Prop :=
  readAt buf n p 4 = leBytes 4 m.length ∧ readAt buf n (p + 4) m.length = m ∧
    0 < m.length ∧ m.length < 2 ^ 31

/-- The messages lie one after the other from position `p`. -/
def Holds (buf : Bytes) (n : ℕ) : ℕ → List (List UB) → Prop
  | _, [] => True
  | p, m :: ms => HoldsMsg buf n p m ∧ Holds buf n (p + msgSize m) ms

/-- The ring of a buffer of `n` bytes holds the messages `ms` from position `H`. -/
structure RingAt (s : Mbfcb) (ms : List (List UB)) (n H : ℕ) : Prop where
  bufsz : s.bufsz = n
  dvd : 4 ∣ n
  lt : n < 2 ^ 31
  pos_dvd : 4 ∣ H
  head : s.head = (H % n : ℕ)
  tail : s.tail = ((H + total ms) % n : ℕ)
  le : total ms ≤ n
  frbufsz : s.frbufsz = ((n - total ms : ℕ) : ℤ)
  holds : Holds s.buffer n H ms

theorem ROUNDSZ_natCast {k : ℕ} (h : k < 2 ^ 31) : ROUNDSZ k = (k + 3) / 4 * 4 := by
  have h₁ : UINT (k : ℤ) = k := UINT_natCast (by omega)
  unfold ROUNDSZ
  rw [h₁, clearLow_eq (Nat.mod_lt _ (by norm_num)), show ROUNDSIZE - 1 = 3 from rfl]
  omega

@[simp] theorem total_nil : total [] = 0 := rfl

@[simp] theorem total_cons (m : List UB) (ms : List (List UB)) :
    total (m :: ms) = msgSize m + total ms := by
  simp [total]

theorem total_concat (ms : List (List UB)) (m : List UB) :
    total (ms ++ [m]) = total ms + msgSize m := by
  simp [total]

theorem four_dvd_msgSize (m : List UB) : 4 ∣ msgSize m := by
  unfold msgSize
  omega

theorem four_dvd_total (ms : List (List UB)) : 4 ∣ total ms := by
  induction ms with
  | nil => exact Nat.dvd_zero 4
  | cons m ms ih =>
    rw [total_cons]
    exact Nat.dvd_add (four_dvd_msgSize m) ih

theorem length_lt_msgSize (m : List UB) : m.length < msgSize m := by
  unfold msgSize
  omega

theorem holds_concat {buf : Bytes} {n : ℕ} {m : List UB} : ∀ {p : ℕ} {ms : List (List UB)},
    Holds buf n p (ms ++ [m]) ↔ Holds buf n p ms ∧ HoldsMsg buf n (p + total ms) m
  | p, [] => by simp [Holds]
  | p, x :: ms => by
    rw [List.cons_append, Holds, Holds, holds_concat, total_cons, and_assoc, Nat.add_assoc]

theorem Holds.congr {buf buf' : Bytes} {n : ℕ} : ∀ {p : ℕ} {ms : List (List UB)}, Holds buf n p ms →
    (∀ q k, p ≤ q → q + k ≤ p + total ms → readAt buf' n q k = readAt buf n q k) →
    Holds buf' n p ms
  | _, [], _, _ => trivial
  | p, m :: ms, ⟨⟨h₁, h₂, h₃⟩, hms⟩, e => by
    rw [total_cons] at e
    have h4 : 4 + m.length ≤ msgSize m := by unfold msgSize; omega
    refine ⟨⟨?_, ?_, h₃⟩, hms.congr fun q k hq hk => e q k (by omega) (by omega)⟩
    · rw [e p 4 le_rfl (by omega), h₁]
    · rw [e (p + 4) m.length (by omega) (by omega), h₂]

/-- A string stored behind the messages does not touch them. -/
theorem Holds.copy {buf : Bytes} {n w p : ℕ} {src : List UB} {ms : List (List UB)}
    (hw : w % n + src.length ≤ n) (h : Holds buf n p ms) (hle : p + total ms ≤ w)
    (hn : w + src.length ≤ p + n) : Holds (copy buf (w % n) src) n p ms :=
  h.congr fun _ _ hq hk => readAt_copy_other buf hw (by omega) (by omega)

/-- Going on by `k` cells with the reset of the source. -/
theorem wrap_eq {n p k : ℕ} (h : p % n + k ≤ n) :
    (if ((p % n : ℕ) : ℤ) + k ≥ n then 0 else ((p % n : ℕ) : ℤ) + k) = ((p + k) % n : ℕ) := by
  by_cases e : p % n + k = n
  · rw [if_pos (by omega), ← Nat.mod_add_mod, e, Nat.mod_self]
    rfl
  · rw [if_neg (by omega), ← Nat.mod_add_mod p n k, Nat.mod_eq_of_lt (by omega : p % n + k < n)]
    exact (Nat.cast_add _ _).symm

theorem header_fits {n p : ℕ} (hn : 0 < n) (hd : 4 ∣ n) (hp : 4 ∣ p) : p % n + 4 ≤ n := by
  have h₁ := Nat.mod_lt p hn
  have h₂ : 4 ∣ p % n := (Nat.dvd_mod_iff hd).mpr hp
  omega

theorem memcpyFrom_eq (buf : Bytes) {n p k : ℕ} (h : p % n + k ≤ n) :
    memcpyFrom buf (p % n : ℕ) k = readAt buf n p k := by
  rw [readAt_eq buf h]
  rfl

theorem memcpyTo_eq (buf : Bytes) (p : ℕ) {src : List UB} {k : ℕ} (h : src.length = k) :
    memcpyTo buf p src k = copy buf p src := by
  unfold memcpyTo
  rw [Int.toNat_natCast, Int.toNat_natCast, List.take_of_length_le h.le]

variable {s : Mbfcb} {ms : List (List UB)} {m : List UB} {n H : ℕ}

theorem RingAt.mbfEmpty_iff (r : RingAt s ms n H) : mbfEmpty s = true ↔ ms = [] := by
  unfold mbfEmpty
  rw [decide_eq_true_eq, r.frbufsz, r.bufsz]
  cases ms with
  | nil => simp
  | cons m ms =>
    have := length_lt_msgSize m
    have hle := r.le
    rw [total_cons] at hle ⊢
    constructor
    · intro h
      have h : n - (msgSize m + total ms) = n := by exact_mod_cast h
      omega
    · exact fun h => nomatch h

/-- The unrounded test is enough, since everything in the ring is a multiple of four. -/
theorem RingAt.size_le (r : RingAt s ms n H) (h31 : m.length < 2 ^ 31)
    (hfree : mbfFree s m.length = true) : total ms + msgSize m ≤ n := by
  have hlt := r.lt
  have hle := r.le
  have h₁ : UINT (m.length : ℤ) = m.length := UINT_natCast (by omega)
  have h₂ : UINT s.frbufsz = n - total ms := by
    rw [r.frbufsz]
    exact UINT_natCast (by omega)
  unfold mbfFree at hfree
  rw [decide_eq_true_eq, h₁, h₂, show HEADERSZ = 4 from rfl, Nat.mod_eq_of_lt (by omega)] at hfree
  have hd := r.dvd
  have ht := four_dvd_total ms
  unfold msgSize
  omega

/-- Storing the body of a message behind its header, in one piece or two: it is read back, and
strings before it are not touched. -/
theorem body_stored (buf : Bytes) {p : ℕ} (hn : 0 < n) (hm : m.length ≤ n) :
    let split := n - p % n < m.length
    let first := if split then copy buf (p % n) (m.take (n - p % n)) else buf
    let last := if split then copy first 0 (m.drop (n - p % n)) else copy first (p % n) m
    readAt last n p m.length = m ∧
      ∀ q k, q + k ≤ p → p + m.length ≤ q + n → readAt last n q k = readAt buf n q k := by
  intro split first last
  have hmod := Nat.mod_lt p hn
  by_cases hs : n - p % n < m.length
  · have hfirst : first = copy buf (p % n) (m.take (n - p % n)) := if_pos hs
    have hlast : last = copy first 0 (m.drop (n - p % n)) := if_pos hs
    have hlen₁ : (m.take (n - p % n)).length = n - p % n := List.length_take_of_le hs.le
    have hlen₂ : (m.drop (n - p % n)).length = m.length - (n - p % n) := List.length_drop
    -- the second piece starts a new round
    have hround : (p + (n - p % n)) % n = 0 := by
      rw [← Nat.mod_add_mod, Nat.add_sub_cancel' hmod.le, Nat.mod_self]
    have hfit₁ : p % n + (m.take (n - p % n)).length ≤ n := by omega
    have hfit₂ : (p + (n - p % n)) % n + (m.drop (n - p % n)).length ≤ n := by omega
    have hlast' : last = copy first ((p + (n - p % n)) % n) (m.drop (n - p % n)) := by
      rw [hlast, hround]
    rw [hlast', hfirst]
    constructor
    · have h₁ := readAt_copy_self buf hfit₁
      have h₂ := readAt_copy_self (copy buf (p % n) (m.take (n - p % n))) hfit₂
      rw [hlen₁] at h₁
      rw [hlen₂] at h₂
      rw [show m.length = (n - p % n) + (m.length - (n - p % n)) by omega, readAt_add, h₂,
        readAt_copy_other _ hfit₂ (by omega) (by omega), h₁, List.take_append_drop]
    · intro q k hq hp
      rw [readAt_copy_other _ hfit₂ (by omega) (by omega),
        readAt_copy_other _ hfit₁ hq (by omega)]
  · have hfirst : first = buf := if_neg hs
    have hlast : last = copy first (p % n) m := if_neg hs
    have hfit : p % n + m.length ≤ n := by omega
    rw [hlast, hfirst]
    exact ⟨readAt_copy_self buf hfit, fun q k hq hp => readAt_copy_other buf hfit hq hp⟩

/-- `msg_to_mbf` in terms of positions. -/
theorem RingAt.msgToMbf_eq (r : RingAt s ms n H) (h31 : m.length < 2 ^ 31)
    (hsize : total ms + msgSize m ≤ n) :
    let p := H + total ms + 4
    let buf := copy s.buffer ((H + total ms) % n) (leBytes 4 m.length)
    let first := if n - p % n < m.length then copy buf (p % n) (m.take (n - p % n)) else buf
    msgToMbf s m m.length =
      { s with
        frbufsz := ((n - (total ms + msgSize m) : ℕ) : ℤ)
        buffer := if n - p % n < m.length then copy first 0 (m.drop (n - p % n))
          else copy first (p % n) m
        tail := ((H + (total ms + msgSize m)) % n : ℕ) } := by
  intro p buf first
  have hlt := r.lt
  have h0 : 0 < n := lt_of_lt_of_le (length_lt_msgSize m) (by omega) |>.trans_le' (Nat.zero_le _)
  have hT : 4 ∣ H + total ms := Nat.dvd_add r.pos_dvd (four_dvd_total ms)
  have hfit := header_fits h0 r.dvd hT
  have hpd : 4 ∣ p % n := (Nat.dvd_mod_iff r.dvd).mpr (Nat.dvd_add hT (dvd_refl 4))
  have hpn := Nat.mod_lt p h0
  have hnd := r.dvd
  have hwrap : (if s.tail + (HEADERSZ : ℤ) ≥ n then 0 else s.tail + (HEADERSZ : ℤ)) =
      ((p % n : ℕ) : ℤ) := by
    rw [r.tail]
    exact wrap_eq hfit
  have hrem : (n : ℤ) - ((p % n : ℕ) : ℤ) = ((n - p % n : ℕ) : ℤ) := by omega
  have hhead : copy s.buffer s.tail.toNat (leBytes HEADERSZ (UINT (m.length : ℤ))) = buf := by
    rw [r.tail, Int.toNat_natCast, UINT_natCast (by omega)]
  have hfr : s.frbufsz - INT ((HEADERSZ + ROUNDSZ (m.length : ℤ)) % 2 ^ 32) =
      ((n - (total ms + msgSize m) : ℕ) : ℤ) := by
    have hms : HEADERSZ + (m.length + 3) / 4 * 4 = msgSize m := rfl
    rw [r.frbufsz, ROUNDSZ_natCast h31, hms, Nat.mod_eq_of_lt (by omega), INT_natCast (by omega)]
    omega
  unfold SmpTKernel.msgToMbf
  simp only [r.bufsz, hwrap, hhead, hfr, hrem, Nat.cast_lt]
  have hround : msgSize m = 4 + (m.length + 3) / 4 * 4 := rfl
  by_cases hs : n - p % n < m.length
  · -- the body goes on at the start of the buffer
    have hsub : (m.length : ℤ) - ((n - p % n : ℕ) : ℤ) = ((m.length - (n - p % n) : ℕ) : ℤ) := by
      omega
    have hr : (m.length - (n - p % n) + 3) / 4 * 4 + (n - p % n) = (m.length + 3) / 4 * 4 := by
      omega
    have hq : (p + (n - p % n)) % n = 0 := by
      rw [← Nat.mod_add_mod, Nat.add_sub_cancel' hpn.le, Nat.mod_self]
    have hw := wrap_eq (n := n) (p := p + (n - p % n)) (k := (m.length - (n - p % n) + 3) / 4 * 4)
      (by omega)
    rw [hq, show p + (n - p % n) + (m.length - (n - p % n) + 3) / 4 * 4 =
      H + (total ms + msgSize m) by omega] at hw
    have hfirst : first = copy buf (p % n) (m.take (n - p % n)) := if_pos hs
    simp only [hs, if_true, hsub, Int.toNat_natCast]
    have hpiece : memcpyTo buf ((p % n : ℕ) : ℤ) m ((n - p % n : ℕ) : ℤ) =
        copy buf (p % n) (m.take (n - p % n)) := rfl
    have hrest (b : Bytes) : memcpyTo b 0 (m.drop (n - p % n)) ((m.length - (n - p % n) : ℕ) : ℤ) =
        copy b 0 (m.drop (n - p % n)) := memcpyTo_eq b 0 List.length_drop
    rw [Nat.cast_zero] at hw
    rw [ROUNDSZ_natCast (by omega), INT_natCast (by omega), hfirst, hpiece, hrest, hw]
  · have hfirst : first = buf := if_neg hs
    have hw := wrap_eq (n := n) (p := p) (k := (m.length + 3) / 4 * 4) (by omega)
    rw [show p + (m.length + 3) / 4 * 4 = H + (total ms + msgSize m) by omega] at hw
    simp only [hs, if_false]
    rw [ROUNDSZ_natCast h31, INT_natCast (by omega), hfirst, memcpyTo_eq _ _ rfl, hw]

/-- **Storing.** A message that fits is put at the end of the ring. -/
theorem RingAt.msgToMbf (r : RingAt s ms n H) (h0 : 0 < m.length) (h31 : m.length < 2 ^ 31)
    (hfree : mbfFree s m.length = true) : RingAt (msgToMbf s m m.length) (ms ++ [m]) n H := by
  have hsize := r.size_le h31 hfree
  have hm := length_lt_msgSize m
  have hn : 0 < n := by omega
  have h4 : 4 + m.length ≤ msgSize m := by unfold msgSize; omega
  have hT : 4 ∣ H + total ms := Nat.dvd_add r.pos_dvd (four_dvd_total ms)
  have hfit := header_fits hn r.dvd hT
  have hhead : (H + total ms) % n + (leBytes 4 m.length).length ≤ n := by
    rw [length_leBytes]; exact hfit
  rw [r.msgToMbf_eq h31 hsize]
  obtain ⟨hbody, hother⟩ := body_stored (n := n) (m := m) (p := H + total ms + 4)
    (copy s.buffer ((H + total ms) % n) (leBytes 4 m.length)) hn (by omega)
  refine ⟨r.bufsz, r.dvd, r.lt, r.pos_dvd, r.head, ?_, ?_, ?_, ?_⟩
  · rw [total_concat]
  · rw [total_concat]; exact hsize
  · rw [total_concat]
  · refine holds_concat.mpr ⟨?_, ?_, hbody, h0, h31⟩
    · have := Holds.copy hhead r.holds le_rfl (by rw [length_leBytes]; omega)
      exact this.congr fun q k hq hk => hother q k (by omega) (by omega)
    · rw [hother _ _ le_rfl (by omega)]
      have := readAt_copy_self s.buffer hhead
      rwa [length_leBytes] at this

/-- **Getting.** The first message of the ring is taken out. -/
theorem RingAt.mbfToMsg (r : RingAt s (m :: ms) n H) :
    ∃ s', mbfToMsg s = (m, s') ∧ RingAt s' ms n (H + msgSize m) ∧
      s' = { s with frbufsz := s'.frbufsz, head := s'.head } := by
  obtain ⟨⟨hhd, hbody, h0, h31⟩, hms⟩ := r.holds
  have hle := r.le
  rw [total_cons] at hle
  have hlt := r.lt
  have hm := length_lt_msgSize m
  have hround : msgSize m = 4 + (m.length + 3) / 4 * 4 := rfl
  have hn : 0 < n := by omega
  have hfit := header_fits hn r.dvd r.pos_dvd
  have hnd := r.dvd
  have hpd : 4 ∣ (H + 4) % n := (Nat.dvd_mod_iff r.dvd).mpr (Nat.dvd_add r.pos_dvd (dvd_refl 4))
  have hpn := Nat.mod_lt (H + 4) hn
  -- the header
  have hsz : INT (ofLeBytes (memcpyFrom s.buffer s.head (HEADERSZ : ℕ))) = m.length := by
    rw [r.head, memcpyFrom_eq s.buffer hfit, hhd, ofLeBytes_leBytes 4 (by omega), INT_natCast h31]
  have hwrap : (if s.head + (HEADERSZ : ℤ) ≥ n then 0 else s.head + (HEADERSZ : ℤ)) =
      (((H + 4) % n : ℕ) : ℤ) := by
    rw [r.head]
    exact wrap_eq hfit
  have hrem : (n : ℤ) - (((H + 4) % n : ℕ) : ℤ) = ((n - (H + 4) % n : ℕ) : ℤ) := by omega
  have hfr : s.frbufsz + INT ((HEADERSZ + ROUNDSZ (m.length : ℤ)) % 2 ^ 32) =
      ((n - total ms : ℕ) : ℤ) := by
    have hms : HEADERSZ + (m.length + 3) / 4 * 4 = msgSize m := rfl
    rw [r.frbufsz, ROUNDSZ_natCast h31, hms, Nat.mod_eq_of_lt (by omega), INT_natCast (by omega),
      total_cons]
    omega
  -- the body and the new head
  have hres : SmpTKernel.mbfToMsg s = (m, { s with
      frbufsz := ((n - total ms : ℕ) : ℤ), head := ((H + msgSize m) % n : ℕ) }) := by
    unfold SmpTKernel.mbfToMsg
    simp only [hsz, r.bufsz, hwrap, hfr, hrem, Nat.cast_lt]
    by_cases hs : n - (H + 4) % n < m.length
    · have hq : (H + 4 + (n - (H + 4) % n)) % n = 0 := by
        rw [← Nat.mod_add_mod, Nat.add_sub_cancel' hpn.le, Nat.mod_self]
      have hsub : (m.length : ℤ) - ((n - (H + 4) % n : ℕ) : ℤ) =
          ((m.length - (n - (H + 4) % n) : ℕ) : ℤ) := by omega
      have hw := wrap_eq (n := n) (p := H + 4 + (n - (H + 4) % n))
        (k := (m.length - (n - (H + 4) % n) + 3) / 4 * 4) (by omega)
      rw [hq, show H + 4 + (n - (H + 4) % n) + (m.length - (n - (H + 4) % n) + 3) / 4 * 4 =
        H + msgSize m by omega, Nat.cast_zero] at hw
      have hsecond := memcpyFrom_eq s.buffer (n := n) (p := H + 4 + (n - (H + 4) % n))
        (k := m.length - (n - (H + 4) % n)) (by omega)
      rw [hq, Nat.cast_zero] at hsecond
      have hboth := readAt_add s.buffer n (H + 4) (n - (H + 4) % n) (m.length - (n - (H + 4) % n))
      rw [Nat.add_sub_cancel' hs.le, hbody] at hboth
      simp only [hs, if_true, hsub]
      rw [memcpyFrom_eq s.buffer (by omega), hsecond, ← hboth, ROUNDSZ_natCast (by omega),
        INT_natCast (by omega), hw]
    · have hw := wrap_eq (n := n) (p := H + 4) (k := (m.length + 3) / 4 * 4) (by omega)
      rw [show H + 4 + (m.length + 3) / 4 * 4 = H + msgSize m by omega] at hw
      simp only [hs, if_false]
      rw [memcpyFrom_eq s.buffer (by omega), hbody, ROUNDSZ_natCast h31, INT_natCast (by omega), hw]
      rfl
  refine ⟨_, hres, ⟨r.bufsz, r.dvd, r.lt, ?_, rfl, ?_, by omega, rfl, hms⟩, rfl⟩
  · exact Nat.dvd_add r.pos_dvd (four_dvd_msgSize m)
  · rw [Nat.add_assoc, ← total_cons]
    exact r.tail

end SmpTKernel
