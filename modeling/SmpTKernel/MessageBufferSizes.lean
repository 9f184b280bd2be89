import SmpTKernel.MessageBufferInv

/-!
# Message buffers of any size

`_tk_cre_mbf` rounds the size of the buffer up in 32 bits and asks for memory if the result is
positive. Up to `INT_MAX - 3` the rounding is exact; the three larger sizes become negative: no
memory is asked for, and the free size, compared as an unsigned number, is 2 GB.
-/

namespace SmpTKernel

open ByteRing Words

/-- `_tk_cre_mbf`, with the number of bytes allocated. `imalloc n` tells whether `Imalloc` finds `n`
bytes, `mem` is what the memory behind the pointer holds, and `rest` the result of the checks of
domain, name and protection and of the search for a control block. -/
def creMbf (mbfatr : ℕ) (bufsz maxmsz : ℤ) (imalloc : ℕ → Bool) (mem : Bytes) (rest : ER)
    (priority waitmask : Tsk → ℕ) (smbf : Tsk → WinfoSmbf) : Except ER (Mbfcb × ℕ) :=
  if ¬bufsz ≥ 0 then .error E_PAR
  else if ¬maxmsz > 0 then .error E_PAR
  else
    let rounded := INT (ROUNDSZ bufsz)
    let bytes := if rounded > 0 then UINT rounded else 0
    if rounded > 0 ∧ imalloc (UINT rounded) = false then .error E_NOMEM
    else if rest < E_OK then .error rest
    else .ok (tkCreMbf mbfatr bufsz maxmsz mem priority waitmask smbf, bytes)

/-- The new buffer `s` with `bytes` bytes of memory is as large as asked for, and nothing that does
not fit in the memory will be stored. -/
structure CreatesRight (bufsz : ℤ) (s : Mbfcb) (bytes : ℕ) : Prop where
  size : bufsz ≤ s.frbufsz ∧ s.frbufsz = s.bufsz ∧ 0 ≤ s.bufsz
  backed : (bytes : ℤ) = s.bufsz
  /-- `mbf_free` lets only those messages into the ring that fit, with their header and rounded
  up. -/
  fits : ∀ s' h, MbfRun s s' h → ∀ msgsz : ℕ, 0 < msgsz → msgsz < 2 ^ 31 → mbfFree s' msgsz = true →
    HEADERSZ + (msgsz + 3) / 4 * 4 ≤ bytes
  /-- What lies in the ring fits in the memory. -/
  within : ∀ s' h, MbfRun s s' h → total (mbfContents s') ≤ bytes

variable {mbfatr bytes : ℕ} {bufsz maxmsz : ℤ} {imalloc : ℕ → Bool} {mem : Bytes} {rest : ER}
  {priority waitmask : Tsk → ℕ} {smbf : Tsk → WinfoSmbf} {s : Mbfcb}

/-- The largest sizes are rounded to a negative number. -/
theorem ROUNDSZ_of_gt (h : 2 ^ 31 - 4 < bufsz) (hint : bufsz < 2 ^ 31) :
    ROUNDSZ bufsz = 2 ^ 31 := by
  obtain ⟨n, rfl⟩ := Int.eq_ofNat_of_zero_le (by omega : 0 ≤ bufsz)
  unfold ROUNDSZ
  rw [UINT_natCast (by omega), clearLow_eq (Nat.mod_lt _ (by norm_num)), show ROUNDSIZE - 1 =
    3 from rfl]
  omega

theorem creMbf_ok
    (h : creMbf mbfatr bufsz maxmsz imalloc mem rest priority waitmask smbf = .ok (s, bytes)) :
    0 ≤ bufsz ∧ s = tkCreMbf mbfatr bufsz maxmsz mem priority waitmask smbf ∧
      bytes = if INT (ROUNDSZ bufsz) > 0 then UINT (INT (ROUNDSZ bufsz)) else 0 := by
  unfold creMbf at h
  by_cases h0 : 0 ≤ bufsz
  · rw [if_neg (not_not.mpr h0)] at h
    split at h
    · cases h
    dsimp only at h
    split at h
    · cases h
    split at h
    · cases h
    obtain ⟨rfl, rfl⟩ := Prod.mk.inj (Except.ok.inj h)
    exact ⟨h0, rfl, rfl⟩
  · rw [if_pos h0] at h
    cases h

/-- **Sizes near the limit.** A buffer that is created for a size an `INT` can hold is right if and
only if the size can be rounded. -/
theorem creMbf_iff (hint : bufsz < 2 ^ 31)
    (h : creMbf mbfatr bufsz maxmsz imalloc mem rest priority waitmask smbf = .ok (s, bytes)) :
    CreatesRight bufsz s bytes ↔ bufsz ≤ 2 ^ 31 - 4 := by
  obtain ⟨h0, rfl, hbytes⟩ := creMbf_ok h
  constructor
  · intro right
    by_contra hgt
    have hneg : (tkCreMbf mbfatr bufsz maxmsz mem priority waitmask smbf).bufsz = -2 ^ 31 := by
      show INT (ROUNDSZ bufsz) = _
      rw [ROUNDSZ_of_gt (not_le.mp hgt) hint]
      decide
    have := right.size.2.2
    omega
  · intro hle
    obtain ⟨n, rfl⟩ := Int.eq_ofNat_of_zero_le h0
    have hround : INT (ROUNDSZ n) = ((n + 3) / 4 * 4 : ℕ) := by
      rw [ROUNDSZ_natCast (by omega), INT_natCast (by omega)]
    have hbytes' : bytes = (n + 3) / 4 * 4 := by
      rw [hbytes, hround, UINT_natCast (by omega)]
      split_ifs <;> omega
    have inv {s' : Mbfcb} {h' : List MbfEvent}
        (run : MbfRun (tkCreMbf mbfatr n maxmsz mem priority waitmask smbf) s' h') :
        MbfInv bytes s' h' := by
      have := run.inv h0 hle
      rwa [Int.toNat_natCast, ← hbytes'] at this
    refine ⟨⟨?_, rfl, ?_⟩, ?_, fun s' h' run msgsz hpos hmax hfree => ?_, fun s' h' run => ?_⟩
    · show (n : ℤ) ≤ INT (ROUNDSZ n)
      rw [hround]
      omega
    · show 0 ≤ INT (ROUNDSZ n)
      rw [hround]
      exact Int.natCast_nonneg _
    · show (bytes : ℤ) = INT (ROUNDSZ n)
      rw [hround, hbytes']
    · -- any message of this size
      obtain ⟨ms, H, r, -⟩ := (inv run).ring
      have hlen : (List.replicate msgsz (0 : UB)).length = msgsz := List.length_replicate
      have hsize := r.size_le (m := List.replicate msgsz 0) (by omega) (by rw [hlen]; exact hfree)
      unfold msgSize at hsize
      rw [hlen] at hsize
      have hheader : HEADERSZ = 4 := rfl
      omega
    · obtain ⟨ms, H, r, -⟩ := (inv run).ring
      rw [r.contents]
      exact r.le

theorem creMbf_iff_small : CreatesRight 12 smallMbf 12 ↔ (12 : ℤ) ≤ 2 ^ 31 - 4 :=
  have h : creMbf 0 12 8 (fun _ => true) (fun _ => 0) E_OK (fun _ => 1) (fun _ => 0) (fun _ =>
    ⟨[], 0, 0⟩) =
      .ok (smallMbf, 12) := rfl
  creMbf_iff (by decide) h

/-- A buffer of the largest size. -/
def hugeMbf : Mbfcb :=
  tkCreMbf 0 (2 ^ 31 - 1) 8 (fun _ => 0) (fun _ => 1) (fun _ => 0) (fun _ => ⟨[], 0, 0⟩)

/-- It is created without memory, and a message of eight bytes is stored in it. -/
theorem creMbf_wrapped :
    creMbf 0 (2 ^ 31 - 1) 8 (fun _ => false) (fun _ => 0) E_OK (fun _ => 1) (fun _ => 0)
        (fun _ => ⟨[], 0, 0⟩) =
        .ok (hugeMbf, 0) ∧
      (tkSndMbf hugeMbf taskCall 1 0 [1, 2, 3, 4, 5, 6, 7, 8] 8 TMO_POL).2 =
        [.accepted 0 [1, 2, 3, 4, 5, 6, 7, 8], .sendEnds 0 E_OK] ∧
      ¬CreatesRight (2 ^ 31 - 1) hugeMbf 0 := by
  refine ⟨rfl, by decide +kernel, fun right => ?_⟩
  have hfits := right.fits hugeMbf [] .create 8 (by decide) (by decide) (by decide +kernel)
  exact absurd hfits (by decide)

end SmpTKernel
