import Mathlib.Data.List.Perm.Basic

/-!
# Ownership

The owners hold things of those that are `live`, each thing at most one of them, and at most once. A
`Holdings` is kept when a thing is acquired, when everything of an owner goes to another, and when a
thing is given up.
-/

namespace Ownership

variable {O A : Type*} {own own' : O → List A} {live live' : A → Prop} {o p : O} {a : A}

structure Holdings (own : O → List A) (live : A → Prop) : Prop where
  live : ∀ o, ∀ a ∈ own o, live a
  nodup : ∀ o, (own o).Nodup
  unique : ∀ o p a, a ∈ own o → a ∈ own p → o = p

theorem holdings_empty (h : ∀ o, own o = []) : Holdings own live := by
  refine ⟨fun o a ha => ?_, fun o => ?_, fun o p a ha => ?_⟩
  · rw [h o] at ha
    exact absurd ha List.not_mem_nil
  · rw [h o]
    exact List.nodup_nil
  · rw [h o] at ha
    exact absurd ha List.not_mem_nil

theorem Holdings.mono (h : Holdings own live) (hown : ∀ o, (own' o).Perm (own o))
    (hl : ∀ o, ∀ a ∈ own o, live a → live' a) : Holdings own' live' := by
  refine ⟨fun o a ha => ?_, fun o => (hown o).nodup_iff.mpr (h.nodup o), fun o p a ho hp => ?_⟩
  · have ha := (hown o).mem_iff.mp ha
    exact hl o a ha (h.live o a ha)
  · exact h.unique o p a ((hown o).mem_iff.mp ho) ((hown p).mem_iff.mp hp)

theorem Holdings.acquire (h : Holdings own live) (hnew : ¬live a) (ha : live' a)
    (hl : ∀ b, live b → live' b) (ho : (own' o).Perm (a :: own o))
    (hne : ∀ p, p ≠ o → own' p = own p) :
    Holdings own' live' := by
  have hmem (p : O) (b : A) (hb : b ∈ own' p) : b ∈ own p ∨ p = o ∧ b = a := by
    by_cases hp : p = o
    · subst hp
      rcases List.mem_cons.mp (ho.mem_iff.mp hb) with rfl | hb
      · exact Or.inr ⟨rfl, rfl⟩
      · exact Or.inl hb
    · exact Or.inl (hne p hp ▸ hb)
  have hout (p : O) : a ∉ own p := fun hc => hnew (h.live p a hc)
  refine ⟨fun p b hb => ?_, fun p => ?_, fun p q b hp hq => ?_⟩
  · rcases hmem p b hb with hb | ⟨-, rfl⟩
    · exact hl b (h.live p b hb)
    · exact ha
  · by_cases hp : p = o
    · subst hp
      exact ho.nodup_iff.mpr (List.nodup_cons.mpr ⟨hout p, h.nodup p⟩)
    · rw [hne p hp]
      exact h.nodup p
  · rcases hmem p b hp with hb | ⟨rfl, rfl⟩ <;> rcases hmem q b hq with hb' | ⟨rfl, e⟩
    · exact h.unique p q b hb hb'
    · exact absurd (e ▸ hb) (hout p)
    · exact absurd hb' (hout q)
    · rfl

/-- Everything of `o` goes to `p`, which has nothing. -/
theorem Holdings.transfer (h : Holdings own live) (hne : o ≠ p) (hp₀ : own p = [])
    (ho : own' o = []) (hp : own' p = own o) (hrest : ∀ q, q ≠ o → q ≠ p → own' q = own q) :
    Holdings own' live := by
  have hmem (q : O) (b : A) (hb : b ∈ own' q) : q = p ∧ b ∈ own o ∨ q ≠ p ∧ q ≠ o ∧ b ∈ own q := by
    by_cases hqp : q = p
    · subst hqp
      exact Or.inl ⟨rfl, hp ▸ hb⟩
    · by_cases hqo : q = o
      · rw [hqo, ho] at hb
        exact absurd hb List.not_mem_nil
      · exact Or.inr ⟨hqp, hqo, hrest q hqo hqp ▸ hb⟩
  refine ⟨fun q b hb => ?_, fun q => ?_, fun q r b hq hr => ?_⟩
  · rcases hmem q b hb with ⟨-, hb⟩ | ⟨-, -, hb⟩
    · exact h.live o b hb
    · exact h.live q b hb
  · by_cases hqp : q = p
    · rw [hqp, hp]
      exact h.nodup o
    · by_cases hqo : q = o
      · rw [hqo, ho]
        exact List.nodup_nil
      · rw [hrest q hqo hqp]
        exact h.nodup q
  · rcases hmem q b hq with ⟨rfl, hb⟩ | ⟨hqp, hqo, hb⟩ <;> rcases hmem r b hr with
      ⟨rfl, hb'⟩ | ⟨hrp, hro, hb'⟩
    · rfl
    · exact absurd (h.unique r o b hb' hb) hro
    · exact absurd (h.unique q o b hb hb') hqo
    · exact h.unique q r b hb hb'

theorem Holdings.giveUp (h : Holdings own live) (ho : own o = a :: own' o)
    (hne : ∀ p, p ≠ o → own' p = own p) (hl : ∀ b, b ≠ a → live b → live' b) :
    Holdings own' live' := by
  have hnd := h.nodup o
  rw [ho, List.nodup_cons] at hnd
  have hsub (p : O) (b : A) (hb : b ∈ own' p) : b ∈ own p ∧ b ≠ a := by
    by_cases hp : p = o
    · subst hp
      exact ⟨ho ▸ List.mem_cons_of_mem a hb, fun e => hnd.1 (e ▸ hb)⟩
    · rw [hne p hp] at hb
      exact ⟨hb, fun e => hp (h.unique p o a (e ▸ hb) (ho ▸ List.mem_cons_self))⟩
  refine ⟨fun p b hb => ?_, fun p => ?_, fun p q b hp hq =>
    h.unique p q b (hsub p b hp).1 (hsub q b hq).1⟩
  · obtain ⟨hb, hba⟩ := hsub p b hb
    exact hl b hba (h.live p b hb)
  · by_cases hp : p = o
    · subst hp
      exact hnd.2
    · rw [hne p hp]
      exact h.nodup p

end Ownership
