import Mathlib.Data.List.Chain
import Mathlib.Data.List.Nodup
import Mathlib.Logic.Function.Basic
import Mathlib.Tactic.Common

/-!
# Rings of intrusive links

A ring is a circular doubly linked list threaded through cells that lie inside other objects.
`Chain m l` says that consecutive nodes of `l` are linked both ways; `IsRing m h l` says that the
head `h` followed by the members `l` is closed into a ring. `insertBefore` and `unlink` are the two
edits: they change four and two link fields, so a ring that shares no node with the edited one is
kept (`IsRing.congr`).

`unlink` leaves the links of the removed node behind. They are stale: nothing here says where they
point, only `unlink_self` says that the node itself is not written.
-/

namespace LinkRing

variable {N : Type*}

/-- The two links of a node. -/
@[ext] structure Cell (N : Type*) where
  next : N
  prev : N
  deriving DecidableEq, Repr

/-- The links of all nodes. -/
abbrev Links (N : Type*) := N → Cell N

/-- `x` is directly followed by `y`, and `y` knows it. -/
def Linked (m : Links N) (x y : N) : Prop := (m x).next = y ∧ (m y).prev = x

/-- Consecutive nodes are linked both ways. -/
abbrev Chain (m : Links N) (l : List N) : Prop := List.IsChain (Linked m) l

/-- The ring of the head `h` and the members `l`, in `next` order. -/
structure IsRing (m : Links N) (h : N) (l : List N) : Prop where
  chain : Chain m (h :: l ++ [h])
  nodup : (h :: l).Nodup

/-! ## Chains -/

/-- A chain reads `next` of every node but the last and `prev` of every node but the first. -/
theorem Chain.congr {m m' : Links N} : ∀ {l : List N}, Chain m l →
    (∀ x ∈ l.dropLast, (m' x).next = (m x).next) →
    (∀ y ∈ l.tail, (m' y).prev = (m y).prev) → Chain m' l
  | [], _, _, _ => .nil
  | [_], _, _, _ => .singleton _
  | x :: y :: l, h, hn, hp => by
    have h := List.isChain_cons_cons.mp h
    refine List.isChain_cons_cons.mpr ⟨⟨(hn x (by simp)).trans h.1.1, (hp y (by simp)).trans h.1.2⟩,
      ?_⟩
    exact Chain.congr h.2 (fun z hz => hn z (by simp [List.dropLast, hz]))
      (fun z hz => hp z (by simpa using Or.inr hz))

/-- The two halves of a chain and the link between them. -/
theorem chain_append_iff {m : Links N} {l₁ l₂ : List N} {x y : N} :
    Chain m (l₁ ++ [x] ++ (y :: l₂)) ↔ Chain m (l₁ ++ [x]) ∧ Linked m x y ∧ Chain m (y :: l₂) := by
  refine List.isChain_append.trans ?_
  simp only [List.getLast?_concat, List.head?_cons, Option.mem_def, Option.some.injEq,
    forall_eq']
  tauto

/-! ## Edits -/

variable [DecidableEq N]

/-- `x->next = y`. -/
def setNext (m : Links N) (x y : N) : Links N := Function.update m x { m x with next := y }

/-- `x->prev = y`. -/
def setPrev (m : Links N) (x y : N) : Links N := Function.update m x { m x with prev := y }

theorem setNext_apply (m : Links N) (x y z : N) :
    setNext m x y z = if z = x then { m x with next := y } else m z := by
  unfold setNext; rw [Function.update_apply]

theorem setPrev_apply (m : Links N) (x y z : N) :
    setPrev m x y z = if z = x then { m x with prev := y } else m z := by
  unfold setPrev; rw [Function.update_apply]

@[simp] theorem setNext_next (m : Links N) (x y z : N) :
    (setNext m x y z).next = if z = x then y else (m z).next := by
  rw [setNext_apply]; split_ifs <;> rfl

@[simp] theorem setNext_prev (m : Links N) (x y z : N) : (setNext m x y z).prev = (m z).prev := by
  rw [setNext_apply]; split_ifs with h
  · rw [h]
  · rfl

@[simp] theorem setPrev_prev (m : Links N) (x y z : N) :
    (setPrev m x y z).prev = if z = x then y else (m z).prev := by
  rw [setPrev_apply]; split_ifs <;> rfl

@[simp] theorem setPrev_next (m : Links N) (x y z : N) : (setPrev m x y z).next = (m z).next := by
  rw [setPrev_apply]; split_ifs with h
  · rw [h]
  · rfl

/-- The ring of `x` alone. -/
def single (x : N) (m : Links N) : Links N := setPrev (setNext m x x) x x

/-- Link `e` in directly before `q`. -/
def insertBefore (e q : N) (m : Links N) : Links N :=
  let m := setPrev m e (m q).prev
  let m := setNext m e q
  let m := setNext m (m q).prev e
  setPrev m q e

/-- Take `e` out of its ring; a node that points at itself is left alone. -/
def unlink (e : N) (m : Links N) : Links N :=
  if (m e).next = e then m
  else
    let m := setNext m (m e).prev (m e).next
    setPrev m (m e).next (m e).prev

@[simp] theorem single_apply_self (x : N) (m : Links N) : single x m x = ⟨x, x⟩ := by
  simp [single, setNext_apply, setPrev_apply]

theorem single_apply_of_ne {x z : N} (h : z ≠ x) (m : Links N) : single x m z = m z := by
  simp [single, setNext_apply, setPrev_apply, h]

theorem insertBefore_next {e q : N} (he : e ≠ q) (m : Links N) (z : N) :
    (insertBefore e q m z).next =
      if z = (m q).prev then e else if z = e then q else (m z).next := by
  simp [insertBefore, he.symm]

theorem insertBefore_prev (e q : N) (m : Links N) (z : N) :
    (insertBefore e q m z).prev = if z = q then e else if z = e then
    (m q).prev else (m z).prev := by
  simp [insertBefore]

theorem insertBefore_apply {e q z : N} {m : Links N} (heq : e ≠ q) (he : z ≠ e) (hq : z ≠ q)
    (hp : z ≠ (m q).prev) : insertBefore e q m z = m z := by
  ext
  · rw [insertBefore_next heq, if_neg hp, if_neg he]
  · rw [insertBefore_prev, if_neg hq, if_neg he]

theorem unlink_of_self {e : N} {m : Links N} (h : (m e).next = e) : unlink e m = m := if_pos h

theorem unlink_next {e : N} {m : Links N} (h : (m e).next ≠ e) (z : N) :
    (unlink e m z).next = if z = (m e).prev then (m e).next else (m z).next := by
  simp [unlink, h]

theorem unlink_prev {e : N} {m : Links N} (h : (m e).next ≠ e) (hp : (m e).prev ≠ e) (z : N) :
    (unlink e m z).prev = if z = (m e).next then (m e).prev else (m z).prev := by
  simp [unlink, h, hp.symm]

theorem unlink_apply {e z : N} {m : Links N} (hn : z ≠ (m e).next) (hp : z ≠ (m e).prev)
    (hpe : (m e).prev ≠ e) : unlink e m z = m z := by
  by_cases h : (m e).next = e
  · rw [unlink_of_self h]
  · ext
    · rw [unlink_next h, if_neg hp]
    · rw [unlink_prev h hpe, if_neg hn]

/-! ## Reading a ring -/

omit [DecidableEq N]

theorem cons_eq_dropLast_append (h : N) (a : List N) :
    h :: a = (h :: a).dropLast ++ [a.getLastD h] := by
  rw [← List.getLast_eq_getLastD]
  exact (List.dropLast_append_getLast (List.cons_ne_nil h a)).symm

theorem append_singleton_eq_cons (h : N) (b : List N) :
    b ++ [h] = b.headD h :: (b ++ [h]).tail := by
  cases b <;> rfl

/-- Consecutive parts of a ring are linked where they meet. -/
theorem IsRing.linked {m : Links N} {h : N} {a b : List N} (r : IsRing m h (a ++ b)) :
    Linked m (a.getLastD h) (b.headD h) := by
  have c := r.chain
  rw [List.cons_append, List.append_assoc, ← List.cons_append, cons_eq_dropLast_append h a,
    append_singleton_eq_cons h b] at c
  exact (chain_append_iff.mp c).2.1

theorem IsRing.next_head {m : Links N} {h : N} {l : List N} (r : IsRing m h l) :
    (m h).next = l.headD h :=
  (IsRing.linked (a := []) r).1

theorem IsRing.prev_head {m : Links N} {h : N} {l : List N} (r : IsRing m h l) :
    (m h).prev = l.getLastD h :=
  (IsRing.linked (a := l) (b := []) (by simpa using r)).2

theorem IsRing.next_mid {m : Links N} {h e : N} {a b : List N} (r : IsRing m h (a ++ e :: b)) :
    (m e).next = b.headD h := by
  have r' : IsRing m h ((a ++ [e]) ++ b) := by simpa using r
  have := r'.linked.1
  rwa [List.getLastD_concat] at this

theorem IsRing.prev_mid {m : Links N} {h e : N} {a b : List N} (r : IsRing m h (a ++ e :: b)) :
    (m e).prev = a.getLastD h :=
  r.linked.2

theorem IsRing.next_eq_self_iff {m : Links N} {h : N} {l : List N} (r : IsRing m h l) :
    (m h).next = h ↔ l = [] := by
  rw [r.next_head]
  cases l with
  | nil => simp
  | cons x l =>
    have hx : h ≠ x := fun e => (List.nodup_cons.mp r.nodup).1 (by simp [e])
    simpa using hx.symm

/-- Two chains from one node to `h` that do not pass `h` before are the same. -/
theorem Chain.unique {m : Links N} {h x : N} {b b' : List N} (c : Chain m (x :: b ++ [h]))
    (c' : Chain m (x :: b' ++ [h])) (hb : h ∉ b) (hb' : h ∉ b') : b = b' := by
  induction b generalizing x b' with
  | nil =>
    cases b' with
    | nil => rfl
    | cons y b' =>
      have hx := (List.isChain_cons_cons.mp c).1.1
      have hx' := (List.isChain_cons_cons.mp c').1.1
      exact absurd (List.mem_cons.mpr (.inl (hx.symm.trans hx'))) hb'
  | cons y b ih =>
    obtain ⟨hx, c⟩ := List.isChain_cons_cons.mp c
    cases b' with
    | nil =>
      have hx' := (List.isChain_cons_cons.mp c').1.1
      exact absurd (List.mem_cons.mpr (.inl (hx'.symm.trans hx.1))) hb
    | cons y' b' =>
      obtain ⟨hx', c'⟩ := List.isChain_cons_cons.mp c'
      obtain rfl : y = y' := hx.1.symm.trans hx'.1
      rw [ih c c' (fun h => hb (List.mem_cons_of_mem y h)) fun h => hb' (List.mem_cons_of_mem y h)]

theorem IsRing.unique {m : Links N} {h : N} {l l' : List N} (r : IsRing m h l)
    (r' : IsRing m h l') : l = l' :=
  Chain.unique r.chain r'.chain (List.nodup_cons.mp r.nodup).1 (List.nodup_cons.mp r'.nodup).1

/-- An empty ring is a head that points at itself. -/
theorem isRing_nil {m : Links N} {h : N} : IsRing m h [] ↔ m h = ⟨h, h⟩ := by
  constructor
  · intro r
    exact Cell.ext r.next_head r.prev_head
  · intro e
    exact ⟨List.isChain_pair.mpr ⟨by rw [e], by rw [e]⟩, List.nodup_singleton h⟩

theorem getLastD_mem_cons (h : N) (a : List N) : a.getLastD h ∈ h :: a := by
  rw [← List.getLast_eq_getLastD (List.cons_ne_nil h a)]
  exact List.getLast_mem _

theorem headD_mem_concat (h : N) (b : List N) : b.headD h ∈ b ++ [h] := by
  rw [append_singleton_eq_cons h b]
  exact List.mem_cons_self

/-! ## Editing a ring -/

/-- A ring is read through its own nodes only. -/
theorem IsRing.congr {m m' : Links N} {h : N} {l : List N} (r : IsRing m h l)
    (e : ∀ x ∈ h :: l, m' x = m x) : IsRing m' h l := by
  refine ⟨r.chain.congr (fun x hx => ?_) (fun y hy => ?_), r.nodup⟩
  · rw [List.dropLast_concat] at hx
    rw [e x hx]
  · rw [e y (by simpa [or_comm] using hy)]

/-- A ring opened between two of its parts. -/
theorem chain_split (m : Links N) (h : N) (a b : List N) :
    Chain m (h :: (a ++ b) ++ [h]) ↔
      Chain m (h :: a) ∧ Linked m (a.getLastD h) (b.headD h) ∧ Chain m (b ++ [h]) := by
  rw [List.cons_append, List.append_assoc, ← List.cons_append, cons_eq_dropLast_append h a,
    append_singleton_eq_cons h b, chain_append_iff, ← cons_eq_dropLast_append]

theorem chain_cons_concat (m : Links N) (h e : N) (b : List N) :
    Chain m (e :: b ++ [h]) ↔ Linked m e (b.headD h) ∧ Chain m (b ++ [h]) := by
  rw [List.cons_append, append_singleton_eq_cons h b]
  exact List.isChain_cons_cons

/-- Writing `next` of the last node of the first part and `prev` of the first node of the second
leaves both parts linked inside. -/
theorem Chain.parts {m : Links N} {h : N} {a b : List N} (m' : Links N) (nd : (h :: (a ++ b)).Nodup)
    (ca : Chain m (h :: a)) (cb : Chain m (b ++ [h]))
    (hn : ∀ x ∈ h :: (a ++ b), x ≠ a.getLastD h → (m' x).next = (m x).next)
    (hp : ∀ y ∈ h :: (a ++ b), y ≠ b.headD h → (m' y).prev = (m y).prev) :
    Chain m' (h :: a) ∧ Chain m' (b ++ [h]) := by
  have nd' : (h :: a ++ b).Nodup := nd
  have ndr : (a ++ (b ++ [h])).Nodup := by
    rw [← List.append_assoc]
    exact (List.perm_append_singleton h (a ++ b)).nodup_iff.mpr nd
  obtain ⟨nda, -, dab⟩ := List.nodup_append.mp nd'
  obtain ⟨-, ndb, dba⟩ := List.nodup_append.mp ndr
  rw [cons_eq_dropLast_append h a] at nda
  rw [append_singleton_eq_cons h b] at ndb
  refine ⟨ca.congr (fun x hx => ?_) (fun y hy => ?_), cb.congr (fun x hx => ?_) (fun y hy => ?_)⟩
  · refine hn x (List.mem_append_left b (List.dropLast_subset _ hx)) ?_
    exact (List.nodup_append.mp nda).2.2 x hx _ (List.mem_singleton_self _)
  · rw [List.tail_cons] at hy
    refine hp y (List.mem_cons_of_mem h (List.mem_append_left b hy)) ?_
    exact dba y hy _ (headD_mem_concat h b)
  · rw [List.dropLast_concat] at hx
    refine hn x (List.mem_cons_of_mem h (List.mem_append_right a hx)) ?_
    exact (dab _ (getLastD_mem_cons h a) x hx).symm
  · refine hp y ?_ fun c => (List.nodup_cons.mp ndb).1 (c ▸ hy)
    have : y ∈ b ++ [h] := List.mem_of_mem_tail hy
    simp only [List.mem_append, List.mem_cons, List.not_mem_nil, or_false] at this ⊢
    tauto

variable [DecidableEq N]

theorem isRing_single (h : N) (m : Links N) : IsRing (single h m) h [] :=
  isRing_nil.mpr (single_apply_self h m)

/-- **Insertion.** The new node comes to lie before the node it was linked in at. -/
theorem IsRing.insertBefore {m : Links N} {h e : N} {a b : List N} (r : IsRing m h (a ++ b))
    (he : e ∉ h :: (a ++ b)) : IsRing (insertBefore e (b.headD h) m) h (a ++ e :: b) := by
  have hp : (m (b.headD h)).prev = a.getLastD h := r.linked.2
  obtain ⟨ca, -, cb⟩ := (chain_split m h a b).mp r.chain
  have nd : (e :: h :: (a ++ b)).Nodup := List.nodup_cons.mpr ⟨he, r.nodup⟩
  have heq : e ≠ b.headD h := fun c => he <| by
    have := headD_mem_concat h b
    rw [c]; simp only [List.mem_append, List.mem_cons, List.not_mem_nil, or_false] at this ⊢; tauto
  have hep : e ≠ a.getLastD h := fun c => he (List.mem_append_left b (c ▸ getLastD_mem_cons h a))
  obtain ⟨ca', cb'⟩ := Chain.parts (LinkRing.insertBefore e (b.headD h) m) r.nodup ca cb
    (fun x hx hxp => by
      rw [insertBefore_next heq, hp, if_neg hxp, if_neg fun c => he (by rwa [← c])])
    (fun y hy hyq => by
      rw [insertBefore_prev, if_neg hyq, if_neg fun c => he (by rwa [← c])])
  refine ⟨(chain_split _ h a (e :: b)).mpr ⟨ca', ⟨?_, ?_⟩, ?_⟩, ?_⟩
  · rw [insertBefore_next heq, hp, if_pos rfl]; rfl
  · rw [List.headD_cons, insertBefore_prev, if_neg heq, if_pos rfl, hp]
  · refine (chain_cons_concat _ h e b).mpr ⟨⟨?_, ?_⟩, cb'⟩
    · rw [insertBefore_next heq, hp, if_neg hep, if_pos rfl]
    · rw [insertBefore_prev, if_pos rfl]
  · exact (@List.perm_middle _ e (h :: a) b).nodup_iff.mpr nd

/-- **Removal.** The members around the removed node close up. -/
theorem IsRing.unlink {m : Links N} {h e : N} {a b : List N} (r : IsRing m h (a ++ e :: b)) :
    IsRing (unlink e m) h (a ++ b) := by
  have hn := r.next_mid
  have hp := r.prev_mid
  obtain ⟨he, nd⟩ := List.nodup_cons.mp
    ((@List.perm_middle _ e (h :: a) b).nodup_iff.mp r.nodup)
  obtain ⟨ca, -, cb⟩ := (chain_split m h a (e :: b)).mp r.chain
  have cb := ((chain_cons_concat m h e b).mp cb).2
  have hne : (m e).next ≠ e := fun c => he <| by
    have := headD_mem_concat h b
    rw [← hn, c] at this
    simp only [List.mem_append, List.mem_cons, List.not_mem_nil, or_false] at this ⊢; tauto
  have hpe : (m e).prev ≠ e := fun c => he <|
    List.mem_append_left b (by rw [← c, hp]; exact getLastD_mem_cons h a)
  obtain ⟨ca', cb'⟩ := Chain.parts (LinkRing.unlink e m) nd ca cb
    (fun x _ hxp => by rw [unlink_next hne, hp, if_neg hxp])
    (fun y _ hyq => by rw [unlink_prev hne hpe, hn, if_neg hyq])
  refine ⟨(chain_split _ h a b).mpr ⟨ca', ⟨?_, ?_⟩, cb'⟩, nd⟩
  · rw [unlink_next hne, hp, if_pos rfl, hn]
  · rw [unlink_prev hne hpe, hn, if_pos rfl, hp]

/-! ## Many rings through the same memory -/

/-- Where the heads and the members of the rings lie. -/
structure Layout (N H T : Type*) where
  head : H → N
  elem : T → N
  head_inj : Function.Injective head
  elem_inj : Function.Injective elem
  head_ne_elem : ∀ h t, head h ≠ elem t

variable {H T : Type*} (L : Layout N H T)

/-- The ring of every live head `h` has the members `q h`; a member lies in one ring only. -/
structure Rings (m : Links N) (live : H → Prop) (q : H → List T) : Prop where
  ring : ∀ h, live h → IsRing m (L.head h) ((q h).map L.elem)
  dead : ∀ h, ¬live h → q h = []
  disj : ∀ h h' t, t ∈ q h → t ∈ q h' → h = h'

variable {L} {m : Links N} {live : H → Prop} {q : H → List T}

omit [DecidableEq N] in
theorem Layout.elem_mem (L : Layout N H T) {t : T} {l : List T} {h : H} :
    L.elem t ∈ L.head h :: l.map L.elem ↔ t ∈ l := by
  rw [List.mem_cons, List.mem_map_of_injective L.elem_inj]
  exact or_iff_right (L.head_ne_elem h t).symm

omit [DecidableEq N] in
theorem Layout.head_mem (L : Layout N H T) {l : List T} {h h' : H} :
    L.head h ∈ L.head h' :: l.map L.elem ↔ h = h' := by
  rw [List.mem_cons, L.head_inj.eq_iff]
  refine or_iff_left fun c => ?_
  obtain ⟨t, -, ht⟩ := List.mem_map.mp c
  exact L.head_ne_elem h t ht.symm

omit [DecidableEq N] in
theorem Rings.live_of_mem (r : Rings L m live q) {h : H} {t : T} (ht : t ∈ q h) : live h := by
  by_contra c
  rw [r.dead h c] at ht
  exact List.not_mem_nil ht

omit [DecidableEq N] in
theorem Rings.nodup (r : Rings L m live q) (h : H) : (q h).Nodup := by
  by_cases c : live h
  · exact (List.nodup_cons.mp (r.ring h c).nodup).2.of_map
  · rw [r.dead h c]; exact List.nodup_nil

omit [DecidableEq N] in
theorem Rings.next_head (r : Rings L m live q) {h : H} (c : live h) :
    (m (L.head h)).next = ((q h).map L.elem).headD (L.head h) :=
  (r.ring h c).next_head

omit [DecidableEq N] in
theorem Rings.next_elem (r : Rings L m live q) {h : H} {t : T} {a b : List T}
    (e : q h = a ++ t :: b) : (m (L.elem t)).next = (b.map L.elem).headD (L.head h) := by
  have c : live h := r.live_of_mem (t := t) (by simp [e])
  have := r.ring h c
  rw [e, List.map_append, List.map_cons] at this
  exact this.next_mid

omit [DecidableEq N] in
theorem Rings.unique {q' : H → List T} (r : Rings L m live q) (r' : Rings L m live q') :
    q = q' := by
  funext h
  by_cases c : live h
  · exact (List.map_injective_iff.mpr L.elem_inj) ((r.ring h c).unique (r'.ring h c))
  · rw [r.dead h c, r'.dead h c]

omit [DecidableEq N] in
/-- The rings are read through their own nodes only. -/
theorem Rings.congr {m' : Links N} (r : Rings L m live q)
    (eh : ∀ h, live h → m' (L.head h) = m (L.head h))
    (et : ∀ h t, t ∈ q h → m' (L.elem t) = m (L.elem t)) : Rings L m' live q := by
  refine ⟨fun h c => (r.ring h c).congr fun x hx => ?_, r.dead, r.disj⟩
  rcases List.mem_cons.mp hx with rfl | hx
  · exact eh h c
  · obtain ⟨t, ht, rfl⟩ := List.mem_map.mp hx
    exact et h t ht

variable [DecidableEq H]

/-- The nodes an insertion writes lie in the ring of `h`. -/
theorem IsRing.insertBefore_frame {h e z : N} {a b : List N} (r : IsRing m h (a ++ b))
    (he : e ∉ h :: (a ++ b)) (hz : z ∉ h :: (a ++ b)) (hze : z ≠ e) :
    LinkRing.insertBefore e (b.headD h) m z = m z := by
  have hq : b.headD h ∈ h :: (a ++ b) := by
    have := headD_mem_concat h b
    simp only [List.mem_append, List.mem_cons, List.not_mem_nil, or_false] at this ⊢; tauto
  have hp : a.getLastD h ∈ h :: (a ++ b) := List.mem_append_left b (getLastD_mem_cons h a)
  refine insertBefore_apply (fun c => he (c ▸ hq)) hze (fun c => hz (c ▸ hq)) ?_
  rw [r.linked.2]
  exact fun c => hz (c ▸ hp)

/-- The nodes a removal writes lie in the ring, and the removed one is not among them. -/
theorem IsRing.unlink_frame {h e z : N} {a b : List N} (r : IsRing m h (a ++ e :: b))
    (hz : z ∉ h :: (a ++ b)) : LinkRing.unlink e m z = m z := by
  have he := (List.nodup_cons.mp
    ((@List.perm_middle _ e (h :: a) b).nodup_iff.mp r.nodup)).1
  have hq : b.headD h ∈ h :: (a ++ b) := by
    have := headD_mem_concat h b
    simp only [List.mem_append, List.mem_cons, List.not_mem_nil, or_false] at this ⊢; tauto
  have hp : a.getLastD h ∈ h :: (a ++ b) := List.mem_append_left b (getLastD_mem_cons h a)
  refine unlink_apply ?_ ?_ ?_
  · rw [r.next_mid]; exact fun c => hz (c ▸ hq)
  · rw [r.prev_mid]; exact fun c => hz (c ▸ hp)
  · rw [r.prev_mid]; exact fun c => he (c ▸ hp)

/-- **Insertion.** A task of no ring is linked in before the part `b` of the ring of `h`. -/
theorem Rings.insertBefore (r : Rings L m live q) {h : H} {t : T} {a b : List T} (c : live h)
    (e : q h = a ++ b) (ht : ∀ h', t ∉ q h') :
    Rings L (LinkRing.insertBefore (L.elem t) ((b.map L.elem).headD (L.head h)) m) live
      (Function.update q h (a ++ t :: b)) := by
  have rh := r.ring h c
  rw [e, List.map_append] at rh
  have he : L.elem t ∉ L.head h :: (a.map L.elem ++ b.map L.elem) := by
    rw [← List.map_append, L.elem_mem, ← e]
    exact ht h
  refine ⟨fun h' c' => ?_, fun h' c' => ?_, fun h₁ h₂ x h₁x h₂x => ?_⟩
  · by_cases eh : h' = h
    · subst eh
      rw [Function.update_self, List.map_append, List.map_cons]
      exact rh.insertBefore he
    · rw [Function.update_of_ne eh]
      refine (r.ring h' c').congr fun x hx => rh.insertBefore_frame he ?_ ?_
      · rw [← List.map_append, ← e]
        rcases List.mem_cons.mp hx with rfl | hx
        · rwa [L.head_mem]
        · obtain ⟨y, hy, rfl⟩ := List.mem_map.mp hx
          rw [L.elem_mem]
          exact fun c => eh (r.disj _ _ _ hy c)
      · rintro rfl
        exact ht h' (L.elem_mem.mp hx)
  · have eh : h' ≠ h := by rintro rfl; exact c' c
    rw [Function.update_of_ne eh]
    exact r.dead h' c'
  · have key : ∀ h', x ∈ Function.update q h (a ++ t :: b) h' → x = t ∧ h' = h ∨ x ∈ q h' := by
      intro h' hx
      by_cases eh : h' = h
      · subst eh
        rw [Function.update_self] at hx
        rw [e]
        simp only [List.mem_append, List.mem_cons] at hx ⊢
        tauto
      · rw [Function.update_of_ne eh] at hx
        exact Or.inr hx
    rcases key h₁ h₁x with ⟨e₁, eh₁⟩ | m₁ <;> rcases key h₂ h₂x with ⟨e₂, eh₂⟩ | m₂
    · rw [eh₁, eh₂]
    · exact absurd (e₁ ▸ m₂) (ht _)
    · exact absurd (e₂ ▸ m₁) (ht _)
    · exact r.disj _ _ _ m₁ m₂

/-- **Removal.** A member leaves its ring. -/
theorem Rings.unlink (r : Rings L m live q) {h : H} {t : T} {a b : List T}
    (e : q h = a ++ t :: b) :
    Rings L (LinkRing.unlink (L.elem t) m) live (Function.update q h (a ++ b)) := by
  have c : live h := r.live_of_mem (t := t) (by simp [e])
  have rh := r.ring h c
  rw [e, List.map_append, List.map_cons] at rh
  have sub : ∀ h' x, x ∈ Function.update q h (a ++ b) h' → x ∈ q h' := by
    intro h' x hx
    by_cases eh : h' = h
    · subst eh
      rw [Function.update_self] at hx
      rw [e]
      simp only [List.mem_append, List.mem_cons] at hx ⊢
      tauto
    · rwa [Function.update_of_ne eh] at hx
  refine ⟨fun h' c' => ?_, fun h' c' => ?_, fun h₁ h₂ x h₁x h₂x =>
    r.disj _ _ _ (sub _ _ h₁x) (sub _ _ h₂x)⟩
  · by_cases eh : h' = h
    · subst eh
      rw [Function.update_self, List.map_append]
      exact rh.unlink
    · rw [Function.update_of_ne eh]
      refine (r.ring h' c').congr fun x hx => rh.unlink_frame ?_
      rw [← List.map_append]
      rcases List.mem_cons.mp hx with rfl | hx
      · rwa [L.head_mem]
      · obtain ⟨y, hy, rfl⟩ := List.mem_map.mp hx
        rw [L.elem_mem]
        refine fun c => eh (r.disj _ h y hy ?_)
        rw [e]
        simp only [List.mem_append, List.mem_cons] at c ⊢
        tauto
  · have eh : h' ≠ h := by rintro rfl; exact c' c
    rw [Function.update_of_ne eh]
    exact r.dead h' c'

omit [DecidableEq H] in
/-- The links of the removed node itself are left as they were. -/
theorem Rings.unlink_self (r : Rings L m live q) {h : H} {t : T} {a b : List T}
    (e : q h = a ++ t :: b) : LinkRing.unlink (L.elem t) m (L.elem t) = m (L.elem t) := by
  have c : live h := r.live_of_mem (t := t) (by simp [e])
  have rh := r.ring h c
  rw [e, List.map_append, List.map_cons] at rh
  refine rh.unlink_frame ?_
  exact (List.nodup_cons.mp
    ((@List.perm_middle _ (L.elem t) (L.head h :: a.map L.elem) (b.map L.elem)).nodup_iff.mp
      rh.nodup)).1

omit [DecidableEq N] in
/-- A removed member is in no ring any more. -/
theorem Rings.not_mem_of_unlink (r : Rings L m live q) {h : H} {t : T} {a b : List T}
    (e : q h = a ++ t :: b) (h' : H) : t ∉ Function.update q h (a ++ b) h' := by
  have nd := r.nodup h
  rw [e] at nd
  by_cases eh : h' = h
  · subst eh
    rw [Function.update_self]
    exact (List.nodup_cons.mp (List.perm_middle.nodup_iff.mp nd)).1
  · rw [Function.update_of_ne eh]
    exact fun c => eh (r.disj _ _ _ c (by simp [e]))

end LinkRing
