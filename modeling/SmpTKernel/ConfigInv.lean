import SmpTKernel.Config
import SmpTKernel.Lib.Tokens
import Mathlib.Data.List.TakeWhile
import Mathlib.Data.Nat.Digits.Defs
import Mathlib.Data.Nat.Digits.Lemmas
import Mathlib.Tactic.Common
import Mathlib.Tactic.Ring

/-!
# The lookup of configuration information

A text is read as lines, and a line as its words up to a comment; `_tk_get_cfn` finds the line of a
name, counts its words and stores their numbers. Only its counters can go wrong: `max--` wraps below
the smallest `INT`.
-/

namespace SmpTKernel

open Tokens

/-! ## Lines and words -/

/-- A blank or control character. -/
def isBlank (c : UB) : Bool := c ≤ 0x20#8

/-- The lines of a text. -/
def textLines (text : List UB) : List (List UB) := text.splitOnP (· = 0x0A#8)

/-- The line starts with the name, as a word of its own. -/
def named (name line : List UB) : Bool := line.takeWhile isWord = name

/-- The further words of a line, up to a comment. -/
def lineWords (line : List UB) : List (List UB) :=
  tokens isBlank ((line.dropWhile isWord).takeWhile (· ≠ 0x23#8))

/-- The digits at the front, most significant first. -/
def leadingDigits (base : ℕ) : List UB → List ℕ
  | [] => []
  | c :: l =>
    match digitIndex base c with
    | none => []
    | some i => i :: leadingDigits base l

/-- The number a word denotes, with its sign and in the base it shows. -/
def wordNumber (w : List UB) : ℤ :=
  let s := strtolSign w
  let b := strtolBase 0 s.2
  s.1 * (Nat.ofDigits b.1 (leadingDigits b.1 b.2).reverse : ℕ)

/-- Behind a line the text ends, or the next line begins. -/
def LineEnd (rest : List UB) : Prop := ∀ c ∈ rest.head?, c = 0x0A#8

variable {name text line rest p w l : List UB} {c : UB}

theorem isWord_iff : isWord c = true ↔ isBlank c = false ∧ c ≠ 0x23#8 := by
  unfold isWord isBlank
  rw [decide_eq_true_iff, decide_eq_false_iff_not, BitVec.not_le]

theorem not_isWord_newline : isWord 0x0A#8 = false := by decide

theorem skipWord_eq : ∀ p : List UB, skipWord p = p.dropWhile isWord
  | [] => rfl
  | c :: p => by
    unfold skipWord
    rw [List.dropWhile_cons, skipWord_eq p]

/-- What follows a word is left by the passage over it. -/
theorem dropWhile_isWord_append (hw : ∀ c ∈ w, isWord c = true) (l : List UB) :
    (w ++ l).dropWhile isWord = l.dropWhile isWord := List.dropWhile_append_of_pos hw

theorem LineEnd.not_isWord (hr : LineEnd rest) : ∀ c ∈ rest.head?, isWord c = false := by
  intro c hc
  rw [hr c hc]
  exact not_isWord_newline

theorem dropWhile_append_stop (q : UB → Bool) (hr : ∀ c ∈ rest.head?, q c = false) :
    ∀ l : List UB, (l ++ rest).dropWhile q = l.dropWhile q ++ rest ∧
      (l ++ rest).takeWhile q = l.takeWhile q
  | [] => by
    cases rest with
    | nil => exact ⟨rfl, rfl⟩
    | cons c rest =>
      have := hr c rfl
      simp [this]
  | c :: l => by
    obtain ⟨h₁, h₂⟩ := dropWhile_append_stop q hr l
    by_cases hc : q c = true
    · simp [hc, h₁, h₂]
    · simp [hc]

/-! ## Searching the line -/

theorem exists_line (text : List UB) :
    ∃ line rest, text = line ++ rest ∧ (∀ c ∈ line, c ≠ 0x0A#8) ∧ LineEnd rest := by
  refine ⟨text.takeWhile (· ≠ 0x0A#8), text.dropWhile (· ≠ 0x0A#8), ?_, fun c hc => ?_,
    fun c hc => ?_⟩
  · exact List.takeWhile_append_dropWhile.symm
  · simpa using List.mem_takeWhile_imp hc
  · have := List.head?_dropWhile_not (· ≠ 0x0A#8) text
    rw [Option.mem_def.mp hc] at this
    simpa using this

theorem textLines_last (hl : ∀ c ∈ line, c ≠ 0x0A#8) : textLines line = [line] :=
  List.splitOnP_eq_singleton fun c hc => decide_eq_false (hl c hc)

theorem textLines_append (hl : ∀ c ∈ line, c ≠ 0x0A#8) (text : List UB) :
    textLines (line ++ 0x0A#8 :: text) = line :: textLines text := by
  unfold textLines
  rw [List.splitOnP_append_cons line text (by simp)]
  exact congrArg (· ++ _) (textLines_last hl)

theorem nextLine_append : ∀ {line : List UB}, (∀ c ∈ line, c ≠ 0x0A#8) → ∀ rest :
    List UB, LineEnd rest →
    nextLine (line ++ rest) = rest.tail := by
  intro line
  induction line with
  | nil =>
    intro _ rest hr
    cases rest with
    | nil => rfl
    | cons c rest =>
      have : c = 0x0A#8 := hr c rfl
      exact if_neg (not_not_intro this)
  | cons c line ih =>
    intro hl rest hr
    rw [List.cons_append, nextLine, if_pos (hl c List.mem_cons_self)]
    exact ih (fun d hd => hl d (List.mem_cons_of_mem _ hd)) rest hr

theorem found_iff (hname : name ≠ []) :
    (name.head? = some c ∧ (c :: p).length - (skipWord (c :: p)).length = name.length ∧
      (c :: p).take name.length = name) ↔ (c :: p).takeWhile isWord = name := by
  have hlen : (c :: p).length - (skipWord (c :: p)).length =
      ((c :: p).takeWhile isWord).length := by
    have := congrArg List.length (List.takeWhile_append_dropWhile (p := isWord) (l := c :: p))
    rw [List.length_append] at this
    rw [skipWord_eq]
    omega
  have hprefix : (c :: p).takeWhile isWord <+: c :: p := List.takeWhile_prefix isWord
  rw [hlen]
  constructor
  · rintro ⟨-, hlen, htake⟩
    rw [← htake, ← hlen]
    exact List.prefix_iff_eq_take.mp hprefix
  · intro h
    rw [h] at hprefix
    refine ⟨?_, congrArg List.length h, (List.prefix_iff_eq_take.mp hprefix).symm⟩
    obtain ⟨d, name, rfl⟩ := List.exists_cons_of_ne_nil hname
    obtain ⟨q, hq⟩ := hprefix
    rw [List.cons_append] at hq
    exact congrArg some (List.cons.inj hq).1

/-- **The line.** `search_conf` finds the first one that starts with the name. -/
theorem searchConf_eq (hname : name ≠ []) : ∀ (n : ℕ) (text : List UB), text.length ≤ n →
    ((textLines text).find? (named name) = none ∧ searchConf name text = none) ∨
      ∃ line rest, (textLines text).find? (named name) = some line ∧
        searchConf name text = some (line ++ rest) ∧ (∀ c ∈ line, c ≠ 0x0A#8) ∧ LineEnd rest := by
  intro n
  induction n with
  | zero =>
    intro text hn
    obtain rfl := List.length_eq_zero_iff.mp (Nat.le_zero.mp hn)
    refine Or.inl ⟨?_, by rw [searchConf]⟩
    rw [textLines_last (by simp)]
    simp [named, hname.symm]
  | succ n ih =>
    intro text hn
    obtain ⟨line, rest, htext, hline, hrest⟩ := exists_line text
    have hword : text.takeWhile isWord = line.takeWhile isWord := by
      rw [htext]
      exact (dropWhile_append_stop isWord hrest.not_isWord line).2
    have hlines : textLines text = line :: if rest = [] then [] else textLines rest.tail := by
      cases rest with
      | nil => rw [htext, List.append_nil, textLines_last hline, if_pos rfl]
      | cons d rest =>
        obtain rfl : d = 0x0A#8 := hrest d rfl
        rw [htext, textLines_append hline, if_neg (by simp)]
        rfl
    cases text with
    | nil =>
      refine Or.inl ⟨?_, by rw [searchConf]⟩
      rw [textLines_last (by simp)]
      simp [named, hname.symm]
    | cons c cp =>
      rw [searchConf]
      by_cases hnamed : named name line = true
      · have hfound := of_decide_eq_true hnamed
        rw [← hword] at hfound
        rw [if_pos ((found_iff hname).mpr hfound), hlines, List.find?_cons, hnamed]
        exact Or.inr ⟨line, rest, rfl, congrArg some htext, hline, hrest⟩
      · have hnot : ¬(c :: cp).takeWhile isWord = name :=
          fun h => hnamed (decide_eq_true (hword ▸ h))
        rw [if_neg fun h => hnot ((found_iff hname).mp h), hlines, List.find?_cons,
          Bool.eq_false_of_not_eq_true hnamed]
        have hnext : nextLine (c :: cp) = rest.tail := by
          rw [htext]
          exact nextLine_append hline rest hrest
        have hshort : rest.tail.length ≤ n := by
          have h₁ := length_nextLine c cp
          rw [hnext] at h₁
          rw [List.length_cons] at hn
          omega
        rw [hnext]
        by_cases hr : rest = []
        · subst hr
          exact Or.inl ⟨by rw [if_pos rfl]; rfl, by rw [List.tail_nil, searchConf]⟩
        · rw [if_neg hr]
          exact ih rest.tail hshort

/-! ## Skipping to the next word -/

theorem lineWords_append (hw : ∀ c ∈ w, isWord c = true) (l : List UB) :
    lineWords (w ++ l) = lineWords l := by
  unfold lineWords
  rw [dropWhile_isWord_append hw]

/-- `skip_next` finds the next word of the line. -/
theorem skipSeparators_words (hr : LineEnd rest) : ∀ l : List UB, (∀ c ∈ l, c ≠ 0x0A#8) →
    (tokens isBlank (l.takeWhile (· ≠ 0x23#8)) = [] ∧ skipSeparators (l ++ rest) = none) ∨
      ∃ w l', w ≠ [] ∧ (∀ c ∈ w, isWord c = true) ∧ (∀ c ∈ l'.head?, isWord c = false) ∧
        (∀ c ∈ l', c ≠ 0x0A#8) ∧ skipSeparators (l ++ rest) = some (w ++ (l' ++ rest)) ∧
        tokens isBlank (l.takeWhile (· ≠ 0x23#8)) = w :: lineWords l' := by
  intro l
  induction l with
  | nil =>
    intro _
    refine Or.inl ⟨by simp, ?_⟩
    cases rest with
    | nil => rfl
    | cons c rest =>
      have : c = 0x0A#8 := hr c rfl
      exact if_pos (Or.inl this)
  | cons c l ih =>
    intro hl
    have hc := hl c List.mem_cons_self
    have hl' : ∀ d ∈ l, d ≠ 0x0A#8 := fun d hd => hl d (List.mem_cons_of_mem _ hd)
    rw [List.cons_append, skipSeparators]
    by_cases hend : c = 0x23#8
    · rw [if_pos (Or.inr hend)]
      exact Or.inl ⟨by simp [hend], rfl⟩
    rw [if_neg (not_or.mpr ⟨hc, hend⟩), List.takeWhile_cons, if_pos (by simpa using hend)]
    by_cases hblank : isBlank c = true
    · have hle : ¬0x20#8 < c := BitVec.not_lt.mpr (of_decide_eq_true hblank)
      rw [if_neg hle, tokens_cons_of_sep hblank]
      exact ih hl'
    · have hword : isWord c = true := isWord_iff.mpr ⟨Bool.eq_false_of_not_eq_true hblank, hend⟩
      have hgt : 0x20#8 < c := BitVec.not_le.mp fun h => hblank (decide_eq_true h)
      rw [if_pos hgt]
      have hsplit : c :: l = c :: l.takeWhile isWord ++ l.dropWhile isWord := by
        rw [List.cons_append, List.takeWhile_append_dropWhile]
      have hw : ∀ d ∈ c :: l.takeWhile isWord, isWord d = true := by
        intro d hd
        rcases List.mem_cons.mp hd with rfl | hd
        · exact hword
        · exact List.mem_takeWhile_imp hd
      have hstop : ∀ d ∈ (l.dropWhile isWord).head?, isWord d = false := by
        intro d hd
        have := List.head?_dropWhile_not isWord l
        rw [Option.mem_def.mp hd] at this
        simpa using this
      refine Or.inr ⟨c :: l.takeWhile isWord, l.dropWhile isWord, List.cons_ne_nil _ _, hw, hstop,
        fun d hd => hl' d ((List.dropWhile_suffix isWord).subset hd), ?_, ?_⟩
      · rw [← List.append_assoc, ← hsplit]
        rfl
      · -- the word ends at a blank, at a comment or with the line
        have hcut : c :: l.takeWhile (· ≠ 0x23#8) =
            (c :: l.takeWhile isWord) ++ (l.dropWhile isWord).takeWhile (· ≠ 0x23#8) := by
          have hne : ∀ d ∈ c :: l.takeWhile isWord, decide (d ≠ 0x23#8) = true := fun d hd =>
            decide_eq_true (isWord_iff.mp (hw d hd)).2
          have happ : ((c :: l.takeWhile isWord) ++ l.dropWhile isWord).takeWhile (· ≠ 0x23#8) =
              _ :=
            List.takeWhile_append_of_pos hne
          rw [← hsplit, List.takeWhile_cons, if_pos (by simpa using hend)] at happ
          exact happ
        have hself : (l.dropWhile isWord).dropWhile isWord = l.dropWhile isWord := by
          cases hq : l.dropWhile isWord with
          | nil => rfl
          | cons e q =>
            rw [hq] at hstop
            rw [List.dropWhile_cons, hstop e rfl]
            rfl
        unfold lineWords
        rw [hself, hcut, tokens_append (List.cons_ne_nil _ _) fun d hd =>
          (isWord_iff.mp (hw d hd)).1]
        intro d hd
        cases hq : l.dropWhile isWord with
        | nil =>
          rw [hq] at hd
          cases hd
        | cons e q =>
          rw [hq] at hd hstop
          have he := hstop e rfl
          rw [List.takeWhile_cons] at hd
          split_ifs at hd with hne
          · obtain rfl : e = d := Option.some.inj hd
            by_contra hnb
            have : isWord e = true :=
              isWord_iff.mpr ⟨Bool.eq_false_of_not_eq_true hnb, by simpa using hne⟩
            rw [he] at this
            cases this
          · cases hd

theorem skipNext_words (hr : LineEnd rest) (hl : ∀ c ∈ l, c ≠ 0x0A#8) :
    (lineWords l = [] ∧ skipNext (l ++ rest) = none) ∨
      ∃ w l', w ≠ [] ∧ (∀ c ∈ w, isWord c = true) ∧ (∀ c ∈ l'.head?, isWord c = false) ∧
        (∀ c ∈ l', c ≠ 0x0A#8) ∧ skipNext (l ++ rest) = some (w ++ (l' ++ rest)) ∧
        lineWords l = w :: lineWords l' := by
  have hdrop : skipWord (l ++ rest) = l.dropWhile isWord ++ rest := by
    rw [skipWord_eq]
    exact (dropWhile_append_stop isWord hr.not_isWord l).1
  unfold skipNext
  rw [hdrop]
  exact skipSeparators_words hr (l.dropWhile isWord) fun c hc =>
    hl c ((List.dropWhile_suffix isWord).subset hc)

/-! ## Numbers -/

/-- A number ends with its word. -/
def Stops (l : List UB) : Prop := ∀ c ∈ l.head?, isWord c = false

theorem digitIndex_isWord {base i : ℕ} (h : digitIndex base c = some i) : isWord c = true := by
  have key : ∀ n < 256, toUpperCase (BitVec.ofNat 8 n) ∈ numTable →
      isWord (BitVec.ofNat 8 n) = true := by
    decide +kernel
  unfold digitIndex at h
  obtain ⟨hi, heq, -⟩ := List.findIdx?_eq_some_iff_getElem.mp h
  have hmem : toUpperCase c ∈ numTable := by
    have := List.getElem_mem hi
    rw [of_decide_eq_true heq] at this
    exact List.mem_of_mem_take this
  have := key c.toNat c.isLt
  rw [BitVec.ofNat_toNat, BitVec.setWidth_eq] at this
  exact this hmem

theorem Stops.head_ne (h : Stops l) {d : UB} (hd : isWord d = true) : l.head? ≠ some d := by
  intro e
  have := h d e
  rw [hd] at this
  cases this

/-- What is read at the front of a word, when something else follows. -/
theorem head?_append_stops (hs : Stops l) {d : UB} (hd : isWord d = true) (w : List UB) :
    ((w ++ l).head? = some d) ↔ w.head? = some d := by
  cases w with
  | nil =>
    rw [List.nil_append]
    exact ⟨fun e => absurd e (hs.head_ne hd), fun e => by cases e⟩
  | cons c w => exact Iff.rfl

theorem tail_append_of_head {d : UB} (h : w.head? = some d) (l : List UB) :
    (w ++ l).tail = w.tail ++ l := by
  cases w with
  | nil => cases h
  | cons c w => rfl

theorem atX_append (hs : Stops l) (w : List UB) : atX (w ++ l) = atX w := by
  cases w with
  | nil =>
    have key : ∀ n < 256, toUpperCase (BitVec.ofNat 8 n) = 0x58#8 →
        isWord (BitVec.ofNat 8 n) = true := by
      decide +kernel
    cases l with
    | nil => rfl
    | cons c l =>
      have hc : isWord c = false := hs c rfl
      have := key c.toNat c.isLt
      rw [BitVec.ofNat_toNat, BitVec.setWidth_eq] at this
      unfold atX
      by_cases e : toUpperCase c = 0x58#8
      · rw [this e] at hc
        cases hc
      · simp [e]
  | cons c w => rfl

theorem atX_ne_nil (h : atX w = true) : w ≠ [] := by
  rintro rfl
  cases h

theorem strtolSign_append (hs : Stops l) (w : List UB) :
    strtolSign (w ++ l) = ((strtolSign w).1, (strtolSign w).2 ++ l) := by
  have h₁ := head?_append_stops hs (d := 0x2D#8) (by decide) w
  have h₂ := head?_append_stops hs (d := 0x2B#8) (by decide) w
  unfold strtolSign
  by_cases e₁ : w.head? = some 0x2D#8
  · rw [if_pos (h₁.mpr e₁), if_pos e₁, tail_append_of_head e₁]
  rw [if_neg fun h => e₁ (h₁.mp h), if_neg e₁]
  by_cases e₂ : w.head? = some 0x2B#8
  · rw [if_pos (h₂.mpr e₂), if_pos e₂, tail_append_of_head e₂]
  · rw [if_neg fun h => e₂ (h₂.mp h), if_neg e₂]

theorem strtolBase_zero (w : List UB) : strtolBase 0 w =
    if w.head? = some 0x30#8 then if atX w.tail then (16, w.tail.tail) else (8, w.tail)
      else (10, w) := rfl

theorem strtolBase_append (hs : Stops l) (w : List UB) :
    strtolBase 0 (w ++ l) = ((strtolBase 0 w).1, (strtolBase 0 w).2 ++ l) := by
  have h := head?_append_stops hs (d := 0x30#8) (by decide) w
  rw [strtolBase_zero, strtolBase_zero]
  by_cases e : w.head? = some 0x30#8
  · rw [if_pos (h.mpr e), if_pos e, tail_append_of_head e, atX_append hs]
    by_cases hx : atX w.tail = true
    · obtain ⟨d, q, hq⟩ := List.exists_cons_of_ne_nil (atX_ne_nil hx)
      rw [if_pos hx, if_pos hx, hq]
      rfl
    · rw [if_neg hx, if_neg hx]
  · rw [if_neg fun c => e (h.mp c), if_neg e]

theorem strtolDigits_append (hs : Stops l) (base : ℕ) : ∀ (w : List UB) (v : ℤ),
    strtolDigits base v (w ++ l) = ((strtolDigits base v w).1, (strtolDigits base v w).2 ++ l) := by
  intro w
  induction w with
  | nil =>
    intro v
    cases l with
    | nil => rfl
    | cons c l =>
      have hnone : digitIndex base c = none := by
        by_contra h
        obtain ⟨i, hi⟩ := Option.ne_none_iff_exists'.mp h
        have hc : isWord c = false := hs c rfl
        rw [digitIndex_isWord hi] at hc
        cases hc
      show strtolDigits base v (c :: l) = (v, c :: l)
      rw [strtolDigits, hnone]
  | cons c w ih =>
    intro v
    rw [List.cons_append, strtolDigits, strtolDigits]
    rcases digitIndex base c with _ | i
    · rfl
    · exact ih _

theorem dropWhile_isSpaceCode (hne : w ≠ []) (hw : ∀ c ∈ w, isWord c = true) (l : List UB) :
    (w ++ l).dropWhile isSpaceCode = w ++ l := by
  obtain ⟨c, w, rfl⟩ := List.exists_cons_of_ne_nil hne
  have hc : isSpaceCode c = false := by
    have hword := hw c List.mem_cons_self
    unfold isSpaceCode
    rw [decide_eq_false_iff_not]
    rintro (rfl | rfl) <;> exact absurd hword (by decide)
  rw [List.cons_append, List.dropWhile_cons, hc]
  rfl

/-- Converting a word inside a text is converting the word. -/
theorem strtol_append (hne : w ≠ []) (hw : ∀ c ∈ w, isWord c = true) (hs : Stops l) :
    strtol (w ++ l) 0 = ((strtol w 0).1, (strtol w 0).2 ++ l) := by
  have hself := dropWhile_isSpaceCode hne hw []
  rw [List.append_nil] at hself
  unfold strtol
  rw [dropWhile_isSpaceCode hne hw, hself, strtolSign_append hs]
  dsimp only
  rw [strtolBase_append hs]
  dsimp only
  rw [strtolDigits_append hs]

/-! ## Values -/

theorem INT_UINT_emod (x : ℤ) : INT (UINT x) % 2 ^ 32 = x % 2 ^ 32 := by
  unfold INT UINT Words.toSigned Words.toUnsigned
  split_ifs <;> omega

theorem INT_UINT_congr {x y : ℤ} (h : x % 2 ^ 32 = y % 2 ^ 32) : INT (UINT x) = INT (UINT y) := by
  unfold UINT Words.toUnsigned
  rw [h]

/-- The digits count modulo `2 ^ 32`. -/
theorem strtolDigits_value (base : ℕ) : ∀ (w : List UB) (v : ℤ),
    (strtolDigits base (INT (UINT v)) w).1 =
      INT (UINT (v * base ^ (leadingDigits base w).length +
        (Nat.ofDigits base (leadingDigits base w).reverse : ℕ))) := by
  intro w
  induction w with
  | nil =>
    intro v
    simp [strtolDigits, leadingDigits]
  | cons c w ih =>
    intro v
    rw [strtolDigits, leadingDigits]
    rcases digitIndex base c with _ | i
    · simp
    · have hstep : INT (UINT (INT (UINT v) * base + i)) = INT (UINT (v * base + i)) := by
        refine INT_UINT_congr ?_
        rw [Int.add_emod, Int.mul_emod, INT_UINT_emod, ← Int.mul_emod, ← Int.add_emod]
      have hdigits : Nat.ofDigits base (i :: leadingDigits base w).reverse =
          Nat.ofDigits base (leadingDigits base w).reverse + base
          ^ (leadingDigits base w).length * i := by
        rw [List.reverse_cons, Nat.ofDigits_append, List.length_reverse, Nat.ofDigits_singleton]
      dsimp only
      rw [hstep, ih, hdigits, List.length_cons]
      congr 2
      push_cast
      ring

/-- **Numbers.** What `strtol` makes of a word is the number it denotes, modulo `2 ^ 32`. -/
theorem strtol_value (hne : w ≠ []) (hw : ∀ c ∈ w, isWord c = true) :
    (strtol w 0).1 = INT (UINT (wordNumber w)) := by
  have hself := dropWhile_isSpaceCode hne hw []
  rw [List.append_nil] at hself
  unfold strtol wordNumber
  rw [hself]
  dsimp only
  have h := strtolDigits_value (strtolBase 0 (strtolSign w).2).1 (strtolBase 0 (strtolSign w).2).2 0
  rw [show INT (UINT 0) = 0 from rfl, zero_mul, zero_add] at h
  rw [h]
  refine INT_UINT_congr ?_
  rw [Int.mul_emod, INT_UINT_emod, ← Int.mul_emod, mul_comm]

/-! ## The loop of `getcfn` -/

/-- What is stored of the words, from the offset `k` on, when `max` counts down. -/
def storesOf (k : ℕ) (max : ℤ) : List (List UB) → List (ℤ × ℕ)
  | [] => []
  | w :: ws =>
    if max > 0 then (INT (UINT (wordNumber w)), k) :: storesOf (k + 1) (INT (UINT (max - 1))) ws
    else storesOf k (INT (UINT (max - 1))) ws

theorem getcfnLoop_none (h : skipNext p = none) (k : ℕ) (max n : ℤ) :
    getcfnLoop p k max n = (n, []) := by
  rw [getcfnLoop]
  split
  · rfl
  · rename_i q hq
    rw [h] at hq
    cases hq

theorem getcfnLoop_some {q : List UB} (h : skipNext p = some q) (k : ℕ) (max n : ℤ) :
    getcfnLoop p k max n =
      if max > 0 then
        let r := getcfnLoop (strtol q 0).2 (k + 1) (INT (UINT (max - 1))) (INT (UINT (n + 1)))
        (r.1, ((strtol q 0).1, k) :: r.2)
      else getcfnLoop (strtol q 0).2 k (INT (UINT (max - 1))) (INT (UINT (n + 1))) := by
  rw [getcfnLoop]
  split
  · rename_i hq
    rw [h] at hq
    cases hq
  · rename_i q' hq
    rw [h] at hq
    cases hq
    rfl

/-- **The loop** counts the words of the line, and converts each of them once. -/
theorem getcfnLoop_eq (hr : LineEnd rest) :
    ∀ (ws : List (List UB)) (l : List UB) (k : ℕ) (max n : ℤ), (∀ c ∈ l, c ≠ 0x0A#8) →
    lineWords l = ws →
      getcfnLoop (l ++ rest) k max (INT (UINT n)) =
        (INT (UINT (n + ws.length)), storesOf k max ws) := by
  intro ws
  induction ws with
  | nil =>
    intro l k max n hl hws
    rcases skipNext_words hr hl with ⟨-, hskip⟩ | ⟨w, l', -, -, -, -, -, hcons⟩
    · rw [getcfnLoop_none hskip]
      simp [storesOf]
    · rw [hws] at hcons
      cases hcons
  | cons x ws ih =>
    intro l k max n hl hws
    rcases skipNext_words hr hl with ⟨hnil, -⟩ | ⟨w, l', hne, hw, hstop, hl', hskip, hcons⟩
    · rw [hws] at hnil
      cases hnil
    · rw [hws] at hcons
      obtain ⟨rfl, rfl⟩ := List.cons.inj hcons
      have hstops : Stops (l' ++ rest) := by
        intro c hc
        cases l' with
        | nil => exact hr.not_isWord c hc
        | cons d l' => exact hstop c hc
      have hrest : ∀ c ∈ (strtol x 0).2, isWord c = true := fun c hc =>
        hw c ((suffix_strtol x 0).subset hc)
      have hnext : ∀ (k : ℕ) (max : ℤ), getcfnLoop ((strtol x 0).2 ++ (l' ++ rest)) k max
          (INT (UINT (n + 1))) = (INT (UINT (n + 1 + (lineWords l').length)), storesOf k max
            (lineWords l')) := by
        intro k max
        rw [← List.append_assoc]
        refine ih _ k max (n + 1) (fun c hc => ?_) (lineWords_append hrest l')
        rcases List.mem_append.mp hc with hc | hc
        · rintro rfl
          exact absurd (hrest _ hc) (by decide)
        · exact hl' c hc
      rw [getcfnLoop_some hskip, strtol_append hne hw hstops, strtol_value hne hw]
      dsimp only
      rw [INT_UINT_add, hnext, hnext, storesOf, List.length_cons]
      push_cast
      rw [add_assoc, add_comm (1 : ℤ)]
      split_ifs <;> rfl

/-- While `max` does not wrap, the first words are stored. -/
theorem storesOf_fits : ∀ (ws : List (List UB)) (k : ℕ) {max : ℤ}, -2 ^ 31 ≤ max → max < 2 ^ 31 →
    ws.length < 2 ^ 31 → (0 ≤ max ∨ (ws.length : ℤ) ≤ max + 2 ^ 31 + 1) →
      storesOf k max ws = ((ws.take max.toNat).map fun w =>
        INT (UINT (wordNumber w))).zipIdx k := by
  intro ws
  induction ws with
  | nil => intro k max _ _ _ _; simp [storesOf]
  | cons w ws ih =>
    intro k max hmin hmax hlen hfits
    rw [List.length_cons] at hlen hfits
    rw [storesOf]
    by_cases hpos : max > 0
    · obtain ⟨m, rfl⟩ : ∃ m : ℕ, max = m + 1 := ⟨(max - 1).toNat, by omega⟩
      have htake : ((m : ℤ) + 1).toNat = m + 1 := by omega
      have hdec : INT (UINT (m : ℤ)) = m := INT_UINT (by omega) (by omega)
      rw [if_pos hpos, add_sub_cancel_right, hdec,
        ih (k + 1) (by omega) (by omega) (by omega) (Or.inl (by omega)), htake, List.take_succ_cons,
        List.map_cons, List.zipIdx_cons, Int.toNat_natCast]
    · have hzero : max.toNat = 0 := by omega
      rw [if_neg hpos, hzero, List.take_zero, List.map_nil, List.zipIdx_nil]
      by_cases hlow : max = -2 ^ 31
      · -- `max` has reached its smallest value, so this is the last word
        obtain rfl : ws = [] := List.length_eq_zero_iff.mp (by omega)
        rfl
      · have hneg : (max - 1).toNat = 0 := by omega
        rw [INT_UINT (by omega) (by omega), ih k (by omega) (by omega) (by omega)
          (Or.inr (by omega)), hneg]
        rfl

theorem storesOf_wraps : ∀ (ws : List (List UB)) (k : ℕ) {max : ℤ}, -2 ^ 31 ≤ max → max < 0 →
    max + 2 ^ 31 + 1 < ws.length → storesOf k max ws ≠ [] := by
  intro ws
  induction ws with
  | nil => intro k max hmin _ h; simp at h; omega
  | cons w ws ih =>
    intro k max hmin hneg h
    rw [List.length_cons] at h
    rw [storesOf, if_neg (by omega)]
    by_cases hlow : max = -2 ^ 31
    · subst hlow
      obtain ⟨x, ws, rfl⟩ :=
        List.exists_cons_of_ne_nil (List.length_pos_iff.mp (show 0 < ws.length by omega))
      rw [storesOf, if_pos (by decide)]
      exact List.cons_ne_nil _ _
    · rw [INT_UINT (by omega) (by omega)]
      exact ih k (by omega) (by omega) (by omega)

/-! ## The system call -/

/-- The line of a name, in the text of the system or else in the one of the devices. -/
def confLine (sysconf devconf name : List UB) : Option (List UB) :=
  (textLines sysconf ++ textLines devconf).find? (named name)

/-- The number of words of the line, with the first `max` of their values stored; an error when
there is no such line. -/
def ConfRight (sysconf devconf name : List UB) (max : ℤ) (r : ℤ × List (ℤ × ℕ)) : Prop :=
  (confLine sysconf devconf name = none ∧ r = (E_NOEXS, [])) ∨
    ∃ line, confLine sysconf devconf name = some line ∧ r.1 = (lineWords line).length ∧
      r.2 = (((lineWords line).take max.toNat).map fun w => INT (UINT (wordNumber w))).zipIdx

/-- The number of words is an `INT`, and a negative `max` does not wrap. -/
def ConfFits (sysconf devconf name : List UB) (max : ℤ) : Prop :=
  ∀ line, confLine sysconf devconf name = some line → (lineWords line).length < 2 ^ 31 ∧
    (0 ≤ max ∨ ((lineWords line).length : ℤ) ≤ max + 2 ^ 31 + 1)

variable {sysconf devconf : List UB} {max : ℤ}

theorem getcfn_eq (hname : name ≠ []) (conf : List UB) (max : ℤ) :
    ((textLines conf).find? (named name) = none ∧ getcfn conf name max = (E_NOEXS, [])) ∨
      ∃ line, (textLines conf).find? (named name) = some line ∧
        getcfn conf name max = (INT (UINT (lineWords line).length), storesOf 0 max
          (lineWords line)) := by
  unfold getcfn
  rcases searchConf_eq hname conf.length conf le_rfl with ⟨hnone, e⟩ | ⟨line, rest, hsome,
    e, hl, hr⟩
  · rw [e]
    exact Or.inl ⟨hnone, rfl⟩
  · rw [e]
    have h := getcfnLoop_eq hr (lineWords line) line 0 max 0 hl rfl
    rw [zero_add] at h
    exact Or.inr ⟨line, hsome, h⟩

theorem tkGetCfn_fits (hname : name ≠ []) (hmin : -2 ^ 31 ≤ max) (hmax : max < 2 ^ 31)
    (fits : ConfFits sysconf devconf name max) :
    ConfRight sysconf devconf name max (tkGetCfn sysconf devconf name max) := by
  have found : ∀ line, confLine sysconf devconf name = some line →
      ∀ r, r = (INT (UINT (lineWords line).length), storesOf 0 max (lineWords line)) →
        0 ≤ r.1 ∧ ConfRight sysconf devconf name max r := by
    rintro line hline r rfl
    obtain ⟨hlen, hwrap⟩ := fits line hline
    have hint : INT (UINT (lineWords line).length) = (lineWords line).length :=
      INT_UINT (by omega) (by omega)
    refine ⟨hint.symm ▸ Int.natCast_nonneg _, Or.inr ⟨line, hline, hint, ?_⟩⟩
    exact storesOf_fits _ 0 hmin hmax hlen hwrap
  unfold tkGetCfn
  dsimp only
  rcases getcfn_eq hname sysconf max with ⟨hnone, e⟩ | ⟨line, hsome, e⟩
  · rw [e, if_pos (by norm_num), List.nil_append]
    rcases getcfn_eq hname devconf max with ⟨hnone', e'⟩ | ⟨line, hsome, e'⟩
    · rw [e']
      refine Or.inl ⟨?_, rfl⟩
      unfold confLine
      rw [List.find?_append, hnone, hnone']
      rfl
    · refine (found line ?_ _ e').2
      unfold confLine
      rw [List.find?_append, hnone, hsome]
      rfl
  · have hline : confLine sysconf devconf name = some line := by
      unfold confLine
      rw [List.find?_append, hsome]
      rfl
    obtain ⟨h0, hright⟩ := found line hline _ e
    rw [if_neg (by omega)]
    exact hright

theorem INT_lt (x : ℕ) : INT (UINT x) < 2 ^ 31 := by
  unfold INT UINT Words.toSigned Words.toUnsigned
  split_ifs <;> omega

theorem getcfn_lt (hname : name ≠ []) (conf : List UB) (max : ℤ) :
    (getcfn conf name max).1 < 2 ^ 31 := by
  rcases getcfn_eq hname conf max with ⟨-, e⟩ | ⟨line, -, e⟩
  · rw [e]
    norm_num
  · rw [e]
    exact INT_lt _

theorem fits_of_tkGetCfn (hname : name ≠ []) (hmin : -2 ^ 31 ≤ max)
    (right : ConfRight sysconf devconf name max (tkGetCfn sysconf devconf name max)) :
    ConfFits sysconf devconf name max := by
  intro line hline
  rcases right with ⟨hnone, -⟩ | ⟨line', hline', hn, hstores⟩
  · rw [hnone] at hline
    cases hline
  obtain rfl : line' = line := Option.some.inj (hline'.symm.trans hline)
  have hlen : (lineWords line').length < 2 ^ 31 := by
    have : (tkGetCfn sysconf devconf name max).1 < 2 ^ 31 := by
      unfold tkGetCfn
      dsimp only
      split_ifs
      · exact getcfn_lt hname devconf max
      · exact getcfn_lt hname sysconf max
    rw [hn] at this
    exact_mod_cast this
  refine ⟨hlen, ?_⟩
  by_contra c
  push Not at c
  have hzero : max.toNat = 0 := by omega
  rw [hzero, List.take_zero, List.map_nil, List.zipIdx_nil] at hstores
  have hwraps : storesOf 0 max (lineWords line') ≠ [] := storesOf_wraps _ 0 hmin c.1 c.2
  unfold confLine at hline
  rw [List.find?_append] at hline
  unfold tkGetCfn at hstores
  dsimp only at hstores
  rcases getcfn_eq hname sysconf max with ⟨hnone, e⟩ | ⟨line, hsome, e⟩
  · rw [hnone] at hline
    rcases getcfn_eq hname devconf max with ⟨hnone', -⟩ | ⟨line, hsome, e'⟩
    · rw [hnone'] at hline
      cases hline
    · rw [hsome] at hline
      obtain rfl := Option.some.inj hline
      rw [e, e', if_pos (by norm_num)] at hstores
      exact hwraps hstores
  · rw [hsome] at hline
    obtain rfl := Option.some.inj hline
    rw [e] at hstores
    split_ifs at hstores
    · exact hwraps (List.append_eq_nil_iff.mp hstores).1
    · exact hwraps hstores

/-- **Configuration lookup.** For every text, name and `max`, the call ends; it returns and stores
what is asked exactly when its counters do not wrap. -/
theorem tkGetCfn_right_iff (hname : name ≠ []) (hmin : -2 ^ 31 ≤ max) (hmax : max < 2 ^ 31) :
    ConfRight sysconf devconf name max (tkGetCfn sysconf devconf name max) ↔
      ConfFits sysconf devconf name max :=
  ⟨fits_of_tkGetCfn hname hmin, tkGetCfn_fits hname hmin hmax⟩

/-- The text `a 1 2`. -/
def confText : List UB := [0x61, 0x20, 0x31, 0x20, 0x32]

theorem confLine_text : confLine confText [] [0x61] = some confText := by decide

theorem lineWords_text : lineWords confText = [[0x31], [0x32]] := by decide

theorem tkGetCfn_right_text : ConfRight confText [] [0x61] 1 (tkGetCfn confText [] [0x61] 1) := by
  refine (tkGetCfn_right_iff (by simp) (by norm_num) (by norm_num)).mpr fun line h => ?_
  rw [confLine_text] at h
  obtain rfl := Option.some.inj h
  rw [lineWords_text]
  exact ⟨by decide, Or.inl (by norm_num)⟩

/-- With the smallest `max`, the second word is stored. -/
theorem tkGetCfn_wraps :
    ¬ConfRight confText [] [0x61] (-2 ^ 31) (tkGetCfn confText [] [0x61] (-2 ^ 31)) := by
  intro right
  obtain ⟨-, h⟩ := fits_of_tkGetCfn (by simp) le_rfl right confText confLine_text
  rw [lineWords_text] at h
  norm_num at h

end SmpTKernel
