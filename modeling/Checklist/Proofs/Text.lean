import Checklist.Text.Lower
import Checklist.Text.Basic
import Mathlib.Algebra.Group.Nat.Defs
import Mathlib.Data.List.TakeWhile
import Mathlib.Tactic.Common

/-! # Texts that are read back

Scans that stop where they should, trimmed texts, and numbers in decimal notation. Main statements:
a number is read from its notation (`digitsValue_padNat`, `readNat?_ofNat`), and a text without
blanks at its ends is its own trimmed form (`trim_eq_self`). -/

namespace Checklist.Text
set_option autoImplicit false

/-- Whether all characters of a text have a property is decided along the text, not over all
characters. -/
instance (priority := high) decidableForallMem (s : Text) (P : Char → Prop) [DecidablePred P] :
    Decidable (∀ c ∈ s, P c) :=
  List.decidableBAll P s

/-- Whether some character of a text has a property is decided along the text. -/
instance (priority := high) decidableExistsMem (s : Text) (P : Char → Prop) [DecidablePred P] :
    Decidable (∃ c ∈ s, P c) :=
  List.decidableBEx P s

/-! ## Scans -/

theorem takeWhile_append_cons {p : Char → Bool} {s rest : Text} {c : Char}
    (hs : ∀ d ∈ s, p d = true) (hc : p c = false) :
    (s ++ c :: rest).takeWhile p = s := by
  rw [List.takeWhile_append_of_pos hs, List.takeWhile_cons_of_neg (by simp [hc]), List.append_nil]

theorem dropWhile_append_cons {p : Char → Bool} {s rest : Text} {c : Char}
    (hs : ∀ d ∈ s, p d = true) (hc : p c = false) :
    (s ++ c :: rest).dropWhile p = c :: rest := by
  rw [List.dropWhile_append_of_pos hs, List.dropWhile_cons_of_neg (by simp [hc])]

theorem trimStart_suffix (s : Text) : trimStart s <:+ s :=
  List.dropWhile_suffix _

theorem isPrefix_trim (s : Text) : trim s <+: trimStart s := by
  rw [trim, trimEnd, trimEndWhere]
  exact List.reverse_suffix.1 (by rw [List.reverse_reverse]; exact List.dropWhile_suffix _)

theorem mem_of_mem_trim {s : Text} {c : Char} (h : c ∈ trim s) : c ∈ s :=
  (trimStart_suffix s).mem ((isPrefix_trim s).mem h)

theorem cut_append {separator : Char} {s rest : Text} (h : separator ∉ s) :
    cut separator (s ++ separator :: rest) = (s, some rest) := by
  induction s with
  | nil => simp [cut]
  | cons c s ih =>
    rw [List.mem_cons, not_or] at h
    simp [cut, ih h.2, Ne.symm h.1]

theorem cut_of_notMem {separator : Char} {s : Text} (h : separator ∉ s) :
    cut separator s = (s, none) := by
  induction s with
  | nil => rfl
  | cons c s ih =>
    rw [List.mem_cons, not_or] at h
    simp [cut, ih h.2, Ne.symm h.1]

theorem cut_eq_iff {separator : Char} {s before : Text} {after : Option Text} :
    cut separator s = (before, after) ↔ separator ∉ before ∧
      s = before ++ after.elim [] (separator :: ·) := by
  constructor
  · intro h
    induction s generalizing before with
    | nil =>
      cases h
      exact ⟨List.not_mem_nil, rfl⟩
    | cons c s ih =>
      rw [cut] at h
      split at h
      · next hc =>
        cases h
        exact ⟨List.not_mem_nil, by simp [beq_iff_eq.1 hc]⟩
      · next hc =>
        obtain ⟨rfl, rfl⟩ := Prod.mk.inj h
        obtain ⟨hnot, hs⟩ := ih rfl
        exact ⟨by simpa [hnot] using Ne.symm (by simpa using hc), congrArg (List.cons c) hs⟩
  · rintro ⟨hnot, rfl⟩
    cases after with
    | none => simpa using cut_of_notMem hnot
    | some rest => exact cut_append hnot

/-- A scan goes on behind a text that it takes as a whole, and stops at once at a character of
another kind. -/
theorem takeWhile_append_of_stop {p : Char → Bool} {s rest : Text} (hs : ∀ d ∈ s, p d = true)
    (hrest : ∀ c, rest.head? = some c → p c = false) :
    (s ++ rest).takeWhile p = s := by
  cases rest with
  | nil => rw [List.append_nil, List.takeWhile_eq_self_iff.2 hs]
  | cons c rest => exact takeWhile_append_cons hs (hrest c rfl)

theorem dropWhile_append_of_stop {p : Char → Bool} {s rest : Text} (hs : ∀ d ∈ s, p d = true)
    (hrest : ∀ c, rest.head? = some c → p c = false) :
    (s ++ rest).dropWhile p = rest := by
  cases rest with
  | nil => rw [List.append_nil, List.dropWhile_eq_nil_iff.2 hs]
  | cons c rest => exact dropWhile_append_cons hs (hrest c rfl)

theorem takeWhile_prefix_takeWhile {s t : Text} (h : s <+: t) (p : Char → Bool) :
    s.takeWhile p <+: t.takeWhile p := by
  obtain ⟨rest, rfl⟩ := h
  rw [List.takeWhile_append]
  split
  · rename_i hall
    rw [(List.takeWhile_prefix p).eq_of_length hall]
    exact List.prefix_append _ _
  · exact List.prefix_rfl

theorem forall_mem_takeWhile (p : Char → Bool) (s : Text) : ∀ c ∈ s.takeWhile p, p c = true :=
  fun _ hc => List.mem_takeWhile_imp hc

theorem splitWhere_append_of_forall {p : Char → Bool} {s rest : Text} (h : ∀ c ∈ s, p c = false) :
    splitWhere p (s ++ rest) = (splitWhere p rest).modifyHead (s ++ ·) := by
  induction s with
  | nil =>
    rw [List.nil_append]
    cases splitWhere p rest <;> rfl
  | cons c s ih =>
    rw [List.cons_append, splitWhere, if_neg (by simp [h c List.mem_cons_self]),
      ih fun d hd => h d (List.mem_cons_of_mem _ hd)]
    cases hrest : splitWhere p rest with
    | nil => exact absurd hrest (splitWhere_ne_nil _ _)
    | cons first others => rfl

/-! ## Lines -/

theorem notMem_of_mem_lines {s line : Text} (h : line ∈ lines s) : '\n' ∉ line := by
  have hall : ∀ piece ∈ splitAt '\n' s, '\n' ∉ piece := fun piece hpiece =>
    notMem_of_mem_splitAt hpiece
  unfold lines at h
  generalize splitAt '\n' s = pieces at h hall
  induction pieces with
  | nil => cases h
  | cons piece pieces ih =>
    have hfirst := hall piece List.mem_cons_self
    cases pieces with
    | nil =>
      obtain rfl := List.mem_singleton.1 h
      exact hfirst
    | cons next pieces =>
      rcases List.mem_cons.1 h with rfl | h
      · split
        · exact fun hmem => hfirst ((List.dropLast_sublist _).mem hmem)
        · exact hfirst
      · exact ih h fun other hother => hall other (List.mem_cons_of_mem _ hother)

theorem splitAt_of_notMem {separator : Char} {s : Text} (h : separator ∉ s) :
    splitAt separator s = [s] := by
  refine splitWhere_of_forall fun c hc => ?_
  simp only [beq_eq_false_iff_ne]
  rintro rfl
  exact h hc

theorem lines_of_notMem {s : Text} (h : '\n' ∉ s) : lines s = [s] := by
  rw [lines, splitAt_of_notMem h, lines.go]

theorem lines_append_cons {s : Text} (h : s.getLast? ≠ some '\r') (more : Text) :
    lines (s ++ '\n' :: more) = lines s ++ lines more := by
  have hgo : ∀ pieces : List Text, pieces ≠ [] → (join ['\n'] pieces).getLast? ≠ some '\r' →
      ∀ rest : List Text, rest ≠ [] →
      lines.go (pieces ++ rest) = lines.go pieces ++ lines.go rest := by
    intro pieces hne hlast rest hrest
    induction pieces with
    | nil => exact absurd rfl hne
    | cons piece pieces ih =>
      cases pieces with
      | nil =>
        obtain ⟨first, others, rfl⟩ := List.exists_cons_of_ne_nil hrest
        have hpiece : (piece.getLast? == some '\r') = false := by simpa [join] using hlast
        simp [lines.go, hpiece]
      | cons next pieces =>
        have hnext : (join ['\n'] (next :: pieces)).getLast? ≠ some '\r' := by
          intro hnext
          refine hlast ?_
          show (piece ++ ['\n'] ++ join ['\n'] (next :: pieces)).getLast? = _
          rw [List.getLast?_append, hnext]
          rfl
        exact congrArg (List.cons _) (ih (List.cons_ne_nil _ _) hnext)
  rw [lines, splitAt, splitWhere_append_cons (by decide)]
  exact hgo _ (splitWhere_ne_nil _ _) (by rwa [← splitAt, join_splitAt]) _ (splitWhere_ne_nil _ _)

theorem prefix_join (separator part : Text) (parts : List Text) :
    part <+: join separator (part :: parts) := by
  cases parts with
  | nil => exact List.prefix_rfl
  | cons next parts =>
    exact ⟨separator ++ join separator (next :: parts), by rw [← List.append_assoc]; rfl⟩

theorem splitAt_join {separator : Char} {parts : List Text} (hne : parts ≠ [])
    (h : ∀ part ∈ parts, separator ∉ part) :
    splitAt separator (join [separator] parts) = parts := by
  induction parts with
  | nil => exact absurd rfl hne
  | cons part parts ih =>
    have hfirst := splitAt_of_notMem (h part List.mem_cons_self)
    cases parts with
    | nil => exact hfirst
    | cons next parts =>
      have hrest := ih (List.cons_ne_nil _ _) fun other hother =>
        h other (List.mem_cons_of_mem _ hother)
      have hjoin : join [separator] (part :: next :: parts) = part ++ separator ::
          join [separator] (next :: parts) := by simp [join]
      rw [splitAt] at hfirst hrest ⊢
      rw [hjoin, splitWhere_append_cons (by simp), hfirst, hrest]
      rfl

theorem exists_splitAt_cons (separator : Char) (s : Text) :
    ∃ others, splitAt separator s = s.takeWhile (· != separator) :: others := by
  induction s with
  | nil => exact ⟨[], rfl⟩
  | cons c s ih =>
    obtain ⟨others, hsplit⟩ := ih
    rw [splitAt] at hsplit ⊢
    by_cases hc : c = separator
    · exact ⟨splitWhere (· == separator) s, by simp [splitWhere, hc]⟩
    · exact ⟨others, by simp [splitWhere, hc, hsplit]⟩

/-! ## Trimmed texts -/

/-- The text has a first and a last character, and neither is a blank. -/
structure IsTrimmed (s : Text) : Prop where
  ne_nil : s ≠ []
  head : ∀ c, s.head? = some c → isBlank c = false
  last : ∀ c, s.getLast? = some c → isBlank c = false

theorem trimStart_eq_self {s : Text} (h : ∀ c, s.head? = some c → isBlank c = false) :
    trimStart s = s := by
  cases s with
  | nil => rfl
  | cons c rest => exact List.dropWhile_cons_of_neg (by simp [h c rfl])

theorem trimEnd_eq_self {s : Text} (h : ∀ c, s.getLast? = some c → isBlank c = false) :
    trimEnd s = s := by
  have hreverse : s.reverse.dropWhile isBlank = s.reverse := trimStart_eq_self fun c hc =>
    h c (by rwa [List.head?_reverse] at hc)
  rw [trimEnd, trimEndWhere, hreverse, List.reverse_reverse]

theorem exists_trimEnd_append (s : Text) : ∃ ends, (∀ c ∈ ends, isBlank c = true) ∧
    s = trimEnd s ++ ends := by
  refine ⟨(s.reverse.takeWhile isBlank).reverse,
    fun c hc => forall_mem_takeWhile isBlank _ c (List.mem_reverse.1 hc), ?_⟩
  rw [trimEnd, trimEndWhere, ← List.reverse_append, List.takeWhile_append_dropWhile,
    List.reverse_reverse]

theorem trimEnd_append {s t : Text} (h : trimEnd t ≠ []) : trimEnd (s ++ t) = s ++ trimEnd t := by
  have hleft : ¬(t.reverse.dropWhile isBlank).isEmpty = true := by
    simpa [trimEnd, trimEndWhere] using h
  rw [trimEnd, trimEndWhere, List.reverse_append, List.dropWhile_append, if_neg hleft,
    List.reverse_append, List.reverse_reverse]
  rfl

theorem trimEnd_prefix_append (s t : Text) : trimEnd s <+: trimEnd (s ++ t) := by
  by_cases h : trimEnd t = []
  · have hempty : (t.reverse.dropWhile isBlank).isEmpty = true := by
      simpa [trimEnd, trimEndWhere] using h
    have hsame : trimEnd (s ++ t) = trimEnd s := by
      unfold trimEnd trimEndWhere
      rw [List.reverse_append, List.dropWhile_append, if_pos hempty]
    exact hsame ▸ List.prefix_rfl
  · obtain ⟨ends, -, hends⟩ := exists_trimEnd_append s
    rw [trimEnd_append h]
    exact ⟨ends ++ trimEnd t, by rw [← List.append_assoc, ← hends]⟩

theorem IsTrimmed.trim_eq {s : Text} (h : IsTrimmed s) : trim s = s := by
  rw [trim, trimStart_eq_self h.head, trimEnd_eq_self h.last]

theorem isTrimmed_of_forall {s : Text} (hne : s ≠ []) (h : ∀ c ∈ s, isBlank c = false) :
    IsTrimmed s :=
  ⟨hne, fun c hc => h c (List.mem_of_head? hc), fun c hc => h c (List.mem_of_getLast? hc)⟩

theorem isTrimmed_trim {s : Text} (hne : trim s ≠ []) : IsTrimmed (trim s) := by
  have hlast : ∀ (t : Text) (c : Char), (trimEnd t).getLast? = some c → isBlank c = false := by
    intro t c hc
    rw [trimEnd, trimEndWhere, List.getLast?_reverse] at hc
    simpa [hc] using List.head?_dropWhile_not isBlank t.reverse
  refine ⟨hne, fun c hc => ?_, fun c hc => hlast _ c hc⟩
  obtain ⟨rest, hrest⟩ := isPrefix_trim s
  have hhead : (trimStart s).head? = some c := by
    rw [← hrest, List.head?_append, hc]
    rfl
  rw [trimStart] at hhead
  simpa [hhead] using List.head?_dropWhile_not isBlank s

theorem trim_trim (s : Text) : trim (trim s) = trim s := by
  by_cases hne : trim s = []
  · rw [hne]
    rfl
  · exact (isTrimmed_trim hne).trim_eq

theorem IsTrimmed.append {s t : Text} (hs : IsTrimmed s) (ht : IsTrimmed t) (middle : Text) :
    IsTrimmed (s ++ middle ++ t) := by
  refine ⟨by simp [hs.ne_nil], fun c hc => hs.head c ?_, fun c hc => ht.last c ?_⟩
  · simpa [hs.ne_nil] using hc
  · simpa [ht.ne_nil] using hc

theorem isTrimmed_join {parts : List Text} (hne : parts ≠ []) (h : ∀ part ∈ parts, IsTrimmed part) :
    IsTrimmed (join [' '] parts) := by
  induction parts with
  | nil => exact absurd rfl hne
  | cons part parts ih =>
    have hfirst := h part List.mem_cons_self
    cases parts with
    | nil => exact hfirst
    | cons next parts =>
      exact hfirst.append (ih (by simp) fun other hother => h other (List.mem_cons_of_mem _ hother))
        [' ']

theorem notMem_join {separator : Text} {parts : List Text} {c : Char} (hc : c ∉ separator)
    (h : ∀ part ∈ parts, c ∉ part) :
    c ∉ join separator parts := by
  induction parts with
  | nil => exact List.not_mem_nil
  | cons part parts ih =>
    have hfirst := h part List.mem_cons_self
    cases parts with
    | nil => exact hfirst
    | cons next parts =>
      have hrest := ih fun other hother => h other (List.mem_cons_of_mem _ hother)
      simp [join, hfirst, hc, hrest]

theorem squeeze_eq_nil_or (s : Text) : squeeze s = [] ∨ IsTrimmed (squeeze s) := by
  by_cases hwords : words s = []
  · rw [squeeze, hwords]
    exact .inl rfl
  · exact .inr (isTrimmed_join hwords fun word hword =>
      isTrimmed_of_forall (mem_words hword).1 (mem_words hword).2)

theorem mem_of_mem_splitWhere {p : Char → Bool} {s piece : Text} (h : piece ∈ splitWhere p s)
    {c : Char} (hc : c ∈ piece) : c ∈ s := by
  induction s generalizing piece with
  | nil =>
    obtain rfl := List.mem_singleton.1 h
    exact hc
  | cons d rest ih =>
    unfold splitWhere at h
    split at h
    · rcases List.mem_cons.1 h with rfl | h
      · cases hc
      · exact List.mem_cons_of_mem _ (ih h hc)
    · split at h
      · rename_i hs
        exact absurd hs (splitWhere_ne_nil p rest)
      · rename_i first others hs
        rcases List.mem_cons.1 h with rfl | h
        · rcases List.mem_cons.1 hc with rfl | hc
          · exact List.mem_cons_self
          · exact List.mem_cons_of_mem _ (ih (hs ▸ List.mem_cons_self) hc)
        · exact List.mem_cons_of_mem _ (ih (hs ▸ List.mem_cons_of_mem _ h) hc)

theorem mem_of_mem_squeeze {s : Text} {c : Char} (hspace : c ≠ ' ')
    (hc : c ∈ squeeze s) : c ∈ s := by
  by_contra hnot
  refine notMem_join (by simpa using hspace) (fun word hword hmem => hnot ?_) hc
  exact mem_of_mem_splitWhere (List.mem_filter.1 hword).1 hmem

theorem notMem_squeeze {c : Char} (hblank : isBlank c = true) (hc : c ≠ ' ') (s : Text) :
    c ∉ squeeze s :=
  notMem_join (by simpa using hc) fun word hword hmem =>
    absurd ((mem_words hword).2 c hmem) (by simp [hblank])

/-! ## Characters that stay -/

theorem mem_trim {s : Text} {c : Char} (hc : isBlank c = false) (h : c ∈ s) : c ∈ trim s := by
  have hno : ∀ {blanks : Text}, (∀ d ∈ blanks, isBlank d = true) → c ∉ blanks :=
      fun hblanks hmem => by
    rw [hblanks c hmem] at hc
    cases hc
  obtain ⟨ends, hends, hsplit⟩ := exists_trimEnd_append (trimStart s)
  rw [← List.takeWhile_append_dropWhile (p := isBlank) (l := s), List.mem_append] at h
  have hstart : c ∈ trimStart s := h.resolve_left (hno (forall_mem_takeWhile isBlank s))
  rw [hsplit, List.mem_append] at hstart
  exact hstart.resolve_right (hno hends)

theorem exists_mem_splitWhere {p : Char → Bool} {s : Text} {c : Char} (hc : p c = false)
    (h : c ∈ s) : ∃ piece ∈ splitWhere p s, c ∈ piece := by
  induction s with
  | nil => cases h
  | cons d rest ih =>
    unfold splitWhere
    split
    · rename_i hd
      have hrest : c ∈ rest :=
        (List.mem_cons.1 h).resolve_left fun heq => by rw [heq, hd] at hc; cases hc
      obtain ⟨piece, hpiece, hmem⟩ := ih hrest
      exact ⟨piece, List.mem_cons_of_mem _ hpiece, hmem⟩
    · split
      · rename_i hs
        exact absurd hs (splitWhere_ne_nil p rest)
      · rename_i first others hs
        rcases List.mem_cons.1 h with rfl | h
        · exact ⟨c :: first, List.mem_cons_self, List.mem_cons_self⟩
        · obtain ⟨piece, hpiece, hmem⟩ := ih h
          rw [hs] at hpiece
          rcases List.mem_cons.1 hpiece with rfl | hpiece
          · exact ⟨d :: piece, List.mem_cons_self, List.mem_cons_of_mem _ hmem⟩
          · exact ⟨piece, List.mem_cons_of_mem _ hpiece, hmem⟩

theorem mem_join_of_mem {separator part : Text} {parts : List Text} {c : Char}
    (hpart : part ∈ parts) (hc : c ∈ part) : c ∈ join separator parts := by
  induction parts with
  | nil => cases hpart
  | cons first parts ih =>
    cases parts with
    | nil => exact List.mem_singleton.1 hpart ▸ hc
    | cons next parts =>
      rw [join, List.mem_append]
      · rcases List.mem_cons.1 hpart with rfl | hpart
        · exact .inl (List.mem_append_left _ hc)
        · exact .inr (ih hpart)
      · exact List.cons_ne_nil _ _

theorem mem_squeeze {s : Text} {c : Char} (hc : isBlank c = false) (h : c ∈ s) : c ∈ squeeze s := by
  obtain ⟨piece, hpiece, hmem⟩ := exists_mem_splitWhere hc h
  exact mem_join_of_mem (List.mem_filter.2 ⟨hpiece, by simpa using List.ne_nil_of_mem hmem⟩) hmem

/-! ## Lower case -/

theorem lower_cons {c : Char} {rest : Text} (hI : c ≠ 'İ') (hSigma : c ≠ 'Σ') :
    ∃ lowered, lower (c :: rest) = lowerChar c :: lowered := by
  refine ⟨lowerAfter [c] rest, ?_⟩
  simp [lower, lowerAfter, hI, hSigma]

theorem mem_lower {c : Char} {s : Text} (hI : c ≠ 'İ') (hSigma : c ≠ 'Σ') (hc : c ∈ s) :
    lowerChar c ∈ lower s := by
  unfold lower
  generalize [] = before
  induction s generalizing before with
  | nil => cases hc
  | cons d rest ih =>
    rw [lowerAfter, List.mem_append]
    rcases List.mem_cons.1 hc with rfl | hc
    · exact .inl (by simp [hI, hSigma])
    · exact .inr (ih hc _)

/-- What lower-casing gives or leaves where it does not go character by character. -/
def isForeign (c : Char) : Bool :=
  ['\u0307', 'σ', 'ς', 'İ'].contains c

theorem lowerAfter_eq_map {before s : Text} (h : ∀ c ∈ lowerAfter before s, isForeign c = false) :
    lowerAfter before s = s.map lowerChar := by
  induction s generalizing before with
  | nil => rfl
  | cons c s ih =>
    rw [lowerAfter] at h ⊢
    split at h
    · cases h '\u0307' (by simp)
    · split at h
      · next hc =>
        exfalso
        split at h
        · cases h 'ς' (by simp)
        · cases h 'σ' (by simp)
      · next hdotted hsigma =>
        rw [if_neg hdotted, if_neg hsigma, ih fun d hd => h d (List.mem_append_right _ hd)]
        rfl

theorem lowerAfter_of_map {before s : Text} (h : ∀ c ∈ s.map lowerChar, isForeign c = false) :
    lowerAfter before s = s.map lowerChar := by
  induction s generalizing before with
  | nil => rfl
  | cons c s ih =>
    have hc := h (lowerChar c) List.mem_cons_self
    have hdotted : ¬(c == 'İ') = true := by
      intro heq
      rw [beq_iff_eq.1 heq] at hc
      revert hc
      decide +kernel
    have hsigma : ¬(c == 'Σ') = true := by
      intro heq
      rw [beq_iff_eq.1 heq] at hc
      revert hc
      decide +kernel
    rw [lowerAfter, if_neg hdotted, if_neg hsigma, ih fun d hd => h d (List.mem_cons_of_mem _ hd)]
    rfl

/-! ## Numbers -/

theorem isDigit_of_mem_ofNat {n : Nat} {c : Char} (h : c ∈ ofNat n) : c.isDigit = true :=
  Nat.isDigit_of_mem_toDigits (by omega) (by omega) h

theorem ofNat_inj {m n : Nat} (h : ofNat m = ofNat n) : m = n := by
  have hread := congrArg (fun digits => Nat.ofDigitChars 10 digits 0) h
  simpa only [ofNat, Nat.ofDigitChars_ten_toDigits] using hread

theorem ofNat_ne_nil (n : Nat) : ofNat n ≠ [] :=
  Nat.toDigits_ne_nil

theorem forall_digit {P : Char → Prop} (h : ∀ c ∈ "0123456789".toList, P c) {c : Char}
    (hc : c.isDigit = true) : P c := by
  refine h c ?_
  have hrange : 48 ≤ c.toNat ∧ c.toNat ≤ 57 := by
    simp only [Char.isDigit, Bool.and_eq_true, decide_eq_true_eq, UInt32.le_iff_toNat_le] at hc
    exact hc
  rw [← Char.ofNat_toNat c]
  generalize c.toNat = n at hrange
  have hall : ∀ n < 58, 48 ≤ n → Char.ofNat n ∈ "0123456789".toList := by decide
  exact hall n (by omega) hrange.1

theorem forall_decimal {p : Char → Bool}
    (h : ∀ start ∈ zeros, ∀ k < 10, p (Char.ofNat (start + k)) = true) {c : Char}
    (hc : isDecimal c = true) :
    p c = true := by
  obtain ⟨n, hn⟩ := Option.isSome_iff_exists.1 hc
  simp only [digitValue?, Option.map_eq_some_iff] at hn
  obtain ⟨start, hstart, -⟩ := hn
  have hmem := List.mem_of_find?_eq_some hstart
  have hrange := List.find?_some hstart
  simp only [Bool.and_eq_true, decide_eq_true_eq] at hrange
  have hfound := h start hmem (c.toNat - start) (by omega)
  have hsum : start + (c.toNat - start) = c.toNat := by omega
  rwa [hsum, Char.ofNat_toNat] at hfound

theorem forall_blank {p : Char → Bool}
    (hascii : ∀ n < 128, isBlank (Char.ofNat n) = true → p (Char.ofNat n) = true)
    (hbeyond : ∀ range ∈ blankRanges, ∀ k ≤ range.2 - range.1, p (Char.ofNat (range.1 + k)) = true)
    {c : Char} (hc : isBlank c = true) : p c = true := by
  rw [← Char.ofNat_toNat c]
  by_cases hsmall : c.toNat < 128
  · exact hascii _ hsmall (by rwa [Char.ofNat_toNat])
  · simp only [isBlank, inClass, hsmall, if_false, Ranges.has, List.any_eq_true, Bool.and_eq_true,
      decide_eq_true_eq] at hc
    obtain ⟨range, hrange, hlow, hhigh⟩ := hc
    have hfound := hbeyond range hrange (c.toNat - range.1) (by omega)
    have hsum : range.1 + (c.toNat - range.1) = c.toNat := by omega
    rwa [hsum] at hfound

theorem isDecimal_of_isDigit {c : Char} (h : c.isDigit = true) :
    isDecimal c = true ∧ digitValue? c = some (c.toNat - 48) :=
  forall_digit (P := fun c => isDecimal c = true ∧ digitValue? c = some (c.toNat - 48)) (by decide) h

theorem isBlank_of_isDigit {c : Char} (h : c.isDigit = true) : isBlank c = false :=
  forall_digit (P := fun c => isBlank c = false) (by decide) h

theorem lower_digit {c : Char} {rest : Text} (h : c.isDigit = true) :
    ∃ lowered, lower (c :: rest) = c :: lowered := by
  obtain ⟨hI, hSigma, hlower⟩ :=
    forall_digit (P := fun c => c ≠ 'İ' ∧ c ≠ 'Σ' ∧ lowerChar c = c) (by decide) h
  obtain ⟨lowered, hlowered⟩ := @lower_cons c rest hI hSigma
  exact ⟨lowered, by rw [hlowered, hlower]⟩

theorem digitsValue_lt (s : Text) : digitsValue s < 10 ^ s.length := by
  -- the digits read so far stand before the rest
  suffices h : digitsValue s < (0 + 1) * 10 ^ s.length by rwa [Nat.zero_add, Nat.one_mul] at h
  unfold digitsValue
  generalize 0 = start
  induction s generalizing start with
  | nil => simp
  | cons c rest ih =>
    rw [List.foldl_cons, List.length_cons, Nat.pow_succ]
    refine Nat.lt_of_lt_of_le (ih _) ?_
    rw [Nat.mul_comm (10 ^ rest.length) 10, ← Nat.mul_assoc]
    refine Nat.mul_le_mul_right _ ?_
    split
    · rename_i d hd
      have hlt := digitValue?_lt hd
      show 10 * start + d + 1 ≤ (start + 1) * 10
      omega
    · omega

theorem readNat?_eq_some {s : Text} {n : Nat} (h : readNat? s = some n) :
    s.length ≤ digitLimit ∧ n = digitsValue s := by
  simp only [readNat?, Option.ite_none_right_eq_some, Bool.and_eq_true, decide_eq_true_eq,
    Option.some.injEq] at h
  exact ⟨h.1.2, h.2.symm⟩

theorem digitsValue_of_isDigit {s : Text} (h : ∀ c ∈ s, c.isDigit = true) :
    digitsValue s = Nat.ofDigitChars 10 s 0 := by
  unfold digitsValue
  generalize 0 = start
  induction s generalizing start with
  | nil => simp
  | cons c rest ih =>
    rw [List.foldl_cons, Nat.ofDigitChars_cons, (isDecimal_of_isDigit (h c List.mem_cons_self)).2]
    exact ih (fun d hd => h d (List.mem_cons_of_mem _ hd)) _

theorem isDigit_of_mem_padNat {width n : Nat} {c : Char} (h : c ∈ padNat width n) :
    c.isDigit = true := by
  rcases List.mem_append.1 h with hzero | hdigit
  · rw [List.eq_of_mem_replicate hzero]
    rfl
  · exact isDigit_of_mem_ofNat hdigit

theorem digitsValue_padNat (width n : Nat) : digitsValue (padNat width n) = n := by
  rw [digitsValue_of_isDigit fun c hc => isDigit_of_mem_padNat hc, padNat, Nat.ofDigitChars_append,
    Nat.ofDigitChars_replicate_zero, Nat.mul_zero, ofNat, Nat.ofDigitChars_ten_toDigits]

theorem digitsValue_ofNat (n : Nat) : digitsValue (ofNat n) = n := by
  rw [digitsValue_of_isDigit fun c hc => isDigit_of_mem_ofNat hc, ofNat, Nat.ofDigitChars_ten_toDigits]

theorem length_ofNat_le_iff {width n : Nat} (h : 0 < width) :
    (ofNat n).length ≤ width ↔ n < 10 ^ width :=
  Nat.length_toDigits_le_iff (by omega) h

theorem length_padNat {width n : Nat} (hwidth : 0 < width) (h : n < 10 ^ width) :
    (padNat width n).length = width := by
  have hle := (length_ofNat_le_iff hwidth).2 h
  rw [padNat, List.length_append, List.length_replicate]
  omega

theorem readNat?_ofNat {n : Nat} (h : (ofNat n).length ≤ digitLimit) :
    readNat? (ofNat n) = some n := by
  have hempty : (ofNat n).isEmpty = false := by simp [ofNat_ne_nil]
  have hdecimal : (ofNat n).all isDecimal = true :=
    List.all_eq_true.2 fun c hc => (isDecimal_of_isDigit (isDigit_of_mem_ofNat hc)).1
  simp [readNat?, hempty, hdecimal, h, digitsValue_ofNat]

end Checklist.Text
