import Checklist.Proofs.Value.Entries
import Checklist.Proofs.Value.Faithful

/-! # Values are read back from JSON

Words, integers, strings, lists and objects of such values are read from the text that is written
for them, as long as their keys are not sorted. Main statements: a value is read whatever ends it
(`reads_writeAt`), and so a text that holds nothing else is that value (`read_writeAt`). -/

namespace Checklist.Json
set_option autoImplicit false
open Text

/-! ## Numbers -/

/-- The text ends, or the value in front of it does. -/
def Ends (rest : Text) : Prop :=
  ∀ c, rest.head? = some c → isSpace c = true ∨ c ∈ [',', ']', '\x7d']

theorem Ends.head_ne {rest tail : Text} {c : Char} (h : Ends rest)
    (hc : ¬(isSpace c = true ∨ c ∈ [',', ']', '\x7d'])) : rest ≠ c :: tail := by
  rintro rfl
  exact hc (h c rfl)

theorem Ends.isDigit_eq_false {rest : Text} (h : Ends rest) (c : Char) (hc : rest.head? = some c) :
    isDigit c = false := by
  rcases h c hc with hspace | hmem
  · simp only [isSpace, Bool.or_eq_true, beq_iff_eq] at hspace
    rcases hspace with ((rfl | rfl) | rfl) | rfl <;> decide
  · have hall : ∀ c ∈ [',', ']', '\x7d'], isDigit c = false := by decide
    exact hall c hmem

theorem isDigit_ofNat {n : Nat} : ∀ c ∈ ofNat n, isDigit c = true :=
  fun _ hc => forall_digit (P := fun c => isDigit c = true) (by decide) (isDigit_of_mem_ofNat hc)

theorem head_ofNat_ne_zero {n : Nat} (h : n ≠ 0) : (ofNat n).head? ≠ some '0' := by
  induction n using Nat.strong_induction_on with
  | _ n ih =>
    by_cases hsmall : n < 10
    · have hall : ∀ n < 10, n ≠ 0 → [n.digitChar].head? ≠ some '0' := by decide
      rw [ofNat, Nat.toDigits_of_lt_base hsmall]
      exact hall n hsmall h
    · have hhead := ih (n / 10) (by omega) (by omega)
      have hne := ofNat_ne_nil (n / 10)
      rw [ofNat] at hhead hne
      rwa [ofNat, Nat.toDigits_of_base_le (by omega) (by omega), List.head?_append_of_ne_nil _ hne]

theorem whole?_ofNat (n : Nat) {rest : Text} (hrest : Ends rest) :
    whole? (ofNat n ++ rest) = some (ofNat n, rest) := by
  by_cases hzero : n = 0
  · subst hzero
    rfl
  · have htake := takeWhile_append_of_stop (@isDigit_ofNat n) hrest.isDigit_eq_false
    have hdrop := dropWhile_append_of_stop (@isDigit_ofNat n) hrest.isDigit_eq_false
    unfold whole?
    split
    · next tail heq =>
      have hhead := head_ofNat_ne_zero hzero
      rw [← List.head?_append_of_ne_nil _ (ofNat_ne_nil n), heq] at hhead
      exact absurd rfl hhead
    · rw [htake, hdrop, if_neg (by simp [ofNat_ne_nil])]

theorem fraction_of_ends {rest : Text} (h : Ends rest) : fraction rest = ([], rest) := by
  unfold fraction
  split
  · exact absurd rfl (h.head_ne (by decide))
  · rfl

theorem exponent?_of_ends {rest : Text} (h : Ends rest) : exponent? rest = (none, rest) := by
  unfold exponent?
  split
  · next mark tail =>
    have hmark : (mark == 'e' || mark == 'E') = false := by
      rw [Bool.or_eq_false_iff, beq_eq_false_iff_ne, beq_eq_false_iff_ne]
      exact ⟨fun heq => absurd rfl (h.head_ne (heq ▸ by decide)),
        fun heq => absurd rfl (h.head_ne (heq ▸ by decide))⟩
    simp [hmark]
  · rfl

theorem number_digits {n : Nat} (h : (ofNat n).length ≤ digitLimit)
    {rest : Text} (hrest : Ends rest) :
    number (ofNat n ++ rest) = .ok (.int n, rest) ∧
      number ('-' :: (ofNat n ++ rest)) = .ok (.int (-n), rest) := by
  have hlimit : ¬digitLimit < (ofNat n).length := Nat.not_lt.2 h
  have hsign : ∀ tail, ofNat n ++ rest ≠ '-' :: tail := by
    intro tail heq
    obtain ⟨c, digits, hn⟩ := List.exists_cons_of_ne_nil (ofNat_ne_nil n)
    have hc := @isDigit_ofNat n c (by rw [hn]; exact List.mem_cons_self)
    rw [hn, List.cons_append] at heq
    rw [(List.cons.inj heq).1] at hc
    exact absurd hc (by decide)
  constructor
  · unfold number
    split
    next negative unsigned hunsigned =>
    split at hunsigned
    · next tail heq => exact absurd heq (hsign tail)
    · cases hunsigned
      simp [whole?_ofNat n hrest, fraction_of_ends hrest, exponent?_of_ends hrest,
        digitsValue_ofNat, hlimit]
  · unfold number
    simp [whole?_ofNat n hrest, fraction_of_ends hrest, exponent?_of_ends hrest,
      digitsValue_ofNat, hlimit]

theorem number_ofInt {n : Int} (h : (ofNat n.natAbs).length ≤ digitLimit)
    {rest : Text} (hrest : Ends rest) :
    number (ofInt n ++ rest) = .ok (.int n, rest) := by
  cases n with
  | ofNat n => exact (number_digits h hrest).1
  | negSucc n => exact (number_digits h hrest).2

/-! ## Words and strings -/

theorem value_of_bare {fuel : Nat} {c : Char} {s : Text} (hc : c ∉ ['"', '[', '\x7b']) :
    value (fuel + 1) (c :: s) = match word? (c :: s) with
      | some found => .ok found
      | none => number (c :: s) := by
  simp only [List.mem_cons, List.not_mem_nil, or_false, not_or] at hc
  unfold value
  split
  · next heq => exact absurd (List.cons.inj heq).1 hc.1
  · next heq => exact absurd (List.cons.inj heq).1 hc.2.1
  · next heq => exact absurd (List.cons.inj heq).1 hc.2.2
  · rfl

theorem word?_of_isDigit {c : Char} {s : Text} (hc : isDigit c = true) :
    word? (c :: s) = none ∧ word? ('-' :: c :: s) = none := by
  have hdigit : c.isDigit = true := by
    simpa [isDigit, Char.isDigit, UInt32.le_iff_toNat_le, Char.le_def] using hc
  obtain ⟨hn, ht, hf, hN, hI, hminus⟩ :=
    forall_digit (P := fun c => c ≠ 'n' ∧ c ≠ 't' ∧ c ≠ 'f' ∧ c ≠ 'N' ∧ c ≠ 'I' ∧
      c ≠ '-') (by decide) hdigit
  simp [word?, wordValues, List.isPrefixOf, Ne.symm hn, Ne.symm ht, Ne.symm hf, Ne.symm hN,
    Ne.symm hI, Ne.symm hminus]

theorem value_ofInt {n : Int} (h : (ofNat n.natAbs).length ≤ digitLimit) {rest : Text}
    (hrest : Ends rest) (fuel : Nat) :
    value (fuel + 1) (ofInt n ++ rest) = .ok (.int n, rest) := by
  have hnumber := number_ofInt h hrest
  have hfirst : ∀ m, ∃ c digits, ofNat m = c :: digits ∧ isDigit c = true := by
    intro m
    obtain ⟨c, digits, hm⟩ := List.exists_cons_of_ne_nil (ofNat_ne_nil m)
    exact ⟨c, digits, hm, isDigit_ofNat c (by rw [hm]; exact List.mem_cons_self)⟩
  have hbare : ∀ c, isDigit c = true → c ∉ ['"', '[', '\x7b'] := by
    rintro c hc hmem
    have hall : ∀ c ∈ ['"', '[', '\x7b'], isDigit c = false := by decide
    exact absurd hc (by simp [hall c hmem])
  cases n with
  | ofNat m =>
    obtain ⟨c, digits, hm, hc⟩ := hfirst m
    rw [ofInt, hm, List.cons_append] at hnumber ⊢
    rw [value_of_bare (hbare c hc), (word?_of_isDigit hc).1, hnumber]
  | negSucc m =>
    obtain ⟨c, digits, hm, hc⟩ := hfirst (m + 1)
    rw [ofInt, hm, List.cons_append, List.cons_append] at hnumber ⊢
    rw [value_of_bare (by decide), (word?_of_isDigit hc).2, hnumber]

theorem length_le_flatMap (style : Style) (s : Text) :
    s.length ≤ (s.flatMap (writeChar style)).length := by
  induction s with
  | nil => exact Nat.le_refl _
  | cons c s ih =>
    have hne : writeChar style c ≠ [] := by
      intro h
      have hread := string?_writeChar style 1 c ['"']
      rw [h] at hread
      simp [string?] at hread
    have hpos := List.length_pos_iff.2 hne
    rw [List.flatMap_cons, List.length_append, List.length_cons]
    omega

theorem string?_writeText (style : Style) (s rest : Text) :
    ∃ inner, writeText style s ++ rest = '"' :: inner ∧
      string? (inner.length + 1) inner = some (s, rest) := by
  refine ⟨s.flatMap (writeChar style) ++ '"' :: rest, by simp [writeText], string?_flatMap ?_ rest⟩
  have hle := length_le_flatMap style s
  rw [List.length_append]
  omega

theorem value_writeText (style : Style) (s rest : Text) (fuel : Nat) :
    value (fuel + 1) (writeText style s ++ rest) = .ok (.str s, rest) := by
  obtain ⟨inner, htext, hread⟩ := string?_writeText style s rest
  rw [htext, value]
  simp only [hread]

/-! ## Items and members -/

/-- The value is read from the text whatever ends it, and nothing is skipped in front of it. -/
structure Reads (v : Value) (s : Text) : Prop where
  starts : ∃ c rest, s = c :: rest ∧ isSpace c = false ∧ c ≠ ']'
  value_eq : ∀ fuel rest, s.length ≤ fuel → Ends rest → value fuel (s ++ rest) = .ok (v, rest)

theorem reads_of_succ {v : Value} {s : Text}
    (hstarts : ∃ c rest, s = c :: rest ∧ isSpace c = false ∧ c ≠ ']')
    (h : ∀ fuel rest, Ends rest → value (fuel + 1) (s ++ rest) = .ok (v, rest)) : Reads v s := by
  refine ⟨hstarts, fun fuel rest hfuel hrest => ?_⟩
  obtain ⟨c, tail, rfl, -⟩ := hstarts
  obtain ⟨fuel, rfl⟩ : ∃ n, fuel = n + 1 := ⟨fuel - 1, by rw [List.length_cons] at hfuel; omega⟩
  exact h fuel rest hrest

theorem skip_append {gap : Text} (hgap : ∀ c ∈ gap, isSpace c = true) {c : Char}
    (hc : isSpace c = false) (s : Text) :
    skip (gap ++ c :: s) = c :: s :=
  dropWhile_append_cons hgap hc

theorem skip_cons {c : Char} (hc : isSpace c = false) (s : Text) : skip (c :: s) = c :: s :=
  @skip_append [] (by simp) c hc s

theorem ends_append {gap : Text} (hgap : ∀ c ∈ gap, isSpace c = true) {c : Char}
    (hc : c ∈ [',', ']', '\x7d']) (s : Text) :
    Ends (gap ++ c :: s) := by
  intro d hd
  cases gap with
  | nil =>
    cases hd
    exact .inr hc
  | cons space gap =>
    cases hd
    exact .inl (hgap _ List.mem_cons_self)

theorem ends_cons {c : Char} (hc : c ∈ [',', ']', '\x7d']) (s : Text) : Ends (c :: s) :=
  @ends_append [] (by simp) c hc s

variable {style : Style} {others : Value → Text} {between after : Text}

/-- The parts of a list or an object in front of its closing bracket, with gaps between them. -/
def enclosed (between after : Text) (closing : Char) (rest : Text) (parts : List Text) : Text :=
  join (',' :: between) parts ++ (after ++ closing :: rest)

theorem enclosed_cons_cons (closing : Char) (rest part next : Text) (parts : List Text) :
    enclosed between after closing rest (part :: next :: parts) =
      part ++ (',' :: (between ++ enclosed between after closing rest (next :: parts))) := by
  simp [enclosed, join]

theorem length_join_cons_cons (part next : Text) (parts : List Text) :
    (join (',' :: between) (part :: next :: parts)).length = part.length + between.length + 1 +
      (join (',' :: between) (next :: parts)).length := by
  simp only [join, List.length_append, List.length_cons]
  omega

theorem exists_enclosed_cons (closing : Char) (rest : Text) (c : Char)
    (tail : Text) (parts : List Text) :
    ∃ more, enclosed between after closing rest ((c :: tail) :: parts) = c :: more := by
  cases parts <;> exact ⟨_, rfl⟩

theorem skip_enclosed {gap : Text} (hgap : ∀ c ∈ gap, isSpace c = true) {c : Char}
    (hc : isSpace c = false) (closing : Char) (rest tail : Text) (parts : List Text) :
    skip (gap ++ enclosed between after closing rest ((c :: tail) :: parts)) =
      enclosed between after closing rest ((c :: tail) :: parts) := by
  obtain ⟨more, hmore⟩ := @exists_enclosed_cons between after closing rest c tail parts
  rw [hmore, skip_append hgap hc]

theorem items_enclosed (hbetween : ∀ c ∈ between, isSpace c = true)
    (hafter : ∀ c ∈ after, isSpace c = true) {values : List Value}
    {parts : List Text} (h : List.Forall₂ Reads values parts) (hne : parts ≠ []) {fuel : Nat}
    (hfuel : (join (',' :: between) parts).length < fuel) (rest : Text) :
    items fuel (enclosed between after ']' rest parts) = .ok (values, rest) := by
  induction h generalizing fuel with
  | nil => exact absurd rfl hne
  | @cons v part values parts hfirst hothers ih =>
    obtain ⟨fuel, rfl⟩ : ∃ n, fuel = n + 1 := ⟨fuel - 1, by omega⟩
    rw [items, Result.bind_eq_ok]
    cases hothers with
    | nil =>
      rw [join] at hfuel
      refine ⟨_, hfirst.value_eq fuel _ (by omega) (ends_append hafter (by decide) rest), ?_⟩
      simp only [skip_append hafter (show isSpace ']' = false by decide)]
      rfl
    | @cons w next values parts hnext hothers =>
      rw [length_join_cons_cons] at hfuel
      have hrest := @ih (by simp) fuel (by omega)
      obtain ⟨c, tail, rfl, hc, -⟩ := hnext.starts
      rw [enclosed_cons_cons]
      refine ⟨_, hfirst.value_eq fuel _ (by omega) (ends_cons (by decide) _), ?_⟩
      simp only [skip_cons (show isSpace ',' = false by decide), skip_enclosed hbetween hc, hrest]
      rfl

/-- A member of an object: the key as a string, and behind a colon the text of its value. -/
structure ReadsMember (style : Style) (entry : Value × Value) (part : Text) : Prop where
  exists_key : ∃ key s, entry.1 = .str key ∧ part = writeText style key ++ ": ".toList ++ s ∧
    Reads entry.2 s

theorem members_member {v : Value} {s tail : Text} {fuel : Nat} (hvalue : Reads v s)
    (hfuel : s.length ≤ fuel) (htail : Ends tail) (key : Text) :
    members (fuel + 1) (writeText style key ++ ": ".toList ++ s ++ tail) = match skip tail with
      | ',' :: rest => do
        let (more, rest) ← members fuel (skip rest)
        return ((.str key, v) :: more, rest)
      | '\x7d' :: rest => return ([(.str key, v)], rest)
      | _ => .error .malformed := by
  obtain ⟨inner, htext, hread⟩ := string?_writeText style key (": ".toList ++ (s ++ tail))
  have hskip : skip (' ' :: (s ++ tail)) = s ++ tail := by
    obtain ⟨c, rest, rfl, hc, -⟩ := hvalue.starts
    exact @skip_append [' '] (by decide) c hc _
  have hcolon : skip (": ".toList ++ (s ++ tail)) = ':' :: ' ' :: (s ++ tail) := rfl
  have hassoc : writeText style key ++ ": ".toList ++ s ++ tail = '"' :: inner := by
    rw [← htext]
    simp only [List.append_assoc]
  rw [hassoc, members]
  simp only [hread, hcolon, hskip, hvalue.value_eq fuel tail hfuel htail]
  rfl

theorem members_enclosed (hbetween : ∀ c ∈ between, isSpace c = true)
    (hafter : ∀ c ∈ after, isSpace c = true) {entries : Entries}
    {parts : List Text} (h : List.Forall₂ (ReadsMember style) entries parts)
    (hne : parts ≠ []) {fuel : Nat}
    (hfuel : (join (',' :: between) parts).length < fuel) (rest : Text) :
    members fuel (enclosed between after '\x7d' rest parts) = .ok (entries, rest) := by
  induction h generalizing fuel with
  | nil => exact absurd rfl hne
  | @cons entry part entries parts hfirst hothers ih =>
    obtain ⟨fuel, rfl⟩ : ∃ n, fuel = n + 1 := ⟨fuel - 1, by omega⟩
    obtain ⟨key, s, hkey, rfl, hvalue⟩ := hfirst.exists_key
    obtain ⟨_, v⟩ := entry
    obtain rfl := hkey
    have hlength : s.length ≤ (writeText style key ++ ": ".toList ++ s).length := by
      rw [List.length_append]
      omega
    cases hothers with
    | nil =>
      rw [join] at hfuel
      rw [enclosed, join, members_member hvalue (by omega) (ends_append hafter (by decide) rest),
        skip_append hafter (show isSpace '\x7d' = false by decide)]
      rfl
    | @cons w next values parts hnext hothers =>
      rw [length_join_cons_cons] at hfuel
      have hrest := @ih (by simp) fuel (by omega)
      obtain ⟨other, t, -, rfl, -⟩ := hnext.exists_key
      rw [enclosed_cons_cons, members_member hvalue (by omega) (ends_cons (by decide) _),
        skip_cons (show isSpace ',' = false by decide)]
      have hskip := @skip_enclosed between after between hbetween '"' (by decide) '\x7d' rest
        (other.flatMap (writeChar style) ++ ['"'] ++ ": ".toList ++ t) parts
      simp only [writeText, List.cons_append] at hrest ⊢
      simp only [hskip, hrest]
      rfl

/-! ## Values -/

/-- Words, integers of no more digits than can be written, strings, lists and objects of
such values. -/
inductive IsPlain : Value → Prop where
  | null : IsPlain .null
  | bool (b : Bool) : IsPlain (.bool b)
  | int {n : Int} : (Value.int n).isWritable = true → IsPlain (.int n)
  | str (s : Text) : IsPlain (.str s)
  | list {items : List Value} : (∀ item ∈ items, IsPlain item) → IsPlain (.list items)
  | map {entries : Entries} : IsObject entries → (∀ entry ∈ entries, IsPlain entry.2) →
      IsPlain (.map entries)

theorem exists_bracket_eq (style : Style) (depth : Nat) (opening closing : Char)
    {parts : List Text} (h : parts ≠ []) :
    ∃ before between after : Text, (∀ c ∈ before, isSpace c = true) ∧
      (∀ c ∈ between, isSpace c = true) ∧ (∀ c ∈ after, isSpace c = true) ∧
      bracket style depth opening closing parts =
        opening :: (before ++ (join (',' :: between) parts ++ (after ++ [closing]))) := by
  have hline : ∀ n, ∀ c ∈ '\n' :: List.replicate n ' ', isSpace c = true := by
    intro n c hc
    rcases List.mem_cons.1 hc with rfl | hc
    · rfl
    · rw [List.eq_of_mem_replicate hc]
      rfl
  unfold bracket
  rw [if_neg (by simpa using h)]
  cases style.indented with
  | true =>
    exact ⟨_, _, _, hline (2 * (depth + 1)), hline (2 * (depth + 1)), hline (2 * depth), by simp⟩
  | false => exact ⟨[], [' '], [], by simp, by decide, by simp, by simp⟩

theorem isMapping_of_isObject {entries : Entries} (h : IsObject entries) : entries.IsMapping := by
  refine (List.pairwise_map.1 h.nodup).imp_of_mem fun {entry later} hentry hlater hne => ?_
  obtain ⟨key, hkey⟩ := h.text _ hlater
  rw [hkey]
  exact Bool.eq_false_iff.2 fun hsame => hne (by rw [Value.eq_str_of_sameKey hsame, hkey])

theorem ofList_of_isObject {entries : Entries} (h : IsObject entries) :
    Entries.ofList entries = entries := by
  rw [Entries.ofList, Entries.update_eq (isMapping_of_isObject h)]
  simp [Entries.has]

theorem value_bracket {fuel : Nat} {s more : Text} {c : Char} (hskip : skip s = c :: more)
    (hc : c ≠ ']') :
    value (fuel + 1) ('[' :: s) = (items fuel (c :: more)).map fun (items, rest) =>
      (.list items, rest) := by
  rw [value]
  simp only [hskip]
  split
  · next heq => exact absurd (List.cons.inj heq).1 hc
  · rfl

theorem value_brace {fuel : Nat} {s more : Text} {c : Char} (hskip : skip s = c :: more)
    (hc : c ≠ '\x7d') :
    value (fuel + 1) ('\x7b' :: s) = (members fuel (c :: more)).map fun (entries, rest) =>
      (.map (Entries.ofList entries), rest) := by
  rw [value]
  simp only [hskip]
  split
  · next heq => exact absurd (List.cons.inj heq).1 hc
  · rfl

theorem reads_list {values : List Value} {parts : List Text} (h : List.Forall₂ Reads values parts)
    (depth : Nat) :
    Reads (.list values) (bracket style depth '[' ']' parts) := by
  by_cases hne : parts = []
  · subst hne
    obtain rfl := List.forall₂_nil_right_iff.1 h
    exact reads_of_succ ⟨'[', [']'], rfl, by decide, by decide⟩ fun _ _ _ => rfl
  · obtain ⟨before, between, after, hbefore, hbetween, hafter, hbracket⟩ :=
      exists_bracket_eq style depth '[' ']' hne
    rw [hbracket]
    refine ⟨⟨'[', _, rfl, by decide, by decide⟩, fun fuel rest hfuel _ => ?_⟩
    simp only [List.length_cons, List.length_append] at hfuel
    obtain ⟨fuel, rfl⟩ : ∃ n, fuel = n + 1 := ⟨fuel - 1, by omega⟩
    have hitems := items_enclosed hbetween hafter h hne (show _ < fuel by omega) rest
    obtain ⟨first, others, rfl⟩ := List.exists_cons_of_ne_nil hne
    obtain ⟨_, _, hfirst, -⟩ := List.forall₂_cons_right_iff.1 h
    obtain ⟨c, tail, rfl, hc, hend⟩ := hfirst.starts
    have hskip := @skip_enclosed between after before hbefore c hc ']' rest tail others
    obtain ⟨more, hmore⟩ := @exists_enclosed_cons between after ']' rest c tail others
    rw [hmore] at hskip hitems
    have hassoc :
        '[' :: (before ++ (join (',' :: between) ((c :: tail) :: others) ++ (after ++ [']']))) ++
        rest = '[' :: (before ++ c :: more) := by
      rw [← hmore]
      simp [enclosed]
    rw [hassoc, value_bracket hskip hend, hitems]
    rfl

theorem reads_map {entries : Entries} (hobject : IsObject entries) {parts : List Text}
    (h : List.Forall₂ (ReadsMember style) entries parts)
    (depth : Nat) : Reads (.map entries) (bracket style depth '\x7b' '\x7d' parts) := by
  by_cases hne : parts = []
  · subst hne
    obtain rfl := List.forall₂_nil_right_iff.1 h
    exact reads_of_succ ⟨'\x7b', ['\x7d'], rfl, by decide, by decide⟩ fun _ _ _ => rfl
  · obtain ⟨before, between, after, hbefore, hbetween, hafter, hbracket⟩ :=
      exists_bracket_eq style depth '\x7b' '\x7d' hne
    rw [hbracket]
    refine ⟨⟨'\x7b', _, rfl, by decide, by decide⟩, fun fuel rest hfuel _ => ?_⟩
    simp only [List.length_cons, List.length_append] at hfuel
    obtain ⟨fuel, rfl⟩ : ∃ n, fuel = n + 1 := ⟨fuel - 1, by omega⟩
    have hmembers := members_enclosed hbetween hafter h hne (show _ < fuel by omega) rest
    obtain ⟨first, others, rfl⟩ := List.exists_cons_of_ne_nil hne
    obtain ⟨_, _, hfirst, -⟩ := List.forall₂_cons_right_iff.1 h
    obtain ⟨key, s, -, hpart, -⟩ := hfirst.exists_key
    obtain ⟨tail, rfl⟩ : ∃ tail, first = '"' :: tail := ⟨_, hpart⟩
    have hskip :=
      @skip_enclosed between after before hbefore '"' (by decide) '\x7d' rest tail others
    obtain ⟨more, hmore⟩ := @exists_enclosed_cons between after '\x7d' rest '"' tail others
    rw [hmore] at hskip hmembers
    have hassoc :
        '\x7b' ::
          (before ++ (join (',' :: between) (('"' :: tail) :: others) ++ (after ++ ['\x7d']))) ++
          rest =
        '\x7b' :: (before ++ '"' :: more) := by
      rw [← hmore]
      simp [enclosed]
    rw [hassoc, value_brace hskip (by decide), hmembers]
    simp only [Except.map, ofList_of_isObject hobject]

theorem reads_ofInt {n : Int} (h : (Value.int n).isWritable = true) : Reads (.int n) (ofInt n) := by
  refine reads_of_succ ?_ fun fuel rest hrest =>
    value_ofInt (by simpa [Value.isWritable] using h) hrest fuel
  have hdigit : ∀ m, ∃ c digits, ofNat m = c :: digits ∧ isSpace c = false ∧ c ≠ ']' := by
    intro m
    obtain ⟨c, digits, hm⟩ := List.exists_cons_of_ne_nil (ofNat_ne_nil m)
    have hc : c.isDigit = true := isDigit_of_mem_ofNat (by rw [hm]; exact List.mem_cons_self)
    exact ⟨c, digits, hm, forall_digit (P := fun c => isSpace c = false ∧ c ≠ ']') (by decide) hc⟩
  cases n with
  | ofNat m => exact hdigit m
  | negSucc m => exact ⟨'-', _, rfl, by decide, by decide⟩

/-- A value is read from what is written for it, whatever ends it. -/
theorem reads_writeAt (hsorted : style.sorted = false) {v : Value} (hv : IsPlain v)
    {depth : Nat} {s : Text} (h : writeAt others style depth v = .ok s) : Reads v s := by
  induction hv generalizing depth s with
  | null =>
    cases h
    refine reads_of_succ ⟨'n', _, rfl, by decide, by decide⟩ fun fuel rest _ => ?_
    exact value_of_bare (by decide)
  | bool b =>
    cases h
    cases b with
    | false =>
      refine reads_of_succ ⟨'f', _, rfl, by decide, by decide⟩ fun fuel rest _ => ?_
      exact value_of_bare (by decide)
    | true =>
      refine reads_of_succ ⟨'t', _, rfl, by decide, by decide⟩ fun fuel rest _ => ?_
      exact value_of_bare (by decide)
  | @int n hwritable =>
    rw [writeAt, if_pos hwritable] at h
    cases h
    exact reads_ofInt hwritable
  | str text =>
    cases h
    exact reads_of_succ ⟨'"', _, rfl, by decide, by decide⟩ fun fuel rest _ =>
      value_writeText style text rest fuel
  | list _ ih =>
    obtain ⟨parts, hparts, h⟩ := Result.bind_eq_ok.1 h
    cases h
    have hreads :=
      ((List.forall₂_and_left _ _).2
        ⟨fun item hitem => @ih item hitem (depth + 1), writeItems_eq_ok hparts⟩).imp
      fun item part ⟨hread, hwrite⟩ => hread hwrite
    exact reads_list hreads depth
  | @map entries hobject _ ih =>
    obtain ⟨written, hwritten, h⟩ := Result.bind_eq_ok.1 h
    obtain ⟨parts, hparts, h⟩ := Result.bind_eq_ok.1 h
    cases h
    have hpairs :=
        Result.mapM_eq_ok.1
          (show written.mapM (fun pair => writeMember style pair.1 pair.2) = .ok parts by
      simpa [writeMembers, hsorted] using hparts)
    have hmembers := Result.forall₂_of_left (forall₂_of_writeEntries hwritten).flip hpairs
    refine reads_map hobject
      (((List.forall₂_and_left _ _).2 ⟨fun entry hentry => hentry, hmembers⟩).imp ?_) depth
    rintro ⟨name, v⟩ part ⟨hentry, ⟨_, s⟩, ⟨rfl, hs⟩, hpart⟩
    obtain ⟨key, rfl⟩ := hobject.text _ hentry
    cases hpart
    exact ⟨key, s, rfl, rfl, ih _ hentry hs⟩

theorem exists_writeItems {depth : Nat} {values : List Value}
    (h : ∀ v ∈ values, ∃ s, writeAt others style depth v = .ok s) :
    ∃ parts, writeItems others style depth values = .ok parts := by
  induction values with
  | nil => exact ⟨[], rfl⟩
  | cons v values ih =>
    obtain ⟨hv, hvalues⟩ := List.forall_mem_cons.1 h
    exact Result.both_isOk_iff.2 ⟨hv, ih hvalues⟩

theorem exists_writeEntries {depth : Nat} {entries : Entries}
    (h : ∀ entry ∈ entries, ∃ s, writeAt others style depth entry.2 = .ok s) :
    ∃ written, writeEntries others style depth entries = .ok written := by
  induction entries with
  | nil => exact ⟨[], rfl⟩
  | cons entry entries ih =>
    obtain ⟨hentry, hentries⟩ := List.forall_mem_cons.1 h
    exact Result.both_isOk_iff.2 ⟨hentry, ih hentries⟩

theorem exists_writeAt (hsorted : style.sorted = false) {v : Value} (hv : IsPlain v) (depth : Nat) :
    ∃ s, writeAt others style depth v = .ok s := by
  induction hv generalizing depth with
  | null | bool | str => exact ⟨_, rfl⟩
  | int hwritable => exact ⟨_, if_pos hwritable⟩
  | list _ ih =>
    exact Result.bind_isOk_iff.2
      ((exists_writeItems fun item hitem => ih item hitem (depth + 1)).imp fun _ hparts =>
        ⟨hparts, _, rfl⟩)
  | map hobject _ ih =>
    obtain ⟨written, hwritten⟩ := @exists_writeEntries style others (depth + 1) _
      fun entry hentry => ih entry hentry (depth + 1)
    have hmembers : ∃ parts, writeMembers style written = .ok parts := by
      simp only [writeMembers, hsorted]
      refine Result.mapM_isOk_iff.2 fun pair hpair => ?_
      obtain ⟨entry, hentry, hname, -⟩ :=
        Result.exists_left_of_mem (forall₂_of_writeEntries hwritten) hpair
      obtain ⟨key, hkey⟩ := hobject.text _ hentry
      obtain ⟨_, s⟩ := pair
      obtain rfl : _ = _ := hkey.symm.trans hname
      exact ⟨_, rfl⟩
    exact Result.bind_isOk_iff.2 ⟨written, hwritten,
      Result.bind_isOk_iff.2 (hmembers.imp fun _ hparts => ⟨hparts, _, rfl⟩)⟩

/-- A text that holds nothing but a written value is read as this value. -/
theorem read_writeAt (hsorted : style.sorted = false) {v : Value} (hv : IsPlain v)
    {depth : Nat} {s : Text} (h : writeAt others style depth v = .ok s) : read s = .ok v := by
  have hreads := reads_writeAt hsorted hv h
  obtain ⟨c, tail, hs, hc, -⟩ := hreads.starts
  have hskip : skip s = s := by rw [hs, skip_cons hc]
  have hvalue := hreads.value_eq (2 * s.length + 2) [] (by omega) (by simp [Ends])
  rw [List.append_nil] at hvalue
  rw [read, hskip, hvalue]
  rfl

end Checklist.Json
