import Checklist.Proofs.Text
import Checklist.Value.Json

/-! # Strings in JSON

A string is written in quotes, with escapes for what may not stand there. Main statements: the
string is read back from what is written, whatever follows its closing quote (`string?_flatMap`), so
of two texts that start with strings these are the same if the texts are (`writeText_append_inj`),
and a string stays on one line (`notMem_writeText`). -/

namespace Checklist.Json
set_option autoImplicit false
open Text

/-! ## Escapes by number -/

def fourDigits (code : Nat) : Text :=
  [(code / 4096 % 16).digitChar, (code / 256 % 16).digitChar, (code / 16 % 16).digitChar,
   (code % 16).digitChar]

theorem escaped_eq {code : Nat} (h : code < 65536) :
    escaped code = '\\' :: 'u' :: fourDigits code := by
  have hlast : ∀ n < 16, Nat.toDigits 16 n = [n.digitChar] := fun n hn => Nat.toDigits_of_lt_base hn
  have hstep : ∀ n, 16 ≤ n → Nat.toDigits 16 n = Nat.toDigits 16 (n / 16) ++ [(n % 16).digitChar] :=
    fun n hn => Nat.toDigits_of_base_le (by omega) hn
  have hsecond : code / 16 / 16 = code / 256 := Nat.div_div_eq_div_mul ..
  have hthird : code / 256 / 16 = code / 4096 := Nat.div_div_eq_div_mul ..
  unfold escaped fourDigits
  -- by the number of digits: those in front of them are zeros
  by_cases hone : code < 16
  · have hzeros : code / 4096 % 16 = 0 ∧ code / 256 % 16 = 0 ∧ code / 16 % 16 = 0 ∧
        code % 16 = code := by omega
    rw [hlast code hone, hzeros.1, hzeros.2.1, hzeros.2.2.1, hzeros.2.2.2]
    rfl
  by_cases htwo : code < 256
  · have hzeros : code / 4096 % 16 = 0 ∧ code / 256 % 16 = 0 ∧
        code / 16 % 16 = code / 16 := by omega
    rw [hstep code (by omega), hlast (code / 16) (by omega), hzeros.1, hzeros.2.1, hzeros.2.2]
    rfl
  by_cases hthree : code < 4096
  · have hzeros : code / 4096 % 16 = 0 ∧ code / 256 % 16 = code / 256 := by omega
    rw [hstep code (by omega), hstep (code / 16) (by omega), hsecond, hlast (code / 256) (by omega),
      hzeros.1, hzeros.2]
    rfl
  · have hfull : code / 4096 % 16 = code / 4096 := by omega
    rw [hstep code (by omega), hstep (code / 16) (by omega), hsecond,
      hstep (code / 256) (by omega), hthird, hlast (code / 4096) (by omega), hfull]
    rfl

theorem hexValue?_digitChar : ∀ d < 16, hexValue? d.digitChar = some d := by
  decide

theorem hexFour?_fourDigits {code : Nat} (h : code < 65536) (rest : Text) :
    hexFour? (fourDigits code ++ rest) = some (code, rest) := by
  have hvalue : ∀ n, hexValue? (n % 16).digitChar = some (n % 16) :=
    fun n => hexValue?_digitChar _ (Nat.mod_lt _ (by omega))
  have hsum : code / 4096 % 16 * 4096 + code / 256 % 16 * 256 + code / 16 % 16 * 16 + code % 16 =
      code := by omega
  simp only [fourDigits, List.cons_append, List.nil_append, hexFour?, hvalue, Option.bind_eq_bind,
    Option.bind_some, hsum]
  rfl

/-! ## Characters -/

theorem isValid_toNat (c : Char) : c.toNat < 0xd800 ∨ 0xdfff < c.toNat ∧ c.toNat < 0x110000 := by
  have h := c.valid
  rcases h with h | h
  · exact .inl h
  · exact .inr h

theorem charOf_toNat (c : Char) : charOf c.toNat = c := by
  have h := isValid_toNat c
  rw [charOf, if_neg (by simp; omega), Char.ofNat_toNat]

theorem numbered?_fourDigits {c : Char} (h : c.toNat < 65536) (rest : Text) :
    numbered? (fourDigits c.toNat ++ rest) = some (c, rest) := by
  have hvalid := isValid_toNat c
  have hsingle : ¬(55296 ≤ c.toNat ∧ c.toNat < 56320) := by omega
  unfold numbered?
  rw [hexFour?_fourDigits h rest]
  simp only [Option.bind_eq_bind, Option.bind_some, charOf_toNat]
  split
  · split
    · simp [hsingle]
    · rfl
  · rfl

theorem numbered?_pair {high low : Nat} (hhigh : 0xd800 ≤ high ∧ high < 0xdc00)
    (hlow : 0xdc00 ≤ low ∧ low < 0xe000) (rest : Text) :
    numbered? (fourDigits high ++ '\\' :: 'u' :: (fourDigits low ++ rest)) =
      some (Char.ofNat (0x10000 + (high - 0xd800) * 1024 + (low - 0xdc00)), rest) := by
  have htest : (decide (0xd800 ≤ high) && decide (high < 0xdc00) && decide (0xdc00 ≤ low) &&
      decide (low < 0xe000)) = true := by
    simp only [Bool.and_eq_true, decide_eq_true_eq]
    exact ⟨⟨hhigh, hlow.1⟩, hlow.2⟩
  unfold numbered?
  rw [hexFour?_fourDigits (by omega)]
  simp only [Option.bind_eq_bind, Option.bind_some]
  rw [hexFour?_fourDigits (by omega)]
  dsimp only
  rw [if_pos htest]
  rfl

theorem ofNat_halves {c : Char} (h : 65536 ≤ c.toNat) :
    Char.ofNat (0x10000 + (0xd800 + (c.toNat - 0x10000) / 1024 - 0xd800) * 1024 +
      (0xdc00 + (c.toNat - 0x10000) % 1024 - 0xdc00)) = c := by
  have hcode : 0x10000 + (0xd800 + (c.toNat - 0x10000) / 1024 - 0xd800) * 1024 +
      (0xdc00 + (c.toNat - 0x10000) % 1024 - 0xdc00) = c.toNat := by
    omega
  rw [hcode, Char.ofNat_toNat]

theorem string?_escape {e c : Char} {after rest : Text} (fuel : Nat)
    (h : (if e == 'u' then numbered? after else (escapes.lookup e).map fun c => (c, after)) =
      some (c, rest)) :
    string? (fuel + 1) ('\\' :: e :: after) = (string? fuel rest).map fun found =>
      (c :: found.1, found.2) := by
  simp only [string?, h]
  rfl

theorem string?_escaped {c : Char} (h : c.toNat < 65536) (fuel : Nat) (rest : Text) :
    string? (fuel + 1) (escaped c.toNat ++ rest) = (string? fuel rest).map fun found =>
      (c :: found.1, found.2) := by
  rw [escaped_eq h]
  exact string?_escape fuel (numbered?_fourDigits h rest)

theorem string?_escaped_pair {c : Char} (h : 65536 ≤ c.toNat) (fuel : Nat) (rest : Text) :
    string? (fuel + 1) (escaped (0xd800 + (c.toNat - 0x10000) / 1024) ++
      escaped (0xdc00 + (c.toNat - 0x10000) % 1024) ++ rest) =
      (string? fuel rest).map fun found => (c :: found.1, found.2) := by
  have hvalid := isValid_toNat c
  have hpair := @numbered?_pair (0xd800 + (c.toNat - 0x10000) / 1024)
    (0xdc00 + (c.toNat - 0x10000) % 1024) (by omega) (by omega) rest
  rw [ofNat_halves h] at hpair
  rw [escaped_eq (by omega), escaped_eq (by omega), List.append_assoc]
  exact string?_escape fuel hpair

theorem string?_self {c : Char} (hquote : c ≠ '"') (hescape : c ≠ '\\') (hcode : ¬c.toNat < 32)
    (fuel : Nat) (rest : Text) :
    string? (fuel + 1) (c :: rest) = (string? fuel rest).map fun found =>
      (c :: found.1, found.2) := by
  simp only [string?, beq_iff_eq, hquote, hescape, hcode, if_false]

theorem string?_writeChar (style : Style) (fuel : Nat) (c : Char) (rest : Text) :
    string? (fuel + 1) (writeChar style c ++ rest) = (string? fuel rest).map fun found =>
      (c :: found.1, found.2) := by
  unfold writeChar
  simp only [beq_iff_eq]
  -- the seven characters that have a letter of their own
  iterate 7
    split
    case isTrue h => subst h; rfl
  split
  case isTrue h => exact string?_escaped (by omega) fuel rest
  split
  · split
    case isTrue h => exact string?_escaped h fuel rest
    case isFalse h => exact string?_escaped_pair (by omega) fuel rest
  · exact string?_self ‹_› ‹_› ‹_› fuel rest

/-- A string is read back from what is written in its quotes. -/
theorem string?_flatMap {style : Style} {fuel : Nat} {s : Text}
    (h : s.length < fuel) (rest : Text) :
    string? fuel (s.flatMap (writeChar style) ++ '"' :: rest) = some (s, rest) := by
  induction s generalizing fuel with
  | nil =>
    cases fuel with
    | zero => cases h
    | succ fuel => rfl
  | cons c s ih =>
    cases fuel with
    | zero => cases h
    | succ fuel =>
      rw [List.flatMap_cons, List.append_assoc, string?_writeChar, ih (by simpa using h)]
      rfl

/-- Strings at the start of equal texts are equal, and so is what follows them. -/
theorem writeText_append_inj {s t rest more : Text}
    (h : writeText .canonical s ++ rest = writeText .canonical t ++ more) :
    s = t ∧ rest = more := by
  simp only [writeText, List.cons_append, List.append_assoc, List.cons.injEq,
    true_and, List.nil_append] at h
  have hread := congrArg (string? (s.length + t.length + 1)) h
  rw [string?_flatMap (by omega), string?_flatMap (by omega), Option.some.injEq, Prod.mk.injEq] at hread
  exact hread

theorem writeText_inj {s t : Text} (h : writeText .canonical s = writeText .canonical t) : s = t :=
  (@writeText_append_inj s t [] [] (by rw [h])).1

/-! ## Lines -/

theorem notMem_escaped {code : Nat} (h : code < 65536) : '\n' ∉ escaped code := by
  have hdigit : ∀ d < 16, '\n' ≠ d.digitChar := by decide
  rw [escaped_eq h]
  simp only [fourDigits, List.mem_cons, List.not_mem_nil, or_false, not_or]
  exact ⟨by decide, by decide, hdigit _ (Nat.mod_lt _ (by omega)), hdigit _ (Nat.mod_lt _ (by omega)),
    hdigit _ (Nat.mod_lt _ (by omega)), hdigit _ (Nat.mod_lt _ (by omega))⟩

theorem notMem_writeChar (c : Char) : '\n' ∉ writeChar .canonical c := by
  have hvalid := isValid_toNat c
  unfold writeChar
  simp only [beq_iff_eq]
  iterate 7
    split
    case isTrue h => decide
  split
  case isTrue h => exact notMem_escaped (by omega)
  split
  · split
    case isTrue h => exact notMem_escaped h
    case isFalse h => exact fun hmem =>
      (List.mem_append.1 hmem).elim (notMem_escaped (by omega)) (notMem_escaped (by omega))
  · rw [List.mem_singleton]
    exact fun heq => absurd heq.symm ‹¬c = '\n'›

/-- A string is written on one line. -/
theorem notMem_writeText (s : Text) : '\n' ∉ writeText .canonical s := by
  simp only [writeText, List.mem_append, List.mem_cons, List.mem_flatMap,
    List.not_mem_nil, or_false, not_or]
  exact ⟨⟨by decide, fun hmem => by obtain ⟨c, -, hc⟩ := hmem; exact notMem_writeChar c hc⟩, by decide⟩

end Checklist.Json
