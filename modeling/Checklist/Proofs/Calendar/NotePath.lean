import Checklist.Calendar.NotePath
import Checklist.Proofs.Calendar.Literal

/-! # Note paths lead back to their days

The path of a daily note is written in a format of number tokens and text. Main statements: a format
splits into the parts by which its paths are read (`partsAfter_number`, `partsAfter_bracketed`,
`partsAfter_plain`), and the path that is written for a day, in whatever folder, is read as the
start of that day (`date?_render`). -/

namespace Checklist.NotePath
set_option autoImplicit false
open Text

/-! ## Formats of days -/

def Slot.token : Slot → Text
  | .year => "YYYY".toList
  | .shortYear => "YY".toList
  | .month => "MM".toList
  | .day => "DD".toList

def Slot.value (date : Date) : Slot → Nat
  | .year => date.year
  | .shortYear => date.year % 100
  | .month => date.month
  | .day => date.day

/-- A piece of a format: a number, or text that stands for itself. -/
inductive Piece where
  | number (slot : Slot)
  | text (s : Text)
  deriving DecidableEq

/-- The piece of a path for a day: numbers with as many digits as their token has letters. -/
def Piece.render (date : Date) : Piece → Text
  | .number slot => padNat slot.token.length (slot.value date)
  | .text s => s

/-- The path of a day in a format. -/
def render (date : Date) (pieces : List Piece) : Text :=
  pieces.flatMap (·.render date)

/-- A number token begins here, of any length, or text in brackets. -/
def BeginsToken (s : Text) : Prop :=
  "YY".toList <+: s ∨ "M".toList <+: s ∨ "D".toList <+: s ∨ ∃ text rest,
    s = '[' :: (text ++ ']' :: rest)

/-- The format splits into pieces from its start, and its tokens are those of whole days and text
in brackets. -/
inductive Splits : Text → List Piece → Prop where
  | nil : Splits [] []
  | number {slot : Slot} {rest : Text} {pieces : List Piece}
      (hslot : slot ≠ .shortYear) (h : Splits rest pieces) :
      Splits (slot.token ++ rest) (.number slot :: pieces)
  | bracketed {s rest : Text} {pieces : List Piece} (hs : ']' ∉ s) (h : Splits rest pieces) :
      Splits ('[' :: (s ++ ']' :: rest)) (.text s :: pieces)
  | plain {c : Char} {rest : Text} {pieces : List Piece}
      (hc : ¬BeginsToken (c :: rest)) (h : Splits rest pieces) :
      Splits (c :: rest) (.text [c] :: pieces)

/-! ## The parts of such a format -/

variable {seen : List Slot} {slot : Slot} {rest s : Text} {date : Date}

theorem token?_token (hslot : slot ≠ .shortYear) (rest : Text) :
    token? (slot.token ++ rest) = some (slot, slot.token.length, slot.token.length,
      slot.token.length) := by
  cases slot with
  | shortYear => exact absurd rfl hslot
  | year | month | day => rfl

theorem bracketed?_append (hs : ']' ∉ s) (rest : Text) :
    bracketed? ('[' :: (s ++ ']' :: rest)) = some s := by
  have hother : ∀ c ∈ s, (c != ']') = true := by
    intro c hc
    rw [bne_iff_ne]
    rintro rfl
    exact hs hc
  have hstop : (']' != ']') = false := by decide
  simp [bracketed?, takeWhile_append_cons hother hstop, dropWhile_append_cons hother hstop]

theorem token?_eq_none (h : ¬BeginsToken s) : token? s = none ∧ bracketed? s = none := by
  obtain ⟨hyear, hmonth, hday, hbracket⟩ : ¬"YY".toList <+: s ∧
      ¬"M".toList <+: s ∧ ¬"D".toList <+: s ∧
      ¬∃ text rest, s = '[' :: (text ++ ']' :: rest) := by simpa only [BeginsToken, not_or] using h
  have hlong : ¬"YYYY".toList <+: s := fun h => hyear (List.IsPrefix.trans ⟨"YY".toList, rfl⟩ h)
  have hmonths : ¬"MM".toList <+: s := fun h => hmonth (List.IsPrefix.trans ⟨"M".toList, rfl⟩ h)
  have hdays : ¬"DD".toList <+: s := fun h => hday (List.IsPrefix.trans ⟨"D".toList, rfl⟩ h)
  constructor
  · simp only [token?, List.isPrefixOf_iff_prefix]
    rw [if_neg hlong, if_neg hyear, if_neg hmonths, if_neg hmonth, if_neg hdays, if_neg hday]
  · unfold bracketed?
    split
    · rename_i rest
      rw [if_pos]
      rw [List.isEmpty_iff, List.dropWhile_eq_nil_iff]
      intro c hc
      rw [bne_iff_ne]
      rintro rfl
      obtain ⟨text, more, rfl⟩ := List.append_of_mem hc
      exact hbracket ⟨text, more, rfl⟩
    · rfl

theorem partsAfter_drop (seen : List Slot) (s rest : Text) :
    partsAfter seen s.length (s ++ rest) = partsAfter seen 0 rest := by
  induction s with
  | nil => rfl
  | cons c s ih => exact ih

theorem partsAfter_number (hslot : slot ≠ .shortYear) (seen : List Slot) (rest : Text) :
    partsAfter seen 0 (slot.token ++ rest) =
      .number (if seen.contains slot then none else some slot) slot.token.length
        slot.token.length :: partsAfter (slot :: seen) 0 rest := by
  obtain ⟨c, s, hcons⟩ : ∃ c s, slot.token = c :: s := by cases slot <;> exact ⟨_, _, rfl⟩
  have htoken := token?_token hslot rest
  have hdrop := partsAfter_drop (slot :: seen) s rest
  rw [hcons] at htoken ⊢
  rw [List.cons_append] at htoken ⊢
  rw [partsAfter, htoken]
  exact congrArg _ hdrop

theorem partsAfter_bracketed (hs : ']' ∉ s) (seen : List Slot) (rest : Text) :
    partsAfter seen 0 ('[' :: (s ++ ']' :: rest)) = .literal s :: partsAfter seen 0 rest := by
  have htoken : token? ('[' :: (s ++ ']' :: rest)) = none := rfl
  have hdrop := partsAfter_drop seen (s ++ [']']) rest
  rw [List.length_append, List.append_assoc] at hdrop
  rw [partsAfter, htoken, bracketed?_append hs]
  exact congrArg _ hdrop

theorem partsAfter_plain {c : Char} (hc : ¬BeginsToken (c :: rest)) (seen : List Slot) :
    partsAfter seen 0 (c :: rest) = .literal [c] :: partsAfter seen 0 rest := by
  obtain ⟨htoken, hbracketed⟩ := token?_eq_none hc
  rw [partsAfter, htoken, hbracketed]

/-! ## Reading a path -/

variable {format : Text} {pieces : List Piece} {reading found : Reading}

/-- A reading with one more number, if that fills a slot. -/
def fill (reading : Reading) (slot : Option Slot) (value : Nat) : Reading :=
  match slot with
  | none => reading
  | some slot => (slot, value) :: reading

theorem read?_number_eq_some_iff {slot : Option Slot} {width : Nat} {parts : List Part} :
    read? (.number slot width width :: parts) s reading = some found ↔
      ∃ value after, Date.digits? width s = some (value, after) ∧
        read? parts after (fill reading slot value) = some found := by
  rw [read?]
  dsimp only
  rw [if_neg (Nat.lt_irrefl width), Option.or_none]
  cases Date.digits? width s with
  | none => simp
  | some pair =>
    obtain ⟨value, after⟩ := pair
    cases slot <;> simp [fill]

theorem read?_literal_eq_some_iff {text : Text} {parts : List Part} :
    read? (.literal text :: parts) s reading = some found ↔ ∃ after, s = text ++ after ∧
      read? parts after reading = some found := by
  rw [read?, Option.ite_none_right_eq_some, List.isPrefixOf_iff_prefix]
  constructor
  · rintro ⟨⟨after, rfl⟩, hread⟩
    rw [List.drop_left] at hread
    exact ⟨after, rfl, hread⟩
  · rintro ⟨after, rfl, hread⟩
    rw [List.drop_left]
    exact ⟨List.prefix_append _ _, hread⟩

theorem Slot.value_lt (hslot : slot ≠ .shortYear) (date : Date) :
    0 < slot.token.length ∧ slot.value date < 10 ^ slot.token.length := by
  obtain ⟨⟨-, hyear⟩, ⟨-, hmonth⟩, -, hday⟩ := Date.isReal_iff.1 date.real
  have hdays := (Date.daysInMonth_range date.year date.month).2
  cases slot with
  | shortYear => exact absurd rfl hslot
  | year => exact ⟨by decide, Nat.lt_of_le_of_lt hyear (by decide)⟩
  | month => exact ⟨by decide, Nat.lt_of_le_of_lt hmonth (by decide)⟩
  | day => exact ⟨by decide, Nat.lt_of_le_of_lt (Nat.le_trans hday hdays) (by decide)⟩

/-- A path that was written in a format is read in it, and each slot holds the number of the day
that its first token was written for. -/
theorem exists_read?_render (h : Splits format pieces) (date : Date)
    (seen : List Slot) (reading : Reading) :
    ∃ found, read? (partsAfter seen 0 format) (render date pieces) reading = some found ∧
      ∀ slot, found.lookup slot = if .number slot ∈ pieces ∧
        slot ∉ seen then some (slot.value date) else reading.lookup slot := by
  induction h generalizing seen reading with
  | nil => exact ⟨reading, rfl, fun slot => by simp⟩
  | @number slot rest pieces hslot h ih =>
    obtain ⟨found, hread, hfound⟩ :=
      ih (slot :: seen)
        (fill reading (if seen.contains slot then none else some slot) (slot.value date))
    obtain ⟨hwidth, hvalue⟩ := Slot.value_lt hslot date
    refine ⟨found, ?_, fun other => ?_⟩
    · rw [partsAfter_number hslot]
      exact read?_number_eq_some_iff.2 ⟨_, _, DateText.digits?_padNat hwidth hvalue _, hread⟩
    · rw [hfound other]
      by_cases hseen : slot ∈ seen
      · by_cases hother : other = slot
        · subst hother
          simp [fill, hseen]
        · simp [fill, hseen, hother]
      · by_cases hother : other = slot
        · subst hother
          simp [fill, hseen]
        · have hbeq : (other == slot) = false := by rwa [beq_eq_false_iff_ne]
          simp [fill, hseen, hother, List.lookup_cons, hbeq]
  | @bracketed s rest pieces hs h ih =>
    obtain ⟨found, hread, hfound⟩ := ih seen reading
    refine ⟨found, ?_, fun slot => by simp [hfound slot]⟩
    rw [partsAfter_bracketed hs]
    exact read?_literal_eq_some_iff.2 ⟨_, rfl, hread⟩
  | @plain c rest pieces hc h ih =>
    obtain ⟨found, hread, hfound⟩ := ih seen reading
    refine ⟨found, ?_, fun slot => by simp [hfound slot]⟩
    rw [partsAfter_plain hc]
    exact read?_literal_eq_some_iff.2 ⟨_, rfl, hread⟩

/-- What is read in a format is as long as what is written in it, unless a line feed ends it. -/
theorem length_of_read? (h : Splits format pieces) (date : Date)
    (hread : read? (partsAfter seen 0 format) s reading = some found) :
    s.length = (render date pieces).length ∨ s.getLast? = some '\n' := by
  have hlonger : ∀ {t piece after rendered : Text}, t.length = piece.length →
      after.length = rendered.length ∨ after.getLast? = some '\n' →
      (t ++ after).length = (piece ++ rendered).length ∨ (t ++ after).getLast? = some '\n' := by
    rintro t piece after rendered hfirst (hlength | hlast)
    · exact .inl (by rw [List.length_append, List.length_append, hfirst, hlength])
    · exact .inr (by rw [List.getLast?_append, hlast]; rfl)
  induction h generalizing seen s reading with
  | nil =>
    simp only [partsAfter, read?, isEnd, Option.ite_none_right_eq_some, Bool.or_eq_true,
      List.isEmpty_iff, beq_iff_eq] at hread
    obtain ⟨rfl | rfl, -⟩ := hread
    · exact .inl rfl
    · exact .inr rfl
  | @number slot rest pieces hslot h ih =>
    rw [partsAfter_number hslot] at hread
    obtain ⟨value, after, hdigits, hrest⟩ := read?_number_eq_some_iff.1 hread
    obtain ⟨digits, hnumeral, rfl⟩ := DateText.digits?_eq_some_iff.1 hdigits
    obtain ⟨hwidth, hvalue⟩ := Slot.value_lt hslot date
    exact hlonger (hnumeral.length.trans (length_padNat hwidth hvalue).symm) (ih hrest)
  | @bracketed text rest pieces hs h ih =>
    rw [partsAfter_bracketed hs] at hread
    obtain ⟨after, rfl, hrest⟩ := read?_literal_eq_some_iff.1 hread
    exact hlonger rfl (ih hrest)
  | @plain c rest pieces hc h ih =>
    rw [partsAfter_plain hc] at hread
    obtain ⟨after, rfl, hrest⟩ := read?_literal_eq_some_iff.1 hread
    exact hlonger rfl (ih hrest)

theorem readAfterSlash?_append {parts : List Part}
    (hshort : ∀ more : Text, more ≠ [] → read? parts (more ++ s) [] = none)
    (hread : read? parts s [] = some found) (before : Text) :
    readAfterSlash? parts (before ++ '/' :: s) = some found := by
  induction before with
  | nil =>
    rw [List.nil_append, readAfterSlash?, if_pos (by decide), hread]
    rfl
  | cons c before ih =>
    have hnone : read? parts (before ++ '/' :: s) [] = none := by
      have := hshort (before ++ ['/']) (by simp)
      rwa [List.append_assoc] at this
    rw [List.cons_append, readAfterSlash?, hnone, ite_self, Option.none_or, ih]

theorem readPath?_append {parts : List Part}
    (hshort : ∀ more : Text, more ≠ [] → read? parts (more ++ s) [] = none)
    (hread : read? parts s [] = some found) (before : Text) :
    readPath? parts s = some found ∧ readPath? parts (before ++ '/' :: s) = some found := by
  have hnone : read? parts (before ++ '/' :: s) [] = none := by
    have := hshort (before ++ ['/']) (by simp)
    rwa [List.append_assoc] at this
  constructor
  · rw [readPath?, hread, Option.some_or]
  · rw [readPath?, hnone, Option.none_or, readAfterSlash?_append hshort hread]

theorem notMem_render {c : Char} (hc : c.isDigit = false) (htext : ∀ s, .text s ∈ pieces → c ∉ s)
    (date : Date) : c ∉ render date pieces := by
  rw [render, List.mem_flatMap]
  rintro ⟨piece, hpiece, hmem⟩
  cases piece with
  | number slot =>
    rw [isDigit_of_mem_padNat hmem] at hc
    cases hc
  | text s => exact htext s hpiece hmem

theorem render_ne_nil (h : .number slot ∈ pieces) (date : Date) : render date pieces ≠ [] := by
  intro hnil
  have hpiece := List.flatMap_eq_nil_iff.1 hnil _ h
  simp [Piece.render, padNat, ofNat_ne_nil] at hpiece

/-- All numbers have their full width, so that a longer part of a path, which ends in the same way,
is not read. -/
theorem read?_append_render (h : Splits format pieces) (hslot : .number slot ∈ pieces)
    (hfeed : '\n' ∉ render date pieces) (more : Text)
    (hmore : more ≠ []) : read? (parts format) (more ++ render date pieces) [] = none := by
  cases hread : read? (parts format) (more ++ render date pieces) [] with
  | none => rfl
  | some found =>
    have hpositive : 0 < more.length := List.length_pos_iff.2 hmore
    rcases length_of_read? h date hread with hlength | hlast
    · rw [List.length_append] at hlength
      omega
    · rw [List.getLast?_append_of_ne_nil _ (render_ne_nil hslot date)] at hlast
      exact absurd (List.mem_of_getLast? hlast) hfeed

theorem withSlashes_of_notMem (h : '\\' ∉ s) (before : Text) :
    withSlashes (before ++ s) = withSlashes before ++ s := by
  have hself : ∀ c ∈ s, (if c == '\\' then '/' else c) = c := by
    intro c hc
    rw [if_neg]
    rw [beq_iff_eq]
    rintro rfl
    exact h hc
  rw [withSlashes, withSlashes, replaceChar, replaceChar, List.map_append,
    List.map_congr_left hself, List.map_id']

theorem stem_append (h : '\\' ∉ s) (before : Text) :
    stem (withSlashes (before ++ (s ++ ".md".toList))) = withSlashes before ++ s := by
  have hnotMem : '\\' ∉ s ++ ".md".toList := by
    rw [List.mem_append, not_or]
    exact ⟨h, by decide⟩
  rw [withSlashes_of_notMem hnotMem, ← List.append_assoc]
  generalize withSlashes before ++ s = path
  have hcut : cut '.' (path ++ ".md".toList).reverse = ("dm".toList, some path.reverse) := by
    rw [List.reverse_append]
    exact @cut_append '.' "dm".toList path.reverse (by decide)
  have hlast : cutLast '.' (path ++ ".md".toList) = (some path, "md".toList) := by
    rw [cutLast, hcut]
    simp
  rw [stem, hlast]
  rfl

theorem date?_of_reading {path : Text}
    (hread : readPath? (parts format) (stem (withSlashes path)) = some found)
    (hfound : found.date? = some date) (hdate : date ≠ Date.first) :
    date? format [] path = some (Moment.start date) := by
  have hfolder : trimWhere (· == '/') (withSlashes []) = [] := rfl
  unfold date?
  simp only [hfolder, hread, Option.bind_eq_bind, Option.bind_some, hfound,
    Moment.timestamp_ofDate hdate]
  rfl

theorem date?_of_lookup (h : ∀ slot, slot ≠ .shortYear →
    found.lookup slot = some (slot.value date)) : found.date? = some date := by
  have hyear := h .year (by decide)
  have hmonth := h .month (by decide)
  have hday := h .day (by decide)
  have hof : Date.of? date.year date.month date.day = some date := dif_pos date.real
  unfold Reading.date?
  rw [hyear, hmonth, hday]
  exact hof

/-- The path of a day in a format, alone or in any folder, leads back to the start of the day. -/
theorem date?_render (h : Splits format pieces)
    (hslots : ∀ slot, slot ≠ .shortYear → .number slot ∈ pieces)
    (htext : ∀ s, .text s ∈ pieces → '\\' ∉ s ∧ '\n' ∉ s) (hdate : Date.first < date) :
    date? format [] (render date pieces ++ ".md".toList) = some (Moment.start date) ∧
    ∀ before, date? format [] (before ++ '/' :: (render date pieces ++ ".md".toList)) =
      some (Moment.start date) := by
  obtain ⟨found, hread, hfound⟩ := exists_read?_render h date [] []
  have hlookup : found.date? = some date := by
    apply date?_of_lookup
    intro slot hslot
    rw [hfound slot, if_pos ⟨hslots slot hslot, List.not_mem_nil⟩]
  have hfirst : date ≠ Date.first := by
    rintro rfl
    exact Nat.lt_irrefl _ hdate
  have hfeed := notMem_render (by decide) (fun s hs => (htext s hs).2) date
  have hshort := read?_append_render h (hslots .year (by decide)) hfeed
  have hstem := stem_append (notMem_render (by decide) (fun s hs => (htext s hs).1) date)
  constructor
  · apply date?_of_reading _ hlookup hfirst
    exact (congrArg _ (hstem [])).trans (readPath?_append hshort hread []).1
  · intro before
    apply date?_of_reading _ hlookup hfirst
    have hslash : withSlashes (before ++ ['/']) = withSlashes before ++
        ['/'] := by simp [withSlashes, replaceChar]
    have hbehind := hstem (before ++ ['/'])
    rw [List.append_assoc, hslash, List.append_assoc] at hbehind
    exact (congrArg _ hbehind).trans (readPath?_append hshort hread _).2

theorem not_beginsToken {c : Char} (hc : c ∉ "YMD[".toList) : ¬BeginsToken (c :: rest) := by
  have hhead : ∀ {d : Char} {s : Text}, d ∈ "YMD[".toList → d :: s ≠ c :: rest := by
    rintro d s hd heq
    rw [(List.cons.inj heq).1] at hd
    exact hc hd
  rintro (⟨more, h⟩ | ⟨more, h⟩ | ⟨more, h⟩ | ⟨text, more, h⟩)
  · exact hhead (by decide) (h : 'Y' :: ('Y' :: more) = c :: rest)
  · exact hhead (by decide) (h : 'M' :: more = c :: rest)
  · exact hhead (by decide) (h : 'D' :: more = c :: rest)
  · exact hhead (by decide) h.symm

/-- The year and the month in folders, with the name of the month token before it and the year
behind the day once more. -/
def datedFormat : Text :=
  "YYYY/[MM]MM.DD-YYYY".toList

def datedPieces : List Piece :=
  [.number .year, .text ['/'], .text "MM".toList, .number .month, .text ['.'], .number .day,
   .text ['-'], .number .year]

theorem splits_datedFormat : Splits datedFormat datedPieces := by
  have hend := @Splits.number .year _ _ (by decide) .nil
  have hdash := Splits.plain (not_beginsToken (by decide : '-' ∉ _)) hend
  have hday := @Splits.number .day _ _ (by decide) hdash
  have hdot := Splits.plain (not_beginsToken (by decide : '.' ∉ _)) hday
  have hmonth := @Splits.number .month _ _ (by decide) hdot
  have hname := @Splits.bracketed "MM".toList _ _ (by decide) hmonth
  have hslash := Splits.plain (not_beginsToken (by decide : '/' ∉ _)) hname
  exact @Splits.number .year _ _ (by decide) hslash

theorem date?_render_dated :
    date? datedFormat [] "2024/MM02.29-2024.md".toList = some 1709164800000 ∧
      date? datedFormat [] "notes v1.2\\daily/2024/MM02.29-2024.md".toList =
        some 1709164800000 := by
  have hslots : ∀ slot, slot ≠ .shortYear → Piece.number slot ∈ datedPieces := by
    intro slot
    cases slot <;> decide
  have htext : ∀ s, Piece.text s ∈ datedPieces → '\\' ∉ s ∧ '\n' ∉ s := by
    intro s hs
    simp only [datedPieces, List.mem_cons, Piece.text.injEq, reduceCtorEq, false_or, or_false,
      List.not_mem_nil] at hs
    rcases hs with rfl | rfl | rfl | rfl <;> decide
  have hdate : Date.first < ⟨2024, 2, 29, rfl⟩ := by decide +kernel
  have hstart : Moment.start ⟨2024, 2, 29, rfl⟩ = 1709164800000 := by
    rw [Moment.start_eq]
    decide +kernel
  obtain ⟨halone, hfolder⟩ := date?_render splits_datedFormat hslots htext hdate
  rw [hstart] at halone hfolder
  exact ⟨halone, hfolder "notes v1.2\\daily".toList⟩

end Checklist.NotePath
