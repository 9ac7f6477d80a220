import Checklist.Text.Blank
import Checklist.Text.Digit

/-! # Operations on text

Trimming, cutting, splitting and joining, and reading numbers. Main statements: the pieces of a
split join back to the text (`join_splitAt`), a piece holds no separator (`notMem_of_mem_splitAt`),
and squeezing a text keeps its words (`words_squeeze`). -/

namespace Checklist.Text
set_option autoImplicit false

/-! ## Trimming -/

def trimEndWhere (p : Char → Bool) (s : Text) : Text :=
  (s.reverse.dropWhile p).reverse

def trimWhere (p : Char → Bool) (s : Text) : Text :=
  trimEndWhere p (s.dropWhile p)

def trimStart (s : Text) : Text :=
  s.dropWhile isBlank

def trimEnd (s : Text) : Text :=
  trimEndWhere isBlank s

def trim (s : Text) : Text :=
  trimEnd (trimStart s)

def isBlankText (s : Text) : Bool :=
  s.all isBlank

/-! ## Splitting and joining -/

/-- The pieces between the characters of a class; there is always at least one. -/
def splitWhere (p : Char → Bool) : Text → List Text
  | [] => [[]]
  | c :: rest =>
    if p c then [] :: splitWhere p rest
    else match splitWhere p rest with
      | [] => [[c]]
      | piece :: pieces => (c :: piece) :: pieces

def splitAt (separator : Char) (s : Text) : List Text :=
  splitWhere (· == separator) s

def join (separator : Text) : List Text → Text
  | [] => []
  | [piece] => piece
  | piece :: pieces => piece ++ separator ++ join separator pieces

def words (s : Text) : List Text :=
  (splitWhere isBlank s).filter (· ≠ [])

/-- Trims, and puts one space in place of every run of blanks. -/
def squeeze (s : Text) : Text :=
  join [' '] (words s)

theorem splitWhere_ne_nil (p : Char → Bool) (s : Text) : splitWhere p s ≠ [] := by
  cases s with
  | nil => simp [splitWhere]
  | cons c rest =>
    unfold splitWhere
    split
    · simp
    · split <;> simp

theorem join_cons_cons (separator : Text) (c : Char) (piece : Text) (pieces : List Text) :
    join separator ((c :: piece) :: pieces) = c :: join separator (piece :: pieces) := by
  cases pieces <;> simp [join]

theorem join_splitAt (separator : Char) (s : Text) :
    join [separator] (splitAt separator s) = s := by
  induction s with
  | nil => rfl
  | cons c rest ih =>
    simp only [splitAt] at ih ⊢
    unfold splitWhere
    split
    · rename_i h
      cases hs : splitWhere (· == separator) rest with
      | nil => exact absurd hs (splitWhere_ne_nil _ _)
      | cons piece pieces =>
        rw [hs] at ih
        simp [join, ih, beq_iff_eq.1 h]
    · split
      · rename_i hs
        exact absurd hs (splitWhere_ne_nil _ _)
      · rename_i piece pieces hs
        rw [join_cons_cons, ← hs, ih]

/-- A character of the class in the middle parts the pieces before it from those after it. -/
theorem join_append (separator : Text) (first rest : List Text)
    (hfirst : first ≠ []) (hrest : rest ≠ []) :
    join separator (first ++ rest) = join separator first ++ separator ++ join separator rest := by
  induction first with
  | nil => exact absurd rfl hfirst
  | cons line more ih =>
    cases more with
    | nil => cases rest with
      | nil => exact absurd rfl hrest
      | cons next others => simp [join]
    | cons next others =>
      have := ih (by simp)
      simp only [List.cons_append, join] at this ⊢
      simp [this]

theorem splitWhere_append_cons {p : Char → Bool} {c : Char} (hc : p c = true) (s rest : Text) :
    splitWhere p (s ++ c :: rest) = splitWhere p s ++ splitWhere p rest := by
  induction s with
  | nil => simp [splitWhere, hc]
  | cons d s ih =>
    rw [List.cons_append, splitWhere, splitWhere]
    split
    · rw [ih, List.cons_append]
    · rw [ih]
      cases hs : splitWhere p s with
      | nil => exact absurd hs (splitWhere_ne_nil p s)
      | cons piece pieces => rfl

theorem forall_mem_splitWhere {p : Char → Bool} {s piece : Text} (h : piece ∈ splitWhere p s) :
    ∀ c ∈ piece, p c = false := by
  induction s generalizing piece with
  | nil => simp_all [splitWhere]
  | cons c rest ih =>
    unfold splitWhere at h
    split at h
    · rcases List.mem_cons.1 h with rfl | h
      · simp
      · exact ih h
    · rename_i hc
      split at h
      · rename_i hs
        exact absurd hs (splitWhere_ne_nil p rest)
      · rename_i first others hs
        rcases List.mem_cons.1 h with rfl | h
        · intro d hd
          rcases List.mem_cons.1 hd with rfl | hd
          · simpa using hc
          · exact ih (hs ▸ List.mem_cons_self) d hd
        · exact ih (hs ▸ List.mem_cons_of_mem _ h)

/-- A text without characters of the class is one piece. -/
theorem splitWhere_of_forall {p : Char → Bool} {s : Text} (h : ∀ c ∈ s, p c = false) :
    splitWhere p s = [s] := by
  induction s with
  | nil => rfl
  | cons c rest ih =>
    rw [splitWhere, h c List.mem_cons_self, ih fun d hd => h d (List.mem_cons_of_mem _ hd)]
    rfl

theorem notMem_of_mem_splitAt {separator : Char} {s piece : Text}
    (h : piece ∈ splitAt separator s) : separator ∉ piece := fun hmem => by
  simpa using forall_mem_splitWhere h separator hmem

theorem mem_words {s word : Text} (h : word ∈ words s) :
    word ≠ [] ∧ ∀ c ∈ word, isBlank c = false := by
  obtain ⟨hmem, hne⟩ := List.mem_filter.1 h
  exact ⟨by simpa using hne, forall_mem_splitWhere hmem⟩

/-- A blank parts the words before it from those after it. -/
theorem words_append_cons {c : Char} (hc : isBlank c = true) (s rest : Text) :
    words (s ++ c :: rest) = words s ++ words rest := by
  rw [words, splitWhere_append_cons hc, List.filter_append]
  rfl

theorem words_of_forall {s : Text} (hne : s ≠ []) (h : ∀ c ∈ s, isBlank c = false) :
    words s = [s] := by
  rw [words, splitWhere_of_forall h]
  simp [hne]

theorem words_join {parts : List Text}
    (h : ∀ word ∈ parts, word ≠ [] ∧ ∀ c ∈ word, isBlank c = false) :
    words (join [' '] parts) = parts := by
  induction parts with
  | nil => rfl
  | cons word rest ih =>
    obtain ⟨hne, hblank⟩ := h word List.mem_cons_self
    have ih := ih fun other hother => h other (List.mem_cons_of_mem _ hother)
    cases rest with
    | nil => exact words_of_forall hne hblank
    | cons next others =>
      have hjoin : join [' '] (word :: next :: others) =
          word ++ ' ' :: join [' '] (next :: others) := by simp [join]
      rw [hjoin, words_append_cons (by decide), ih, words_of_forall hne hblank]
      rfl

theorem words_squeeze (s : Text) : words (squeeze s) = words s :=
  words_join fun _ => mem_words

theorem squeeze_squeeze (s : Text) : squeeze (squeeze s) = squeeze s := by
  rw [squeeze, words_squeeze, squeeze]

/-- The text before the first separator, and the text after it if there is one. -/
def cut (separator : Char) : Text → Text × Option Text
  | [] => ([], none)
  | c :: rest =>
    if c == separator then ([], some rest)
    else (c :: (cut separator rest).1, (cut separator rest).2)

/-- The text before the last separator, if there is one, and the text after it. -/
def cutLast (separator : Char) (s : Text) : Option Text × Text :=
  match cut separator s.reverse with
  | (after, before) => (before.map List.reverse, after.reverse)

/-- The lines of a text; a line ends with LF or CR LF, and the end is no part of it. -/
def lines (s : Text) : List Text :=
  go (splitAt '\n' s)
where
  /-- Drops one carriage return before every line end. -/
  go : List Text → List Text
    | [] => []
    | [last] => [last]
    | line :: rest => (if line.getLast? == some '\r' then line.dropLast else line) :: go rest

/-- Every line end becomes LF; the LF of a CR LF was written when its CR was read. -/
def unifyNewlinesAfter (wasReturn : Bool) : Text → Text
  | [] => []
  | c :: rest =>
    if c == '\r' then '\n' :: unifyNewlinesAfter true rest
    else if wasReturn && c == '\n' then unifyNewlinesAfter false rest
    else c :: unifyNewlinesAfter false rest

/-- Every line end becomes LF: CR LF is one line end, and so is a CR of its own. -/
def unifyNewlines (s : Text) : Text :=
  unifyNewlinesAfter false s

/-! ## Searching and replacing -/

def occursIn (needle : Text) : Text → Bool
  | [] => needle.isEmpty
  | c :: rest => needle.isPrefixOf (c :: rest) || occursIn needle rest

def replaceChar (old new : Char) (s : Text) : Text :=
  s.map fun c => if c == old then new else c

/-- The text before the first occurrence of a mark, and the text after it. -/
def breakAt? (mark : Text) : Text → Option (Text × Text)
  | [] => if mark.isEmpty then some ([], []) else none
  | c :: rest =>
    if mark.isPrefixOf (c :: rest) then some ([], (c :: rest).drop mark.length)
    else (breakAt? mark rest).map fun (before, after) => (c :: before, after)

/-! ## Order -/

def le : Text → Text → Bool
  | [], _ => true
  | _ :: _, [] => false
  | c :: s, d :: t => if c == d then le s t else c.toNat < d.toNat

def sort (items : List Text) : List Text :=
  items.mergeSort le

theorem le_total (s t : Text) : (le s t || le t s) = true := by
  fun_induction le s t with
  | case1 => simp
  | case2 => simp [le]
  | case3 c s d t hcd ih => simp_all [le]
  | case4 c s d t hcd =>
    have hne : c ≠ d := by simpa using hcd
    have hnat : c.toNat ≠ d.toNat := fun h => hne (Char.ext (UInt32.toNat_inj.1 h))
    simp [le, Ne.symm hne]
    omega

theorem le_trans {s t u : Text} (hst : le s t = true) (htu : le t u = true) : le s u = true := by
  induction s generalizing t u with
  | nil => rfl
  | cons c s ih =>
    cases t with
    | nil => simp [le] at hst
    | cons d t =>
      cases u with
      | nil => simp [le] at htu
      | cons e u =>
        by_cases hcd : c = d <;> by_cases hde : d = e
        · subst hcd hde
          simp only [le, beq_self_eq_true, if_true] at hst htu ⊢
          exact ih hst htu
        · subst hcd
          simpa [le, hde] using htu
        · subst hde
          simpa [le, hcd] using hst
        · simp only [le, beq_iff_eq, hcd, hde, if_false, decide_eq_true_eq] at hst htu
          have hce : c ≠ e := by
            rintro rfl
            omega
          simp only [le, beq_iff_eq, hce, if_false, decide_eq_true_eq]
          omega

theorem le_antisymm {s t : Text} (hst : le s t = true) (hts : le t s = true) : s = t := by
  induction s generalizing t with
  | nil =>
    cases t with
    | nil => rfl
    | cons d t => simp [le] at hts
  | cons c s ih =>
    cases t with
    | nil => simp [le] at hst
    | cons d t =>
      by_cases hcd : c = d
      · subst hcd
        simp only [le, beq_self_eq_true, if_true] at hst hts
        rw [ih hst hts]
      · have hdc : d ≠ c := fun h => hcd h.symm
        simp only [le, beq_iff_eq, hcd, hdc, if_false, decide_eq_true_eq] at hst hts
        omega

theorem length_sort (items : List Text) : (sort items).length = items.length :=
  List.length_mergeSort items

theorem pairwise_sort (items : List Text) : (sort items).Pairwise fun s t => le s t = true :=
  @List.pairwise_mergeSort Text le (fun _ _ _ => le_trans) le_total items

theorem mem_sort {items : List Text} {s : Text} : s ∈ sort items ↔ s ∈ items :=
  List.mem_mergeSort

/-! ## Numbers -/

/-- A decimal text longer than this is not read as a number. -/
def digitLimit : Nat := 4300

def ofNat (n : Nat) : Text :=
  Nat.toDigits 10 n

def ofInt : Int → Text
  | .ofNat n => ofNat n
  | .negSucc n => '-' :: ofNat (n + 1)

/-- The notation of a natural number in at least the given number of digits. -/
def padNat (width n : Nat) : Text :=
  List.replicate (width - (ofNat n).length) '0' ++ ofNat n

/-- The number that decimal digits of any script name; other characters count for nothing. -/
def digitsValue (s : Text) : Nat :=
  s.foldl (fun n c => match digitValue? c with
    | some d => 10 * n + d
    | none => n) 0

/-- Reads a number written in decimal digits of any script. -/
def readNat? (s : Text) : Option Nat :=
  if !s.isEmpty && s.all isDecimal && s.length ≤ digitLimit then some (digitsValue s) else none

/-- Reads an integer: blanks around it, a sign, and single underscores between digits
are allowed. -/
def readInt? (s : Text) : Option Int :=
  match trim s with
  | '-' :: rest => (magnitude rest).map fun n => -(n : Int)
  | '+' :: rest => (magnitude rest).map Int.ofNat
  | rest => (magnitude rest).map Int.ofNat
where
  /-- The digits with at most one underscore between two of them. -/
  magnitude (s : Text) : Option Nat :=
    let groups := splitAt '_' s
    if groups.all (fun group => !group.isEmpty && group.all isDecimal) then
      readNat? groups.flatten else none

example : trim " a b ".toList = "a b".toList := by decide

example : words "  a\tb\nc ".toList = ["a".toList, "b".toList, "c".toList] := by decide

example : lines "a\r\nb\n".toList = ["a".toList, "b".toList, []] := by decide

example : readInt? " -1_000 ".toList = some (-1000) ∧ readInt? "1__0".toList = none ∧
    readInt? "²".toList = none := by decide

end Checklist.Text
