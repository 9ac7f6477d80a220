import Checklist.Proofs.Markup.Item
import Mathlib.Data.List.Chain

/-! # Lines without spans

Inline code holds a backtick, and in a link two brackets stand side by side. Main statements: a text
without either is cut into characters (`pieces_of_isFlat`), so is a line of such texts
(`pieces_line`), and nothing is read in a content without signs (`isSettled_of_forall`). -/

namespace Checklist.Markup
set_option autoImplicit false
open Text

variable {today : Date} {s content : Text} {items : List Item}

/-! ## Flat texts -/

/-- The two characters start a wiki link, or join the label of a link and its target. -/
def joinsLink (c d : Char) : Bool :=
  c == '[' && d == '[' || c == ']' && d == '('

/-- No inline code and no link has room in the text. -/
structure IsFlat (s : Text) : Prop where
  code : '\x60' ∉ s
  link : s.IsChain fun c d => joinsLink c d = false

theorem IsFlat.part {t : Text} (h : IsFlat s) (ht : t <:+: s) : IsFlat t := by
  obtain ⟨before, after, rfl⟩ := ht
  exact ⟨fun hmem => h.code (by simp [hmem]), h.link.left_of_append.right_of_append⟩

theorem IsLink.not_isFlat {link : Text} (h : IsLink link) : ¬IsFlat link := by
  intro hflat
  cases h with
  | wiki inner _ =>
    have hpair := hflat.part (t := ['[', '[']) ⟨[], inner ++ "]]".toList, by simp⟩
    exact absurd hpair.link (by decide)
  | titled label target _ _ =>
    have hpair := hflat.part (t := [']', '(']) ⟨'[' :: label, target ++ [')'], by simp⟩
    exact absurd hpair.link (by decide)

theorem IsSpan.not_isFlat {span : Text} (h : IsSpan span) : ¬IsFlat span := by
  cases h with
  | code inner _ => exact fun hflat => hflat.code List.mem_cons_self
  | link hlink => exact hlink.not_isFlat
  | embedded hlink =>
    exact fun hflat => hlink.not_isFlat (hflat.part (List.suffix_cons _ _).isInfix)

theorem pieces_of_isFlat (h : IsFlat s) : pieces s = s.map .plain := by
  induction s with
  | nil => rfl
  | cons c rest ih =>
    have hnone : span? (c :: rest) = none := by
      rw [Option.eq_none_iff_forall_ne_some]
      intro span hspan
      obtain ⟨hspan, hstarts⟩ := span?_eq_some_iff.1 hspan
      exact hspan.not_isFlat (h.part hstarts.isInfix)
    rw [pieces_plain hnone, ih (h.part (List.suffix_cons c rest).isInfix)]
    rfl

theorem IsFlat.append {t : Text} (hs : IsFlat s) (ht : IsFlat t)
    (h : ∀ c ∈ s.getLast?, ∀ d ∈ t.head?, joinsLink c d = false) : IsFlat (s ++ t) := by
  refine ⟨fun hmem => ?_, List.isChain_append.2 ⟨hs.link, ht.link, h⟩⟩
  exact (List.mem_append.1 hmem).elim hs.code ht.code

theorem joinsLink_of_isInner {c d : Char} (h : isInner c = true ∨ isInner d = true ∧ d ≠ '(') :
    joinsLink c d = false := by
  simp only [isInner, Bool.and_eq_true, bne_iff_ne] at h
  rcases h with ⟨hopen, hclose⟩ | ⟨⟨hopen, -⟩, hparen⟩
  · simp [joinsLink, hopen, hclose]
  · simp [joinsLink, hopen, hparen]

theorem isFlat_of_forall (h : ∀ c ∈ s, isInner c = true ∧ c ≠ '\x60') : IsFlat s := by
  refine ⟨fun hmem => (h _ hmem).2 rfl, ?_⟩
  induction s with
  | nil => exact .nil
  | cons c rest ih =>
    rw [List.isChain_cons]
    exact ⟨fun d _ => joinsLink_of_isInner (.inl (h c List.mem_cons_self).1),
      ih fun d hd => h d (List.mem_cons_of_mem _ hd)⟩

theorem isFlat_bracketed (hne : s ≠ []) (h : ∀ c ∈ s, isInner c = true ∧ c ≠ '\x60') :
    IsFlat ('[' :: s ++ [']']) := by
  obtain ⟨c, rest, rfl⟩ := List.exists_cons_of_ne_nil hne
  have hopen : IsFlat ('[' :: c :: rest) := by
    refine .append (s := ['[']) ⟨by decide, .singleton _⟩ (isFlat_of_forall h) fun d hd e he => ?_
    obtain rfl : '[' = d := by simpa using hd
    obtain rfl : c = e := by simpa using he
    have hinner := (h c List.mem_cons_self).1
    simp only [isInner, Bool.and_eq_true, bne_iff_ne] at hinner
    simp [joinsLink, hinner.1]
  refine hopen.append ⟨by decide, .singleton _⟩ fun d hd e he => ?_
  obtain rfl : ']' = e := by simpa using he
  simp [joinsLink]

theorem isFlat_join {parts : List Text} (h : ∀ part ∈ parts, IsFlat part) :
    IsFlat (join [' '] parts) := by
  induction parts with
  | nil => exact ⟨by simp [join], .nil⟩
  | cons part parts ih => cases parts with
    | nil => exact h part List.mem_cons_self
    | cons next parts =>
      -- a space joins nothing
      have hspace : IsFlat (part ++ [' ']) := by
        refine (h part List.mem_cons_self).append ⟨by decide, .singleton _⟩ fun c _ d hd => ?_
        obtain rfl : ' ' = d := by simpa using hd
        exact joinsLink_of_isInner (.inr (by decide))
      refine hspace.append (ih fun other hother => h other (List.mem_cons_of_mem _ hother))
        fun c hc d _ => ?_
      obtain rfl : ' ' = c := by simpa using hc
      exact joinsLink_of_isInner (.inl (by decide))

/-! ## Lines of flat items -/

theorem map_plain_join (parts : List Text) : (join [' '] parts).map Piece.plain =
    [Piece.plain ' '].intercalate (parts.map (·.map .plain)) := by
  induction parts with
  | nil => rfl
  | cons part parts ih => cases parts with
    | nil => simp [join]
    | cons next parts =>
      rw [List.map_cons, List.map_cons, List.intercalate_cons_cons, ← List.map_cons, ← ih]
      simp [join]

theorem Item.parts_of_isFlat {item : Item} (h : IsFlat item.value) :
    item.parts = item.text.map .plain := by
  rw [Item.parts, pieces_of_isFlat h, Item.text, List.map_append, List.map_append]

/-- A line of a flat content and flat items has no spans. -/
theorem pieces_line (hcontent : IsFlat content) (hitems : ∀ item ∈ items, IsFlat item.text) :
    pieces (line content items) = (line content items).map .plain ∧
      pieces (line content items) = lineParts content items := by
  have hflat : IsFlat (line content items) := by
    refine isFlat_join fun part hpart => ?_
    rcases List.mem_append.1 hpart with hpart | hpart
    · split at hpart
      · cases hpart
      · rwa [List.mem_singleton.1 hpart]
    · obtain ⟨item, hitem, rfl⟩ := List.mem_map.1 hpart
      exact hitems item hitem
  refine ⟨pieces_of_isFlat hflat, ?_⟩
  rw [pieces_of_isFlat hflat, line, map_plain_join, lineParts, List.map_append, List.map_map]
  congr 2
  · split
    · rfl
    · rw [pieces_of_isFlat hcontent]
      rfl
  · refine List.map_congr_left fun item hitem => (Item.parts_of_isFlat ?_).symm
    exact (hitems item hitem).part ⟨item.before, item.after, rfl⟩

/-! ## Contents without signs -/

theorem length?_of_isSign (today : Date) (kind : TokenKind) {previous : Option Char} {c : Char}
    {rest : Text} (h : isSign c = false) :
    (grammarOf .standard today kind).length? previous (c :: rest) = none := by
  simp only [isSign, Bool.or_eq_false_iff, decide_eq_false_iff_not, beq_eq_false_iff_ne] at h
  obtain ⟨⟨⟨hsymbol, hbracket⟩, hhash⟩, hat⟩ := h
  cases kind with
  | dataview => exact @inlineLength?_eq_none previous c rest hbracket
  | emoji => exact @symbolLength?_eq_none previous c rest hsymbol
  | tag => exact @tagLength?_eq_none previous c rest hhash
  | context => exact @contextLength?_eq_none previous c rest hat

theorem consume_of_forall (today : Date) (kind : TokenKind) {budget : Nat} {previous : Option Char}
    (h : ∀ c ∈ s, isSign c = false) :
    (grammarOf .standard today kind).consume budget previous s = .ok ⟨s, [], budget, false⟩ := by
  have hlocal := isLocal_grammarOf today kind
  have hskip := @consume_skip _ budget previous hlocal s [] fun before c after hsplit _ =>
    length?_of_isSign today kind (h c (by simp [hsplit]))
  rw [List.append_nil, consume_nil hlocal] at hskip
  rw [hskip]
  simp [Except.map, Consumed.prepend]

theorem consumeAll_of_forall (today : Date) (kinds : List TokenKind) (budget : Nat)
    (h : ∀ c ∈ s, isSign c = false) :
    consumeAll (kinds.map (grammarOf .standard today)) budget s = .ok ⟨s, [], budget, false⟩ := by
  induction kinds with
  | nil => rfl
  | cons kind kinds ih =>
    exact Result.bind_eq_ok.2 ⟨_, consume_of_forall today kind h, Result.bind_eq_ok.2 ⟨_, ih, rfl⟩⟩

/-- Nothing is read in a squeezed content without signs, and no budget is spent on it. -/
theorem isSettled_of_forall (hsqueeze : squeeze content = content) (hflat : IsFlat content)
    (h : ∀ c ∈ content, isSign c = false) :
    IsSettled today content ∧
      consumeAll (grammars .standard today) Settings.standard.metadataLimit (protect content).text =
      .ok ⟨content, [], Settings.standard.metadataLimit, false⟩ := by
  have hprotect : protect content =
      ⟨content, []⟩ := by rw [protect, pieces_of_isFlat hflat, mask_plain, spans_plain]
  have hconsume : consumeAll (grammars .standard today)
      Settings.standard.metadataLimit (protect content).text =
      .ok ⟨content, [], Settings.standard.metadataLimit, false⟩ := by
    rw [grammars_eq_map, hprotect]
    exact consumeAll_of_forall today _ _ h
  refine ⟨?_, hconsume⟩
  rw [IsSettled, extract, hconsume, hprotect]
  refine Result.bind_eq_ok.2 ⟨_, rfl, Result.bind_eq_ok.2 ⟨content, ?_, rfl⟩⟩
  rw [hsqueeze]
  rfl

end Checklist.Markup
