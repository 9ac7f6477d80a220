import Checklist.Proofs.Markup.Numbering
import Checklist.Proofs.Markup.Winners

/-! # Metadata behind a content

Items are pieces of metadata as they are to be written, and a line is a content with items behind
it, a space before each. Main statement: a line of readable items whose spans are its own is read as
that content and those items (`extract_line`). -/

namespace Checklist.Markup
set_option autoImplicit false
open Text

/-! ## Items -/

/-- A piece of metadata as it is to be written: where it belongs, and its value with what
stands around it. -/
structure Item where
  kind : TokenKind
  slot : Slot
  before : Text
  value : Text
  after : Text
  deriving DecidableEq, Repr

namespace Item

def text (item : Item) : Text :=
  item.before ++ item.value ++ item.after

/-- The pieces of an item; spans stand in its value only. -/
def parts (item : Item) : List Piece :=
  item.before.map .plain ++ pieces item.value ++ item.after.map .plain

/-- What stands in a masked line for an item whose first span has the given number. -/
def cell (number : Nat) (item : Item) : Cell where
  kind := item.kind
  slot := item.slot
  value := mask number (pieces item.value)
  repeats := item.slot == .field .tags
  text := mask number item.parts

theorem chars_parts (item : Item) : chars item.parts = item.text := by
  rw [parts, chars_append, chars_append, chars_plain, chars_plain, (isCut_pieces item.value).2, text]

theorem spans_parts (item : Item) : spans item.parts = spans (pieces item.value) := by
  simp [parts, spans_append]

theorem mask_parts (number : Nat) (item : Item) :
    mask number item.parts = item.before ++ mask number (pieces item.value) ++ item.after := by
  simp [parts, mask_append]

end Item

variable {today : Date} {item : Item} {number : Nat} {value : Text}

/-- An item that is read as it is written. -/
inductive Item.IsReadable (today : Date) : Item → Prop where
  | tag {key value : Text} {slot : Slot} (hbody : ∀ c ∈ key ++ value, isTagBody c = true)
      (hname : isTagName (key ++ value) = true)
      (hmeaning : tagMeaning .standard (key ++ value) = (slot, value, slot == .field .tags)) :
        IsReadable today ⟨.tag, slot, '#' :: key, value, []⟩
  | context {name : Text} (hne : name ≠ []) (hbody : ∀ c ∈ name, isContextBody c = true) :
      IsReadable today ⟨.context, .field .context, ['@'], name, []⟩
  | inline {key value : Text} {slot : Slot} (hslot : inlineSlot .standard key = slot)
      (htags : slot ≠ .field .tags) (hkey : IsKey key)
      (hkeyTrimmed : IsTrimmed key) (hvalue : ∀ c, .plain c ∈ pieces value → isInner c = true)
        (hvalueTrimmed : IsTrimmed value)
      (hsense : ∀ number, makesSense today slot (mask number (pieces value)) = .ok true) :
      IsReadable today ⟨.dataview, slot, '[' :: key ++ "::".toList, value, [']']⟩
  | level {symbol : Char} (hfield : (plainSymbols .standard).lookup [symbol] = some .priority) :
      IsReadable today ⟨.emoji, .field .priority, [], [symbol], []⟩
  | date {symbol : Char} {kind : DateField} {value : Text}
      (hfield : (plainSymbols .standard).lookup [symbol] = some (.date kind))
      (hne : value ≠ []) (hsolid : ∀ c ∈ value, isInner c = true ∧ isOpener c = false)
        (hword : dateWord (' ' :: value) = (value, []))
      (hdate : isUndated today (.date kind) value = .ok false) : IsReadable today
        ⟨.emoji, .field (.date kind), [symbol, ' '], value, []⟩
  | phrase {symbol : Char} {value : Text} (hfield : (plainSymbols .standard).lookup [symbol] =
      some .recurrence) (htrimmed : IsTrimmed value)
      (hmarks : ∀ number, locate? marks (some ' ') (mask number (pieces value)) = none) :
      IsReadable today ⟨.emoji, .field .recurrence, [symbol, ' '], value, []⟩

/-! ## Items are read as cells -/

theorem mask_of_forall (h : ∀ c ∈ value, isOpener c = false) :
    mask number (pieces value) = value := by
  rw [pieces_of_forall h, mask_plain]

theorem isOpener_of_isTagBody {c : Char} (h : isTagBody c = true) : isOpener c = false := by
  by_contra hopener
  have hopener' : isOpener c = true := by simpa using hopener
  simp only [isOpener, Bool.or_eq_true, beq_iff_eq] at hopener'
  have hno : isTagBody '\x60' = false ∧ isTagBody '[' = false ∧
      isTagBody '!' = false := by decide +kernel
  rcases hopener' with (rfl | rfl) | rfl <;> simp [hno] at h

theorem IsCut.mask_last {parts : List Piece} (h : IsCut parts)
    (hlast : ∀ c, (chars parts).getLast? = some c → isBlank c = false) :
    ∀ c, (mask number parts).getLast? = some c → isBlank c = false := by
  induction h generalizing number with
  | nil => simp [mask]
  | @plain d parts hd h ih =>
    by_cases hparts : parts = []
    · subst hparts
      exact hlast
    · have hchars : chars (.plain d :: parts) = d :: chars parts := rfl
      rw [hchars, List.getLast?_cons_of_ne_nil (h.chars_ne_nil hparts)] at hlast
      rw [mask, List.getLast?_cons_of_ne_nil (mask_ne_nil hparts)]
      exact ih hlast
  | @span s parts hs h ih =>
    by_cases hparts : parts = []
    · subst hparts
      intro c hc
      have hend : placeholder number ++ mask (number + 1) [] = (openMark :: ofNat number) ++
          [closeMark] := by simp [mask, placeholder]
      rw [mask, hend, List.getLast?_concat, Option.some.injEq] at hc
      rw [← hc]
      decide
    · have hchars : chars (.span s :: parts) = s ++ chars parts := rfl
      rw [hchars, List.getLast?_append_of_ne_nil _ (h.chars_ne_nil hparts)] at hlast
      rw [mask, List.getLast?_append_of_ne_nil _ (mask_ne_nil hparts)]
      exact ih hlast

theorem isTrimmed_mask (h : IsTrimmed value) : IsTrimmed (mask number (pieces value)) := by
  obtain ⟨hcut, hchars⟩ := isCut_pieces value
  have hne : pieces value ≠ [] := by
    intro hempty
    rw [hempty] at hchars
    exact h.ne_nil hchars.symm
  refine ⟨mask_ne_nil hne, ?_, hcut.mask_last fun c hc => h.last c (by rwa [hchars] at hc)⟩
  intro c hc
  cases hparts : pieces value with
  | nil => exact absurd hparts hne
  | cons part parts =>
    rw [hparts] at hc hchars
    cases part with
    | plain d =>
      refine h.head c ?_
      rw [← hchars]
      exact hc
    | span s =>
      obtain rfl : openMark = c := by simpa [mask, placeholder] using hc
      decide

theorem isInner_mask (h : ∀ c, .plain c ∈ pieces value → isInner c = true) :
    ∀ c ∈ mask number (pieces value), isInner c = true := by
  intro c hc
  rcases mem_mask hc with hplain | hmasking
  · exact h c hplain
  · exact isInner_of_isMasking hmasking

theorem Item.cell_eq {masked : Text} (h : mask number (pieces item.value) = masked) :
    item.cell number = ⟨item.kind, item.slot, masked, item.slot == .field .tags,
      item.before ++ masked ++ item.after⟩ := by
  rw [Item.cell, Item.mask_parts, h]

theorem isOpener_of_lookup {symbol : Char} {field : Field}
    (h : (plainSymbols .standard).lookup [symbol] = some field) :
    isOpener symbol = false := by
  have hsign := mem_signs_of_lookup h
  have hall : ∀ c ∈ signs, isOpener c = false := by decide
  exact hall symbol hsign

theorem Item.IsReadable.isCell (h : item.IsReadable today) (number : Nat) :
    IsCell today (item.cell number) := by
  cases h with
  | tag hbody hname hmeaning =>
    rw [Item.cell_eq (mask_of_forall fun c hc =>
      isOpener_of_isTagBody (hbody c (List.mem_append_right _ hc))), List.append_nil]
    exact .tag hbody hname hmeaning
  | context hne hbody =>
    rw [Item.cell_eq (mask_of_forall fun c hc =>
      isOpener_of_isTagBody (isTagBody_of_isContextBody (hbody c hc))), List.append_nil]
    exact .context hne hbody
  | @inline key value slot hslot htags hkey hkeyTrimmed hvalue hvalueTrimmed hsense =>
    subst hslot
    rw [Item.cell_eq rfl, beq_false_of_ne htags]
    exact .inline hkey hkeyTrimmed (isInner_mask hvalue) (isTrimmed_mask hvalueTrimmed) (hsense number)
  | @level symbol hfield =>
    have hopener : ∀ c ∈ [symbol], isOpener c = false :=
      fun c hc => List.mem_singleton.1 hc ▸ isOpener_of_lookup hfield
    rw [Item.cell_eq (mask_of_forall hopener), List.append_nil]
    exact .level hfield
  | date hfield hne hsolid hword hdate =>
    rw [Item.cell_eq (mask_of_forall fun c hc => (hsolid c hc).2), List.append_nil]
    exact .date hfield hne (fun c hc => (hsolid c hc).1) hword hdate
  | phrase hfield htrimmed hmarks =>
    rw [Item.cell_eq rfl, List.append_nil]
    exact .phrase hfield (isTrimmed_mask htrimmed) (hmarks number)

/-! ## Lines of items -/

variable {content : Text} {items : List Item}

/-- A content with items behind it, and a space between neighbours. -/
def line (content : Text) (items : List Item) : Text :=
  join [' '] ((if content.isEmpty then [] else [content]) ++ items.map Item.text)

/-- The pieces of such a line, if each of its spans lies within the content or within an item. -/
def lineParts (content : Text) (items : List Item) : List Piece :=
  [.plain ' '].intercalate ((if content.isEmpty then [] else [pieces content]) ++ items.map Item.parts)

def spacedParts (items : List Item) : List Piece :=
  items.flatMap fun item => .plain ' ' :: item.parts

/-- The cells of items whose first span has the given number. -/
def cells : Nat → List Item → List Cell
  | _, [] => []
  | number, item :: rest => item.cell number :: cells (number + (spans item.parts).length) rest

theorem intercalate_cons (parts : List Piece) (items : List Item) :
    [Piece.plain ' '].intercalate (parts :: items.map Item.parts) = parts ++ spacedParts items := by
  induction items generalizing parts with
  | nil => simp [spacedParts]
  | cons item items ih =>
    rw [List.map_cons, List.intercalate_cons_cons, ih]
    simp [spacedParts]

theorem lineParts_nil_cons : lineParts [] (item :: items) = item.parts ++ spacedParts items :=
  intercalate_cons item.parts items

theorem lineParts_of_ne_nil (h : content ≠ []) :
    lineParts content items = pieces content ++ spacedParts items := by
  have hempty : content.isEmpty = false := by simpa using h
  rw [lineParts, hempty]
  exact intercalate_cons _ items

theorem spans_spacedParts (items : List Item) :
    spans (spacedParts items) = items.flatMap fun item => spans item.parts := by
  induction items with
  | nil => rfl
  | cons item items ih =>
    rw [spacedParts, List.flatMap_cons, spans_append, List.flatMap_cons, ← ih]
    rfl

theorem spans_lineParts (content : Text) (items : List Item) :
    spans (lineParts content items) = spans (pieces content) ++ items.flatMap fun item =>
      spans item.parts := by
  by_cases hempty : content = []
  · subst hempty
    cases items with
    | nil => rfl
    | cons item items =>
      rw [lineParts_nil_cons, spans_append, spans_spacedParts]
      rfl
  · rw [lineParts_of_ne_nil hempty, spans_append, spans_spacedParts]

theorem mem_lineParts_of_item {part : Piece} (hitem : item ∈ items) (h : part ∈ item.parts) :
    part ∈ lineParts content items := by
  have hspaced : ∀ {items : List Item}, item ∈ items → part ∈ spacedParts items := fun hitem =>
    List.mem_flatMap.2 ⟨item, hitem, List.mem_cons_of_mem _ h⟩
  by_cases hempty : content = []
  · subst hempty
    cases items with
    | nil => cases hitem
    | cons first items =>
      rw [lineParts_nil_cons, List.mem_append]
      refine (List.mem_cons.1 hitem).imp (fun heq => ?_) hspaced
      rwa [← heq]
  · rw [lineParts_of_ne_nil hempty]
    exact List.mem_append_right _ (hspaced hitem)

theorem mem_lineParts_of_content {part : Piece} (h : part ∈ pieces content) :
    part ∈ lineParts content items := by
  have hne : content ≠ [] := by
    rintro rfl
    cases h
  rw [lineParts_of_ne_nil hne]
  exact List.mem_append_left _ h

theorem spaced_mask (items : List Item) (number : Nat) :
    Spaced (cells number items) (mask number (spacedParts items)) ∧
      IsBreak (mask number (spacedParts items)) := by
  induction items generalizing number with
  | nil => exact ⟨.nil, by simp [IsBreak, spacedParts, mask]⟩
  | cons item items ih =>
    have hcons : mask number (spacedParts (item :: items)) =
        ' ' :: (mask number item.parts ++
            mask (number + (spans item.parts).length) (spacedParts items)) := by
      rw [← mask_append]
      rfl
    obtain ⟨hspaced, hbreak⟩ := ih (number + (spans item.parts).length)
    rw [hcons]
    exact ⟨.space (@Spaced.cell (item.cell number) _ _ hbreak hspaced), isBreak_space _⟩

theorem exists_mask_lineParts (content : Text) (items : List Item) :
    ∃ s, mask 0 (lineParts content items) = (protect content).text ++ s ∧
    Spaced (cells (spans (pieces content)).length items) s ∧
      ((protect content).text = [] ∨ IsBreak s) := by
  by_cases hempty : content = []
  · subst hempty
    cases items with
    | nil => exact ⟨[], rfl, .nil, .inl rfl⟩
    | cons item items =>
      obtain ⟨hspaced, hbreak⟩ := spaced_mask items (spans item.parts).length
      refine ⟨mask 0 item.parts ++ mask (spans item.parts).length (spacedParts items), ?_, ?_, .inl rfl⟩
      · rw [lineParts_nil_cons, mask_append, Nat.zero_add]
        rfl
      · have hcells : cells (spans (pieces ([] : Text))).length (item :: items) =
            item.cell 0 :: cells (spans item.parts).length items := by
          show item.cell 0 :: cells (0 + (spans item.parts).length) items = _
          rw [Nat.zero_add]
        rw [hcells]
        exact @Spaced.cell (item.cell 0) _ _ hbreak hspaced
  · obtain ⟨hspaced, hbreak⟩ := spaced_mask items (spans (pieces content)).length
    refine ⟨_, ?_, hspaced, .inr hbreak⟩
    rw [lineParts_of_ne_nil hempty, mask_append, Nat.zero_add]
    rfl

/-! ## Cells and their items -/

/-- The cell stands for the item in a line with the given spans. -/
def Item.FiledIn (store : List Text) (item : Item) (cell : Cell) : Prop :=
  ∃ before after, store = before ++ spans item.parts ++ after ∧ cell = item.cell before.length

theorem forall₂_cells (before : List Text) (items : List Item) :
    List.Forall₂ (Item.FiledIn (before ++ items.flatMap fun item => spans item.parts)) items
      (cells before.length items) := by
  induction items generalizing before with
  | nil => exact .nil
  | cons item items ih =>
    have hrest := ih (before ++ spans item.parts)
    rw [List.length_append] at hrest
    rw [List.flatMap_cons, ← List.append_assoc]
    exact .cons ⟨before, _, rfl, rfl⟩ hrest

def inOrder (items : List Item) : List Item :=
  (kinds .standard).flatMap fun kind => items.filter (·.kind == kind)

theorem forall₂_inOrder {R : Item → Cell → Prop} {cells : List Cell}
    (h : List.Forall₂ R items cells) (hkind : ∀ {item cell}, R item cell → cell.kind = item.kind) :
    List.Forall₂ R (inOrder items)
      ((kinds .standard).flatMap fun kind => cells.filter (·.kind == kind)) := by
  have hfilter : ∀ kind,
      List.Forall₂ R (items.filter (·.kind == kind)) (cells.filter (·.kind == kind)) :=
    fun kind => List.rel_filter (fun item cell hR => by simp [hkind hR]) h
  rw [inOrder]
  induction kinds .standard with
  | nil => exact .nil
  | cons kind kinds ih => exact List.rel_append (hfilter kind) ih

/-- What is read from an item. -/
structure Item.Gives (item : Item) (token : Token) : Prop where
  kind : token.kind = item.kind
  slot : token.slot = item.slot
  value : token.value = item.value

theorem Item.FiledIn.restore {store : List Text} {cell : Cell} {token : Token}
    (h : item.FiledIn store cell) (hgives : cell.Gives token)
    (hplain : store = [] ∨ ∀ c, .plain c ∈ item.parts → c ≠ openMark)
    (hlimit : store.length ≤ 10 ^ digitLimit) :
    ∃ restored, Token.restore store token = .ok restored ∧ item.Gives restored := by
  obtain ⟨before, after, hstore, rfl⟩ := h
  obtain ⟨blanks, hblanks, rfl⟩ := hgives
  have hvalueSpans : spans (pieces item.value) = spans item.parts := item.spans_parts.symm
  have hrawSpans : spans (item.parts ++ blanks.map .plain) =
      spans item.parts := by simp [spans_append]
  have hcount : (before ++ spans item.parts).length ≤ 10 ^ digitLimit := by
    rw [hstore] at hlimit
    simp only [List.length_append] at hlimit ⊢
    omega
  have hvalue : Markup.restore store (mask before.length (pieces item.value)) = .ok item.value := by
    have hrestore := @restore_mask before after (pieces item.value) ?_ (by rwa [hvalueSpans])
    · rw [hvalueSpans, ← hstore] at hrestore
      rw [hrestore, (isCut_pieces item.value).2]
    · rw [hvalueSpans, ← hstore]
      exact hplain.imp_right fun h c hc => h c (List.mem_append_left _ (List.mem_append_right _ hc))
  have hraw : Markup.restore store (mask before.length item.parts ++ blanks) =
      .ok (item.text ++ blanks) := by
    have hmask : mask before.length (item.parts ++ blanks.map .plain) =
        mask before.length item.parts ++ blanks := by
      rw [mask_append, mask_plain]
    have hrestore :=
      @restore_mask before after (item.parts ++ blanks.map .plain) ?_ (by rwa [hrawSpans])
    · rw [hrawSpans, ← hstore, hmask] at hrestore
      rw [hrestore, chars_append, chars_plain, item.chars_parts]
    · rw [hrawSpans, ← hstore]
      refine hplain.imp_right fun h c hc => ?_
      rcases List.mem_append.1 hc with hc | hc
      · exact h c hc
      · obtain ⟨d, hd, heq⟩ := List.mem_map.1 hc
        cases heq
        rw [hblanks c hd]
        decide
  refine ⟨⟨item.kind, item.slot, item.value, item.text ++ blanks⟩, ?_, rfl, rfl, rfl⟩
  exact Result.bind_eq_ok.2 ⟨_, hvalue, Result.bind_eq_ok.2 ⟨_, hraw, rfl⟩⟩

theorem restore_tokens {store : List Text} {cells : List Cell} {tokens : List Token}
    (hfiled : List.Forall₂ (Item.FiledIn store) items cells)
    (hgives : List.Forall₂ Cell.Gives cells tokens)
    (hplain : store = [] ∨ ∀ item ∈ items, ∀ c, .plain c ∈ item.parts → c ≠ openMark)
    (hlimit : store.length ≤ 10 ^ digitLimit) :
    ∃ restored, tokens.mapM (Token.restore store) = .ok restored ∧
      List.Forall₂ Item.Gives items restored := by
  induction hfiled generalizing tokens with
  | nil =>
    cases hgives
    exact ⟨[], rfl, .nil⟩
  | cons hfirst _ ih =>
    cases hgives with
    | cons hfirstGives hgives =>
      obtain ⟨token, htoken, hgivesToken⟩ :=
        hfirst.restore hfirstGives (hplain.imp_right fun h => h _ List.mem_cons_self) hlimit
      obtain ⟨rest, hrest, hgivesRest⟩ :=
        ih hgives (hplain.imp_right fun h item hitem => h item (List.mem_cons_of_mem _ hitem))
      exact ⟨token :: rest, Result.mapM_eq_ok.2 (.cons htoken (Result.mapM_eq_ok.1 hrest)),
        .cons hgivesToken hgivesRest⟩

theorem mem_of_mem_inOrder (h : item ∈ inOrder items) : item ∈ items := by
  obtain ⟨kind, -, hitem⟩ := List.mem_flatMap.1 h
  exact (List.mem_filter.1 hitem).1

/-! ## Contents in which nothing is read -/

/-- Nothing is read in the content, and it is as short as it gets. -/
def IsSettled (today : Date) (content : Text) : Prop :=
  extract .standard today content = .ok ⟨content, [], [], [], [], false⟩

theorem text_of_consumeAll {grammars : List Grammar} {budget : Nat} {s : Text} {consumed : Consumed}
    (h : consumeAll grammars budget s = .ok consumed) (htokens : consumed.tokens = []) :
    consumed.text = s := by
  induction grammars generalizing budget s consumed with
  | nil =>
    cases h
    rfl
  | cons grammar grammars ih =>
    obtain ⟨first, others, hfirst, hothers, rfl⟩ := consumeAll_cons_eq_ok_iff.1 h
    obtain ⟨hnone, hrest⟩ := List.append_eq_nil_iff.1 htokens
    rw [ih hothers hrest, text_of_consume hfirst (firsts_eq_nil (List.map_eq_nil_iff.1 hnone))]

theorem IsSettled.consumeAll (h : IsSettled today content) : ∃ left,
    consumeAll ((kinds .standard).map (grammarOf .standard today))
      Settings.standard.metadataLimit (protect content).text =
      .ok ⟨(protect content).text, [], left, false⟩ ∧
    restore (protect content).store (squeeze (protect content).text) = .ok content := by
  rw [IsSettled, extract_eq_ok_iff, grammars_eq_map] at h
  obtain ⟨consumed, text, tokens, hconsumed, htext, htokens, hextraction⟩ := h
  obtain ⟨rfl, -, -, -, rfl, hexhausted⟩ := Extraction.mk.inj hextraction
  have hnone : consumed.tokens = [] := by
    cases hmapped : consumed.tokens.map (·.1) with
    | nil => exact List.map_eq_nil_iff.1 hmapped
    | cons token rest =>
      rw [hmapped, Result.mapM_eq_ok] at htokens
      cases htokens
  have hsame := text_of_consumeAll hconsumed hnone
  refine ⟨consumed.left, ?_, by rwa [hsame] at htext⟩
  rw [hconsumed, ← hsame, ← hnone, ← hexhausted]

theorem squeeze_append_blanks {s blanks : Text} (h : ∀ c ∈ blanks, c = ' ') :
    squeeze (s ++ blanks) = squeeze s := by
  have hnone : ∀ blanks : Text, (∀ c ∈ blanks, c = ' ') → words blanks = [] := by
    intro blanks h
    induction blanks with
    | nil => rfl
    | cons c blanks ih =>
      obtain rfl := h c List.mem_cons_self
      rw [← List.nil_append (' ' :: blanks), words_append_cons (by decide),
        ih fun d hd => h d (List.mem_cons_of_mem _ hd)]
      rfl
  cases blanks with
  | nil => rw [List.append_nil]
  | cons c blanks =>
    obtain rfl := h c List.mem_cons_self
    rw [squeeze, words_append_cons (by decide),
      hnone blanks fun d hd => h d (List.mem_cons_of_mem _ hd), List.append_nil, squeeze]

theorem restore_settled {more : List Text}
    (h : restore (protect content).store (squeeze (protect content).text) = .ok content)
    (hplain : (protect content).store ++ more = [] ∨ openMark ∉ content) :
    restore ((protect content).store ++ more) (squeeze (protect content).text) = .ok content := by
  rcases restores_of_restore h with ⟨hempty, hsame⟩ | ⟨hne, hrestores⟩
  · rcases hplain with hnone | hnotMem
    · rw [hnone, ← hsame]
      rfl
    · cases more with
      | nil => rwa [List.append_nil]
      | cons span more =>
        rw [hempty, ← hsame, List.nil_append, restore, List.isEmpty_cons]
        exact restoreAfter_eq_ok_iff.2 (restores_of_notMem hnotMem)
  · have hstore : ((protect content).store ++ more).isEmpty = false := by simp [hne]
    rw [restore, hstore]
    exact restoreAfter_eq_ok_iff.2 (hrestores.append_store more)

/-! ## Lines are read as their content and their items -/

theorem mem_cells {cell : Cell} (h : cell ∈ cells number items) :
    ∃ item ∈ items, ∃ number, cell = item.cell number := by
  induction items generalizing number with
  | nil => cases h
  | cons item items ih =>
    rcases List.mem_cons.1 h with rfl | h
    · exact ⟨item, List.mem_cons_self, _, rfl⟩
    · obtain ⟨other, hother, hcell⟩ := ih h
      exact ⟨other, List.mem_cons_of_mem _ hother, hcell⟩

theorem length_filter_cells (kinds : List TokenKind) (number : Nat) (items : List Item) :
    ((cells number items).filter (·.kind ∈ kinds)).length =
      (items.filter (·.kind ∈ kinds)).length := by
  induction items generalizing number with
  | nil => rfl
  | cons item items ih =>
    have hkind : (item.cell number).kind = item.kind := rfl
    rw [cells, List.filter_cons, List.filter_cons, hkind]
    split
    · exact congrArg (· + 1) (ih _)
    · exact ih _

theorem slots_cells (number : Nat) (items : List Item) :
    ((cells number items).filter (!·.repeats)).map (·.slot) =
      (items.filter (·.slot != .field .tags)).map (·.slot) := by
  induction items generalizing number with
  | nil => rfl
  | cons item items ih =>
    rw [cells, List.filter_cons, List.filter_cons]
    have hrepeats : (!(item.cell number).repeats) = (item.slot != .field .tags) := rfl
    rw [hrepeats]
    split
    · rw [List.map_cons, List.map_cons, ih]
      rfl
    · exact ih _

/-- What a line needs to be read as its content and its items. -/
structure IsLine (today : Date) (content : Text) (items : List Item) : Prop where
  settled : IsSettled today content
  readable : ∀ item ∈ items, item.IsReadable today
  kinds : ∀ item ∈ items, (item.slot = .field .tags → item.kind = .tag) ∧ ∀ key,
    item.slot = .custom key → item.kind = .dataview
  slots : ((items.filter (·.slot != .field .tags)).map (·.slot)).Nodup
  apart : ∀ item ∈ items, item.slot = .field .recurrence → ∀ number,
    IsApart (protect content).text (mask number item.parts)
  pieces : pieces (line content items) = lineParts content items
  plain : spans (Markup.pieces (line content items)) = [] ∨ openMark ∉ line content items
  count : (spans (Markup.pieces (line content items))).length ≤ 10 ^ digitLimit
  budget : ∀ consumed, Markup.consumeAll (grammars .standard today) Settings.standard.metadataLimit
    (protect content).text = .ok consumed →
    items.length ≤ consumed.left

/-- Grammars that read nothing in a content take out of a line with it the items of their kinds,
unless they find something in the others. -/
theorem consume_line {kinds : List TokenKind} (hsublist : kinds.Sublist (Markup.kinds .standard))
    (hreadable : ∀ item ∈ items, item.IsReadable today)
    (hunread : ∀ kind ∈ kinds, ∀ item ∈ items, item.kind ∉ kinds → ∀ number,
      (grammarOf .standard today kind).Skips (item.cell number))
    (hslots : ((items.filter (·.slot != .field .tags)).map (·.slot)).Nodup)
    (hapart : ∀ item ∈ items, item.slot = .field .recurrence → ∀ number,
      IsApart (protect content).text (mask number item.parts))
    (hpieces : Markup.pieces (line content items) = lineParts content items) {budget left : Nat}
    (hbudget : (items.filter (·.kind ∈ kinds)).length ≤ left)
    (hcontent : Markup.consumeAll (kinds.map (grammarOf .standard today)) budget
      (protect content).text =
      .ok ⟨(protect content).text, [], left, false⟩) :
    let cells := cells (spans (Markup.pieces content)).length items
    ∃ text entries, Markup.consumeAll (kinds.map (grammarOf .standard today)) budget
        (protect (line content items)).text =
        .ok ⟨(protect content).text ++ text, entries,
          left - (items.filter (·.kind ∈ kinds)).length, false⟩ ∧
      Spaced (cells.filter (·.kind ∉ kinds)) text ∧
      List.Forall₂ Cell.Gives (kinds.flatMap fun kind => cells.filter (·.kind == kind))
          (entries.map (·.1)) := by
  intro cells
  obtain ⟨s, hmask, hspaced, hstart⟩ := exists_mask_lineParts content items
  have hcells : ∀ cell ∈ cells, ∃ item ∈ items, ∃ number, cell = item.cell number :=
    fun cell hcell => mem_cells hcell
  have hisCell : ∀ cell ∈ cells, IsCell today cell := by
    intro cell hcell
    obtain ⟨item, hitem, number, rfl⟩ := hcells cell hcell
    exact (hreadable item hitem).isCell number
  have hapart : ∀ cell ∈ cells, IsApart (protect content).text cell.text := by
    intro cell hcell
    rcases (hisCell cell hcell).closed with ⟨hslot, -⟩ | ⟨hfirst, -⟩
    · obtain ⟨item, hitem, number, rfl⟩ := hcells cell hcell
      exact hapart item hitem hslot number
    · exact .inr hfirst
  have hunread : ∀ kind ∈ kinds, ∀ cell ∈ cells, cell.kind ∉ kinds →
      (grammarOf .standard today kind).Skips cell := by
    intro kind hkind cell hcell hnone
    obtain ⟨item, hitem, number, rfl⟩ := hcells cell hcell
    exact hunread kind hkind item hitem hnone number
  have hpasses := passes hisCell (by rw [slots_cells]; exact hslots)
  have hnodup : kinds.Nodup := hsublist.nodup (by rw [kinds_standard]; decide)
  obtain ⟨hle, hread⟩ :=
    hpasses.consumeSome hnodup hunread
      ((IsCell.skips _ hisCell).sublist hsublist) hspaced hstart hapart hcontent
  obtain ⟨text, entries, hconsume, hkept, hgives⟩ :=
    hread (left - (items.filter (·.kind ∈ kinds)).length)
  refine ⟨text, entries, ?_, hkept, hgives⟩
  -- the budget pays for the marks of the content and then for one mark an item
  have hlimit : left - (items.filter (·.kind ∈ kinds)).length +
      (cells.filter (·.kind ∈ kinds)).length + (budget - left) = budget := by
    rw [length_filter_cells]
    omega
  have htext : (protect (line content items)).text = (protect content).text ++ s := by
    rw [← hmask, ← hpieces]
    rfl
  rw [htext, ← hconsume, hlimit]

/-- A line is read as its content and its items, in the order of the grammars. -/
theorem extract_line (h : IsLine today content items) :
    ∃ tokens, List.Forall₂ Item.Gives (inOrder items) tokens ∧
    extract .standard today (line content items) =
      .ok ⟨content, fieldValues (winners tokens), customValues (winners tokens),
        tagValues tokens, tokens, false⟩ := by
  obtain ⟨left, hcontent, hrestore⟩ := h.settled.consumeAll
  have hkinds : ∀ kind : TokenKind, kind ∈ kinds .standard := fun kind => by
    rw [kinds_standard]
    cases kind <;> simp
  have hall : items.filter (·.kind ∈ kinds .standard) = items := List.filter_eq_self.2 fun item _ =>
    decide_eq_true (hkinds item.kind)
  have hbudget : (items.filter (·.kind ∈ kinds .standard)).length ≤ left := by
    rw [hall]
    exact h.budget _ (by rw [grammars_eq_map]; exact hcontent)
  obtain ⟨blanks, entries, hconsume, hkept, hgives⟩ := consume_line (List.Sublist.refl _) h.readable
    (fun _ _ item _ hnone => absurd (hkinds item.kind) hnone) h.slots h.apart h.pieces hbudget hcontent
  rw [List.filter_eq_nil_iff.2 fun cell _ => by simpa using hkinds cell.kind] at hkept
  have hblanks := hkept.eq_space
  have hstore : (protect (line content items)).store = (protect content).store ++
      items.flatMap fun item => spans item.parts := by
    rw [protect, h.pieces]
    exact spans_lineParts content items
  have hline : chars (lineParts content items) =
      line content items := by rw [← h.pieces, (isCut_pieces _).2]
  have hplain : (protect (line content items)).store = [] ∨ ∀ c,
      .plain c ∈ lineParts content items → c ≠ openMark := by
    refine h.plain.imp_right fun hnotMem c hc heq => hnotMem ?_
    rw [← hline, ← heq]
    exact mem_chars_of_plain hc
  have hfiled : List.Forall₂ (Item.FiledIn (protect (line content items)).store) items
      (cells (spans (Markup.pieces content)).length items) := by
    rw [hstore]
    exact forall₂_cells _ items
  have hinOrder := forall₂_inOrder hfiled fun {item cell} hR => by
    obtain ⟨_, _, -, rfl⟩ := hR
    rfl
  obtain ⟨tokens, htokens, hgivesTokens⟩ := restore_tokens hinOrder hgives
    (hplain.imp_right fun h item hitem c hc =>
      h c (mem_lineParts_of_item (mem_of_mem_inOrder hitem) hc)) h.count
  have hsqueezed : restore (protect (line content items)).store
      (squeeze ((protect content).text ++ blanks)) = .ok content := by
    rw [squeeze_append_blanks hblanks, hstore]
    refine restore_settled hrestore ?_
    rw [← hstore]
    refine h.plain.imp_right fun hnotMem hmem => hnotMem ?_
    rw [← hline]
    rw [← (isCut_pieces content).2] at hmem
    obtain ⟨part, hpart, hchar⟩ := List.mem_flatMap.1 hmem
    exact List.mem_flatMap.2 ⟨part, mem_lineParts_of_content hpart, hchar⟩
  refine ⟨tokens, hgivesTokens, ?_⟩
  rw [extract, grammars_eq_map, hconsume]
  exact Result.bind_eq_ok.2
    ⟨_, rfl, Result.bind_eq_ok.2 ⟨_, hsqueezed, Result.bind_eq_ok.2 ⟨_, htokens, rfl⟩⟩⟩

/-! ## What is read from a line of items -/

/-- The key and the value of an item under a key of the author's own. -/
def Item.custom? (item : Item) : Option (Text × Text) :=
  match item.slot with
  | .field _ => none
  | .custom key => some (key, item.value)

def Item.tag? (item : Item) : Option Text :=
  if item.slot == .field .tags then some item.value else none

theorem inOrder_perm (items : List Item) : (inOrder items).Perm items := by
  have hunfold : ∀ items : List Item, inOrder items = items.filter (·.kind == .dataview) ++
      (items.filter (·.kind == .emoji) ++
      (items.filter (·.kind == .tag) ++ items.filter (·.kind == .context))) := by
    intro items
    rw [inOrder, kinds_standard]
    simp
  induction items with
  | nil => rfl
  | cons item items ih =>
    rw [hunfold] at ih ⊢
    cases hkind : item.kind <;> simp only [List.filter_cons, hkind] <;> simp
    · exact ih
    · exact List.perm_middle.trans (ih.cons item)
    · rw [← List.append_assoc] at ih ⊢
      exact List.perm_middle.trans (ih.cons item)
    · rw [← List.append_assoc, ← List.append_assoc] at ih ⊢
      exact List.perm_middle.trans (ih.cons item)

theorem filterMap_inOrder {α : Type} {f : Item → Option α} {kind : TokenKind}
    (h : ∀ item ∈ items, f item ≠ none → item.kind = kind) :
    (inOrder items).filterMap f = items.filterMap f := by
  have hown : (items.filter (·.kind == kind)).filterMap f = items.filterMap f := by
    rw [List.filterMap_filter]
    refine List.filterMap_congr fun item hitem => ?_
    by_cases hkind : item.kind = kind
    · simp [hkind]
    · have hnone : f item = none := by
        by_contra hsome
        exact hkind (h item hitem hsome)
      simp [hkind, hnone]
  have hothers : ∀ other, other ≠ kind → (items.filter (·.kind == other)).filterMap f = [] := by
    intro other hne
    rw [List.filterMap_eq_nil_iff]
    intro item hitem
    obtain ⟨hmem, hkind⟩ := List.mem_filter.1 hitem
    by_contra hsome
    exact hne ((beq_iff_eq.1 hkind).symm.trans (h item hmem hsome))
  rw [inOrder, kinds_standard]
  simp only [List.flatMap_cons, List.flatMap_nil, List.filterMap_append, List.append_nil]
  cases kind with
  | dataview =>
    rw [hown, hothers .emoji nofun, hothers .tag nofun, hothers .context nofun, List.append_nil,
      List.append_nil, List.append_nil]
  | emoji =>
    rw [hown, hothers .dataview nofun, hothers .tag nofun, hothers .context nofun, List.append_nil,
      List.append_nil, List.nil_append]
  | tag => rw [hown, hothers .dataview nofun, hothers .emoji nofun, hothers .context nofun,
      List.append_nil, List.nil_append, List.nil_append]
  | context =>
    rw [hown, hothers .dataview nofun, hothers .emoji nofun, hothers .tag nofun, List.nil_append,
      List.nil_append, List.nil_append]

/-- What a line of items says, item by item. -/
structure Extraction.Says (extraction : Extraction) (content : Text)
    (items : List Item) : Prop where
  content : extraction.content = content
  custom : extraction.custom = items.filterMap Item.custom?
  tags : extraction.tags = (items.filterMap Item.tag?).eraseDups
  field : ∀ entry ∈ extraction.fields, entry.1 ≠ .tags ∧ ∃ item ∈ items,
    item.slot = .field entry.1 ∧ item.value = entry.2
  item : ∀ item ∈ items, ∀ field, item.slot = .field field → field ≠ .tags →
    (field, item.value) ∈ extraction.fields

section
variable {tokens : List Token}

theorem slots_of_gives (h : List.Forall₂ Item.Gives items tokens) :
    tokens.map Token.slot = items.map Item.slot := by
  induction h with
  | nil => rfl
  | cons hgives _ ih => rw [List.map_cons, List.map_cons, hgives.slot, ih]

theorem customValues_of_gives (h : List.Forall₂ Item.Gives items tokens) :
    customValues tokens = items.filterMap Item.custom? := by
  induction h with
  | nil => rfl
  | cons hgives _ ih =>
    rw [customValues] at ih ⊢
    rw [List.filterMap_cons, List.filterMap_cons, ih, hgives.slot, hgives.value]
    rfl

theorem tagValues_of_gives (h : List.Forall₂ Item.Gives items tokens) :
    tagValues tokens = (items.filterMap Item.tag?).eraseDups := by
  have hvalues : (tokens.filter fun token => token.slot == .field .tags).map Token.value =
      items.filterMap Item.tag? := by
    induction h with
    | nil => rfl
    | @cons item token items tokens hgives _ ih =>
      rw [List.filter_cons, List.filterMap_cons, Item.tag?, hgives.slot, ← ih]
      cases item.slot == .field .tags
      · rfl
      · exact congrArg (· :: _) hgives.value
  rw [tagValues, hvalues]

theorem customValues_filter (tokens : List Token) :
    customValues (tokens.filter (·.slot != .field .tags)) = customValues tokens := by
  rw [customValues, List.filterMap_filter]
  refine List.filterMap_congr fun token _ => ?_
  by_cases htags : token.slot = .field .tags <;> simp [htags]

/-- The items of a line are all that fill their slots, so that every token that is no tag counts. -/
theorem winners_of_gives (h : List.Forall₂ Item.Gives (inOrder items) tokens)
    (hslots : ((items.filter (·.slot != .field .tags)).map (·.slot)).Nodup) :
    winners tokens = tokens.filter (·.slot != .field .tags) := by
  refine winners_eq_filter ?_
  have htokens : (tokens.filter (·.slot != .field .tags)).map Token.slot =
      (tokens.map Token.slot).filter (· != .field .tags) := by
    rw [List.filter_map]
    rfl
  have hitems : (items.filter (·.slot != .field .tags)).map Item.slot =
      (items.map Item.slot).filter (· != .field .tags) := by
    rw [List.filter_map]
    rfl
  rw [hitems] at hslots
  rw [htokens, slots_of_gives h]
  exact (((inOrder_perm items).map Item.slot).filter _).nodup_iff.2 hslots

end

theorem exists_extraction (h : IsLine today content items) :
    ∃ extraction, extract .standard today (line content items) = .ok extraction ∧
      extraction.Says content items := by
  obtain ⟨tokens, hgives, hextract⟩ := extract_line h
  have hwinners := winners_of_gives hgives h.slots
  refine ⟨_, hextract, ?_⟩
  constructor
  case content => rfl
  case custom =>
    show customValues (winners tokens) = _
    rw [hwinners, customValues_filter, customValues_of_gives hgives, @filterMap_inOrder _ _ _ .dataview]
    intro item hitem hsome
    cases hslot : item.slot with
    | field field => simp [Item.custom?, hslot] at hsome
    | custom key => exact (h.kinds item hitem).2 key hslot
  case tags =>
    show tagValues tokens = _
    rw [tagValues_of_gives hgives, @filterMap_inOrder _ _ _ .tag]
    intro item hitem hsome
    by_cases hslot : item.slot = .field .tags
    · exact (h.kinds item hitem).1 hslot
    · simp [Item.tag?, hslot] at hsome
  case field =>
    intro entry hentry
    obtain ⟨token, htoken, hslot, hvalue⟩ := mem_fieldValues_iff.1 hentry
    obtain ⟨hmem, hne⟩ := mem_of_mem_winners htoken
    obtain ⟨item, hitem, hfrom⟩ := Result.exists_left_of_mem hgives hmem
    exact ⟨fun heq => hne (heq ▸ hslot), item, mem_of_mem_inOrder hitem,
      hfrom.slot.symm.trans hslot, hfrom.value.symm.trans hvalue⟩
  case item =>
    intro item hitem field hslot hne
    obtain ⟨token, htoken, hfrom⟩ :=
      Result.exists_right_of_mem hgives ((inOrder_perm items).mem_iff.2 hitem)
    have htokenSlot : token.slot = .field field := hfrom.slot.trans hslot
    have hwinner : token ∈ winners tokens := by
      rw [hwinners]
      exact List.mem_filter.2 ⟨htoken, by simp [htokenSlot, hne]⟩
    exact mem_fieldValues_iff.2 ⟨token, hwinner, htokenSlot, hfrom.value⟩

end Checklist.Markup
