import Checklist.Proofs.Except
import Checklist.Proofs.Value.JsonString
import Checklist.Value.Display

/-! # Values and their canonical text

The canonical text of a value stands on one line, its keys sorted; days and other kinds of value
that JSON lacks are written as the strings that show them. Main statements: what is written for
lists and mappings (`writeAt_list`, `writeAt_map`), parts between brackets are told apart if they
are one by one (`join_append_inj`), and a value stays on one line (`notMem_writeAt`). -/

namespace Checklist.Json
set_option autoImplicit false
open Text

/-! ## What is written for a value -/

def opening? : Value → Option Char
  | .list _ => some '['
  | .map _ => some '\x7b'
  | _ => none

/-- The text of a value that is no list and no mapping. -/
def leafText : Value → Text
  | .null => "null".toList
  | .bool b => (if b then "true" else "false").toList
  | .int n => ofInt n
  | .float x => writeFloat x
  | v => writeText .canonical v.display

theorem writeAt_leaf {depth : Nat} {v : Value} {s : Text} (hleaf : opening? v = none)
    (h : writeAt Value.display .canonical depth v = .ok s) :
    s = leafText v := by
  have hchecked : ∀ {t : Text} {b : Bool},
      (if b then .ok t else .error .unreadableNumber : Except Failure Text) = .ok s → s = t := by
    intro t b h
    cases b <;> cases h
    rfl
  cases v with
  | list items => cases hleaf
  | map entries => cases hleaf
  | int n => exact hchecked h
  | set items => exact @hchecked _ (Value.areWritable items) h
  | ring isMapping => cases h
  | null | bool _ | float _ | str _ | bytes _ | date _ | moment _ _ =>
    cases h
    rfl

theorem writeItems_eq_ok {others : Value → Text} {style : Style} {depth : Nat}
    {items : List Value} {parts : List Text} (h : writeItems others style depth items = .ok parts) :
    List.Forall₂ (fun item part => writeAt others style depth item = .ok part) items parts := by
  induction items generalizing parts with
  | nil =>
    cases h
    exact .nil
  | cons item rest ih =>
    obtain ⟨part, hpart, h⟩ := Result.bind_eq_ok.1 h
    obtain ⟨others, hothers, h⟩ := Result.bind_eq_ok.1 h
    cases h
    exact .cons hpart (ih hothers)

def IsWritten (depth : Nat) (entry : Value × Value) (pair : Value × Text) : Prop :=
  entry.1 = pair.1 ∧ writeAt Value.display .canonical depth entry.2 = .ok pair.2

theorem forall₂_of_writeEntries {others : Value → Text} {style : Style} {depth : Nat}
    {entries : Entries} {written : List (Value × Text)}
    (h : writeEntries others style depth entries = .ok written) :
    List.Forall₂ (fun entry pair => entry.1 = pair.1 ∧
      writeAt others style depth entry.2 = .ok pair.2) entries written := by
  induction entries generalizing written with
  | nil =>
    cases h
    exact .nil
  | cons entry rest ih =>
    obtain ⟨text, htext, h⟩ := Result.bind_eq_ok.1 h
    obtain ⟨others, hothers, h⟩ := Result.bind_eq_ok.1 h
    cases h
    exact .cons ⟨rfl, htext⟩ (ih hothers)

theorem writeEntries_eq_ok {depth : Nat} {entries : Entries} {written : List (Value × Text)}
    (h : writeEntries Value.display .canonical depth entries = .ok written) :
    List.Forall₂ (IsWritten depth) entries written :=
  forall₂_of_writeEntries h

theorem bracket_canonical (depth : Nat) (opening closing : Char) (parts : List Text) :
    bracket .canonical depth opening closing parts = opening :: join ", ".toList parts ++
      [closing] := by
  cases parts <;> rfl

theorem writeAt_list {depth : Nat} {items : List Value} {s : Text}
    (h : writeAt Value.display .canonical depth (.list items) = .ok s) :
    ∃ parts, List.Forall₂ (fun item part => writeAt Value.display .canonical (depth + 1) item =
      .ok part) items parts ∧
      s = '[' :: join ", ".toList parts ++ [']'] := by
  obtain ⟨parts, hparts, h⟩ := Result.bind_eq_ok.1 h
  cases h
  exact ⟨parts, writeItems_eq_ok hparts, bracket_canonical ..⟩

def IsMember (pair : Value × Text) (member : Text) : Prop :=
  ∃ name, keyText? pair.1 = some name ∧ member = writeText .canonical name ++ ": ".toList ++ pair.2

theorem isMember_of_writeMember {pair : Value × Text} {member : Text}
    (h : writeMember .canonical pair.1 pair.2 = .ok member) :
    IsMember pair member := by
  unfold writeMember at h
  cases hname : keyText? pair.1 with
  | none =>
    rw [hname] at h
    cases h
  | some name =>
    rw [hname] at h
    dsimp only at h
    split at h <;> cases h
    exact ⟨name, hname, rfl⟩

theorem perm_of_sortEntries? {written ordered : List (Value × Text)}
    (h : sortEntries? written = some ordered) : ordered.Perm written := by
  unfold sortEntries? at h
  split at h <;> cases h
  exact List.mergeSort_perm _ _

theorem writeAt_map {depth : Nat} {entries : Entries} {s : Text}
    (h : writeAt Value.display .canonical depth (.map entries) = .ok s) :
    ∃ written ordered members,
      List.Forall₂ (IsWritten (depth + 1)) entries written ∧
        ordered.Perm written ∧ List.Forall₂ IsMember ordered members ∧
          s = '\x7b' :: join ", ".toList members ++ ['\x7d'] := by
  obtain ⟨written, hwritten, h⟩ := Result.bind_eq_ok.1 h
  obtain ⟨members, hmembers, h⟩ := Result.bind_eq_ok.1 h
  cases h
  unfold writeMembers at hmembers
  split at hmembers
  case h_1 => cases hmembers
  case h_2 ordered hordered =>
    refine ⟨written, ordered, members, writeEntries_eq_ok hwritten, perm_of_sortEntries? hordered,
      (Result.mapM_eq_ok.1 hmembers).imp fun pair member h => isMember_of_writeMember h,
      bracket_canonical ..⟩

/-! ## The characters of bare values -/

def bareChar (c : Char) : Bool :=
  c.isAlphanum || ['.', '-', '+'].contains c

/-- A text of a value that is no list and no mapping: a string, or a word or number
without quotes. -/
def IsLeafText (s : Text) : Prop :=
  (∃ inner, s = writeText .canonical inner) ∨ s ≠ [] ∧ ∀ c ∈ s, bareChar c = true

theorem bareChar_of_isDigit {c : Char} (h : c.isDigit = true) : bareChar c = true := by
  simp [bareChar, Char.isAlphanum, h]

theorem bareChar_of_mem_ofNat {n : Nat} : ∀ c ∈ ofNat n, bareChar c = true :=
  fun _ hc => bareChar_of_isDigit (isDigit_of_mem_ofNat hc)

theorem bareChar_of_mem_padNat {width n : Nat} : ∀ c ∈ padNat width n, bareChar c = true :=
  fun _ hc => bareChar_of_isDigit (isDigit_of_mem_padNat hc)

theorem bareChar_of_mem_replicate {n : Nat} : ∀ c ∈ List.replicate n '0', bareChar c = true := by
  intro c hc
  rw [List.eq_of_mem_replicate hc]
  decide

theorem isBare_ofInt (n : Int) : ofInt n ≠ [] ∧ ∀ c ∈ ofInt n, bareChar c = true := by
  cases n with
  | ofNat n => exact ⟨ofNat_ne_nil n, bareChar_of_mem_ofNat⟩
  | negSucc n =>
    exact ⟨List.cons_ne_nil _ _, List.forall_mem_cons.2 ⟨by decide, bareChar_of_mem_ofNat⟩⟩

theorem isBare_decimal (d : Binary64.Decimal) : d.text ≠ [] ∧ ∀ c ∈ d.text, bareChar c = true := by
  have hdigits : ∀ c ∈ ofNat d.digits, bareChar c = true := bareChar_of_mem_ofNat
  have hne : ofNat d.digits ≠ [] := ofNat_ne_nil _
  have hmark : bareChar '.' = true ∧ bareChar 'e' = true ∧ bareChar '-' = true ∧
      bareChar '+' = true := by decide
  unfold Binary64.Decimal.text
  dsimp only
  split
  · split
    · refine ⟨by simp, ?_⟩
      simp only [List.forall_mem_append]
      exact ⟨⟨by decide, bareChar_of_mem_replicate⟩, hdigits⟩
    · split
      · refine ⟨by simp, ?_⟩
        simp only [List.forall_mem_append]
        exact ⟨⟨hdigits, bareChar_of_mem_replicate⟩, by decide⟩
      · refine ⟨by simp, ?_⟩
        simp only [List.forall_mem_append, List.forall_mem_singleton]
        exact ⟨⟨fun c hc => hdigits c (List.mem_of_mem_take hc), hmark.1⟩,
          fun c hc => hdigits c (List.mem_of_mem_drop hc)⟩
  · refine ⟨by simp, ?_⟩
    simp only [List.forall_mem_append, List.forall_mem_cons]
    refine ⟨⟨⟨fun c hc => hdigits c (List.mem_of_mem_take hc), ?_⟩, hmark.2.1, ?_, by simp⟩,
      bareChar_of_mem_padNat⟩
    · split
      · simp
      · exact List.forall_mem_cons.2 ⟨hmark.1, fun c hc => hdigits c (List.mem_of_mem_drop hc)⟩
    · split
      · exact hmark.2.2.1
      · exact hmark.2.2.2

theorem isBare_writeFloat (x : Binary64) : writeFloat x ≠ [] ∧ ∀ c ∈ writeFloat x,
    bareChar c = true := by
  cases x with
  | nan => decide
  | infinite negative => cases negative <;> decide
  | finite negative mantissa exponent =>
    have hnumber : ∀ {s : Text}, s ≠ [] ∧ (∀ c ∈ s, bareChar c = true) →
        (if negative then ['-'] else []) ++ s ≠ [] ∧ ∀ c ∈ (if negative then ['-'] else []) ++ s,
            bareChar c = true := by
      rintro s ⟨hne, hs⟩
      refine ⟨by simp [hne], List.forall_mem_append.2 ⟨?_, hs⟩⟩
      cases negative <;> decide
    refine hnumber ?_
    split
    · decide
    · exact isBare_decimal _

theorem isLeafText_leafText (v : Value) : IsLeafText (leafText v) := by
  cases v with
  | null => exact .inr (by decide)
  | bool b => exact .inr (by cases b <;> decide)
  | int n => exact .inr (isBare_ofInt n)
  | float x => exact .inr (isBare_writeFloat x)
  | str _ | bytes _ | date _ | moment _ _ | list _ | set _ | map _ | ring _ => exact .inl ⟨_, rfl⟩

/-- The text ends, or the value at its start does. -/
def Stops (rest : Text) : Prop :=
  ∀ c, rest.head? = some c → c ∈ [',', ']', '\x7d']

theorem IsLeafText.append_inj {s t rest more : Text} (hs : IsLeafText s) (ht : IsLeafText t)
    (hrest : Stops rest) (hmore : Stops more) (h : s ++ rest = t ++ more) : s = t := by
  have hstop : ∀ {r : Text}, Stops r → ∀ c, r.head? = some c → bareChar c = false := by
    intro r hr c hc
    have hall : ∀ c ∈ [',', ']', '\x7d'], bareChar c = false := by decide
    exact hall c (hr c hc)
  have hquote : ∀ {u r inner k : Text}, u ≠ [] → (∀ c ∈ u, bareChar c = true) →
      u ++ r ≠ writeText .canonical inner ++ k := by
    intro u r inner k hne hu heq
    obtain ⟨c, u, rfl⟩ := List.exists_cons_of_ne_nil hne
    have hc := hu c List.mem_cons_self
    rw [(List.cons.inj heq).1] at hc
    revert hc
    decide
  rcases hs with ⟨inner, rfl⟩ | ⟨hne, hs⟩ <;> rcases ht with ⟨inner', rfl⟩ | ⟨hne', ht⟩
  · rw [(writeText_append_inj h).1]
  · exact absurd h.symm (hquote hne' ht)
  · exact absurd h (hquote hne hs)
  · have htake := congrArg (List.takeWhile bareChar) h
    rwa [takeWhile_append_of_stop hs (hstop hrest), takeWhile_append_of_stop ht (hstop hmore)] at htake

/-! ## How a value starts -/

/-- The first character of a list or a mapping is its bracket, that of another value is none. -/
def StartsAs (v : Value) (s : Text) : Prop :=
  ∃ c rest,
    s = c :: rest ∧ (opening? v = some c ∨ opening? v = none ∧ (c = '"' ∨ bareChar c = true))

theorem IsLeafText.exists_cons {s : Text} (h : IsLeafText s) :
    ∃ c rest, s = c :: rest ∧ (c = '"' ∨ bareChar c = true) := by
  rcases h with ⟨inner, rfl⟩ | ⟨hne, hs⟩
  · exact ⟨'"', _, rfl, .inl rfl⟩
  · obtain ⟨c, rest, rfl⟩ := List.exists_cons_of_ne_nil hne
    exact ⟨c, rest, rfl, .inr (hs c List.mem_cons_self)⟩

theorem startsAs_writeAt {depth : Nat} {v : Value} {s : Text}
    (h : writeAt Value.display .canonical depth v = .ok s) : StartsAs v s := by
  cases hopening : opening? v with
  | none =>
    obtain ⟨c, rest, hs, hc⟩ := (isLeafText_leafText v).exists_cons
    exact ⟨c, rest, (writeAt_leaf hopening h).trans hs, .inr ⟨hopening, hc⟩⟩
  | some c =>
    cases v with
    | list items =>
      obtain ⟨parts, -, rfl⟩ := writeAt_list h
      exact ⟨'[', _, rfl, .inl rfl⟩
    | map entries =>
      obtain ⟨written, ordered, members, -, -, -, rfl⟩ := writeAt_map h
      exact ⟨'\x7b', _, rfl, .inl rfl⟩
    | _ => cases hopening

theorem mem_brackets {v : Value} {c : Char} (h : opening? v = some c) : c = '[' ∨ c = '\x7b' := by
  cases v <;> cases h
  · exact .inl rfl
  · exact .inr rfl

theorem StartsAs.ne {v w : Value} {s t : Text} (hs : StartsAs v s) (ht : StartsAs w t)
    (hne : opening? v ≠ opening? w) (rest more : Text) :
    s ++ rest ≠ t ++ more := by
  have hbracket : ∀ c, c = '[' ∨ c = '\x7b' → ¬(c = '"' ∨ bareChar c = true) := by
    rintro c (rfl | rfl) <;> decide
  obtain ⟨c, s, rfl, hc⟩ := hs
  obtain ⟨d, t, rfl, hd⟩ := ht
  intro h
  obtain rfl : c = d := (List.cons.inj h).1
  rcases hc with hc | ⟨hc, hchar⟩ <;> rcases hd with hd | ⟨hd, hchar'⟩
  · exact hne (hc.trans hd.symm)
  · exact hbracket c (mem_brackets hc) hchar'
  · exact hbracket c (mem_brackets hd) hchar
  · exact hne (hc.trans hd.symm)

/-! ## Parts between brackets -/

/-- A part of a list or a mapping does not start with a comma or a closing bracket. -/
def IsPart (s : Text) : Prop :=
  ∃ c rest, s = c :: rest ∧ c ∉ [',', ']', '\x7d']

theorem StartsAs.isPart {v : Value} {s : Text} (h : StartsAs v s) : IsPart s := by
  obtain ⟨c, rest, rfl, hc⟩ := h
  refine ⟨c, rest, rfl, fun hmem => ?_⟩
  have hall : ∀ d ∈ [',', ']', '\x7d'], ¬(d = '[' ∨ d = '\x7b') ∧
      ¬(d = '"' ∨ bareChar d = true) := by decide
  rcases hc with hc | ⟨-, hc⟩
  · exact (hall c hmem).1 (mem_brackets hc)
  · exact (hall c hmem).2 hc

theorem IsPart.append_ne {s stop : Text} (h : IsPart s) (hstop : Stops stop) (rest : Text) :
    s ++ rest ≠ stop := by
  obtain ⟨c, s, rfl, hc⟩ := h
  rintro rfl
  exact hc (hstop c rfl)

/-- Two texts are told apart if one of them starts a text only where the other does. -/
def Apart (s t : Text) : Prop :=
  ∀ rest more, Stops rest → Stops more → s ++ rest = t ++ more → s = t

/-- What follows a part: the other parts, each after a comma, and the closing bracket. -/
def follow (closing : Char) (rest : Text) : List Text → Text
  | [] => closing :: rest
  | s :: parts => ',' :: ' ' :: s ++ follow closing rest parts

theorem join_append_cons (closing : Char) (rest s : Text) (parts : List Text) :
    join ", ".toList (s :: parts) ++ closing :: rest = s ++ follow closing rest parts := by
  induction parts generalizing s with
  | nil => rfl
  | cons t parts ih =>
    have hjoin : join ", ".toList (s :: t :: parts) = s ++ ", ".toList ++
        join ", ".toList (t :: parts) := rfl
    rw [hjoin, List.append_assoc, ih, List.append_assoc]
    rfl

section Parts

variable {closing : Char} {rest more : Text}

theorem stops_follow (hclosing : closing ∈ [']', '\x7d']) (parts : List Text) :
    Stops (follow closing rest parts) := by
  cases parts with
  | nil =>
    rintro c ⟨⟩
    exact List.mem_cons_of_mem _ hclosing
  | cons s parts =>
    rintro c ⟨⟩
    exact List.mem_cons_self

theorem follow_inj (hclosing : closing ∈ [']', '\x7d']) {parts others : List Text}
    (hapart : ∀ (n : Nat) s t, parts[n]? = some s → others[n]? = some t → Apart s t)
    (h : follow closing rest parts = follow closing more others) : parts = others := by
  have hcomma : closing ≠ ',' := by
    rintro rfl
    revert hclosing
    decide
  induction parts generalizing others with
  | nil =>
    cases others with
    | nil => rfl
    | cons t others => exact absurd (List.cons.inj h).1 hcomma
  | cons s parts ih =>
    cases others with
    | nil => exact absurd (List.cons.inj h).1.symm hcomma
    | cons t others =>
      have h : s ++ follow closing rest parts = t ++ follow closing more others :=
        (List.cons.inj (List.cons.inj h).2).2
      obtain rfl :=
        hapart 0 s t rfl rfl _ _ (stops_follow hclosing parts) (stops_follow hclosing others) h
      rw [ih (fun n => hapart (n + 1)) (List.append_cancel_left h)]

/-- Parts that are told apart one by one are told apart between brackets. -/
theorem join_append_inj (hclosing : closing ∈ [']', '\x7d']) {parts others : List Text}
    (hparts : ∀ s ∈ parts, IsPart s) (hothers : ∀ t ∈ others, IsPart t)
    (hapart : ∀ (n : Nat) s t, parts[n]? = some s → others[n]? = some t → Apart s t)
    (h : join ", ".toList parts ++ closing :: rest = join ", ".toList others ++ closing :: more) :
    parts = others := by
  have hend : ∀ r, Stops (closing :: r) := by
    rintro r c ⟨⟩
    exact List.mem_cons_of_mem _ hclosing
  cases parts with
  | nil =>
    cases others with
    | nil => rfl
    | cons t others =>
      rw [join_append_cons] at h
      exact absurd h.symm ((hothers t List.mem_cons_self).append_ne (hend rest) _)
  | cons s parts =>
    cases others with
    | nil =>
      rw [join_append_cons] at h
      exact absurd h ((hparts s List.mem_cons_self).append_ne (hend more) _)
    | cons t others =>
      rw [join_append_cons, join_append_cons] at h
      obtain rfl :=
        hapart 0 s t rfl rfl _ _ (stops_follow hclosing parts) (stops_follow hclosing others) h
      rw [follow_inj hclosing (fun n => hapart (n + 1)) (List.append_cancel_left h)]

end Parts

/-! ## One line -/

theorem IsLeafText.notMem {s : Text} (h : IsLeafText s) : '\n' ∉ s := by
  rcases h with ⟨inner, rfl⟩ | ⟨-, hs⟩
  · exact notMem_writeText inner
  · exact fun hmem => absurd (hs _ hmem) (by decide)

theorem notMem_enclose {opening closing : Char} {parts : List Text} (hopening : '\n' ≠ opening)
    (hclosing : '\n' ≠ closing)
    (h : ∀ part ∈ parts, '\n' ∉ part) : '\n' ∉ opening :: join ", ".toList parts ++ [closing] := by
  simp only [List.cons_append, List.mem_cons, List.mem_append, List.not_mem_nil, or_false, not_or]
  exact ⟨hopening, notMem_join (by decide) h, hclosing⟩

theorem parts_induction {P : Value → Prop} (leaf : ∀ v, opening? v = none → P v)
    (list : ∀ items, (∀ item ∈ items, P item) → P (.list items))
    (map : ∀ entries : Entries, (∀ entry ∈ entries, P entry.2) → P (.map entries))
    (v : Value) : P v := by
  induction hsize : sizeOf v using Nat.strong_induction_on generalizing v with
  | _ size ih =>
    subst hsize
    cases v with
    | list items =>
      refine list items fun item hitem => ih _ ?_ item rfl
      have hlt := List.sizeOf_lt_of_mem hitem
      rw [Value.list.sizeOf_spec]
      omega
    | map entries =>
      refine map entries fun entry hentry => ih _ ?_ entry.2 rfl
      have hlt := List.sizeOf_lt_of_mem hentry
      obtain ⟨key, v⟩ := entry
      rw [Prod.mk.sizeOf_spec] at hlt
      rw [Value.map.sizeOf_spec]
      dsimp only
      omega
    | _ => exact leaf _ rfl

/-- A value is written on one line. -/
theorem notMem_writeAt {v : Value} {depth : Nat} {s : Text}
    (h : writeAt Value.display .canonical depth v = .ok s) : '\n' ∉ s := by
  induction v using parts_induction generalizing depth s with
  | leaf v hleaf =>
    rw [writeAt_leaf hleaf h]
    exact (isLeafText_leafText v).notMem
  | list items ih =>
    obtain ⟨parts, hparts, rfl⟩ := writeAt_list h
    refine notMem_enclose (by decide) (by decide) fun part hpart => ?_
    obtain ⟨item, hitem, hwrite⟩ := Result.exists_left_of_mem hparts hpart
    exact ih item hitem hwrite
  | map entries ih =>
    obtain ⟨written, ordered, members, hwritten, hordered, hmembers, rfl⟩ := writeAt_map h
    refine notMem_enclose (by decide) (by decide) fun member hmember => ?_
    obtain ⟨pair, hpair, name, -, rfl⟩ := Result.exists_left_of_mem hmembers hmember
    obtain ⟨entry, hentry, -, hwrite⟩ := Result.exists_left_of_mem hwritten (hordered.subset hpair)
    have hvalue := ih entry hentry hwrite
    simp [notMem_writeText, hvalue]

end Checklist.Json
