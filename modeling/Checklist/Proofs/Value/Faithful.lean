import Checklist.Proofs.Calendar.DateText
import Checklist.Proofs.Value.Canonical
import Mathlib.Data.List.Nodup

/-! # Values that their texts tell apart

The canonical text forgets the order of keys and the kind of a value that JSON lacks. Main
statement: values that differ in no more than the text shows are equal if their texts are
(`Faithful.eq_of_writeAt`). -/

namespace Checklist.Json
set_option autoImplicit false
open Text

/-! ## Objects -/

/-- A mapping with texts as its keys, none of them twice. -/
structure IsObject (entries : Entries) : Prop where
  text : ∀ entry ∈ entries, ∃ key, entry.1 = .str key
  nodup : (entries.map Prod.fst).Nodup

/-- Two values that differ in no more than their canonical texts show: where both hold a scalar, a
day or another value without parts, equal texts mean equal values; their mappings have texts as
keys, and where two of them have the same keys, they have them in the same order. -/
inductive Faithful : Value → Value → Prop where
  | same (v : Value) : Faithful v v
  | leaf {v w : Value} : opening? v = none → opening? w = none → (leafText v = leafText w → v = w) →
      Faithful v w
  | apart {v w : Value} : opening? v ≠ opening? w → Faithful v w
  | list {items others : List Value} :
      (∀ (n : Nat) v w, items[n]? = some v → others[n]? = some w → Faithful v w) →
      Faithful (.list items) (.list others)
  | map {entries others : Entries} : IsObject entries → IsObject others →
      ((entries.map Prod.fst).Perm (others.map Prod.fst) → entries.map Prod.fst = others.map Prod.fst) →
      (∀ key v w, (key, v) ∈ entries → (key, w) ∈ others → Faithful v w) →
        Faithful (.map entries) (.map others)

/-- Equal texts at some depth mean equal values, and the texts are told apart whatever
follows them. -/
def Told (v w : Value) : Prop :=
  ∀ depth s t, writeAt Value.display .canonical depth v = .ok s →
    writeAt Value.display .canonical depth w = .ok t →
    Apart s t ∧ (s = t → v = w)

theorem told_leaf {v w : Value} (hv : opening? v = none) (hw : opening? w = none)
    (h : leafText v = leafText w → v = w) : Told v w := by
  intro depth s t hs ht
  rw [writeAt_leaf hv hs, writeAt_leaf hw ht]
  exact ⟨fun rest more hrest hmore heq =>
    (isLeafText_leafText v).append_inj (isLeafText_leafText w) hrest hmore heq, h⟩

theorem told_apart {v w : Value} (h : opening? v ≠ opening? w) : Told v w := by
  intro depth s t hs ht
  have hne := (startsAs_writeAt hs).ne (startsAs_writeAt ht) h
  refine ⟨fun rest more _ _ heq => absurd heq (hne rest more), ?_⟩
  rintro rfl
  exact absurd rfl (hne [] [])

theorem join_inj {opening closing : Char} (hclosing : closing ∈ [']', '\x7d'])
    {parts others : List Text} (hparts : ∀ s ∈ parts, IsPart s) (hothers : ∀ t ∈ others, IsPart t)
    (hapart : ∀ (n : Nat) s t, parts[n]? = some s → others[n]? = some t → Apart s t)
    {rest more : Text} (h : opening :: join ", ".toList parts ++ [closing] ++ rest =
      opening :: join ", ".toList others ++ [closing] ++ more) : parts = others := by
  rw [List.append_assoc, List.append_assoc] at h
  exact join_append_inj hclosing hparts hothers hapart (List.cons.inj h).2

theorem told_list {items others : List Value}
    (h : ∀ (n : Nat) v w, items[n]? = some v → others[n]? = some w → Told v w) :
    Told (.list items) (.list others) := by
  intro depth s t hs ht
  obtain ⟨parts, hparts, rfl⟩ := writeAt_list hs
  obtain ⟨parts', hparts', rfl⟩ := writeAt_list ht
  have hisPart : ∀ {items : List Value} {parts : List Text},
      List.Forall₂ (fun item part => writeAt Value.display .canonical (depth + 1) item = .ok part)
          items parts → ∀ s ∈ parts, IsPart s := by
    intro items parts h s hs
    obtain ⟨item, -, hitem⟩ := Result.exists_left_of_mem h hs
    exact (startsAs_writeAt hitem).isPart
  have hjoin : ∀ rest more, '[' :: join ", ".toList parts ++ [']'] ++ rest =
      '[' :: join ", ".toList parts' ++ [']'] ++ more → parts = parts' := by
    intro rest more
    refine join_inj (by decide) (hisPart hparts) (hisPart hparts') fun n s t hs ht => ?_
    obtain ⟨v, hv, hvs⟩ := Result.exists_left_of_getElem? hparts hs
    obtain ⟨w, hw, hwt⟩ := Result.exists_left_of_getElem? hparts' ht
    exact (h n v w hv hw _ s t hvs hwt).1
  refine ⟨fun rest more _ _ heq => by rw [hjoin rest more heq], fun heq => ?_⟩
  have hsame : parts = parts' := hjoin [] [] (by rw [heq])
  subst hsame
  rw [Result.eq_of_forall₂ hparts hparts' fun n v w s hv hw hvs hws =>
    (h n v w hv hw _ s s hvs hws).2 rfl]

/-! ## Mappings -/

theorem isPart_of_isMember {pair : Value × Text} {member : Text} (h : IsMember pair member) :
    IsPart member := by
  obtain ⟨name, -, rfl⟩ := h
  exact ⟨'"', _, rfl, by decide⟩

/-- Members that are equal at their start have one name, and then equal texts follow. -/
theorem IsMember.append_inj {key other : Text} {s t member member' rest more : Text}
    (h : IsMember (.str key, s) member)
    (h' : IsMember (.str other, t) member') (heq : member ++ rest = member' ++ more) :
    key = other ∧ s ++ rest = t ++ more := by
  obtain ⟨name, ⟨⟩, rfl⟩ := h
  obtain ⟨name', ⟨⟩, rfl⟩ := h'
  simp only [List.append_assoc] at heq
  obtain ⟨hname, heq⟩ := writeText_append_inj heq
  exact ⟨hname, List.append_cancel_left heq⟩

theorem IsMember.eq_of_eq {pair : Value × Text} {member member' : Text} (h : IsMember pair member)
    (h' : IsMember pair member') : member = member' := by
  obtain ⟨name, hname, rfl⟩ := h
  obtain ⟨name', hname', rfl⟩ := h'
  rw [Option.some.inj (hname.symm.trans hname')]

theorem IsObject.eq_of_subset {entries others : Entries} (h : IsObject others)
    (hkeys : entries.map Prod.fst = others.map Prod.fst)
    (hsubset : entries ⊆ others) : entries = others := by
  have hlength : entries.length = others.length := by simpa using congrArg List.length hkeys
  refine List.ext_getElem hlength fun n hn hn' => ?_
  refine List.inj_on_of_nodup_map h.nodup (hsubset (List.getElem_mem hn)) (List.getElem_mem hn') ?_
  have hkey := congrArg (fun keys => keys[n]?) hkeys
  simpa [hn, hn'] using hkey

theorem IsObject.exists_of_mem {depth : Nat} {entries : Entries} {written : List (Value × Text)}
    (h : IsObject entries)
    (hwritten : List.Forall₂ (IsWritten depth) entries written) {pair : Value × Text}
    (hpair : pair ∈ written) :
    ∃ key v, pair = (.str key, pair.2) ∧ (.str key, v) ∈ entries ∧
      writeAt Value.display .canonical depth v = .ok pair.2 := by
  obtain ⟨⟨name, v⟩, hentry, hname, hv⟩ := Result.exists_left_of_mem hwritten hpair
  obtain ⟨key, rfl⟩ := h.text _ hentry
  exact ⟨key, v, Prod.ext hname.symm rfl, hentry, hv⟩

theorem eq_of_members {ordered ordered' : List (Value × Text)} {members : List Text}
    (htext : ∀ pair ∈ ordered, ∃ key, pair.1 = .str key)
    (htext' : ∀ pair ∈ ordered', ∃ key, pair.1 = .str key)
    (h : List.Forall₂ IsMember ordered members)
    (h' : List.Forall₂ IsMember ordered' members) : ordered = ordered' := by
  refine Result.eq_of_forall₂ h h' fun n pair pair' member hpair hpair' hmember hmember' => ?_
  obtain ⟨name, s⟩ := pair
  obtain ⟨name', s'⟩ := pair'
  obtain ⟨key, rfl⟩ := htext _ (List.mem_of_getElem? hpair)
  obtain ⟨key', rfl⟩ := htext' _ (List.mem_of_getElem? hpair')
  obtain ⟨rfl, hs⟩ := @IsMember.append_inj key key' s s' member member [] [] hmember hmember' rfl
  rw [List.append_cancel_right hs]

theorem eq_of_written {depth : Nat} {entries others : Entries}
    {written written' : List (Value × Text)} (hobject : IsObject others)
    (hwritten : List.Forall₂ (IsWritten depth) entries written)
    (hwritten' : List.Forall₂ (IsWritten depth) others written') (hperm : written.Perm written')
    (hkeys : (entries.map Prod.fst).Perm (others.map Prod.fst) →
      entries.map Prod.fst = others.map Prod.fst)
    (h : ∀ key v w s, (key, v) ∈ entries → (key, w) ∈ others →
      writeAt Value.display .canonical depth v = .ok s →
      writeAt Value.display .canonical depth w = .ok s → v = w) : entries = others := by
  have hnames := Result.map_eq_map (fun _ _ h => h.1) hwritten
  have hnames' := Result.map_eq_map (fun _ _ h => h.1) hwritten'
  have hsame : (entries.map Prod.fst).Perm (others.map Prod.fst) := by
    rw [hnames, hnames']
    exact hperm.map Prod.fst
  refine hobject.eq_of_subset (hkeys hsame) ?_
  rintro ⟨key, v⟩ hentry
  obtain ⟨⟨_, s⟩, hpair, rfl, hs⟩ := Result.exists_right_of_mem hwritten hentry
  obtain ⟨⟨_, w⟩, hother, rfl, hs'⟩ := Result.exists_left_of_mem hwritten' (hperm.subset hpair)
  rwa [h _ v w s hentry hother hs hs']

theorem told_map {entries others : Entries} (hobject : IsObject entries)
    (hobject' : IsObject others) (hkeys : (entries.map Prod.fst).Perm (others.map Prod.fst) →
      entries.map Prod.fst = others.map Prod.fst)
    (h : ∀ key v w, (key, v) ∈ entries → (key, w) ∈ others → Told v w) :
    Told (.map entries) (.map others) := by
  intro depth s t hs ht
  obtain ⟨written, ordered, members, hwritten, hordered, hmembers, rfl⟩ := writeAt_map hs
  obtain ⟨written', ordered', members', hwritten', hordered', hmembers', rfl⟩ := writeAt_map ht
  have hisPart : ∀ {ordered : List (Value × Text)} {members : List Text},
      List.Forall₂ IsMember ordered members → ∀ s ∈ members, IsPart s := by
    intro ordered members h s hs
    obtain ⟨pair, -, hpair⟩ := Result.exists_left_of_mem h hs
    exact isPart_of_isMember hpair
  have hjoin : ∀ rest more, '\x7b' :: join ", ".toList members ++ ['\x7d'] ++ rest =
      '\x7b' :: join ", ".toList members' ++ ['\x7d'] ++ more →
      members = members' := by
    intro rest more
    refine join_inj (by decide) (hisPart hmembers) (hisPart hmembers')
      fun n m m' hm hm' rest more hrest hmore heq => ?_
    obtain ⟨pair, hpair, hmember⟩ := Result.exists_left_of_getElem? hmembers hm
    obtain ⟨pair', hpair', hmember'⟩ := Result.exists_left_of_getElem? hmembers' hm'
    obtain ⟨key, v, hsplit, hv, hs⟩ :=
      hobject.exists_of_mem hwritten (hordered.subset (List.mem_of_getElem? hpair))
    obtain ⟨key', w, hsplit', hw, ht⟩ :=
      hobject'.exists_of_mem hwritten' (hordered'.subset (List.mem_of_getElem? hpair'))
    rw [hsplit] at hmember
    rw [hsplit'] at hmember'
    obtain ⟨rfl, heq⟩ := hmember.append_inj hmember' heq
    rw [(h _ v w hv hw _ _ _ hs ht).1 rest more hrest hmore heq] at hmember
    exact hmember.eq_of_eq hmember'
  refine ⟨fun rest more _ _ heq => by rw [hjoin rest more heq], fun heq => ?_⟩
  have hsame : members = members' := hjoin [] [] (by rw [heq])
  subst hsame
  have htext : ∀ {entries : Entries} {written ordered : List (Value × Text)}, IsObject entries →
      List.Forall₂ (IsWritten (depth + 1)) entries written → ordered.Perm written →
          ∀ pair ∈ ordered, ∃ key, pair.1 = .str key := by
    intro entries written ordered hobject hwritten hordered pair hpair
    obtain ⟨key, v, hsplit, -⟩ := hobject.exists_of_mem hwritten (hordered.subset hpair)
    exact ⟨key, (Prod.mk.inj hsplit).1⟩
  obtain rfl :=
    eq_of_members (htext hobject hwritten hordered)
      (htext hobject' hwritten' hordered') hmembers hmembers'
  rw [eq_of_written hobject' hwritten hwritten' (hordered.symm.trans hordered') hkeys
    fun key v w s hv hw hs ht => (h key v w hv hw _ s s hs ht).2 rfl]

/-! ## Equal texts, equal values -/

theorem Faithful.told {v w : Value} (h : Faithful v w) : Told v w := by
  induction h with
  | same v =>
    intro depth s t hs ht
    obtain rfl : s = t := Except.ok.inj (hs.symm.trans ht)
    exact ⟨fun _ _ _ _ _ => rfl, fun _ => rfl⟩
  | leaf hv hw h => exact told_leaf hv hw h
  | apart h => exact told_apart h
  | list _ ih => exact told_list ih
  | map hobject hobject' hkeys _ ih => exact told_map hobject hobject' hkeys ih

/-- Faithful values with one text are equal. -/
theorem Faithful.eq_of_writeAt {v w : Value} (h : Faithful v w) {depth : Nat} {s : Text}
    (hv : writeAt Value.display .canonical depth v = .ok s)
    (hw : writeAt Value.display .canonical depth w = .ok s) : v = w :=
  (h.told depth s s hv hw).2 rfl

/-! ## Kinds of value that are told apart -/

/-- Null, a truth value, an integer or a text. -/
def isScalar : Value → Bool
  | .null | .bool _ | .int _ | .str _ => true
  | _ => false

theorem ofInt_inj {m n : Int} (h : ofInt m = ofInt n) : m = n := by
  have hsign : ∀ {m n : Nat}, ofNat m ≠ '-' :: ofNat n := by
    intro m n heq
    have hdigit := isDigit_of_mem_ofNat (n := m) (c := '-') (heq ▸ List.mem_cons_self)
    revert hdigit
    decide
  cases m with
  | ofNat m =>
    cases n with
    | ofNat n => exact congrArg Int.ofNat (ofNat_inj h)
    | negSucc n => exact absurd h hsign
  | negSucc m =>
    cases n with
    | ofNat n => exact absurd h.symm hsign
    | negSucc n => rw [Nat.succ.inj (ofNat_inj (List.cons.inj h).2)]

theorem ofInt_ne_cons (n : Int) {c : Char} (hc : c ∈ ['n', 't', 'f', '"']) (rest : Text) :
    ofInt n ≠ c :: rest := by
  have hfirst : ∀ c ∈ ['n', 't', 'f', '"'], c.isDigit = false ∧ c ≠ '-' := by decide
  intro heq
  cases n with
  | ofNat n =>
    have heq : ofNat n = c :: rest := heq
    have hdigit := @isDigit_of_mem_ofNat n c (heq ▸ List.mem_cons_self)
    rw [(hfirst c hc).1] at hdigit
    cases hdigit
  | negSucc n => exact (hfirst c hc).2 (List.cons.inj heq).1.symm

theorem leafText_cons {v : Value} (h : isScalar v = true) (hint : ∀ n, v ≠ .int n) :
    ∃ c rest, leafText v = c :: rest ∧ c ∈ ['n', 't', 'f', '"'] := by
  cases v with
  | null => exact ⟨'n', _, rfl, by decide⟩
  | bool b => cases b with
    | true => exact ⟨'t', _, rfl, by decide⟩
    | false => exact ⟨'f', _, rfl, by decide⟩
  | str s => exact ⟨'"', _, rfl, by decide⟩
  | int n => exact absurd rfl (hint n)
  | _ => cases h

theorem eq_int_of_leafText {v : Value} {n : Int} (hv : isScalar v = true)
    (h : leafText v = ofInt n) : v = .int n := by
  by_cases hint : ∀ m, v ≠ .int m
  · obtain ⟨c, rest, hcons, hc⟩ := leafText_cons hv hint
    exact absurd (h.symm.trans hcons) (ofInt_ne_cons n hc rest)
  · obtain ⟨m, hm⟩ := not_forall.1 hint
    rw [not_ne_iff] at hm
    subst hm
    rw [ofInt_inj h]

theorem leafText_inj {v w : Value} (hv : isScalar v = true) (hw : isScalar w = true)
    (h : leafText v = leafText w) : v = w := by
  cases v with
  | int m => exact (eq_int_of_leafText hw h.symm).symm
  | null => cases w with
    | int n => exact eq_int_of_leafText hv h
    | null => rfl
    | bool b => cases b <;> cases h
    | str t => cases h
    | _ => cases hw
  | bool b => cases w with
    | int n => exact eq_int_of_leafText hv h
    | null => cases b <;> cases h
    | bool b' => cases b <;> cases b' <;> first | rfl | cases h
    | str t => cases b <;> cases h
    | _ => cases hw
  | str s => cases w with
    | int n => exact eq_int_of_leafText hv h
    | null => cases h
    | bool b => cases b <;> cases h
    | str t => exact congrArg Value.str (writeText_inj h)
    | _ => cases hw
  | _ => cases hv

theorem opening?_of_isScalar {v : Value} (h : isScalar v = true) : opening? v = none := by
  cases v with
  | list _ | map _ => cases h
  | _ => rfl

theorem faithful_scalars {v w : Value} (hv : isScalar v = true) (hw : isScalar w = true) :
    Faithful v w :=
  .leaf (opening?_of_isScalar hv) (opening?_of_isScalar hw) (leafText_inj hv hw)

theorem faithful_dates (d e : Date) : Faithful (.date d) (.date e) :=
  .leaf rfl rfl fun h => by rw [DateText.text_inj (writeText_inj h)]

/-- Two mappings with the same texts as keys, in the same order, are told apart where two scalars or
two days stand under a key. -/
theorem faithful_of_keys {entries others : Entries} (h : IsObject entries) (h' : IsObject others)
    (hkeys : entries.map Prod.fst = others.map Prod.fst)
    (hvalues : ∀ key v w, (key, v) ∈ entries → (key, w) ∈ others →
      isScalar v = true ∧ isScalar w = true ∨ ∃ d e, v = .date d ∧ w = .date e) :
    Faithful (.map entries) (.map others) := by
  refine .map h h' (fun _ => hkeys) fun key v w hv hw => ?_
  rcases hvalues key v w hv hw with ⟨hv, hw⟩ | ⟨d, e, rfl, rfl⟩
  · exact faithful_scalars hv hw
  · exact faithful_dates d e

end Checklist.Json
