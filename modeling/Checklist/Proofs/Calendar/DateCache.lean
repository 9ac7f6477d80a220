import Checklist.Calendar.DateCache
import Checklist.Proofs.Except
import Mathlib.Data.List.DropRight

/-! # The cache is not noticed

A cache that is used for any values on any days, and cleared now and then, is compared with the list
of the literals that it missed. Main statements: one look-up keeps the two in step (`Holds.after`),
and after any look-ups the cache holds the last literals that were missed and answers as if there
were none (`cached_eq_uncached`). -/

namespace Checklist.DateCache
set_option autoImplicit false
open Text

/-! ## Readings -/

/-- How a value is read: it is answered at once, or it is a literal. -/
inductive Reading where
  | answer (result : Except Failure (Option Int))
  | literal (s : Text)

namespace Reading

/-- A text is answered at once if it is empty or a keyword; blanks around a literal do not count. -/
def ofText (today : Date) (s : Text) : Reading :=
  if (trim s).isEmpty then .answer (.ok none)
  else match DateText.relative today (trim s) with
    | .error failure => .answer (.error failure)
    | .ok (some timestamp) => .answer (.ok (some timestamp))
    | .ok none => .literal (trim s)

/-- A value that does not count by its text is answered at once, and so is one that cannot
be written. -/
def ofValue (today : Date) (value : Value) : Reading :=
  match datedText? value with
  | .error failure => .answer (.error failure)
  | .ok none => .answer (value.timestamp? today)
  | .ok (some s) => ofText today s

def result : Reading → Except Failure (Option Int)
  | .answer result => result
  | .literal s => DateText.literal s

/-- What a cache answers, and the cache afterwards. -/
def look (cache : DateCache) : Reading → Except Failure (Option Int) × DateCache
  | .answer result => (result, cache)
  | .literal s => cache.literal s

theorem result_ofText (today : Date) (s : Text) :
    (ofText today s).result = DateText.resolve today s := by
  unfold ofText DateText.resolve
  by_cases hempty : (trim s).isEmpty = true
  · rw [if_pos hempty, List.isEmpty_iff.1 hempty]
    rfl
  · rw [if_neg hempty]
    dsimp only
    cases DateText.relative today (trim s) with
    | error failure => rfl
    | ok found => cases found <;> rfl

theorem look_ofText (cache : DateCache) (today : Date) (s : Text) :
    (ofText today s).look cache = cache.resolve today s := by
  unfold ofText resolve
  by_cases hempty : (trim s).isEmpty = true
  · rw [if_pos hempty, if_pos hempty]
    rfl
  · rw [if_neg hempty, if_neg hempty]
    cases DateText.relative today (trim s) with
    | error failure => rfl
    | ok found => cases found <;> rfl

theorem result_ofValue (today : Date) (value : Value) :
    (ofValue today value).result = value.timestamp? today := by
  have hwritten : ∀ value : Value, datedText? value = value.written.map some →
      (value.timestamp? today = do DateText.resolve today (← value.written)) →
          (ofValue today value).result = value.timestamp? today := by
    intro value htext hvalue
    rw [ofValue, htext, hvalue]
    cases value.written with
    | error failure => rfl
    | ok s => exact result_ofText today s
  cases value with
  | null | bool | int | date | moment => rfl
  | float | str | bytes | list | set | map | ring =>
    exact hwritten _ rfl (by unfold Value.timestamp?; rfl)

theorem look_ofValue (cache : DateCache) (today : Date) (value : Value) :
    (ofValue today value).look cache = cache.timestamp? today value := by
  unfold ofValue timestamp?
  cases datedText? value with
  | error failure => rfl
  | ok text? => cases text? with
    | none => rfl
    | some s => exact look_ofText cache today s

theorem keyword?_of_ofText {today : Date} {s key : Text} (h : ofText today s = .literal key) :
    DateText.keyword? key = none := by
  unfold ofText at h
  split at h
  · cases h
  · split at h <;> cases h
    rename_i hrelative
    unfold DateText.relative at hrelative
    split at hrelative
    · assumption
    · obtain ⟨day, -, hrelative⟩ := Result.bind_eq_ok.1 hrelative
      obtain ⟨start, -, hrelative⟩ := Result.bind_eq_ok.1 hrelative
      cases hrelative

theorem keyword?_of_ofValue {today : Date} {value : Value} {key : Text}
    (h : ofValue today value = .literal key) :
    DateText.keyword? key = none := by
  unfold ofValue at h
  split at h
  · cases h
  · cases h
  · exact keyword?_of_ofText h

end Reading

/-! ## The literals that are missed -/

/-- What is asked of a cache. -/
inductive Call where
  | find (today : Date) (value : Value)
  | clear

/-- The cache after a call. -/
def after (cache : DateCache) : Call → DateCache
  | .find today value => (cache.timestamp? today value).2
  | .clear => cache.clear

/-- The cache after some calls, nothing being kept at first. -/
def run (limit : Nat) (calls : List Call) : DateCache :=
  calls.foldl after (empty limit)

/-- The literals that were missed after one more call: a literal is missed unless it is among the
last ones that were missed, as many as there is room for; it counts once its reading completes. -/
def missedAfter (limit : Nat) (missed : List Text) : Call → List Text
  | .find today value => match Reading.ofValue today value with
    | .answer _ => missed
    | .literal s => if (missed.rtake limit).contains s || (DateText.literal s).toOption.isNone then
        missed else missed ++ [s]
  | .clear => []

/-- The literals that were missed since the cache was cleared last. -/
def misses (limit : Nat) (calls : List Call) : List Text :=
  calls.foldl (missedAfter limit) []

/-! ## The last elements of a list -/

section

variable {α β : Type}

theorem rtake_rtake_succ (xs : List α) (n : Nat) : (xs.rtake (n + 1)).rtake n = xs.rtake n := by
  rw [List.rtake, List.rtake, List.rtake, List.drop_drop, List.length_drop]
  congr 1
  omega

theorem map_rtake (f : α → β) (xs : List α) (n : Nat) :
    (xs.rtake n).map f = (xs.map f).rtake n := by
  rw [List.rtake, List.rtake, List.map_drop, List.length_map]

theorem length_rtake_le (xs : List α) (n : Nat) : (xs.rtake n).length ≤ n := by
  rw [List.rtake, List.length_drop]
  omega

theorem rtake_suffix (xs : List α) (n : Nat) : xs.rtake n <:+ xs :=
  List.drop_suffix _ _

end

/-! ## One look-up -/

/-- The cache holds the last literals that were missed, and what they name. -/
structure Holds (limit : Nat) (missed : List Text) (cache : DateCache) : Prop where
  limit_eq : cache.limit = limit
  keys_eq : cache.keys = missed.rtake limit
  nodup : cache.keys.Nodup
  parsed : ∀ entry ∈ cache.entries, DateText.literal entry.1 = .ok entry.2
  notKeyword : ∀ key ∈ cache.keys, DateText.keyword? key = none

theorem holds_empty (limit : Nat) : Holds limit [] (empty limit) :=
  ⟨rfl, by simp [empty, keys], List.nodup_nil, by simp [empty], by simp [empty, keys]⟩

variable {limit : Nat} {missed : List Text} {cache : DateCache}

theorem Holds.size_le (h : Holds limit missed cache) : cache.size ≤ limit := by
  have hlength := congrArg List.length h.keys_eq
  have hle := length_rtake_le missed limit
  rw [keys, List.length_map] at hlength
  unfold size
  omega

theorem makeRoom_eq {n : Nat} (hlimit : cache.limit = (n + 1 : Nat)) (hsize : cache.size ≤ n + 1) :
    cache.makeRoom = .ok { cache with entries := cache.entries.rtake n } := by
  have hlength : cache.entries.length = cache.size := rfl
  unfold makeRoom
  rw [List.rtake, hlength]
  by_cases hroom : cache.size < n + 1
  · have hdrop : cache.size - n = 0 := by omega
    rw [if_pos (by omega), hdrop, List.drop_zero]
  · have hdrop : cache.size - n = 1 := by omega
    rw [if_neg (by omega), hdrop]
    cases hentries : cache.entries with
    | nil => simp [size, hentries] at hroom
    | cons entry rest => rfl

theorem lookup_eq_none_iff {s : Text} : cache.entries.lookup s = none ↔ s ∉ cache.keys := by
  rw [List.lookup_eq_none_iff, keys, List.mem_map]
  constructor
  · rintro h ⟨entry, hentry, rfl⟩
    exact absurd (h entry hentry) (by simp)
  · intro h entry hentry
    rw [bne_iff_ne]
    rintro rfl
    exact h ⟨entry, hentry, rfl⟩

theorem literal_of_mem (h : Holds limit missed cache) {s : Text} (hmem : s ∈ cache.keys) :
    cache.literal s = (DateText.literal s, cache) := by
  cases hfound : cache.entries.lookup s with
  | none => exact absurd hmem (lookup_eq_none_iff.1 hfound)
  | some known =>
    obtain ⟨before, rest, hsplit, -⟩ := List.lookup_eq_some_iff.1 hfound
    have hparsed := h.parsed (s, known) (by rw [hsplit]; simp)
    rw [literal, hfound, hparsed]

/-- A literal that is not kept is read, and becomes the newest entry if its reading completes. -/
theorem literal_of_notMem {n : Nat} (h : Holds (n + 1) missed cache) {s : Text}
    (hmem : s ∉ cache.keys) :
    cache.literal s = (DateText.literal s, match DateText.literal s with
      | .ok timestamp => { cache with entries := (cache.entries ++ [(s, timestamp)]).rtake (n + 1) }
      | .error _ => cache) := by
  have hroom := makeRoom_eq h.limit_eq h.size_le
  unfold literal
  rw [lookup_eq_none_iff.2 hmem]
  cases DateText.literal s with
  | error failure => rfl
  | ok timestamp => simp only [hroom, List.rtake_concat_succ]

theorem Holds.fst_literal {n : Nat} (h : Holds (n + 1) missed cache) (s : Text) :
    (cache.literal s).1 = DateText.literal s := by
  by_cases hmem : s ∈ cache.keys
  · rw [literal_of_mem h hmem]
  · rw [literal_of_notMem h hmem]

theorem Holds.push {n : Nat} (h : Holds (n + 1) missed cache) {s : Text} (hmem : s ∉ cache.keys)
    {timestamp : Option Int}
    (hparsed : DateText.literal s = .ok timestamp) (hkeyword : DateText.keyword? s = none) :
    Holds (n + 1) (missed ++ [s])
      { cache with entries := (cache.entries ++ [(s, timestamp)]).rtake (n + 1) } := by
  have hkeys : keys { cache with entries := (cache.entries ++ [(s, timestamp)]).rtake (n + 1) } =
      (cache.keys ++ [s]).rtake (n + 1) := by
    rw [keys, map_rtake, List.map_append]
    rfl
  have hsuffix := rtake_suffix (cache.keys ++ [s]) (n + 1)
  refine ⟨h.limit_eq, ?_, ?_, fun entry hentry => ?_, fun key hkey => ?_⟩
  -- Of the literals before, both sides keep the last `n`.
  · rw [hkeys, List.rtake_concat_succ, List.rtake_concat_succ, h.keys_eq, rtake_rtake_succ]
  · rw [hkeys]
    refine List.Nodup.sublist hsuffix.sublist
      (List.nodup_append.2 ⟨h.nodup, by simp, fun key hkey other hother heq => hmem ?_⟩)
    rw [← List.mem_singleton.1 hother, ← heq]
    exact hkey
  · rcases List.mem_append.1 ((rtake_suffix _ _).mem hentry) with hold | hnew
    · exact h.parsed entry hold
    · rw [List.mem_singleton.1 hnew]
      exact hparsed
  · rw [hkeys] at hkey
    rcases List.mem_append.1 (hsuffix.mem hkey) with hold | hnew
    · exact h.notKeyword key hold
    · rw [List.mem_singleton.1 hnew]
      exact hkeyword

/-- One call keeps the cache in step with the literals that are missed. -/
theorem Holds.after {n : Nat} (h : Holds (n + 1) missed cache) (call : Call) :
    Holds (n + 1) (missedAfter (n + 1) missed call) (cache.after call) := by
  cases call with
  | clear =>
    exact ⟨h.limit_eq, (holds_empty _).keys_eq, List.nodup_nil, (holds_empty 0).parsed,
      (holds_empty 0).notKeyword⟩
  | find today value =>
    rw [DateCache.after, ← Reading.look_ofValue, missedAfter]
    cases hreading : Reading.ofValue today value with
    | answer result => exact h
    | literal s =>
      dsimp only [Reading.look]
      -- Found, failed, or kept as the newest entry; only the last case moves the cache and the
      -- list, and both at once.
      by_cases hmem : s ∈ cache.keys
      · rw [literal_of_mem h hmem, if_pos (by simp [← h.keys_eq, hmem])]
        exact h
      · rw [literal_of_notMem h hmem]
        cases hparsed : DateText.literal s with
        | error failure =>
          rw [if_pos (by simp [Except.toOption])]
          exact h
        | ok timestamp =>
          rw [if_neg (by rw [← h.keys_eq]; simp [hmem, Except.toOption])]
          exact h.push hmem hparsed (Reading.keyword?_of_ofValue hreading)

/-! ## Many look-ups -/

theorem holds_run {limit : Nat} (hlimit : 1 ≤ limit) (calls : List Call) :
    Holds limit (misses limit calls) (run limit calls) := by
  obtain ⟨n, rfl⟩ : ∃ n, limit = n + 1 := ⟨limit - 1, by omega⟩
  -- By induction on the calls, from any cache that is in step.
  have hfold : ∀ (calls : List Call) (missed : List Text) (cache : DateCache),
      Holds (n + 1) missed cache →
      Holds (n + 1) (calls.foldl (missedAfter (n + 1)) missed) (calls.foldl DateCache.after cache) := by
    intro calls
    induction calls with
    | nil => exact fun missed cache h => h
    | cons call calls ih => exact fun missed cache h => ih _ _ (h.after call)
  exact hfold calls [] _ (holds_empty _)

theorem fst_timestamp?_run {limit : Nat} (hlimit : 1 ≤ limit) (calls : List Call)
    (today : Date) (value : Value) :
    ((run limit calls).timestamp? today value).1 = value.timestamp? today := by
  have hholds := holds_run hlimit calls
  obtain ⟨n, rfl⟩ : ∃ n, limit = n + 1 := ⟨limit - 1, by omega⟩
  rw [← Reading.look_ofValue, ← Reading.result_ofValue]
  cases Reading.ofValue today value with
  | answer result => rfl
  | literal s => exact hholds.fst_literal s

/-- After any look-ups and clearings every value is answered as without a cache; the cache holds no
more entries than it may, the last literals that were missed, oldest first and none of them twice;
none of them is a keyword, and each stands with what it names. -/
theorem cached_eq_uncached {limit : Nat} (hlimit : 1 ≤ limit) (calls : List Call) :
    (∀ today value, ((run limit calls).timestamp? today value).1 = value.timestamp? today) ∧
      (run limit calls).size ≤ limit ∧
      (run limit calls).keys = (misses limit calls).rtake limit ∧
      (run limit calls).keys.Nodup ∧
      (∀ key ∈ (run limit calls).keys, DateText.keyword? key = none) ∧
      ∀ entry ∈ (run limit calls).entries, DateText.literal entry.1 = .ok entry.2 := by
  have hholds := holds_run hlimit calls
  exact ⟨fst_timestamp?_run hlimit calls, hholds.size_le, hholds.keys_eq, hholds.nodup,
    hholds.notKeyword, hholds.parsed⟩

/-- A literal, a text that is none, the literal again, a keyword, the first day of the calendar,
which has no timestamp, a day that does not exist, and a number. -/
def diaryCalls : List Call :=
  [.find ⟨2025, 6, 2, rfl⟩ (.str "2024-01-14".toList), .clear,
   .find ⟨2025, 6, 2, rfl⟩ (.str "2024-01-15".toList), .find ⟨2025, 6, 2, rfl⟩ (.str "soon".toList),
   .find ⟨2025, 6, 3, rfl⟩ (.str " 2024-01-15 ".toList),
   .find ⟨2025, 6, 3, rfl⟩ (.str "Next  Week".toList),
   .find ⟨2025, 6, 3, rfl⟩ (.str "0001-01-01".toList),
   .find ⟨2025, 6, 3, rfl⟩ (.str "2024-02-30".toList), .find ⟨2025, 6, 3, rfl⟩ (.int 5)]

theorem cached_eq_uncached_diary :
    (run 2 diaryCalls).keys = ["soon".toList, "2024-02-30".toList] ∧
      misses 2 diaryCalls = ["2024-01-15".toList, "soon".toList, "2024-02-30".toList] ∧
        (∀ entry ∈ (run 2 diaryCalls).entries, DateText.literal entry.1 = .ok entry.2) ∧
          ((run 2 diaryCalls).timestamp? ⟨2025, 6, 4, rfl⟩ (.str "2024-01-15".toList)).1 =
            .ok (some 1705276800000) := by
  obtain ⟨hanswers, -, hkeys, -, -, hparsed⟩ := cached_eq_uncached (show 1 ≤ 2 by decide) diaryCalls
  have hmisses : misses 2 diaryCalls =
      ["2024-01-15".toList, "soon".toList, "2024-02-30".toList] := by decide +kernel
  exact ⟨hkeys.trans (by rw [hmisses]; rfl), hmisses, hparsed, (hanswers _ _).trans (by decide +kernel)⟩

end Checklist.DateCache
