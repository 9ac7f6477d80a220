import Checklist.Value.Meaning

/-! # A cache for date literals

Literals that were read once are kept with their timestamps, also those that are no date. The cache
holds a bounded number of them; a new one takes the place of the oldest. Keywords depend on today
and never enter it. -/

namespace Checklist
set_option autoImplicit false
open Text

/-- The literals kept, oldest first, with what they name. -/
structure DateCache where
  limit : Int
  entries : List (Text × Option Int)
  deriving DecidableEq, Repr

namespace DateCache

def empty (limit : Int) : DateCache := ⟨limit, []⟩

def clear (cache : DateCache) : DateCache := { cache with entries := [] }

def size (cache : DateCache) : Nat := cache.entries.length

/-- The literals kept, oldest first. -/
def keys (cache : DateCache) : List Text := cache.entries.map (·.1)

def makeRoom (cache : DateCache) : Except Failure DateCache :=
  if (cache.size : Int) < cache.limit then .ok cache
  else match cache.entries with
    | [] => .error .emptyCache
    | _ :: rest => .ok { cache with entries := rest }

/-- The timestamp of a literal, and the cache after the look-up. A literal whose reading fails
is not kept. -/
def literal (cache : DateCache) (s : Text) : Except Failure (Option Int) × DateCache :=
  match cache.entries.lookup s with
  | some known => (.ok known, cache)
  | none => match DateText.literal s with
    | .error failure => (.error failure, cache)
    | .ok timestamp => match cache.makeRoom with
      | .error failure => (.error failure, cache)
      | .ok roomy => (.ok timestamp, { roomy with entries := roomy.entries ++ [(s, timestamp)] })

/-- The timestamp that a text names, and the cache after the look-up. -/
def resolve (cache : DateCache) (today : Date) (s : Text) :
    Except Failure (Option Int) × DateCache :=
  let text := trim s
  if text.isEmpty then (.ok none, cache)
  else match DateText.relative today text with
    | .error failure => (.error failure, cache)
    | .ok (some timestamp) => (.ok (some timestamp), cache)
    | .ok none => cache.literal text

/-- The text by which a value counts as a date; truth values, integers, days and moments count
as they are. -/
def datedText? (value : Value) : Except Failure (Option Text) :=
  match value with
  | .null | .bool _ | .int _ | .date _ | .moment _ _ => .ok none
  | value => value.written.map some

/-- The timestamp that a value means, and the cache afterwards; only what counts by its text
is looked up. -/
def timestamp? (cache : DateCache) (today : Date) (value : Value) :
    Except Failure (Option Int) × DateCache :=
  match datedText? value with
  | .error failure => (.error failure, cache)
  | .ok none => (value.timestamp? today, cache)
  | .ok (some s) => cache.resolve today s

end DateCache
end Checklist
