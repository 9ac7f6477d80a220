/-! # Character classes as ranges

A class of characters beyond ASCII is a list of ranges of code points, ends included. The ASCII part
of a class is stated as a condition of its own, so that the common case never walks a table. -/

namespace Checklist
set_option autoImplicit false

/-- Text is a list of characters, so that every scanner is a recursion on what it reads. -/
abbrev Text := List Char

namespace Text

/-- Ranges of code points, ends included, in increasing order. -/
abbrev Ranges := List (Nat × Nat)

def Ranges.has (ranges : Ranges) (code : Nat) : Bool :=
  ranges.any fun range => range.1 ≤ code && code ≤ range.2

/-- A class given by its ASCII part and its ranges beyond ASCII. -/
def inClass (ascii : Char → Bool) (beyond : Ranges) (c : Char) : Bool :=
  if c.toNat < 128 then ascii c else beyond.has c.toNat

theorem inClass_ascii {ascii : Char → Bool} {beyond : Ranges} {c : Char} (h : c.toNat < 128) :
    inClass ascii beyond c = ascii c := by
  simp [inClass, h]

end Text
end Checklist
