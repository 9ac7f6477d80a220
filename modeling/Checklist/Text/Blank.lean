import Checklist.Text.Ranges

/-! # Blanks

White space is the ASCII controls TAB to CR and FS to US, the space, and the Unicode separators. One
class serves every place where a blank is skipped, trimmed or split at. -/

namespace Checklist.Text
set_option autoImplicit false

def blankRanges : Ranges :=
  [(133, 133), (160, 160), (5760, 5760), (8192, 8202), (8232, 8233), (8239, 8239), (8287, 8287),
   (12288, 12288)]

def isBlank (c : Char) : Bool :=
  inClass (fun c => c == ' ' || (9 ≤ c.toNat && c.toNat ≤ 13) || (28 ≤ c.toNat && c.toNat ≤ 31))
    blankRanges c

example : isBlank ' ' ∧ isBlank '\t' ∧ isBlank '\n' ∧ isBlank '\r' ∧ isBlank '\x1c' ∧
    isBlank '\u00a0' := by decide

/-- A byte order mark and a zero-width space are no blanks. -/
example : isBlank '\ufeff' = false ∧ isBlank '\u200b' = false := by decide

end Checklist.Text
