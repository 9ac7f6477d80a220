import Checklist.Text.Ranges

/-! # UTF-8

Text as octets and back. -/

namespace Checklist.Text
set_option autoImplicit false

def utf8 (s : Text) : List UInt8 :=
  s.flatMap String.utf8EncodeChar

/-- The text that octets encode; none if they encode none. -/
def ofUtf8? (octets : List UInt8) : Option Text :=
  (String.fromUTF8? (ByteArray.mk octets.toArray)).map String.toList

theorem utf8_append (s t : Text) : utf8 (s ++ t) = utf8 s ++ utf8 t :=
  List.flatMap_append

example : utf8 "aé€".toList = [0x61, 0xc3, 0xa9, 0xe2, 0x82, 0xac] := by decide +kernel

end Checklist.Text
