import ClassAudit.Bytes

/-!
# Markup labels

Text inside an HTML-like label has its four markup characters written as entities.
-/

set_option autoImplicit false

namespace ClassAudit

/-- Escapes markup characters one after the other, the ampersand first. -/
def escapeMarkup (text : Bytes) : Bytes :=
  (((text.replaceByte 0x26 "&amp;").replaceByte 0x3C "&lt;").replaceByte 0x3E "&gt;").replaceByte
    0x22 "&quot;"

end ClassAudit
