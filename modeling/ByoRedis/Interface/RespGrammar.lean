import ByoRedis.Model.Resp

/-!
# The grammar of RESP2

The frames of the protocol as a grammar, apart from any parser: a length is `-1` or decimal
digits, an integer may have a sign, and a simple string or an error has no CR and no LF in it.
-/

set_option autoImplicit false

namespace ByoRedis.Interface

open ByoRedis.Model

/-- One or more decimal digits. -/
def Digits (line : Bytes) : Prop := line ≠ [] ∧ ∀ b ∈ line, isDigit b = true

instance (line : Bytes) : Decidable (Digits line) := inferInstanceAs (Decidable (_ ∧ _))

/-- The line of a `$` or `*` header. -/
def LengthLine (line : Bytes) : Prop := line = ascii "-1" ∨ Digits line

instance (line : Bytes) : Decidable (LengthLine line) := inferInstanceAs (Decidable (_ ∨ _))

/-- The line of an integer: digits behind an optional sign. -/
def IntegerLine (line : Bytes) : Prop :=
  Digits line ∨ ∃ digits, Digits digits ∧ (line = 43 :: digits ∨ line = 45 :: digits)

/-- The line of a simple string or an error. -/
def TextLine (line : Bytes) : Prop := cr ∉ line ∧ lf ∉ line

/-- The frames of RESP2.
SOURCE: docs/REQUIREMENTS.md:182-196 -/
inductive Resp2 : Bytes → Prop where
  | simple {line : Bytes} (h : TextLine line) : Resp2 (ascii "+" ++ line ++ crlf)
  | error {line : Bytes} (h : TextLine line) : Resp2 (ascii "-" ++ line ++ crlf)
  | integer {line : Bytes} (h : IntegerLine line) : Resp2 (ascii ":" ++ line ++ crlf)
  | nullBulk : Resp2 (ascii "$" ++ ascii "-1" ++ crlf)
  | bulk {line data : Bytes} (h : Digits line) (hlen : digitsValue line = data.length) :
    Resp2 (ascii "$" ++ line ++ crlf ++ data ++ crlf)
  | nullArray : Resp2 (ascii "*" ++ ascii "-1" ++ crlf)
  | array {line : Bytes} {items : List Bytes} (h : Digits line)
    (hlen : digitsValue line = items.length) (hitems : ∀ item ∈ items, Resp2 item) :
    Resp2 (ascii "*" ++ line ++ crlf ++ items.flatten)

end ByoRedis.Interface
