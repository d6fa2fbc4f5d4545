import Mathlib.Data.List.Basic
import Mathlib.Data.Rat.Floor

/-!
# Bytes, text and numbers as Python spells them

The program works on `bytes` and converts to `str` only where a line of text is shown.
`Bytes` is `bytes`, `Str` is `str` (a list of Unicode scalar values, which is all that
`decode` with `errors="replace"` can produce). The conversions the source relies on are
written out here with their documented behaviour: `int(bytes)`, `str(int)`,
`bytes.upper`, `bytes.decode("utf-8", errors="replace")`, `str.encode("utf-8")` and
`repr`.
-/

set_option autoImplicit false

namespace ByoRedis.Model

/-- Python `bytes`. -/
abbrev Bytes := List UInt8

instance : LawfulBEq Bytes := inferInstance

/-- Python `str`. -/
abbrev Str := List Char

/-- A `bytes` literal. -/
def ascii (s : String) : Bytes := s.toList.map fun c => c.toNat.toUInt8

/-- Carriage return. -/
def cr : UInt8 := 13
/-- Line feed. -/
def lf : UInt8 := 10

/-- `b"\r\n"`. -/
def crlf : Bytes := [cr, lf]

/-- `str.encode("utf-8")`. -/
def encodeUtf8 (s : Str) : Bytes := s.flatMap String.utf8EncodeChar

/-! ## Letter case -/

/-- One byte of `bytes.upper()`. -/
def upperByte (b : UInt8) : UInt8 := if 97 ≤ b ∧ b ≤ 122 then b - 32 else b

/-- `bytes.upper()`: only ASCII letters change. -/
def upper (b : Bytes) : Bytes := b.map upperByte

/-! ## Numbers -/

/-- `str(n)` for a natural number. -/
def natText (n : ℕ) : Str := Nat.toDigits 10 n

/-- `str(i)` for an integer. -/
def intText (i : ℤ) : Str := if i < 0 then '-' :: natText i.natAbs else natText i.natAbs

/-- `str(n).encode("ascii")`. -/
def natBytes (n : ℕ) : Bytes := (natText n).map fun c => c.toNat.toUInt8

/-- `str(i).encode("ascii")`. -/
def intBytes (i : ℤ) : Bytes := (intText i).map fun c => c.toNat.toUInt8

/-- The white space `int()` skips at both ends. -/
def isSpace (b : UInt8) : Bool := (9 ≤ b && b ≤ 13) || b == 32

/-- An ASCII digit. -/
def isDigit (b : UInt8) : Bool := 48 ≤ b && b ≤ 57

/-- `s.strip()` for the white space of `int()`. -/
def strip (s : Bytes) : Bytes := ((s.dropWhile isSpace).reverse.dropWhile isSpace).reverse

/-- The digits of a decimal literal; single underscores may stand between digits. -/
def digitsOf : Bytes → Option Bytes
  | [] => none
  | [d] => if isDigit d then some [d] else none
  | d :: u :: rest =>
    if isDigit d then
      if u = 95 then (digitsOf rest).map (d :: ·) else (digitsOf (u :: rest)).map (d :: ·)
    else none

/-- The value of a list of decimal digits. -/
def digitsValue (ds : Bytes) : ℕ := ds.foldl (fun n d => 10 * n + (d.toNat - 48)) 0

/-- The most digits `int()` converts (`sys.int_info.default_max_str_digits`). -/
def maxStrDigits : ℕ := 4300

/-- A decimal literal without sign; `int()` refuses more than `maxStrDigits` digits. -/
def parseDigits (s : Bytes) : Option ℕ :=
  match digitsOf s with
  | some ds => if ds.length ≤ maxStrDigits then some (digitsValue ds) else none
  | none => none

/-- `int(b)` on `bytes`; `none` is `ValueError`. -/
def pyInt (b : Bytes) : Option ℤ :=
  match strip b with
  | 45 :: r => (parseDigits r).map fun n => -(n : ℤ)
  | 43 :: r => (parseDigits r).map fun n => (n : ℤ)
  | r => (parseDigits r).map fun n => (n : ℤ)

/-- `f"{x:.0f}"` for a non-negative number: the nearest integer, ties to even. -/
def roundHalfEven (x : ℚ) : ℤ :=
  let f := ⌊x⌋
  let r := x - f
  if r < 1 / 2 then f else if 1 / 2 < r then f + 1 else if f % 2 = 0 then f else f + 1

/-! ## UTF-8 with replacement -/

/-- A continuation byte of UTF-8. -/
def isContinuation (b : UInt8) : Bool := 0x80 ≤ b && b ≤ 0xBF

/-- U+FFFD, which `errors="replace"` puts for each maximal ill-formed part. -/
def replacement : Char := '\uFFFD'

/-- The range of the second byte after the lead byte `b` of a three- or four-byte
sequence. -/
def secondByteOk (b c : UInt8) : Bool :=
  if b = 0xE0 then 0xA0 ≤ c && c ≤ 0xBF
  else if b = 0xED then 0x80 ≤ c && c ≤ 0x9F
  else if b = 0xF0 then 0x90 ≤ c && c ≤ 0xBF
  else if b = 0xF4 then 0x80 ≤ c && c ≤ 0x8F
  else isContinuation c

/-- The first character of a non-empty byte string and the number of bytes it takes. -/
def decodeFirst : Bytes → Char × ℕ
  | [] => (replacement, 1)
  | b :: rest =>
    let low (x : UInt8) : ℕ := x.toNat % 64
    if b < 0x80 then (Char.ofNat b.toNat, 1)
    else if 0xC2 ≤ b && b ≤ 0xDF then
      match rest with
      | c :: _ => if isContinuation c then (Char.ofNat (b.toNat % 32 * 64 + low c), 2)
        else (replacement, 1)
      | [] => (replacement, 1)
    else if 0xE0 ≤ b && b ≤ 0xEF then
      match rest with
      | c :: d :: _ =>
        if secondByteOk b c then
          if isContinuation d then
            (Char.ofNat (b.toNat % 16 * 4096 + low c * 64 + low d), 3)
          else (replacement, 2)
        else (replacement, 1)
      | [c] => if secondByteOk b c then (replacement, 2) else (replacement, 1)
      | [] => (replacement, 1)
    else if 0xF0 ≤ b && b ≤ 0xF4 then
      match rest with
      | c :: d :: e :: _ =>
        if secondByteOk b c then
          if isContinuation d then
            if isContinuation e then
              (Char.ofNat (b.toNat % 8 * 262144 + low c * 4096 + low d * 64 + low e), 4)
            else (replacement, 3)
          else (replacement, 2)
        else (replacement, 1)
      | [c, d] =>
        if secondByteOk b c then
          if isContinuation d then (replacement, 3) else (replacement, 2)
        else (replacement, 1)
      | [c] => if secondByteOk b c then (replacement, 2) else (replacement, 1)
      | [] => (replacement, 1)
    else (replacement, 1)

/-- Decoding character by character; the fuel is the number of bytes. -/
def decodeLoop : ℕ → Bytes → Str
  | 0, _ => []
  | _ + 1, [] => []
  | fuel + 1, b :: rest =>
    (decodeFirst (b :: rest)).1 :: decodeLoop fuel ((b :: rest).drop (decodeFirst (b :: rest)).2)

/-- `b.decode("utf-8", errors="replace")`. -/
def decodeReplace (b : Bytes) : Str := decodeLoop b.length b

/-! ## `repr` -/

/-- A lower-case hexadecimal digit. -/
def hexDigit (n : ℕ) : Char := Nat.digitChar n

/-- One byte inside the `repr` of a `bytes` or Latin-1 `str` value, between quotes `q`. -/
def reprByte (q : UInt8) (printable : UInt8 → Bool) (b : UInt8) : Str :=
  if b = q ∨ b = 92 then ['\\', Char.ofNat b.toNat]
  else if b = 9 then ['\\', 't']
  else if b = 10 then ['\\', 'n']
  else if b = 13 then ['\\', 'r']
  else if printable b then [Char.ofNat b.toNat]
  else ['\\', 'x', hexDigit (b.toNat / 16), hexDigit (b.toNat % 16)]

/-- The quote `repr` chooses: single unless only single quotes occur inside. -/
def reprQuote (b : Bytes) : UInt8 := if (39 : UInt8) ∈ b ∧ (34 : UInt8) ∉ b then 34 else 39

/-- `repr(b)` for `bytes`. -/
def reprBytes (b : Bytes) : Str :=
  let q := reprQuote b
  'b' :: Char.ofNat q.toNat ::
    (b.flatMap (reprByte q fun c => 0x20 ≤ c && c < 0x7F) ++ [Char.ofNat q.toNat])

/-- `repr(chr(p))` for a byte value `p`: of the Latin-1 characters, the controls, the
no-break space and the soft hyphen are not printable. -/
def reprChr (p : UInt8) : Str :=
  let q := reprQuote [p]
  Char.ofNat q.toNat ::
    (reprByte q (fun c => (0x20 ≤ c && c < 0x7F) || (0xA0 < c && c != 0xAD)) p ++
      [Char.ofNat q.toNat])

end ByoRedis.Model
