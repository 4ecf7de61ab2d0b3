import Mathlib.Algebra.GroupWithZero.Nat

/-!
# Character classes of the HTTP and URL grammars

The byte tables and character macros of `http_parser.c`, for the strict build
(`HTTP_PARSER_STRICT` is 1 by default).

## Main definitions

* `ascii`: a string literal as the bytes of the C string
* `token`, `isHeaderChar`: the classes of header fields and header values
* `isUrlChar`, `isUserinfoChar`, `isHostChar`: the classes of URL components
-/

namespace Wic.Http

/-- The bytes of a C string literal, without its terminator. -/
def ascii (s : String) : List UInt8 := s.toList.map fun c => c.toNat.toUInt8

/-- `CR` -/
def cr : UInt8 := 13

/-- `LF` -/
def lf : UInt8 := 10

/-- The character `c`, as a byte. -/
def chr (c : Char) : UInt8 := c.toNat.toUInt8

/-- `LOWER(c)` -/
def lower (c : UInt8) : UInt8 := c ||| 0x20

/-- `IS_ALPHA(c)` -/
def isAlpha (c : UInt8) : Bool := chr 'a' ≤ lower c && lower c ≤ chr 'z'

/-- `IS_NUM(c)` -/
def isNum (c : UInt8) : Bool := chr '0' ≤ c && c ≤ chr '9'

/-- `IS_ALPHANUM(c)` -/
def isAlphanum (c : UInt8) : Bool := isAlpha c || isNum c

/-- `IS_HEX(c)` -/
def isHex (c : UInt8) : Bool := isNum c || (chr 'a' ≤ lower c && lower c ≤ chr 'f')

/-- `IS_MARK(c)` -/
def isMark (c : UInt8) : Bool := (ascii "-_.!~*'()").contains c

/-- `IS_USERINFO_CHAR(c)` -/
def isUserinfoChar (c : UInt8) : Bool :=
  isAlphanum c || isMark c || (ascii "%;:&=+$,").contains c

/-- `IS_HOST_CHAR(c)` -/
def isHostChar (c : UInt8) : Bool := isAlphanum c || (ascii ".-").contains c

/-- `tokens`, the rows below 128; the rows above hold zero. -/
def tokens : List UInt8 :=
  List.replicate 32 0 ++ ascii " !" ++ [0] ++ ascii "#$%&'" ++ [0, 0] ++ ascii "*+" ++ [0] ++
  ascii "-." ++ [0] ++ ascii "0123456789" ++ List.replicate 7 0 ++
  ascii "abcdefghijklmnopqrstuvwxyz" ++ [0, 0, 0] ++ ascii "^_`abcdefghijklmnopqrstuvwxyz" ++
  [0] ++ ascii "|" ++ [0] ++ ascii "~" ++ [0]

/-- `STRICT_TOKEN(c)`, which is also `TOKEN(c)`: the lower case of a token character, and zero on
any other byte. -/
def token (c : UInt8) : UInt8 := if c = chr ' ' then 0 else tokens.getD c.toNat 0

/-- `IS_HEADER_CHAR(ch)` -/
def isHeaderChar (ch : UInt8) : Bool :=
  ch == cr || ch == lf || ch == 9 || (31 < ch && ch != 127)

/-- `normal_url_char`, one byte for eight characters. -/
def normalUrlChar : List UInt8 :=
  [0, 0, 0, 0, 246, 255, 255, 127, 255, 255, 255, 255, 255, 255, 255, 127] ++ List.replicate 16 0

/-- `IS_URL_CHAR(c)` -/
def isUrlChar (c : UInt8) : Bool :=
  (normalUrlChar.getD (c >>> 3).toNat 0) &&& (1 <<< (c &&& 7)) != 0

/-- `unhex`: `none` where the table holds -1. Its rows above 127 are missing in the source, so
they hold zero. -/
def unhex (c : UInt8) : Option Nat :=
  if 128 ≤ c then some 0
  else if isNum c then some (c.toNat - (chr '0').toNat)
  else if isHex c then some ((lower c).toNat - (chr 'a').toNat + 10)
  else none

end Wic.Http
