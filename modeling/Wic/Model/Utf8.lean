import Wic.Model.Types

/-!
# The UTF-8 automaton

`utf8_parse` and its table. State 0 is a complete text, state 1 an invalid one.

## Main definitions

* `utf8d`: the table, the character classes and then nine rows of transitions
* `utf8Parse`, `utf8ParseString`: one byte, and a string
* `utf8IsComplete`, `utf8IsInvalid`
-/

namespace Wic

/-- `utf8d` -/
def utf8d : List Nat :=
  List.replicate 128 0 ++                                                    -- 00..7f
  List.replicate 16 1 ++ List.replicate 16 9 ++                              -- 80..9f
  List.replicate 32 7 ++                                                     -- a0..bf
  [8, 8] ++ List.replicate 30 2 ++                                           -- c0..df
  [0xa, 0x3, 0x3, 0x3, 0x3, 0x3, 0x3, 0x3, 0x3, 0x3, 0x3, 0x3, 0x3, 0x4, 0x3, 0x3] ++ -- e0..ef
  [0xb, 0x6, 0x6, 0x6, 0x5, 0x8, 0x8, 0x8, 0x8, 0x8, 0x8, 0x8, 0x8, 0x8, 0x8, 0x8] ++ -- f0..ff
  [0x0, 0x1, 0x2, 0x3, 0x5, 0x8, 0x7, 0x1, 0x1, 0x1, 0x4, 0x6, 0x1, 0x1, 0x1, 0x1] ++ -- s0
  [1, 1, 1, 1, 1, 1, 1, 1, 1, 1, 1, 1, 1, 1, 1, 1] ++                        -- s1
  [1, 0, 1, 1, 1, 1, 1, 0, 1, 0, 1, 1, 1, 1, 1, 1] ++                        -- s2
  [1, 2, 1, 1, 1, 1, 1, 2, 1, 2, 1, 1, 1, 1, 1, 1] ++                        -- s3
  [1, 1, 1, 1, 1, 1, 1, 2, 1, 1, 1, 1, 1, 1, 1, 1] ++                        -- s4
  [1, 2, 1, 1, 1, 1, 1, 1, 1, 2, 1, 1, 1, 1, 1, 1] ++                        -- s5
  [1, 1, 1, 1, 1, 1, 1, 3, 1, 3, 1, 1, 1, 1, 1, 1] ++                        -- s6
  [1, 3, 1, 1, 1, 1, 1, 3, 1, 3, 1, 1, 1, 1, 1, 1] ++                        -- s7
  [1, 3, 1, 1, 1, 1, 1, 1, 1, 1, 1, 1, 1, 1, 1, 1]                           -- s8

/-- `utf8_parse` -/
def utf8Parse (state : Nat) (b : UInt8) : Nat :=
  utf8d.getD (256 + state * 16 + utf8d.getD b.toNat 0) 0

/-- `utf8_parse_string` -/
def utf8ParseString (state : Nat) (s : List UInt8) : Nat := s.foldl utf8Parse state

/-- `utf8_is_complete` -/
def utf8IsComplete (state : Nat) : Bool := state == 0

/-- `utf8_is_invalid` -/
def utf8IsInvalid (state : Nat) : Bool := state == 1

@[simp] theorem utf8ParseString_nil (u : Nat) : utf8ParseString u [] = u := rfl

@[simp] theorem utf8ParseString_cons (u : Nat) (b : UInt8) (s : List UInt8) :
    utf8ParseString u (b :: s) = utf8ParseString (utf8Parse u b) s := rfl

theorem utf8ParseString_append (u : Nat) (s t : List UInt8) :
    utf8ParseString u (s ++ t) = utf8ParseString (utf8ParseString u s) t := List.foldl_append

end Wic
