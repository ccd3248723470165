import Mathlib.Data.List.Basic
import Mathlib.Data.UInt

/-!
# Searching in strings

The string functions of the C library, on strings of bytes without their final zero. A pointer into
a string is the rest of the string from there on.
-/

namespace CStrings

def ascii (s : String) : List UInt8 := s.toList.map Char.toUInt8

def strstr (pat : List UInt8) : List UInt8 → Option (List UInt8)
  | [] => if pat = [] then some [] else none
  | c :: s => if pat.isPrefixOf (c :: s) then some (c :: s) else strstr pat s

def strchr (s : List UInt8) (c : UInt8) : Option (List UInt8) :=
  match s.dropWhile (· ≠ c) with
  | [] => none
  | rest => some rest

def beforeLast (c : UInt8) (s : List UInt8) : Option (List UInt8) :=
  match s.reverse.dropWhile (· ≠ c) with
  | [] => none
  | _ :: rest => some rest.reverse

end CStrings
