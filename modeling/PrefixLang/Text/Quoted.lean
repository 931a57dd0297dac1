import PrefixLang.Text.GraphemeExtend
import PrefixLang.Text.Printable
/-!
Quoted text in which every character can be seen: those that cannot be printed, or that would attach
to the character before them, are written by their code points.
-/

namespace PrefixLang.Text.Quoted

def shortEscape? : Char → Option Char
  | '\x00' => some '0'
  | '\t' => some 't'
  | '\r' => some 'r'
  | '\n' => some 'n'
  | '\\' => some '\\'
  | '"' => some '"'
  | _ => none

def encodeChar (c : Char) : List Char :=
  match shortEscape? c with
  | some letter => ['\\', letter]
  | none =>
    if ' ' ≤ c && c ≤ '~' then [c]
    else if isGraphemeExtend c || !isPrintable c then
      ['\\', 'u', '\x7b'] ++ Nat.toDigits 16 c.toNat ++ ['\x7d']
    else [c]

def encode (s : List Char) : List Char := '"' :: (s.flatMap encodeChar ++ ['"'])

end PrefixLang.Text.Quoted
