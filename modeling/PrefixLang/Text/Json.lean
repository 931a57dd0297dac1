/-!
Compact JSON objects of one level: no space between tokens, and members in the order given.
-/

namespace PrefixLang.Text.Json

/-- A member of an object: nothing, a truth value, a text or a list of natural numbers. -/
inductive Value where
  | null
  | bool (b : Bool)
  | string (s : String)
  | numbers (ns : List Nat)
  deriving DecidableEq, Repr

def shortEscape? : Char → Option Char
  | '"' => some '"'
  | '\\' => some '\\'
  | '\x08' => some 'b'
  | '\x0c' => some 'f'
  | '\n' => some 'n'
  | '\r' => some 'r'
  | '\t' => some 't'
  | _ => none

def encodeChar (c : Char) : List Char :=
  match shortEscape? c with
  | some letter => ['\\', letter]
  | none =>
    if c < ' ' then
      '\\' :: 'u' :: '0' :: '0' :: [(c.toNat / 16).digitChar, (c.toNat % 16).digitChar]
    else [c]

def encodeString (s : String) : List Char := '"' :: (s.toList.flatMap encodeChar ++ ['"'])

def encodeValue : Value → List Char
  | .null => "null".toList
  | .bool b => (if b then "true" else "false").toList
  | .string s => encodeString s
  | .numbers ns => '[' :: ([','].intercalate (ns.map (Nat.toDigits 10)) ++ [']'])

def encodeMember (member : String × Value) : List Char :=
  encodeString member.1 ++ ':' :: encodeValue member.2

def encodeObject (members : List (String × Value)) : String :=
  String.ofList ('\x7b' :: ([','].intercalate (members.map encodeMember) ++ ['\x7d']))

end PrefixLang.Text.Json
