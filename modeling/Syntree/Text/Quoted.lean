import Syntree.Text.Printable

/-!
Text in double quotes, as error messages and tree outlines show it: every character that could be
taken for a delimiter or would not be seen is written as an escape.
-/

namespace Syntree.Text

/-- The lowercase hexadecimal digits of `n`, without leading zeros. -/
def hexDigits (n : Nat) : List Char :=
  Nat.toDigits 16 n

def quotedChar (c : Char) : List Char :=
  match c with
  | '\x00' => ['\\', '0']
  | '\t' => ['\\', 't']
  | '\r' => ['\\', 'r']
  | '\n' => ['\\', 'n']
  | '\\' => ['\\', '\\']
  | '"' => ['\\', '"']
  | c => if isPrintable c then [c] else "\\u\x7b".toList ++ hexDigits c.toNat ++ "\x7d".toList

def quoted (text : String) : String :=
  String.ofList ('"' :: text.toList.flatMap quotedChar ++ ['"'])

end Syntree.Text
