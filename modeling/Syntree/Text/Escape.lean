/-!
Backslash escapes of double-quoted string literals.

A literal is read from left to right. A character other than the backslash stands for itself; an
escape is a backslash with a letter (`\n`), with a letter and a fixed number of hexadecimal digits
(`\x41`, `\u0041`, `\U00000041`), or with three octal digits up to `\377`.
-/

namespace Syntree.Text

/-- The character that a backslash and one further character stand for. -/
def simpleEscape : Char → Option Char
  | 'n' => some '\n'
  | 't' => some '\t'
  | 'r' => some '\r'
  | 'a' => some '\x07'
  | 'b' => some '\x08'
  | 'f' => some '\x0c'
  | 'v' => some '\x0b'
  | '\\' => some '\\'
  | '"' => some '"'
  | _ => none

/-- The value of `c` as a digit, letters of either case counting from ten. -/
def digitValue (c : Char) : Option Nat :=
  if '0' ≤ c ∧ c ≤ '9' then some (c.toNat - 48)
  else if 'a' ≤ c ∧ c ≤ 'f' then some (c.toNat - 87)
  else if 'A' ≤ c ∧ c ≤ 'F' then some (c.toNat - 55)
  else none

def isDigitOf (radix : Nat) (c : Char) : Bool :=
  (digitValue c).any (· < radix)

/-- Digits read as a number, the first being the most significant. -/
def digitsValue (radix : Nat) (digits : List Char) : Nat :=
  digits.foldl (fun n c => n * radix + (digitValue c).getD 0) 0

/-- The character with code point `n`; surrogates and numbers past the last code point have
none. -/
def scalar? (n : Nat) : Option Char :=
  if n.isValidChar then some (Char.ofNat n) else none

/-- How an escape spells a code point: in which radix, with how many digits, and up to which
value. -/
structure NumericForm where
  radix : Nat
  width : Nat
  limit : Nat
deriving DecidableEq

def NumericForm.hex (width : Nat) : NumericForm := ⟨16, width, Nat.pow 16 width - 1⟩

def NumericForm.octal : NumericForm := ⟨8, 3, 255⟩

/-- The digits at the start of `cs`, as many as the form can take. -/
def NumericForm.digits (form : NumericForm) (cs : List Char) : List Char :=
  (cs.take form.width).takeWhile (isDigitOf form.radix)

def NumericForm.decode? (form : NumericForm) (digits : List Char) : Option Char :=
  let value := digitsValue form.radix digits
  if digits.length = form.width ∧ value ≤ form.limit then scalar? value else none

/-- The form that the character after a backslash announces. An octal digit is itself the first
digit. -/
def numericEscape (c : Char) : Option NumericForm :=
  match c with
  | 'x' => some (.hex 2)
  | 'u' => some (.hex 4)
  | 'U' => some (.hex 8)
  | c => if isDigitOf 8 c then some .octal else none

/-- Resolves every escape, or gives the first that is none. -/
def unescape (cs : List Char) : Except (List Char) (List Char) :=
  match cs with
  | [] => .ok []
  | '\\' :: [] => .error ['\\']
  | '\\' :: c :: rest =>
    match simpleEscape c with
    | some value => (unescape rest).map (value :: ·)
    | none =>
      match numericEscape c with
      | none => .error ['\\', c]
      | some form =>
        let lead := if form = .octal then [] else [c]
        let digits := form.digits ((c :: rest).drop lead.length)
        match form.decode? digits with
        | none => .error ('\\' :: lead ++ digits)
        | some value => (unescape ((c :: rest).drop (lead.length + form.width))).map (value :: ·)
  | c :: rest => (unescape rest).map (c :: ·)
termination_by cs.length
decreasing_by all_goals (simp only [List.length_cons, List.length_drop]; omega)

end Syntree.Text
