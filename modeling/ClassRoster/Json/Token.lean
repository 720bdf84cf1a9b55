/-!
The tokens of a JSON text, read by an automaton that sees one character at a time. A word is
any run of characters that are no mark, no blank and no quote; whether it is a word of JSON is
asked when it ends. Half of a surrogate pair, a control character inside quotes and an unknown
escape refuse the text.
-/

namespace ClassRoster
namespace Json

inductive Token where
  | openList
  | closeList
  | openObject
  | closeObject
  | comma
  | colon
  | null
  | bool (b : Bool)
  | int (n : Int)
  | real (literal : String)
  | str (s : String)
deriving DecidableEq, Repr

namespace Token

def mark? (c : Char) : Option Token :=
  match c with
  | '[' => some openList
  | ']' => some closeList
  | '\x7b' => some openObject
  | '\x7d' => some closeObject
  | ',' => some comma
  | ':' => some colon
  | _ => none

def isBlank (c : Char) : Bool := c == ' ' || c == '\t' || c == '\n' || c == '\r'

def digitsValue (digits : List Char) : Nat :=
  digits.foldl (fun n c => 10 * n + (c.toNat - '0'.toNat)) 0

/-- The least magnitude that rounds beyond the greatest double. -/
def realLimit : Nat := Nat.pow 2 1024 - Nat.pow 2 970

/-- Whether `digits` times ten to `exponent` is too great for a double. The number of digits
decides unless it comes close. -/
def overflows (digits : List Char) (exponent : Int) : Bool :=
  let digits := digits.dropWhile (· == '0')
  let magnitude : Int := digits.length + exponent
  if digits.isEmpty || magnitude < 309 then false
  else if magnitude > 309 then true
  else if exponent < 0 then
    decide (digitsValue digits ≥ realLimit * Nat.pow 10 exponent.natAbs)
  else decide (digitsValue digits * Nat.pow 10 exponent.natAbs ≥ realLimit)

/-- The fraction of a number and what follows it. A point needs a digit behind it. -/
def fraction? (word : List Char) : Option (List Char × List Char) :=
  match word with
  | '.' :: rest =>
      let digits := rest.takeWhile Char.isDigit
      if digits.isEmpty then none else some (digits, rest.dropWhile Char.isDigit)
  | rest => some ([], rest)

/-- The exponent at the end of a number. -/
def exponent? (word : List Char) : Option Int :=
  let unsigned? (digits : List Char) : Option Nat :=
    if digits.isEmpty || !digits.all Char.isDigit then none else some (digitsValue digits)
  match word with
  | [] => some 0
  | e :: rest =>
      if e == 'e' || e == 'E' then
        match rest with
        | '-' :: digits => (unsigned? digits).map fun n => -(n : Int)
        | '+' :: digits | digits => (unsigned? digits).map fun n => (n : Int)
      else none

/-- A number: an integer where it is written as one, else its literal. A zero with a sign is no
integer, and no number may start with a zero that is not its whole integer part. -/
def number? (word : List Char) : Option Token := do
  let (negative, unsigned) :=
    match word with
    | '-' :: rest => (true, rest)
    | rest => (false, rest)
  let whole := unsigned.takeWhile Char.isDigit
  let rest := unsigned.dropWhile Char.isDigit
  if whole.isEmpty || (whole.head? == some '0' && whole.length > 1) then none
  let (places, tail) ← fraction? rest
  let exponent ← exponent? tail
  if overflows (whole ++ places) (exponent - places.length) then none
  if rest.isEmpty && !(negative && whole == ['0']) then
    let value : Int := digitsValue whole
    some (int (if negative then -value else value))
  else some (real (String.ofList word))

def word? (word : List Char) : Option Token :=
  if word == ['n', 'u', 'l', 'l'] then some null
  else if word == ['t', 'r', 'u', 'e'] then some (bool true)
  else if word == ['f', 'a', 'l', 's', 'e'] then some (bool false)
  else number? word

/-- Where the automaton stands. Characters already read are kept last first. -/
inductive Mode where
  | between
  | word (seen : List Char)
  | text (seen : List Char)
  | escape (seen : List Char)
  /-- Inside a code of four digits, after `count` of them; `high` is the first half of a pair. -/
  | code (seen : List Char) (high : Option Nat) (count value : Nat)
  /-- The first half of a pair is read and the second is due. -/
  | half (seen : List Char) (high : Nat)
  | halfEscape (seen : List Char) (high : Nat)

def hexValue? (c : Char) : Option Nat :=
  if c.isDigit then some (c.toNat - '0'.toNat)
  else if 'a' ≤ c ∧ c ≤ 'f' then some (c.toNat - 'a'.toNat + 10)
  else if 'A' ≤ c ∧ c ≤ 'F' then some (c.toNat - 'A'.toNat + 10)
  else none

/-- What the letter after a backslash stands for. -/
def escaped? (c : Char) : Option Char :=
  match c with
  | '"' | '\\' | '/' => some c
  | 'b' => some '\x08'
  | 'f' => some '\x0c'
  | 'n' => some '\n'
  | 'r' => some '\r'
  | 't' => some '\t'
  | _ => none

/-- Ends a code of four digits. -/
def closeCode (seen : List Char) (high : Option Nat) (value : Nat) : Option Mode :=
  let low := 0xdc00 ≤ value && value < 0xe000
  match high with
  | some h =>
      if low then
        some (.text (Char.ofNat (0x10000 + (h - 0xd800) * 0x400 + (value - 0xdc00)) :: seen))
      else none
  | none =>
      if 0xd800 ≤ value && value < 0xdc00 then some (.half seen value)
      else if low then none
      else some (.text (Char.ofNat value :: seen))

/-- A character between two tokens, after the tokens `done`, last first. -/
def stepBetween (done : List Token) (c : Char) : List Token × Mode :=
  match mark? c with
  | some t => (t :: done, .between)
  | none =>
      if isBlank c then (done, .between)
      else if c == '"' then (done, .text [])
      else (done, .word [c])

def step (state : List Token × Mode) (c : Char) : Option (List Token × Mode) :=
  let (done, mode) := state
  match mode with
  | .between => some (stepBetween done c)
  | .word seen =>
      if (mark? c).isSome || isBlank c || c == '"' then
        (word? seen.reverse).map fun t => stepBetween (t :: done) c
      else some (done, .word (c :: seen))
  | .text seen =>
      if c == '"' then some (str (String.ofList seen.reverse) :: done, .between)
      else if c == '\\' then some (done, .escape seen)
      else if c.toNat < 0x20 then none
      else some (done, .text (c :: seen))
  | .escape seen =>
      if c == 'u' then some (done, .code seen none 0 0)
      else (escaped? c).map fun e => (done, .text (e :: seen))
  | .code seen high count value => do
      let digit ← hexValue? c
      let value := 16 * value + digit
      if count = 3 then (closeCode seen high value).map fun mode => (done, mode)
      else some (done, .code seen high (count + 1) value)
  | .half seen high => if c == '\\' then some (done, .halfEscape seen high) else none
  | .halfEscape seen high => if c == 'u' then some (done, .code seen (some high) 0 0) else none

def ofText? (text : String) : Option (List Token) := do
  let (done, mode) ← text.toList.foldlM step ([], .between)
  match mode with
  | .between => some done.reverse
  | .word seen => (word? seen.reverse).map fun t => (t :: done).reverse
  | _ => none

end Token
end Json
end ClassRoster
