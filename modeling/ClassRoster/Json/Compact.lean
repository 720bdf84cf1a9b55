import ClassRoster.Json.Basic

/-!
The compact text of a JSON value: fields in their order, no blanks. In a string the quote, the
backslash and the characters below the blank are escaped, and nothing else is.
-/

namespace ClassRoster
namespace Json

/-- One of the characters below the blank by its code, in four hexadecimal digits. -/
def controlEscape (c : Char) : List Char :=
  ['\\', 'u', '0', '0', Nat.digitChar (c.toNat / 16), Nat.digitChar (c.toNat % 16)]

def stringChar (c : Char) : List Char :=
  match c with
  | '"' => ['\\', '"']
  | '\\' => ['\\', '\\']
  | '\x08' => ['\\', 'b']
  | '\x0c' => ['\\', 'f']
  | '\n' => ['\\', 'n']
  | '\r' => ['\\', 'r']
  | '\t' => ['\\', 't']
  | c => if c.toNat < 0x20 then controlEscape c else [c]

def stringText (s : String) : List Char := '"' :: (s.toList.flatMap stringChar ++ ['"'])

mutual

def text : Json → List Char
  | null => ['n', 'u', 'l', 'l']
  | bool true => ['t', 'r', 'u', 'e']
  | bool false => ['f', 'a', 'l', 's', 'e']
  | int n => (toString n).toList
  | real literal => literal.toList
  | str s => stringText s
  | arr [] => ['[', ']']
  | arr (item :: items) => '[' :: (text item ++ itemsText items)
  | obj [] => ['\x7b', '\x7d']
  | obj ((name, value) :: fields) =>
      '\x7b' :: (stringText name ++ ':' :: (text value ++ fieldsText fields))

/-- The items after the first one, up to the closing bracket. -/
def itemsText : List Json → List Char
  | [] => [']']
  | item :: items => ',' :: (text item ++ itemsText items)

/-- The fields after the first one, up to the closing brace. -/
def fieldsText : List (String × Json) → List Char
  | [] => ['\x7d']
  | (name, value) :: fields =>
      ',' :: (stringText name ++ ':' :: (text value ++ fieldsText fields))

end

def compact (j : Json) : String := String.ofList (text j)

end Json
end ClassRoster
