import ClassRoster.Json.Basic
import ClassRoster.Json.Token

/-!
Reading a JSON value off its tokens with a stack of the containers that are still open. Each
token is looked at once. Of two fields of one name the later one counts; containers may be
nested up to `maxDepth`.
-/

namespace ClassRoster
namespace Json

/-- How many containers may be open at once. -/
def maxDepth : Nat := 127

/-- An open container with what it holds so far, last first. A field whose value is being read
has its name apart. -/
inductive Frame where
  | list (items : List Json)
  | object (fields : List (String × Json)) (name : String)

/-- What is due next. -/
inductive Due where
  | value
  /-- Just inside a list: an item, or its end. -/
  | valueOrEnd
  /-- Just inside an object: a field, or its end. -/
  | nameOrEnd
  | name (fields : List (String × Json))
  | colon (fields : List (String × Json)) (name : String)
  /-- A value is complete: a comma, the end of its container, or the end of the text. -/
  | after (v : Json)

structure ReadState where
  stack : List Frame
  due : Due

/-- Adds a field in front, in place of an earlier one of its name. -/
def putField (fields : List (String × Json)) (name : String) (value : Json) :
    List (String × Json) :=
  (name, value) :: fields.filter fun f => f.1 != name

namespace ReadState

def openList? (stack : List Frame) : Option ReadState :=
  if stack.length < maxDepth then some ⟨.list [] :: stack, .valueOrEnd⟩ else none

/-- An object gets its frame with its first field. -/
def openObject? (stack : List Frame) : Option ReadState :=
  if stack.length < maxDepth then some ⟨stack, .nameOrEnd⟩ else none

def value? (stack : List Frame) : Token → Option ReadState
  | .openList => openList? stack
  | .openObject => openObject? stack
  | .null => some ⟨stack, .after .null⟩
  | .bool b => some ⟨stack, .after (.bool b)⟩
  | .int n => some ⟨stack, .after (.int n)⟩
  | .real literal => some ⟨stack, .after (.real literal)⟩
  | .str s => some ⟨stack, .after (.str s)⟩
  | .closeList | .closeObject | .comma | .colon => none

def step (state : ReadState) (t : Token) : Option ReadState :=
  match state.due, state.stack, t with
  | .value, stack, t => value? stack t
  | .valueOrEnd, .list _ :: stack, .closeList => some ⟨stack, .after (.arr [])⟩
  | .valueOrEnd, stack, t => value? stack t
  | .nameOrEnd, stack, .closeObject => some ⟨stack, .after (.obj [])⟩
  | .nameOrEnd, stack, .str name => some ⟨stack, .colon [] name⟩
  | .name fields, stack, .str name => some ⟨stack, .colon fields name⟩
  | .colon fields name, stack, .colon => some ⟨.object fields name :: stack, .value⟩
  | .after v, .list items :: stack, .comma => some ⟨.list (v :: items) :: stack, .value⟩
  | .after v, .list items :: stack, .closeList =>
      some ⟨stack, .after (.arr (v :: items).reverse)⟩
  | .after v, .object fields name :: stack, .comma =>
      some ⟨stack, .name (putField fields name v)⟩
  | .after v, .object fields name :: stack, .closeObject =>
      some ⟨stack, .after (.obj (putField fields name v).reverse)⟩
  | _, _, _ => none

end ReadState

def ofTokens? (tokens : List Token) : Option Json := do
  match ← tokens.foldlM ReadState.step ⟨[], .value⟩ with
  | ⟨[], .after v⟩ => some v
  | _ => none

def ofText? (text : String) : Option Json := Token.ofText? text >>= ofTokens?

end Json
end ClassRoster
