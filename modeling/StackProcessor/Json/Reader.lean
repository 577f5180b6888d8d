import StackProcessor.Json.Token

/-!
# StackProcessor — reading JSON

`ofText?` reads a text token by token. The `ReaderState` is the stack of containers that are open
and what is `Expected` next. A value that is complete goes into the innermost open container
(`ReaderState.deliver`), or is the result if there is none. At most `ReaderState.greatestDepth`
containers may be open at once; a comma is followed by another item and not by the end of its
container.
-/

namespace StackProcessor.Json

/-- A container that is not closed yet. -/
inductive Container where
  /-- The items so far, the last one first. -/
  | array (items : List Json)
  /-- The members so far, and the key of the value that is being read. -/
  | object (members : List (String × Json)) (key : String)
  deriving Inhabited

/-- What may come next. -/
inductive Expected where
  | value
  /-- The first item of an array, or its end. -/
  | firstItem
  | key
  /-- The first key of an object, or its end. -/
  | firstKey
  | colon
  /-- A comma, or the end of the innermost container. -/
  | separator
  /-- Nothing: the value is complete. -/
  | nothing (result : Json)
  deriving Inhabited

/-- The state of the reader between two tokens. -/
structure ReaderState where
  /-- The open containers, the innermost first. -/
  containers : List Container
  expected : Expected
  deriving Inhabited

namespace ReaderState

/-- So many containers may be open at once. -/
def greatestDepth : Nat := 127

/-- Before the first token. -/
def initial : ReaderState := ⟨[], .value⟩

/-- Puts a complete value into the innermost open container. -/
def deliver (value : Json) : List Container → ReaderState
  | [] => ⟨[], .nothing value⟩
  | .array items :: outer => ⟨.array (value :: items) :: outer, .separator⟩
  | .object members key :: outer =>
    ⟨.object (insertMember key value members) key :: outer, .separator⟩

/-- Opens a container. -/
def enter (container : Container) (expected : Expected) (outer : List Container) :
    Option ReaderState :=
  if outer.length < greatestDepth then some ⟨container :: outer, expected⟩ else none

/-- Begins a value. -/
def begin (containers : List Container) : Token → Option ReaderState
  | .scalar value => some (deliver value containers)
  | .openArray => enter (.array []) .firstItem containers
  | .openObject => enter (.object [] "") .firstKey containers
  | _ => none

/-- Closes the innermost container with the bracket that the token is. -/
def close : List Container → Token → Option ReaderState
  | .array items :: outer, .closeArray => some (deliver (.array items.reverse) outer)
  | .object members _ :: outer, .closeObject => some (deliver (.object members) outer)
  | _, _ => none

/-- Takes the key of a member. -/
def takeKey : List Container → Token → Option ReaderState
  | .object members _ :: outer, .scalar (.string key) => some ⟨.object members key :: outer, .colon⟩
  | _, _ => none

/-- What a comma leads to in the innermost container. -/
def afterComma : List Container → Option ReaderState
  -- behind a comma the container may not end
  | .array items :: outer => some ⟨.array items :: outer, .value⟩
  | .object members key :: outer => some ⟨.object members key :: outer, .key⟩
  | [] => none

/-- Takes one token. -/
def step (s : ReaderState) (t : Token) : Option ReaderState :=
  match s.expected, t with
  | .value, t => begin s.containers t
  | .firstItem, .closeArray => close s.containers .closeArray
  | .firstItem, t => begin s.containers t
  | .key, t => takeKey s.containers t
  | .firstKey, .closeObject => close s.containers .closeObject
  | .firstKey, t => takeKey s.containers t
  | .colon, .colon => some ⟨s.containers, .value⟩
  | .separator, .comma => afterComma s.containers
  | .separator, t => close s.containers t
  | _, _ => none

/-- The value that has been read, if it is complete. -/
def result? (s : ReaderState) : Option Json :=
  match s.expected with
  | .nothing value => some value
  | _ => none

/-- Reads a text to its end. -/
def read (s : ReaderState) (cs : List Char) : Option Json :=
  let body := cs.dropWhile isGap
  if body.isEmpty then s.result?
  else
    match _h : Token.take body with
    | none => none
    | some (t, rest) =>
      match s.step t with
      | none => none
      | some s => s.read rest
termination_by cs.length
decreasing_by
  have hlt := Token.length_lt_of_take _h
  have hle : body.length ≤ cs.length := length_dropWhile_le isGap cs
  omega

end ReaderState

/-- The value that a text stands for, if it is JSON. -/
def ofText? (cs : List Char) : Option Json := ReaderState.initial.read cs

end StackProcessor.Json
