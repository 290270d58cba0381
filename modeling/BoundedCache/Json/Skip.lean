import BoundedCache.Json.Token

/-! # Skipping a value

What is skipped has to be well formed; its numbers may be out of range and its strings may denote no
text.
-/
namespace BoundedCache.Json

/-- What a value is part of. -/
inductive Frame
  | array | object
deriving DecidableEq

/-- What may come next: a value, the first element or key or else the end, a later key, the colon
after a key, or what follows a value. -/
inductive Expected
  | value | firstElement | firstKey | key | colon | separator
deriving DecidableEq

/-- Where a token leads, given the frames around it from the inside out. -/
def follow : List Frame → Expected → Token → Option (List Frame × Expected)
  | frames, .firstKey, .string _ => some (frames, .colon)
  | frames, .key, .string _ => some (frames, .colon)
  | _ :: frames, .firstKey, .closeBrace => some (frames, .separator)
  | frames, .colon, .colon => some (frames, .value)
  | .array :: frames, .separator, .comma => some (.array :: frames, .value)
  | .object :: frames, .separator, .comma => some (.object :: frames, .key)
  | .array :: frames, .separator, .closeBracket => some (frames, .separator)
  | .object :: frames, .separator, .closeBrace => some (frames, .separator)
  | _ :: frames, .firstElement, .closeBracket => some (frames, .separator)
  | frames, expected, token =>
    if expected = .value ∨ expected = .firstElement then
      match token with
      | .null | .bool _ | .number _ | .string _ => some (frames, .separator)
      | .openBracket => some (.array :: frames, .firstElement)
      | .openBrace => some (.object :: frames, .firstKey)
      | _ => none
    else none

/-- What remains after the value that the frames and the expectation tell to complete. -/
def skipFrom : List Frame → Expected → List Token → Option (List Token)
  | _, _, [] => none
  | frames, expected, token :: rest =>
    match follow frames expected token with
    | none => none
    | some ([], .separator) => some rest
    | some (frames, expected) => skipFrom frames expected rest

/-- What remains after a value. -/
def skip (ts : List Token) : Option (List Token) := skipFrom [] .value ts

end BoundedCache.Json
