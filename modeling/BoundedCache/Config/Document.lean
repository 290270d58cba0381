import BoundedCache.Config.Basic
import BoundedCache.Json.Skip

/-! # Configurations from documents

A document is an object with fields in any order, or an array with the fields in theirs. Fields that
are left out have their defaults. The first fault from left to right is reported.
-/
namespace BoundedCache.Config

open Json (Token)

/-- The fields read so far. -/
structure Fields where
  policy? : Option Policy := none
  capacity? : Option UInt64 := none
  sweepInterval? : Option UInt64 := none
  sweepBatch? : Option UInt64 := none

namespace Fields

def has (fields : Fields) : Field → Bool
  | .policy => fields.policy?.isSome
  | .capacity => fields.capacity?.isSome
  | .sweepInterval => fields.sweepInterval?.isSome
  | .sweepBatch => fields.sweepBatch?.isSome

/-- The configuration with these fields and defaults for the others. -/
def toConfig (fields : Fields) : Config :=
  let default : Config := {}
  { policy := fields.policy?.getD default.policy
    capacity := fields.capacity?.getD default.capacity
    sweepIntervalSecs := fields.sweepInterval?.getD default.sweepIntervalSecs
    sweepBatch := fields.sweepBatch?.getD default.sweepBatch }

end Fields

/-- The outcome of reading a part of a document: what was read, with the tokens after it. -/
abbrev Reading := Except DocumentFault

/-- The kind of value that a token starts. -/
def found? : Token → Option Found
  | .null => some .null
  | .bool b => some (.bool b)
  | .number (.word n) => some (.integer n.toNat)
  | .number (.negative n) => some (.integer (-n))
  | .number (.float x) => some (.float x)
  | .string (some text) => some (.string text)
  | .openBracket => some .sequence
  | .openBrace => some .map
  | _ => none

/-- The fault of a value of the wrong kind. -/
def mismatch (wanted : Wanted) : List Token → DocumentFault
  | [] => .malformed
  | token :: _ =>
    match found? token with
    | some found => .invalidType found wanted
    | none => .malformed

def readNumber (field : Field) : List Token → Reading (UInt64 × List Token)
  | .number (.word n) :: rest => .ok (n, rest)
  | .number (.negative n) :: _ => .error (.negativeNumber n field)
  | ts => .error (mismatch (.number field) ts)

def variant (name : String) : Reading Policy :=
  match Policy.ofName? name with
  | some policy => .ok policy
  | none => .error (.unknownVariant name)

/-- A policy is its name, or an object with its name as the only key and nothing as the value. -/
def readPolicy : List Token → Reading (Policy × List Token)
  | .string (some name) :: rest => do return (← variant name, rest)
  | .openBrace :: .string (some name) :: rest => do
    let policy ← variant name
    match rest with
    | .colon :: .null :: .closeBrace :: rest => .ok (policy, rest)
    | .colon :: .null :: _ => .error .malformed
    | .colon :: rest => .error (mismatch .unit rest)
    | _ => .error .malformed
  | _ => .error .malformed

def readField (fields : Fields) (field : Field) (ts : List Token) : Reading (Fields × List Token) :=
  match field with
  | .policy => do
    let (policy, rest) ← readPolicy ts
    return ({ fields with policy? := some policy }, rest)
  | .capacity => do
    let (n, rest) ← readNumber field ts
    return ({ fields with capacity? := some n }, rest)
  | .sweepInterval => do
    let (n, rest) ← readNumber field ts
    return ({ fields with sweepInterval? := some n }, rest)
  | .sweepBatch => do
    let (n, rest) ← readNumber field ts
    return ({ fields with sweepBatch? := some n }, rest)

def expectColon : List Token → Reading (List Token)
  | .colon :: rest => .ok rest
  | _ => .error .malformed

/-- A key and its value. A field may come once, and what is no field is skipped. -/
def readMember (fields : Fields) : List Token → Reading (Fields × List Token)
  | .string (some name) :: rest =>
    match Field.ofName? name with
    | some field => do
      require (fields.has field = false) (.duplicateField field)
      let rest ← expectColon rest
      readField fields field rest
    | none => do
      let rest ← expectColon rest
      match Json.skip rest with
      | some rest => .ok (fields, rest)
      | none => .error .malformed
  | _ => .error .malformed

/-- The members of an object up to its closing brace. -/
def readMembers (fields : Fields) (ts : List Token) : Reading (Fields × List Token) :=
  match readMember fields ts with
  | .error fault => .error fault
  | .ok (fields, .closeBrace :: rest) => .ok (fields, rest)
  | .ok (fields, .comma :: rest) =>
    if rest.length < ts.length then readMembers fields rest else .error .malformed
  | .ok _ => .error .malformed
termination_by ts.length

/-- An element for each of the fields, up to the closing bracket of the array. -/
def readElements (fields : Fields) : List Field → List Token → Reading (Fields × List Token)
  | _, .closeBracket :: rest => .ok (fields, rest)
  | [], _ => .error .malformed
  | field :: more, .comma :: rest => do
    let (fields, rest) ← readField fields field rest
    readElements fields more rest
  | _, _ => .error .malformed

/-- The first element of an array has no comma before it. -/
def readArray : List Token → Reading (Fields × List Token)
  | .closeBracket :: rest => .ok ({}, rest)
  | ts => do
    let (fields, rest) ← readField {} .policy ts
    readElements fields [.capacity, .sweepInterval, .sweepBatch] rest

def readTop : List Token → Reading (Fields × List Token)
  | .openBrace :: .closeBrace :: rest => .ok ({}, rest)
  | .openBrace :: rest => readMembers {} rest
  | .openBracket :: rest => readArray rest
  | ts => .error (mismatch .config ts)

/-- The configuration that a document describes. -/
def ofDocument (text : String) : Reading Config := do
  let (fields, rest) ← readTop (Json.tokens text.toList)
  require (rest.isEmpty = true) .malformed
  return fields.toConfig

end BoundedCache.Config
