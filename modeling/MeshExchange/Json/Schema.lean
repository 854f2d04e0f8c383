import MeshExchange.Json.Value

/-!
# Records in JSON

A record is written as an object with a member for each field. It is read from an object, whose members
may come in any order and among others that no field is named for, or from an array with the values of
the fields in their order. A field that comes twice is refused. A record either needs all its fields,
or takes those that are missing from a value that is there beforehand.

**Results.**
* `Json.toWord8?`, `Json.toWord16?`, `Json.toInt64?`, `Json.toBool?`, `Json.toText?`, `Json.toBytes?`:
  the values of fields;
* `Schema.read`, `Schema.write`: records of a schema.
-/

namespace MeshExchange
namespace Json

section Fields

/-- An integer from zero up to a limit. -/
def toNatBelow? (limit : Nat) : Json → Option Nat
  | .integer n => if 0 ≤ n ∧ n < limit then some n.toNat else none
  | _ => none

/-- An integer of one byte. -/
def toWord8? (j : Json) : Option UInt8 := (j.toNatBelow? UInt8.size).map UInt8.ofNat

/-- An integer of two bytes. -/
def toWord16? (j : Json) : Option UInt16 := (j.toNatBelow? UInt16.size).map UInt16.ofNat

/-- A signed integer of eight bytes. -/
def toInt64? : Json → Option Int64
  | .integer n =>
      if Int64.minValue.toInt ≤ n ∧ n ≤ Int64.maxValue.toInt then some (Int64.ofInt n) else none
  | _ => none

/-- A truth value. -/
def toBool? : Json → Option Bool
  | .bool b => some b
  | _ => none

/-- A text. -/
def toText? : Json → Option String
  | .text t => t
  | _ => none

/-- A row of bytes. -/
def toBytes? : Json → Option (List UInt8)
  | .array items => items.mapM toWord8?
  | _ => none

/-- A natural number as a value. -/
def ofNat (n : Nat) : Json := .integer n

/-- A row of bytes as a value. -/
def ofBytes (bs : List UInt8) : Json := .array (bs.map fun b => ofNat b.toNat)

end Fields

end Json

/-- A field of records of type `α`: its name, how it is set, and what it holds. -/
structure Field (α : Type) where
  name : String
  put : Json → α → Option α
  get : α → Json

/-- How records of type `α` are written and read. -/
structure Schema (α : Type) where
  fields : List (Field α)
  /-- The values of fields that are missing. -/
  base : α
  /-- Whether no field may be missing. -/
  isComplete : Bool

namespace Schema

variable {α : Type}

section Writing

/-- A record as an object. -/
def write (s : Schema α) (a : α) : Json :=
  .object (s.fields.map fun f => (some f.name, f.get a))

end Writing

section Reading

/-- The field of a name. -/
def field? (s : Schema α) (name : String) : Option (Field α) := s.fields.find? (·.name == name)

/-- One member goes into a record; the names of the fields set so far are kept beside it. -/
def putMember (s : Schema α) (seen : α × List String) (member : Option String × Json) :
    Option (α × List String) :=
  member.1.bind fun key =>
    match s.field? key with
    | none => some seen
    | some f =>
        if key ∈ seen.2 then none else (f.put member.2 seen.1).map fun a => (a, key :: seen.2)

/-- A record from the members of an object. -/
def readMembers (s : Schema α) (members : List (Option String × Json)) : Option α :=
  (members.foldlM s.putMember (s.base, [])).bind fun (a, seen) =>
    if s.isComplete && !s.fields.all (fun f => f.name ∈ seen) then none else some a

/-- The values of the leading fields go into a record. -/
def putItems : List (Field α) → List Json → α → Option α
  | _, [], a => some a
  | [], _ :: _, _ => none
  | f :: fields, item :: items, a => (f.put item a).bind (putItems fields items)

/-- A record from the items of an array. -/
def readItems (s : Schema α) (items : List Json) : Option α :=
  if s.isComplete && items.length < s.fields.length then none else putItems s.fields items s.base

/-- A record from a value. -/
def read (s : Schema α) : Json → Option α
  | .object members => s.readMembers members
  | .array items => s.readItems items
  | _ => none

end Reading

end Schema
end MeshExchange
