/-!
Values attached to an exchange, one of each type.
-/
namespace Sluice

inductive AttributeType
  | text
  | int
  | flag
  deriving DecidableEq

inductive Attribute
  | text (s : String)
  | int (i : Int)
  | flag (b : Bool)
  deriving DecidableEq

def Attribute.type : Attribute → AttributeType
  | text _ => .text
  | int _ => .int
  | flag _ => .flag

/-- The number of an exchange and its attributes. -/
structure Context where
  id : Nat
  attributes : List Attribute
  deriving DecidableEq

namespace Context

/-- A new context takes the first number not yet given out. -/
def fresh (next : Nat) : Context × Nat := (⟨next, []⟩, next + 1)

def get? (context : Context) (type : AttributeType) : Option Attribute :=
  context.attributes.find? (·.type = type)

def remove (context : Context) (type : AttributeType) : Option Attribute × Context :=
  (context.get? type, { context with attributes := context.attributes.filter (·.type ≠ type) })

/-- Attach a value in place of the one of its type, which is the answer. -/
def insert (context : Context) (value : Attribute) : Option Attribute × Context :=
  let (old, context) := context.remove value.type
  (old, { context with attributes := value :: context.attributes })

/-- Lengthen the text attribute in place and answer the new text. -/
def appendText (context : Context) (more : String) : Option Attribute × Context :=
  match context.get? .text with
  | some (.text s) =>
    let value := Attribute.text (s ++ more)
    (some value, (context.insert value).2)
  | _ => (none, context)

end Context
end Sluice
