/-!
# Primitive types

The types that the language names by a keyword of their own.
-/

namespace ScriptFront

/-- A type named by a keyword. -/
inductive PrimitiveType where
  | void
  | bool
  | i8
  | u8
  | i16
  | u16
  | i32
  | u32
  | i64
  | u64
  | fp32
  | fp64
  | string
  | object
deriving DecidableEq, Repr

namespace PrimitiveType

/-- The keyword that names the type. -/
def spelling : PrimitiveType → String
  | .void => "void"
  | .bool => "bool"
  | .i8 => "i8"
  | .u8 => "u8"
  | .i16 => "i16"
  | .u16 => "u16"
  | .i32 => "i32"
  | .u32 => "u32"
  | .i64 => "i64"
  | .u64 => "u64"
  | .fp32 => "fp32"
  | .fp64 => "fp64"
  | .string => "string"
  | .object => "object"

/-- All primitive types. -/
def all : List PrimitiveType :=
  [.void, .bool, .i8, .u8, .i16, .u16, .i32, .u32, .i64, .u64, .fp32, .fp64, .string,
    .object]

/-- The name of the type in listings and trees. -/
def name (t : PrimitiveType) : String := t.spelling.capitalize

theorem mem_all (t : PrimitiveType) : t ∈ all := by cases t <;> decide

end PrimitiveType

end ScriptFront
