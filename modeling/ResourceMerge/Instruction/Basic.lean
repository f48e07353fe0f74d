import ResourceMerge.Text.Numeral

/-! The instructions of a class initialiser that builds integer arrays. Only the handful that such a
    body needs is told apart; any other instruction is kept as its opcode alone.

    A push keeps the whole 32-bit value it was asked for, also in the forms whose operand is
    narrower: which form is chosen and what survives of the value when it is written are separate
    questions (`Instruction.push`, `MethodBody.encode`). -/

namespace ResourceMerge

/-- A static field named by its owner class, its name and its type descriptor. -/
structure FieldRef where
  owner : String
  name : String
  descriptor : String
  deriving DecidableEq

/-- The type descriptor of an array of integers. -/
def intArrayDescriptor : String := "[I"

/-- The reference to an integer-array field. -/
def FieldRef.intArray (owner name : String) : FieldRef := ⟨owner, name, intArrayDescriptor⟩

/-- One instruction. -/
inductive Instruction where
  | pushSmall (value : Int32)
  | pushByte (value : Int32)
  | pushShort (value : Int32)
  | pushConstant (value : Int32)
  | newIntArray
  | dup
  | arrayStore
  | storeField (field : FieldRef)
  | finish
  | other (opcode : UInt8)
  deriving DecidableEq

namespace Instruction

/-- The push chosen for a value. The byte and short forms test only an upper bound, so every
    negative value takes the byte form. -/
def push (v : Int32) : Instruction :=
  if 0 ≤ v ∧ v ≤ 5 then .pushSmall v
  else if v ≤ 127 then .pushByte v
  else if v ≤ 32767 then .pushShort v
  else .pushConstant v

/-- Net effect on the depth of the operand stack, where it is known. -/
def stackDelta? : Instruction → Option Int
  | .pushSmall _ | .pushByte _ | .pushShort _ | .pushConstant _ | .dup => some 1
  | .newIntArray | .finish => some 0
  | .arrayStore => some (-3)
  | .storeField _ => some (-1)
  | .other _ => none

/-- The instruction as listings and messages show it. -/
def text : Instruction → String
  | .pushSmall v => "iconst_" ++ Text.signed v
  | .pushByte v => "bipush " ++ Text.signed v
  | .pushShort v => "sipush " ++ Text.signed v
  | .pushConstant v => "ldc " ++ Text.signed v
  | .newIntArray => "newarray int"
  | .dup => "dup"
  | .arrayStore => "iastore"
  | .storeField field => "putstatic " ++ field.owner ++ "." ++ field.name ++ ":" ++ field.descriptor
  | .finish => "return"
  | .other opcode => "<op 0x" ++ Text.hexPadded 2 opcode.toNat ++ ">"

end Instruction

end ResourceMerge
