import ResourceMerge.Instruction.Basic

/-! Listings of instruction streams: one line per instruction, numbered by position, and the same
    under a headline that counts the instructions, the arrays stored and the instructions not
    interpreted. -/

namespace ResourceMerge.Instruction

/-- The line of the instruction at a position. -/
def line (entry : Instruction × Nat) : String :=
  Text.decimalPadded 4 entry.2 ++ ": " ++ entry.1.text ++ "\n"

/-- One line per instruction. -/
def listing (insns : List Instruction) : String := String.join (insns.zipIdx.map line)

/-- Does the instruction store an array into a field? -/
def storesField : Instruction → Bool
  | .storeField _ => true
  | _ => false

/-- Is the instruction one that is not interpreted? -/
def isOther : Instruction → Bool
  | .other _ => true
  | _ => false

/-- The headline of a listing. -/
def headline (insns : List Instruction) (title : String) : String :=
  "== " ++ title ++ " == (insns=" ++ toString insns.length
    ++ ", arrays=" ++ toString (insns.countP storesField)
    ++ ", other=" ++ toString (insns.countP isOther) ++ ")"

/-- The listing under its headline. -/
def titledListing (insns : List Instruction) (title : String) : String :=
  headline insns title ++ "\n\n" ++ listing insns

end ResourceMerge.Instruction
