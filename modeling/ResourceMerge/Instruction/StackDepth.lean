import ResourceMerge.Error

/-! How deep the operand stack grows over a stream without branches. The depth follows the net
    effects of the instructions; an instruction whose effect lowers the depth must not lower it
    below zero, and an instruction of unknown effect has no answer. The result is stored in 16 bits,
    so a deeper stack is an error too. -/

namespace ResourceMerge.Instruction

/-- The greatest depth over a stream that starts at `depth`, given the greatest seen before it. -/
def deepest : List Instruction → (position : Nat) → (depth greatest : Int) → Except StreamFault Int
  | [], _, _, greatest => .ok greatest
  | insn :: rest, position, depth, greatest =>
    match insn.stackDelta? with
    | none => .error (.unknownEffect insn position)
    | some delta =>
      if delta < 0 ∧ depth + delta < 0 then .error (.depthBelowZero insn position)
      else deepest rest (position + 1) (depth + delta) (max greatest (depth + delta))

/-- The greatest depth of a stream. -/
def maxStack (insns : List Instruction) : Except Error UInt16 :=
  match deepest insns 0 0 0 with
  | .error fault => .error (.malformed fault)
  | .ok greatest =>
    if greatest ≤ 65535 then .ok (UInt16.ofNat greatest.toNat) else .error (.malformed .tooDeep)

end ResourceMerge.Instruction
