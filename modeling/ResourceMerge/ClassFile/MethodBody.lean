import ResourceMerge.ClassFile.ConstantPool
import ResourceMerge.ClassFile.PoolDraft
import ResourceMerge.Instruction.Opcode

/-! Method bodies as bytes and as instructions.

    Decoding walks the whole body from its first byte. The instructions that build integer arrays
    are read with their operands, which may lead into the constant pool; of any other instruction
    the operands are stepped over by their layout and only the opcode is kept. So are a constant
    that is not an integer, an array of another element type and a field of another type.

    Encoding writes the instructions one after the other and asks the pool under construction for
    the constants and fields they name. A push whose operand is narrower than its value keeps the
    low bits. -/

namespace ResourceMerge.MethodBody

open Binary

/-- Ends a reading with a fault of the stream. -/
def fault {α : Type} (f : StreamFault) : Reader α := Reader.fail (.malformed f)

/-- The push of the constant in a slot. -/
def loadConstant (pool : ConstantPool) (opcode : UInt8) (index : UInt16) : Reader Instruction := do
  match ← Reader.ofExcept (pool.integer? index) with
  | some value => return .pushConstant value
  | none => return .other opcode

/-- Steps over operands of a layout, behind an opcode at `pc`. -/
def skipForm (pc : Nat) : Opcode.Operands → Reader Unit
  | .fixed size => Reader.skip size
  | .tableSwitch => do
    Reader.skip (Opcode.switchPadding pc)
    Reader.skip 4
    let low ← Reader.i32
    let high ← Reader.i32
    let targets := high.toInt - low.toInt + 1
    if targets < 0 then fault (.tableReversed pc)
    Reader.skip (targets.toNat * 4)
  | .lookupSwitch => do
    Reader.skip (Opcode.switchPadding pc)
    Reader.skip 4
    let pairs ← Reader.i32
    if pairs < 0 then fault (.negativePairs pc pairs)
    Reader.skip (pairs.toInt.toNat * 8)
  | .wide => do
    let inner ← Reader.u8
    match Opcode.wideOperands? inner with
    | none => fault (.wideMisapplied inner pc)
    | some size => Reader.skip size

/-- Steps over the operands of an opcode at `pc`. -/
def skipOperands (opcode : UInt8) (pc : Nat) : Reader Unit :=
  match Opcode.operands? opcode with
  | none => fault (.unknownOpcode opcode pc)
  | some form => skipForm pc form

/-- The instruction of an opcode at `pc`, its operands at the cursor. -/
def readOperands (pool : ConstantPool) (pc : Nat) (op : UInt8) : Reader Instruction := do
  if Opcode.intConstant0 ≤ op ∧ op ≤ Opcode.intConstant5 then
    return .pushSmall (Int32.ofNat (op - Opcode.intConstant0).toNat)
  else if op = Opcode.bytePush then return .pushByte (← Reader.i8).toInt32
  else if op = Opcode.shortPush then return .pushShort (← Reader.i16).toInt32
  else if op = Opcode.loadConstant then loadConstant pool op (← Reader.u8).toUInt16
  else if op = Opcode.loadConstantWide then loadConstant pool op (← Reader.u16)
  else if op = Opcode.newArray then
    if (← Reader.u8) = Opcode.intElement then return .newIntArray else return .other op
  else if op = Opcode.dup then return .dup
  else if op = Opcode.intArrayStore then return .arrayStore
  else if op = Opcode.putStatic then
    let field ← Reader.ofExcept (pool.field (← Reader.u16))
    if field.descriptor = intArrayDescriptor then return .storeField field else return .other op
  else if op = Opcode.leave then return .finish
  else
    skipOperands op pc
    return .other op

/-- The instruction at the cursor. -/
def readInstruction (pool : ConstantPool) : Reader Instruction := do
  let pc := (← get).offset
  readOperands pool pc (← Reader.u8)

/-- Instructions to the end of the bytes, behind those of `done` (kept in reverse). Every
    instruction takes a byte at least, so as many rounds as there are bytes left are enough. -/
def readAllOnto (pool : ConstantPool) (done : List Instruction) :
    (rounds : Nat) → Reader (List Instruction)
  | 0 => return done.reverse
  | rounds + 1 => do
    if (← get).rest.isEmpty then return done.reverse
    else readAllOnto pool ((← readInstruction pool) :: done) rounds

/-- The instructions of a body. -/
def decode (pool : ConstantPool) (code : List UInt8) : Except Error (List Instruction) :=
  (readAllOnto pool [] code.length).read code

/-- The bytes of one instruction. -/
def encodeInstruction : Instruction → PoolDraft.Request (List UInt8)
  | .pushSmall v =>
    if 0 ≤ v ∧ v ≤ 5 then return [Opcode.intConstant0 + UInt8.ofNat v.toInt.toNat]
    else throw (.malformed (.noSmallForm v))
  | .pushByte v => return [Opcode.bytePush, v.toInt8.toUInt8]
  | .pushShort v => return Opcode.shortPush :: u16 v.toInt16.toUInt16
  | .pushConstant v => do
    let index ← PoolDraft.integer v
    if index ≤ 255 then return [Opcode.loadConstant, index.toUInt8]
    else return Opcode.loadConstantWide :: u16 index
  | .newIntArray => return [Opcode.newArray, Opcode.intElement]
  | .dup => return [Opcode.dup]
  | .arrayStore => return [Opcode.intArrayStore]
  | .storeField field => do
    let index ← PoolDraft.fieldRef field
    return Opcode.putStatic :: u16 index
  | .finish => return [Opcode.leave]
  | .other opcode => throw (.malformed (.uninterpretedOpcode opcode))

/-- The bytes of a body. -/
def encode (insns : List Instruction) : PoolDraft.Request (List UInt8) :=
  return (← insns.mapM encodeInstruction).flatten

end ResourceMerge.MethodBody
