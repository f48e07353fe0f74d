/-! Opcodes of the virtual machine's instruction set and the operand bytes that follow each of them,
    so that an instruction of no interest can be stepped over. The two switches align their operands
    to a multiple of four bytes from the start of the body and end in a table of stated size. -/

namespace ResourceMerge.Opcode

/-- Pushes the integer zero; the opcodes up to `intConstant5` push the next five integers. -/
def intConstant0 : UInt8 := 0x03
/-- Pushes the integer five. -/
def intConstant5 : UInt8 := 0x08
/-- Pushes a signed byte. -/
def bytePush : UInt8 := 0x10
/-- Pushes a signed 16-bit word. -/
def shortPush : UInt8 := 0x11
/-- Pushes a constant of the pool, by an index of one byte. -/
def loadConstant : UInt8 := 0x12
/-- Pushes a constant of the pool, by an index of two bytes. -/
def loadConstantWide : UInt8 := 0x13
/-- Stores an integer into an array. -/
def intArrayStore : UInt8 := 0x4f
/-- Copies the top of the stack. -/
def dup : UInt8 := 0x59
/-- Adds to a local variable. -/
def increment : UInt8 := 0x84
/-- Jumps by a table of consecutive keys. -/
def tableSwitch : UInt8 := 0xaa
/-- Jumps by a table of key and target pairs. -/
def lookupSwitch : UInt8 := 0xab
/-- Leaves the body. -/
def leave : UInt8 := 0xb1
/-- Stores into a static field. -/
def putStatic : UInt8 := 0xb3
/-- Creates an array whose element type is the operand. -/
def newArray : UInt8 := 0xbc
/-- Widens the operands of the opcode behind it. -/
def wide : UInt8 := 0xc4

/-- The operand of `newArray` for integers. -/
def intElement : UInt8 := 10

/-- What follows an opcode. -/
inductive Operands where
  | fixed (size : Nat)
  | tableSwitch
  | lookupSwitch
  | wide
  deriving DecidableEq

/-- Opcodes without operands. -/
def hasNoOperand (op : UInt8) : Bool :=
  op ≤ 0x0f || (0x1a ≤ op && op ≤ 0x35) || (0x3b ≤ op && op ≤ 0x83) || (0x85 ≤ op && op ≤ 0x98)
    || (0xac ≤ op && op ≤ 0xb1) || op == 0xbe || op == 0xbf || op == 0xc2 || op == 0xc3
    || op == 0xca || 0xfe ≤ op

/-- Opcodes that load, store or return to an address in a local variable named by one byte. -/
def namesLocal (op : UInt8) : Bool :=
  (0x15 ≤ op && op ≤ 0x19) || (0x36 ≤ op && op ≤ 0x3a) || op == 0xa9

/-- Opcodes with one operand byte. -/
def hasByteOperand (op : UInt8) : Bool :=
  op == 0x10 || op == 0x12 || namesLocal op || op == 0xbc

/-- Opcodes with two operand bytes. -/
def hasWordOperand (op : UInt8) : Bool :=
  op == 0x11 || op == 0x13 || op == 0x14 || op == 0x84 || (0x99 ≤ op && op ≤ 0xa8)
    || (0xb2 ≤ op && op ≤ 0xb8) || op == 0xbb || op == 0xbd || op == 0xc0 || op == 0xc1
    || op == 0xc6 || op == 0xc7

/-- The operand layout of an opcode; none for an opcode the machine does not define. -/
def operands? (op : UInt8) : Option Operands :=
  if hasNoOperand op then some (.fixed 0)
  else if hasByteOperand op then some (.fixed 1)
  else if hasWordOperand op then some (.fixed 2)
  else if op = 0xc5 then some (.fixed 3)
  else if op = 0xb9 ∨ op = 0xba ∨ op = 0xc8 ∨ op = 0xc9 then some (.fixed 4)
  else if op = tableSwitch then some .tableSwitch
  else if op = lookupSwitch then some .lookupSwitch
  else if op = wide then some .wide
  else none

/-- How many operand bytes an opcode has behind `wide`; none where `wide` does not apply. -/
def wideOperands? (op : UInt8) : Option Nat :=
  if op = increment then some 4
  else if namesLocal op then some 2
  else none

/-- Bytes between a switch opcode at `pc` and its first operand. -/
def switchPadding (pc : Nat) : Nat := (4 - (pc + 1) % 4) % 4

end ResourceMerge.Opcode
