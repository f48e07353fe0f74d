import ResourceMerge.ClassFile.Constant
import ResourceMerge.Files.OsError
import ResourceMerge.Glob.Fault
import ResourceMerge.Glob.Limits
import ResourceMerge.Instruction.Basic

/-! Everything that can end a run before its result. An error is recorded by its cause; the wording
    comes last, in one place per family: faults of an instruction stream, faults of a class file,
    faults of the settings, and the six kinds of error that hold them. -/

namespace ResourceMerge

/-- What is wrong with a stream of instructions, on its own or against the state it runs in.
    Positions count instructions in `unknownEffect` and `depthBelowZero`, and bytes where a body is
    decoded. -/
inductive StreamFault where
  | unknownEffect (insn : Instruction) (position : Nat)
  | depthBelowZero (insn : Instruction) (position : Nat)
  | tooDeep
  | operandMissing (role : String)
  | operandIsArray (role : String)
  | negativeLength (length : Int32)
  | arrayPending
  | dupOnEmpty
  | storeWithoutArray
  | storeIntoInt (value : Int32)
  | storeWithoutReference
  | indexOutOfBounds (index : Int32) (length : Nat)
  | fieldWithoutArray (name : String)
  | neverWritten (name : String) (index : Nat)
  | unknownOpcode (opcode : UInt8) (position : Nat)
  | tableReversed (position : Nat)
  | negativePairs (position : Nat) (pairs : Int32)
  | wideMisapplied (opcode : UInt8) (position : Nat)
  | noSmallForm (value : Int32)
  | uninterpretedOpcode (opcode : UInt8)
  | bodyTooLong (size : Nat)
  deriving DecidableEq

/-- The wording of a stream fault. -/
def StreamFault.text : StreamFault → String
  | .unknownEffect insn at_ => "unknown stack effect of `" ++ insn.text ++ "` at " ++ toString at_
  | .depthBelowZero insn at_ => "stack underflow at " ++ toString at_ ++ " (`" ++ insn.text ++ "`)"
  | .tooDeep => "operand stack deeper than 65535"
  | .operandMissing role => role ++ ": stack underflow"
  | .operandIsArray role => role ++ ": expected an int, found an array"
  | .negativeLength n => "negative array length " ++ Text.signed n
  | .arrayPending => "newarray while another array is pending"
  | .dupOnEmpty => "dup on empty stack"
  | .storeWithoutArray => "iastore without a current array"
  | .storeIntoInt v => "iastore target is the int " ++ Text.signed v ++ ", not an array"
  | .storeWithoutReference => "iastore with no array reference"
  | .indexOutOfBounds i n =>
    "iastore index " ++ Text.signed i ++ " out of bounds for length " ++ toString n
  | .fieldWithoutArray name => "putstatic " ++ name ++ " without a current array"
  | .neverWritten name i =>
    "`" ++ name ++ "` committed with index " ++ toString i ++ " never written"
  | .unknownOpcode op at_ =>
    "unknown opcode 0x" ++ Text.hexPadded 2 op.toNat ++ " at " ++ toString at_
  | .tableReversed at_ => "tableswitch at " ++ toString at_ ++ " has low > high"
  | .negativePairs at_ n =>
    "lookupswitch at " ++ toString at_ ++ " has " ++ Text.signed n ++ " pairs"
  | .wideMisapplied op at_ =>
    "wide applied to 0x" ++ Text.hexPadded 2 op.toNat ++ " at " ++ toString at_
  | .noSmallForm v => "iconst_" ++ Text.signed v ++ " does not exist"
  | .uninterpretedOpcode op => "cannot encode opaque opcode 0x" ++ Text.hexPadded 2 op.toNat
  | .bodyTooLong n => "method body of " ++ toString n ++ " bytes exceeds 65535"

/-- What is wrong with a class file, or with the constants asked of one. -/
inductive FormatFault where
  | badMagic (found : UInt32)
  | unknownTag (tag : UInt8) (slot : Nat)
  | wideAtEnd
  | badIndex (index : UInt16)
  | notUtf8 (index : UInt16) (found : Constant)
  | notClass (index : UInt16) (found : Constant)
  | notFieldRef (index : UInt16)
  | notNameAndType (index : UInt16)
  | poolFull
  | utf8TooLong (size : Nat)
  | unwritable (constant : Constant)
  deriving DecidableEq

/-- The wording of a format fault. -/
def FormatFault.text : FormatFault → String
  | .badMagic m => "bad class magic 0x" ++ Text.hexPadded 8 m.toNat
  | .unknownTag t slot => "unknown constant tag " ++ toString t ++ " at entry " ++ toString slot
  | .wideAtEnd => "8-byte constant overflows the pool"
  | .badIndex i => "bad constant pool index " ++ toString i
  | .notUtf8 i c => "entry " ++ toString i ++ " is not Utf8: " ++ c.text
  | .notClass i c => "entry " ++ toString i ++ " is not a Class: " ++ c.text
  | .notFieldRef i => "entry " ++ toString i ++ " is not a Fieldref"
  | .notNameAndType i => "entry " ++ toString i ++ " is not a NameAndType"
  | .poolFull => "constant pool overflow"
  | .utf8TooLong n => "utf8 constant of " ++ toString n ++ " bytes is too long"
  | .unwritable c => "builder cannot write " ++ c.text

/-- What is wrong with the settings of a run. -/
inductive SettingsFault where
  | badFilter (glob line : String) (fault : Glob.Fault)
  | filterTooLarge (glob : String) (cause : Glob.TooLarge)
  | noOutputDirectory (directory : String) (cause : Files.OsError)
  | unreadable (path : String) (cause : Files.OsError)
  | invalid (path : Option String)
  deriving DecidableEq

/-- The wording of a settings fault. -/
def SettingsFault.text : SettingsFault → String
  | .badFilter glob line fault =>
    "invalid type filter `" ++ glob ++ "`: error parsing glob '" ++ line ++ "': " ++ fault.text
  | .filterTooLarge glob cause => "invalid type filter `" ++ glob ++ "`: " ++ cause.text
  | .noOutputDirectory dir cause =>
    "cannot create output directory " ++ dir ++ ": " ++ cause.text
  | .unreadable path cause => "cannot read " ++ path ++ ": " ++ cause.text
  | .invalid none => "invalid rshrink.toml"
  | .invalid (some path) => path ++ ": invalid rshrink.toml"

/-- The value a name stands for, as a conflict reports it. -/
inductive SymbolValue where
  | scalar (value : Int32)
  | array (values : List Int32)
  deriving DecidableEq

/-- Scalars are shown by their bits, arrays as a list of decimal numerals. -/
def SymbolValue.text : SymbolValue → String
  | .scalar v => "0x" ++ Text.bits v
  | .array vs => "[" ++ String.intercalate ", " (vs.map Text.signed) ++ "]"

/-- An error of the library. -/
inductive Error where
  | malformed (fault : StreamFault)
  | conflict (name : String) (expected actual : SymbolValue)
  | io (cause : Files.OsError)
  | settings (fault : SettingsFault)
  | format (fault : FormatFault)
  | endOfInput (needed offset : Nat)
  deriving DecidableEq

/-- The wording of an error. -/
def Error.text : Error → String
  | .malformed fault => "malformed instruction stream: " ++ fault.text
  | .conflict name expected actual =>
    "value of " ++ name ++ " mismatched: expected " ++ expected.text ++ " but was " ++ actual.text
  | .io cause => "io: " ++ cause.text
  | .settings fault => "config: " ++ fault.text
  | .format fault => "invalid class file: " ++ fault.text
  | .endOfInput needed offset =>
    "unexpected EOF: need " ++ toString needed ++ " bytes at " ++ toString offset

end ResourceMerge
