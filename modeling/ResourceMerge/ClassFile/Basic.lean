import ResourceMerge.ClassFile.Access
import ResourceMerge.ClassFile.MethodBody

/-! Class files as they are read. A file begins with a magic number and two version numbers, then
    come the constant pool, the class's own flags and names, its interfaces, fields and methods,
    each list behind its length, and the attributes of the class. Of all attributes two are looked
    into: the constant value of a field, if it is an integer, and the body of a method. Where a
    member has several of them the last counts. Bytes behind the last attribute do not matter. -/

namespace ResourceMerge

open Binary

/-- A field of a class. -/
structure Field where
  access : Access
  name : String
  descriptor : String
  intConstant : Option Int32
  deriving DecidableEq

/-- The body of a method. -/
structure Body where
  maxStack : UInt16
  maxLocals : UInt16
  code : List UInt8
  deriving DecidableEq

/-- A method of a class; an abstract or native one has no body. -/
structure Method where
  access : Access
  name : String
  descriptor : String
  body : Option Body
  deriving DecidableEq

/-- A class. -/
structure ClassFile where
  minorVersion : UInt16
  majorVersion : UInt16
  pool : ConstantPool
  access : Access
  thisClass : String
  superClass : Option String
  interfaces : List String
  fields : List Field
  methods : List Method

namespace ClassFile

/-- What a class file begins with. -/
def magic : UInt32 := 0xCAFEBABE

/-- The name of a class initialiser. -/
def initializerName : String := "<clinit>"

/-- The descriptor of a class initialiser. -/
def initializerDescriptor : String := "()V"

/-- The attribute that holds the constant value of a field. -/
def constantValueAttribute : String := "ConstantValue"

/-- The attribute that holds the body of a method. -/
def codeAttribute : String := "Code"

/-- Steps over a list of attributes. -/
def skipAttributes : Reader Unit := do
  let count ← Reader.u16
  let _ ← Reader.times count.toNat do
    Reader.skip 2
    Reader.skip (← Reader.u32).toNat

/-- Reads `count` attributes, updating a value by the name and the bytes of each. -/
def foldAttributes {α : Type} (pool : ConstantPool)
    (interpret : String → List UInt8 → α → Except Error α) : (count : Nat) → α → Reader α
  | 0, a => pure a
  | count + 1, a => do
    let name ← Reader.ofExcept (pool.utf8 (← Reader.u16))
    let size ← Reader.u32
    let bytes ← Reader.take size.toNat
    let a ← Reader.ofExcept (interpret name bytes a)
    foldAttributes pool interpret count a

/-- The integer constant of a field, updated by an attribute. -/
def constantOf (pool : ConstantPool) (name : String) (bytes : List UInt8)
    (before : Option Int32) : Except Error (Option Int32) := do
  if name = constantValueAttribute then pool.integer? (← Reader.u16.read bytes)
  else return before

/-- A method body, as its attribute holds it, with its handlers and attributes stepped over. -/
def readBody : Reader Body := do
  let maxStack ← Reader.u16
  let maxLocals ← Reader.u16
  let size ← Reader.u32
  let code ← Reader.take size.toNat
  let handlers ← Reader.u16
  Reader.skip (handlers.toNat * 8)
  skipAttributes
  return ⟨maxStack, maxLocals, code⟩

/-- The body of a method, updated by an attribute. -/
def bodyOf (name : String) (bytes : List UInt8) (before : Option Body) :
    Except Error (Option Body) := do
  if name = codeAttribute then return some (← readBody.read bytes)
  else return before

/-- One field. -/
def readField (pool : ConstantPool) : Reader Field := do
  let access ← Reader.u16
  let name ← Reader.ofExcept (pool.utf8 (← Reader.u16))
  let descriptor ← Reader.ofExcept (pool.utf8 (← Reader.u16))
  let count ← Reader.u16
  let constant ← foldAttributes pool (constantOf pool) count.toNat none
  return ⟨⟨access⟩, name, descriptor, constant⟩

/-- One method. -/
def readMethod (pool : ConstantPool) : Reader Method := do
  let access ← Reader.u16
  let name ← Reader.ofExcept (pool.utf8 (← Reader.u16))
  let descriptor ← Reader.ofExcept (pool.utf8 (← Reader.u16))
  let count ← Reader.u16
  let body ← foldAttributes pool bodyOf count.toNat none
  return ⟨⟨access⟩, name, descriptor, body⟩

/-- The name of the superclass; slot zero means that there is none. -/
def superName (pool : ConstantPool) (index : UInt16) : Except Error (Option String) := do
  if index = 0 then return none else return some (← pool.className index)

/-- A list behind its length. -/
def readCounted {α : Type} (item : Reader α) : Reader (List α) := do
  let count ← Reader.u16
  Reader.times count.toNat item

/-- A class. -/
def reader : Reader ClassFile := do
  let found ← Reader.u32
  if found ≠ magic then Reader.fail (.format (.badMagic found))
  let minorVersion ← Reader.u16
  let majorVersion ← Reader.u16
  let pool ← ConstantPool.read
  let access ← Reader.u16
  let thisClass ← Reader.ofExcept (pool.className (← Reader.u16))
  let superClass ← Reader.ofExcept (superName pool (← Reader.u16))
  let interfaces ← readCounted do Reader.ofExcept (pool.className (← Reader.u16))
  let fields ← readCounted (readField pool)
  let methods ← readCounted (readMethod pool)
  skipAttributes
  return { minorVersion, majorVersion, pool, access := ⟨access⟩, thisClass, superClass,
           interfaces, fields, methods }

/-- The class that a byte string begins with. -/
def ofBytes (bytes : List UInt8) : Except Error ClassFile := reader.read bytes

/-- The first field of a name. -/
def field? (file : ClassFile) (name : String) : Option Field :=
  file.fields.find? fun f => f.name = name

/-- The first method of a name and descriptor. -/
def method? (file : ClassFile) (name descriptor : String) : Option Method :=
  file.methods.find? fun m => m.name = name ∧ m.descriptor = descriptor

/-- The initialiser of the class, if it has one. -/
def initializer? (file : ClassFile) : Option Method :=
  file.method? initializerName initializerDescriptor

/-- The instructions of a method; a method without a body has none. -/
def instructions (file : ClassFile) (method : Method) : Except Error (List Instruction) :=
  match method.body with
  | some body => MethodBody.decode file.pool body.code
  | none => .ok []

end ClassFile

end ResourceMerge
