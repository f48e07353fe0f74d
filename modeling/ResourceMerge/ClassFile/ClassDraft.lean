import ResourceMerge.ClassFile.Basic
import ResourceMerge.Instruction.StackDepth

/-! A class under construction: no interfaces, no attributes of its own, and members added one after
    the other. A member is kept as the pool slots of its parts, taken when it is added, so equal
    calls in equal order give equal bytes. A call that fails adds no member; what it had put into
    the pool stays there. -/

namespace ResourceMerge

/-- A field under construction, by the slots of its parts. -/
structure FieldDraft where
  access : Access
  name : UInt16
  descriptor : UInt16
  constant : Option UInt16

/-- A method under construction, by the slots of its parts. -/
structure MethodDraft where
  access : Access
  name : UInt16
  descriptor : UInt16
  body : Body

/-- A class under construction. An attribute name has a slot once a member has needed it. -/
structure ClassDraft where
  pool : PoolDraft
  majorVersion : UInt16
  access : Access
  thisClass : UInt16
  superClass : UInt16
  fields : Array FieldDraft
  methods : Array MethodDraft
  codeAttribute : Option UInt16
  constantValueAttribute : Option UInt16

namespace ClassDraft

open Binary

/-- A step of the construction; the draft it leaves is kept also when it fails. -/
abbrev Step := EStateM Error ClassDraft

/-- A request to the pool of the class. -/
def onPool {α : Type} (request : PoolDraft.Request α) : Step α :=
  fun ⟨pool, version, access, this, super, fields, methods, code, constant⟩ =>
    match request pool with
    | .ok a pool => .ok a ⟨pool, version, access, this, super, fields, methods, code, constant⟩
    | .error e pool =>
      .error e ⟨pool, version, access, this, super, fields, methods, code, constant⟩

/-- A class without members. -/
def start (name superName : String) (access : Access) (majorVersion : UInt16) :
    Except Error ClassDraft :=
  let names : PoolDraft.Request (UInt16 × UInt16) := do
    let this ← PoolDraft.classRef name
    let super ← PoolDraft.classRef superName
    return (this, super)
  match names .empty with
  | .ok (this, super) pool => .ok ⟨pool, majorVersion, access, this, super, #[], #[], none, none⟩
  | .error e _ => .error e

/-- The slot of a field's integer constant; the name of its attribute takes a slot before it. -/
def constantSlot : Option Int32 → Step (Option UInt16)
  | none => return none
  | some value => do
    let label ← onPool (PoolDraft.utf8 ClassFile.constantValueAttribute)
    modify fun draft => { draft with constantValueAttribute := some label }
    return some (← onPool (PoolDraft.integer value))

/-- Adds a field. -/
def addField (access : Access) (name descriptor : String) (constant : Option Int32) :
    Step Unit := do
  let name ← onPool (PoolDraft.utf8 name)
  let descriptor ← onPool (PoolDraft.utf8 descriptor)
  let constant ← constantSlot constant
  modify fun draft =>
    { draft with fields := draft.fields.push ⟨access, name, descriptor, constant⟩ }

/-- Adds a method with a body of at most 65535 bytes. The pool slots that the body names must come
    from the pool of this class. -/
def addBody (access : Access) (name descriptor : String) (body : Body) : Step Unit := do
  let name ← onPool (PoolDraft.utf8 name)
  let descriptor ← onPool (PoolDraft.utf8 descriptor)
  let label ← onPool (PoolDraft.utf8 ClassFile.codeAttribute)
  modify fun draft => { draft with codeAttribute := some label }
  if body.code.length > 65535 then throw (.malformed (.bodyTooLong body.code.length))
  modify fun draft => { draft with methods := draft.methods.push ⟨access, name, descriptor, body⟩ }

/-- Adds a method with the given instructions. -/
def addMethod (access : Access) (name descriptor : String) (insns : List Instruction)
    (maxLocals : UInt16) : Step Unit := do
  match Instruction.maxStack insns with
  | .error e => throw e
  | .ok maxStack =>
    let code ← onPool (MethodBody.encode insns)
    addBody access name descriptor ⟨maxStack, maxLocals, code⟩

/-- A field in the form it has in a class file. -/
def writeField (label : Option UInt16) (field : FieldDraft) : List UInt8 :=
  u16 field.access.bits ++ u16 field.name ++ u16 field.descriptor ++
    match field.constant, label with
    | some constant, some label => u16 1 ++ u16 label ++ u32 2 ++ u16 constant
    | _, _ => u16 0

/-- A method in the form it has in a class file: one attribute, which has neither handlers nor
    attributes of its own. -/
def writeMethod (label : UInt16) (method : MethodDraft) : List UInt8 :=
  let size := UInt32.ofNat method.body.code.length
  u16 method.access.bits ++ u16 method.name ++ u16 method.descriptor ++ u16 1 ++ u16 label
    ++ u32 (12 + size) ++ u16 method.body.maxStack ++ u16 method.body.maxLocals ++ u32 size
    ++ method.body.code ++ u16 0 ++ u16 0

/-- The class as a class file. -/
def write (draft : ClassDraft) : Except Error (List UInt8) := do
  let pool ← draft.pool.write
  return u32 ClassFile.magic ++ u16 0 ++ u16 draft.majorVersion ++ pool
    ++ u16 draft.access.bits ++ u16 draft.thisClass ++ u16 draft.superClass ++ u16 0
    ++ u16 (UInt16.ofNat draft.fields.size)
    ++ draft.fields.toList.flatMap (writeField draft.constantValueAttribute)
    ++ u16 (UInt16.ofNat draft.methods.size)
    ++ draft.methods.toList.flatMap (writeMethod (draft.codeAttribute.getD 0))
    ++ u16 0

end ClassDraft

end ResourceMerge
