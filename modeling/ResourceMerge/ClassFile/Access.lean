/-! Access flags of classes, fields and methods. They share one set of sixteen bits; where a bit has
    two meanings it goes by one name here. -/

namespace ResourceMerge

/-- A set of access flags. -/
structure Access where
  bits : UInt16
  deriving DecidableEq

namespace Access

/-- The names of the bits, the lowest first. -/
def names : List String :=
  ["PUBLIC", "PRIVATE", "PROTECTED", "STATIC", "FINAL", "SUPER", "VOLATILE", "TRANSIENT", "NATIVE",
   "INTERFACE", "ABSTRACT", "STRICT", "SYNTHETIC", "ANNOTATION", "ENUM", "MODULE"]

/-- The names of the flags in the set. -/
def flags (access : Access) : List String :=
  (names.zipIdx.filter fun entry => access.bits.toNat.testBit entry.2).map Prod.fst

/-- The set as messages show it. -/
def text (access : Access) : String :=
  if access.bits = 0 then "AccessFlags(0x0)"
  else "AccessFlags(" ++ String.intercalate " | " access.flags ++ ")"

/-- Of an initialiser: static. -/
def ofInitializer : Access := ⟨0x0008⟩

/-- Of a constant field: public, static and final. -/
def ofConstant : Access := ⟨0x0019⟩

/-- Of a generated class: public and synthetic, with the flag every class has. -/
def ofGeneratedClass : Access := ⟨0x1021⟩

end Access

end ResourceMerge
