/-! The 32-bit cyclic redundancy check of a byte string: the reflected polynomial `0xEDB88320`, all
    ones before the first byte and after the last. -/

namespace ResourceMerge.Binary

/-- One bit shifted out; the polynomial is subtracted when that bit was set. -/
def crcBit (r : UInt32) : UInt32 :=
  if r &&& 1 = 1 then (r >>> 1) ^^^ 0xEDB88320 else r >>> 1

/-- The register after eight bits. -/
def crcByte (r : UInt32) (b : UInt8) : UInt32 :=
  crcBit (crcBit (crcBit (crcBit (crcBit (crcBit (crcBit (crcBit (r ^^^ b.toUInt32))))))))

/-- The check of a byte string. -/
def crc32 (bytes : List UInt8) : UInt32 := bytes.foldl crcByte 0xFFFFFFFF ^^^ 0xFFFFFFFF

end ResourceMerge.Binary
