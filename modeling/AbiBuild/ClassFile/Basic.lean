import AbiBuild.ClassFile.Attribute
import AbiBuild.ClassFile.Descriptor

/-!
# Class files

A compiled class: its constants, its name and supertypes, and its members.  Decoding checks what it
needs to go on and nothing else; octets after the end do not count.
-/

namespace AbiBuild.ClassFile

def privateFlag : Nat := 0x0002

def isPrivate (accessFlags : Nat) : Bool :=
  accessFlags &&& privateFlag ≠ 0

structure Field where
  accessFlags : Nat
  type : FieldType
  attributes : List Attribute

structure Method where
  accessFlags : Nat
  descriptorIndex : Nat
  attributes : List Attribute

end ClassFile

structure ClassFile where
  pool : ClassFile.ConstantPool
  thisIndex : Nat
  /-- Zero when there is no superclass. -/
  superIndex : Nat
  interfaceIndices : List Nat
  fields : List ClassFile.Field
  methods : List ClassFile.Method
  attributes : List ClassFile.Attribute

namespace ClassFile

def magicNumber : Nat := 0xCAFEBABE

def oldestMajor : Nat := 45

def newestMajor : Nat := 69

def firstPreviewMajor : Nat := 56

def previewMinor : Nat := 65535

def versionSupported (major minor : Nat) : Bool :=
  oldestMajor ≤ major && major ≤ newestMajor &&
    (major < firstPreviewMajor || minor = 0 || minor = previewMinor)

namespace Decoder

def field (pool : ConstantPool) : Decoder Field := do
  let accessFlags ← u2
  skip 2
  let descriptor ← pool.text (← u2)
  let type ← FieldType.ofDescriptor descriptor
  let attributes ← attributes pool
  pure ⟨accessFlags, type, attributes⟩

def method (pool : ConstantPool) : Decoder Method := do
  let accessFlags ← u2
  skip 2
  let descriptorIndex ← u2
  let attributes ← attributes pool
  pure ⟨accessFlags, descriptorIndex, attributes⟩

def classFile : Decoder ClassFile := do
  let magic ← u4
  if magic ≠ magicNumber then throw (.magicNumber magic)
  let minor ← u2
  let major ← u2
  if !versionSupported major minor then throw (.version major minor)
  let pool ← constantPool
  skip 2
  let thisIndex ← u2
  let superIndex ← u2
  let interfaceIndices ← table 2 u2
  let fields ← table 2 (field pool)
  let methods ← table 2 (method pool)
  let attributes ← attributes pool
  pure ⟨pool, thisIndex, superIndex, interfaceIndices, fields, methods, attributes⟩

end Decoder

def ofBytes (bytes : Bytes) : Except Fault ClassFile :=
  Decoder.classFile.run bytes

end ClassFile

end AbiBuild
