/-!
# Access flags

Access flags are sixteen bits, of which some have names that depend on what they are attached to.  Bits without a name
are kept.
-/

namespace ClassGraft

/-- The access flags of a class, field or method. -/
abbrev AccessFlags := UInt16

/-- A named bit. -/
structure FlagName where
  label : String
  mask : UInt16
deriving DecidableEq, Repr

namespace AccessFlags

/-- The named bits of classes, in ascending order. -/
def ofClasses : List FlagName :=
  [⟨"PUBLIC", 0x0001⟩, ⟨"FINAL", 0x0010⟩, ⟨"SUPER", 0x0020⟩, ⟨"INTERFACE", 0x0200⟩, ⟨"ABSTRACT", 0x0400⟩,
    ⟨"SYNTHETIC", 0x1000⟩, ⟨"ANNOTATION", 0x2000⟩, ⟨"ENUM", 0x4000⟩, ⟨"MODULE", 0x8000⟩]

/-- The named bits of methods, in ascending order. -/
def ofMethods : List FlagName :=
  [⟨"PUBLIC", 0x0001⟩, ⟨"PRIVATE", 0x0002⟩, ⟨"PROTECTED", 0x0004⟩, ⟨"STATIC", 0x0008⟩, ⟨"FINAL", 0x0010⟩,
    ⟨"SYNCHRONIZED", 0x0020⟩, ⟨"BRIDGE", 0x0040⟩, ⟨"VARARGS", 0x0080⟩, ⟨"NATIVE", 0x0100⟩, ⟨"ABSTRACT", 0x0400⟩,
    ⟨"STRICT", 0x0800⟩, ⟨"SYNTHETIC", 0x1000⟩]

/-- The named bits of fields, in ascending order. -/
def ofFields : List FlagName :=
  [⟨"PUBLIC", 0x0001⟩, ⟨"PRIVATE", 0x0002⟩, ⟨"PROTECTED", 0x0004⟩, ⟨"STATIC", 0x0008⟩, ⟨"FINAL", 0x0010⟩,
    ⟨"VOLATILE", 0x0040⟩, ⟨"TRANSIENT", 0x0080⟩, ⟨"SYNTHETIC", 0x1000⟩, ⟨"ENUM", 0x4000⟩]

/-- The names of the bits that are set, in the order of the given list. -/
def names (known : List FlagName) (flags : AccessFlags) : List String :=
  (known.filter fun flag => flags &&& flag.mask != 0).map FlagName.label

/-- Whether the flags of a method say that it is abstract or native, so that it has no code. -/
def haveNoCode (flags : AccessFlags) : Bool := flags &&& 0x0500 != 0

end AccessFlags

end ClassGraft
