/-!
Attribute words of types, fields and methods. A word keeps every bit it was given, also bits that
no attribute has; `ofRaw` is the reading that drops those.
-/

namespace WeakSubscription

structure TypeFlags where
  bits : UInt32
  deriving DecidableEq

namespace TypeFlags

def publicFlag : TypeFlags := ⟨0x0001⟩
def abstract : TypeFlags := ⟨0x0080⟩
def sealed : TypeFlags := ⟨0x0100⟩
def specialName : TypeFlags := ⟨0x0400⟩

instance : OrOp TypeFlags where
  or a b := ⟨a.bits ||| b.bits⟩

def known : TypeFlags := publicFlag ||| abstract ||| sealed ||| specialName

/-- The word with unknown bits dropped. -/
def ofRaw (raw : UInt32) : TypeFlags := ⟨raw &&& known.bits⟩

end TypeFlags

structure FieldFlags where
  bits : UInt16
  deriving DecidableEq

namespace FieldFlags

def privateFlag : FieldFlags := ⟨0x0001⟩
def static : FieldFlags := ⟨0x0010⟩
def initOnly : FieldFlags := ⟨0x0020⟩
def literal : FieldFlags := ⟨0x0040⟩
def specialName : FieldFlags := ⟨0x0200⟩

instance : OrOp FieldFlags where
  or a b := ⟨a.bits ||| b.bits⟩

/-- The bits in which the accessibility of a field is kept. -/
def accessMask : FieldFlags := ⟨0x0007⟩

def known : FieldFlags := accessMask ||| static ||| initOnly ||| literal ||| specialName

/-- The word with unknown bits dropped. -/
def ofRaw (raw : UInt16) : FieldFlags := ⟨raw &&& known.bits⟩

def has (flags other : FieldFlags) : Bool := flags.bits &&& other.bits == other.bits

end FieldFlags

/-- The accessibility of a method, a number of three bits. -/
structure MethodAccess where
  bits : UInt16
  deriving DecidableEq

namespace MethodAccess

def privateAccess : MethodAccess := ⟨0x0001⟩
def publicAccess : MethodAccess := ⟨0x0006⟩

/-- The bits in which the accessibility of a method is kept. -/
def mask : UInt16 := 0x0007

/-- The accessibility in a full attribute word. -/
def ofRaw (raw : UInt16) : MethodAccess := ⟨raw &&& mask⟩

end MethodAccess

structure MethodModifiers where
  bits : UInt16
  deriving DecidableEq

namespace MethodModifiers

def none : MethodModifiers := ⟨0⟩
def static : MethodModifiers := ⟨0x0010⟩
def final : MethodModifiers := ⟨0x0020⟩
def virtual : MethodModifiers := ⟨0x0040⟩
def hideBySig : MethodModifiers := ⟨0x0080⟩
def specialName : MethodModifiers := ⟨0x0800⟩
def runtimeSpecialName : MethodModifiers := ⟨0x1000⟩

instance : OrOp MethodModifiers where
  or a b := ⟨a.bits ||| b.bits⟩

def known : MethodModifiers :=
  static ||| final ||| virtual ||| hideBySig ||| specialName ||| runtimeSpecialName

/-- The modifiers in a full attribute word; the accessibility is no part of them. -/
def ofRaw (raw : UInt16) : MethodModifiers := ⟨raw &&& known.bits⟩

def has (flags other : MethodModifiers) : Bool := flags.bits &&& other.bits == other.bits

end MethodModifiers

end WeakSubscription
