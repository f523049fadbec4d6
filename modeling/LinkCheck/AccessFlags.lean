/-!
# Access flags

Classes and members carry sixteen flag bits, kept as they are found. Their visibility is read off
three of the bits.

## Main definitions

- `Visibility` — access levels, from the narrowest to the widest
- `AccessFlags` — the flag bits of a class or member
- `AccessFlags.classVisibility`, `AccessFlags.memberVisibility` — what the bits grant
-/

namespace LinkCheck

/-- Access level of a class or member. -/
inductive Visibility where
  | privateAccess
  | packageAccess
  | protectedAccess
  | publicAccess
deriving DecidableEq, Inhabited, Repr

namespace Visibility

/-- Position in the order from the narrowest level to the widest. -/
def rank : Visibility → Nat
  | privateAccess => 0
  | packageAccess => 1
  | protectedAccess => 2
  | publicAccess => 3

/-- Whether a level grants at least what `least` grants. -/
def atLeast (level least : Visibility) : Bool :=
  least.rank ≤ level.rank

/-- The word for a level. -/
def describe : Visibility → String
  | privateAccess => "private"
  | packageAccess => "package-private"
  | protectedAccess => "protected"
  | publicAccess => "public"

end Visibility

/-- The flag bits of a class or member. -/
structure AccessFlags where
  bits : UInt16
deriving DecidableEq, Inhabited, Repr

namespace AccessFlags

/-- Whether all bits of `mask` are set. -/
def has (flags : AccessFlags) (mask : UInt16) : Bool :=
  flags.bits &&& mask = mask

/-- Whether the member is visible in its own class only. -/
def isPrivate (flags : AccessFlags) : Bool := flags.has 0x0002

/-- Whether the member belongs to the class and not to its instances. -/
def isStatic (flags : AccessFlags) : Bool := flags.has 0x0008

/-- Whether a class cannot be extended, a method overridden or a field written again. -/
def isFinal (flags : AccessFlags) : Bool := flags.has 0x0010

/-- Whether a method takes its last arguments as an array. -/
def isVarargs (flags : AccessFlags) : Bool := flags.has 0x0080

/-- Whether a method has its body outside the class file. -/
def isNative (flags : AccessFlags) : Bool := flags.has 0x0100

/-- Whether a class is an interface. -/
def isInterface (flags : AccessFlags) : Bool := flags.has 0x0200

/-- Whether a class or method is abstract. -/
def isAbstract (flags : AccessFlags) : Bool := flags.has 0x0400

/-- The level of a member. Of several level bits the widest counts, apart from private, which comes
last. -/
def memberVisibility (flags : AccessFlags) : Visibility :=
  if flags.has 0x0001 then .publicAccess
  else if flags.has 0x0004 then .protectedAccess
  else if flags.has 0x0002 then .privateAccess
  else .packageAccess

/-- The level of a class, which is public or visible in its package. -/
def classVisibility (flags : AccessFlags) : Visibility :=
  if flags.has 0x0001 then .publicAccess else .packageAccess

end AccessFlags

end LinkCheck
