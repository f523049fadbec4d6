import LinkCheck.Hierarchy

/-!
# Access control

## Main definitions

- `ClassDefinition.mayAccess` — whether a class may refer to another
- `Classpath.mayAccessMember` — whether a class may use a member of another
-/

namespace LinkCheck

/-- Whether a class may refer to `target`. -/
def ClassDefinition.mayAccess (accessor target : ClassDefinition) : Bool :=
  target.visibility = .publicAccess || accessor.name.samePackage target.name

/-- Whether a class may use a member of this visibility that `declaring` declares. Where superclasses
that would decide cannot be loaded, it may. -/
def Classpath.mayAccessMember (classpath : Classpath) (accessor declaring : ClassDefinition) :
    Visibility → Bool
  | .publicAccess => true
  | .protectedAccess =>
    accessor.name.samePackage declaring.name ||
      (classpath.isSubclassOf accessor declaring.name).getD true
  | .packageAccess => accessor.name.samePackage declaring.name
  | .privateAccess =>
    accessor.name = declaring.name || accessor.nestHost = declaring.nestHost

end LinkCheck
