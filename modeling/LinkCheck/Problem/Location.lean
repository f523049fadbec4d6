import LinkCheck.Reference

/-!
# Locations of problems

## Main definitions

- `Location` — where a problem was seen
- `Location.describe` — its text
- `Location.className?` — the class it belongs to
-/

namespace LinkCheck

/-- Where a problem was seen. -/
inductive Location where
  | plugin (id : String)
  | ofClass (name : ClassName)
  | method (member : MemberRef)
  | field (member : MemberRef)
deriving DecidableEq, Inhabited, Repr

namespace Location

/-- The text of a location. -/
def describe : Location → String
  | plugin id => s!"plugin {id}"
  | ofClass name => s!"class {name.dotted}"
  | method member => s!"method {member.owner.dotted}.{member.name}{member.descriptor}"
  | field member => s!"field {member.owner.dotted}.{member.name}"

/-- The class a location belongs to, if it is not the plugin as a whole. -/
def className? : Location → Option ClassName
  | plugin _ => none
  | ofClass name => some name
  | method member | field member => some member.owner

/-- Plugins come before classes, classes before methods and methods before fields. -/
def rank : Location → Nat
  | plugin _ => 0
  | ofClass _ => 1
  | method _ => 2
  | field _ => 3

/-- Locations are ordered by their rank, those of one rank by what they name. -/
instance : Ord Location where
  compare
    | plugin first, plugin second => compare first second
    | ofClass first, ofClass second => compare first second
    | method first, method second => compare first second
    | field first, field second => compare first second
    | first, second => compare first.rank second.rank

end Location

end LinkCheck
