import LinkCheck.Classpath

/-!
# Plain classes

A plain class has a superclass and no members; other classes are made from it by giving it some. A list of
classes makes a classpath, on which each stands under its own name and the first of several with one name
counts.

## Main definitions

- `ClassDefinition.plain` — a class without members
- `MethodDefinition.plain` — a method without parameters and result
- `ClassFile.plain`, `ClassFile.sealed`, `ClassFile.root` — files of classes without members
- `Classpath.ofClasses` — the classpath of a list of classes

## Main results

- `Classpath.find_ofClasses` — finding a class is going through the list
- `Classpath.name_of_find_ofClasses` — a class that is found has the name that was asked for
-/

namespace LinkCheck

/-- A public class that has a superclass and nothing else. -/
def ClassDefinition.plain (name superName : ClassName) : ClassDefinition where
  name
  superName := some superName
  interfaces := []
  flags := ⟨0x0001⟩
  fields := []
  methods := []
  declaredNestHost := none
  signatureClasses := []
  majorVersion := 52
  minorVersion := 0

/-- A method without parameters and result that refers to nothing. -/
def MethodDefinition.plain (name : String) (flags : AccessFlags) : MethodDefinition where
  name
  descriptor := "()V"
  type := { parameters := [], result := none }
  flags
  exceptions := []
  signatureClasses := []
  references := []

namespace ClassFile

/-- The file of a public class that has a superclass and nothing else. -/
def plain (name superName : String) : ClassFile where
  minorVersion := 0
  majorVersion := 52
  constants := [.utf8 name, .classInfo 1, .utf8 superName, .classInfo 3]
  flags := ⟨0x0001⟩
  thisClass := 2
  superClass := 4
  interfaces := []
  fields := []
  methods := []
  attributes := []

/-- The file of the root class. -/
def root : ClassFile :=
  { plain "java/lang/Object" "" with superClass := 0 }

/-- The file of a class that nothing may extend. -/
def sealed (name superName : String) : ClassFile :=
  { plain name superName with flags := ⟨0x0011⟩ }

end ClassFile

namespace Classpath

variable {classes : List ClassDefinition} {name : ClassName} {definition : ClassDefinition}

/-- The classpath that gives for a name the first class of a list with this name. -/
def ofClasses (classes : List ClassDefinition) : Classpath where
  names := classes.map ClassDefinition.name
  lookup := fun name => .ok (classes.find? (·.name = name))

theorem find_ofClasses : (ofClasses classes).find name = .ok (classes.find? (·.name = name)) := by
  rw [find]
  split
  · rfl
  · next hname =>
    have hnone : classes.find? (·.name = name) = none := by
      refine List.find?_eq_none.2 fun each heach hsame => hname ?_
      exact List.mem_map.2 ⟨each, heach, of_decide_eq_true hsame⟩
    rw [hnone]

theorem name_of_find_ofClasses (h : (ofClasses classes).find name = .ok (some definition)) :
    definition.name = name := by
  rw [find_ofClasses, Except.ok.injEq] at h
  simpa using List.find?_some h

theorem name_of_load_ofClasses (h : (ofClasses classes).load name = .ok definition) :
    definition.name = name :=
  name_of_find_ofClasses (load_eq_ok_iff.1 h)

end Classpath

end LinkCheck
