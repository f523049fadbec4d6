import LinkCheck.AccessFlags
import LinkCheck.Reference

/-!
# Problems

A problem is a way in which a plugin fails to link. It is identified by its kind and its fields; the
description is derived from them.

## Main definitions

- `Problem` — one way in which a plugin does not link
- `Problem.kind`, `Problem.description` — its tag and its text
- `Problem.isPluginLevel` — whether it concerns the plugin and none of its classes
-/

namespace LinkCheck

/-- A class that was compiled against as the one and is now the other. -/
inductive ClassChange where
  /-- A class was expected, and an interface is found. -/
  | classToInterface
  /-- An interface was expected, and a class is found. -/
  | interfaceToClass
deriving DecidableEq, Inhabited, Repr

/-- One way in which a plugin does not link. -/
inductive Problem where
  | classNotFound (name : ClassName)
  | methodNotFound (method : MemberRef) (invocation : Invocation)
  | fieldNotFound (field : MemberRef) (instruction : FieldInstruction)
  | superClassNotFound (name missing : ClassName)
  | interfaceNotFound (name missing : ClassName)
  | unknownTypeField (field : MemberRef) (missing : ClassName)
  | incompatibleClassChange (name : ClassName) (change : ClassChange)
  | inheritFromFinalClass (name superclass : ClassName)
  | illegalClassAccess (name : ClassName) (visibility : Visibility)
  | abstractClassInstantiation (name : ClassName)
  | interfaceInstantiation (name : ClassName)
  | overridingFinalMethod (method : MemberRef) (name : ClassName)
  | invokeStaticOnInstanceMethod (method : MemberRef)
  | invokeInstanceOnStaticMethod (method : MemberRef) (invocation : Invocation)
  | invokeInterfaceOnPrivateMethod (method : MemberRef)
  | abstractMethodInvocation (method : MemberRef)
  | illegalFieldAccess (field : MemberRef) (visibility : Visibility)
  | illegalMethodAccess (method : MemberRef) (visibility : Visibility)
  | staticAccessOfInstanceField (field : MemberRef) (instruction : FieldInstruction)
  | instanceAccessOfStaticField (field : MemberRef) (instruction : FieldInstruction)
  | changeFinalField (field : MemberRef)
  | methodNotImplemented (method : MemberRef) (name : ClassName)
  | failedToReadClass (name : ClassName) (reason : String)
  | missingDependency (dependency : String)
  | cyclicDependency (cycle : List String)
  | unreadablePluginClasses (reason : String)
deriving DecidableEq, Inhabited, Repr

namespace Problem

/-- The tag under which problems of one kind are grouped. -/
def kind : Problem → String
  | classNotFound _ => "ClassNotFound"
  | methodNotFound _ _ => "MethodNotFound"
  | fieldNotFound _ _ => "FieldNotFound"
  | superClassNotFound _ _ => "SuperClassNotFound"
  | interfaceNotFound _ _ => "InterfaceNotFound"
  | unknownTypeField _ _ => "UnknownTypeField"
  | incompatibleClassChange _ _ => "IncompatibleClassChange"
  | inheritFromFinalClass _ _ => "InheritFromFinalClass"
  | illegalClassAccess _ _ => "IllegalClassAccess"
  | abstractClassInstantiation _ => "AbstractClassInstantiation"
  | interfaceInstantiation _ => "InterfaceInstantiation"
  | overridingFinalMethod _ _ => "OverridingFinalMethod"
  | invokeStaticOnInstanceMethod _ => "InvokeStaticOnInstanceMethod"
  | invokeInstanceOnStaticMethod _ _ => "InvokeInstanceOnStaticMethod"
  | invokeInterfaceOnPrivateMethod _ => "InvokeInterfaceOnPrivateMethod"
  | abstractMethodInvocation _ => "AbstractMethodInvocation"
  | illegalFieldAccess _ _ => "IllegalFieldAccess"
  | illegalMethodAccess _ _ => "IllegalMethodAccess"
  | staticAccessOfInstanceField _ _ => "StaticAccessOfInstanceField"
  | instanceAccessOfStaticField _ _ => "InstanceAccessOfStaticField"
  | changeFinalField _ => "ChangeFinalField"
  | methodNotImplemented _ _ => "MethodNotImplemented"
  | failedToReadClass _ _ => "FailedToReadClass"
  | missingDependency _ => "MissingDependency"
  | cyclicDependency _ => "CyclicDependency"
  | unreadablePluginClasses _ => "UnreadablePluginClasses"

/-- The text that tells a cycle of plugins, each naming the next. -/
def describeCycle (cycle : List String) : String :=
  "cyclic plugin dependency: " ++ " -> ".intercalate cycle

/-- The text of a problem. -/
def description : Problem → String
  | classNotFound name => s!"class {name.dotted} is not found"
  | methodNotFound method invocation =>
    s!"method {method.describe} is not found ({invocation.mnemonic})"
  | fieldNotFound field instruction =>
    s!"field {field.describe} is not found ({instruction.mnemonic})"
  | superClassNotFound name missing =>
    s!"superclass {missing.dotted} of {name.dotted} is not found"
  | interfaceNotFound name missing =>
    s!"interface {missing.dotted} implemented by {name.dotted} is not found"
  | unknownTypeField field missing =>
    s!"type {missing.dotted} of field {field.describe} is not found"
  | incompatibleClassChange name .classToInterface =>
    s!"{name.dotted} is expected to be a class but is an interface"
  | incompatibleClassChange name .interfaceToClass =>
    s!"{name.dotted} is expected to be an interface but is a class"
  | inheritFromFinalClass name superclass =>
    s!"{name.dotted} inherits from final class {superclass.dotted}"
  | illegalClassAccess name visibility =>
    s!"{visibility.describe} class {name.dotted} is not accessible"
  | abstractClassInstantiation name => s!"abstract class {name.dotted} is instantiated"
  | interfaceInstantiation name => s!"interface {name.dotted} is instantiated"
  | overridingFinalMethod method name =>
    s!"{name.dotted} overrides final method {method.describe}"
  | invokeStaticOnInstanceMethod method => s!"invokestatic on instance method {method.describe}"
  | invokeInstanceOnStaticMethod method invocation =>
    s!"{invocation.mnemonic} on static method {method.describe}"
  | invokeInterfaceOnPrivateMethod method =>
    s!"invokeinterface on private method {method.describe}"
  | abstractMethodInvocation method => s!"invokespecial on abstract method {method.describe}"
  | illegalFieldAccess field visibility =>
    s!"{visibility.describe} field {field.describe} is not accessible"
  | illegalMethodAccess method visibility =>
    s!"{visibility.describe} method {method.describe} is not accessible"
  | staticAccessOfInstanceField field instruction =>
    s!"{instruction.mnemonic} on instance field {field.describe}"
  | instanceAccessOfStaticField field instruction =>
    s!"{instruction.mnemonic} on static field {field.describe}"
  | changeFinalField field => s!"final field {field.describe} is modified"
  | methodNotImplemented method name =>
    s!"concrete class {name.dotted} does not implement {method.describe}"
  | failedToReadClass name reason => s!"class {name.dotted} cannot be read: {reason}"
  | missingDependency dependency => s!"dependency {dependency} is not resolved"
  | cyclicDependency cycle => describeCycle cycle
  | unreadablePluginClasses reason => s!"plugin classes cannot be read: {reason}"

/-- Whether the problem concerns the plugin as a whole. -/
def isPluginLevel : Problem → Bool
  | missingDependency _ | cyclicDependency _ | unreadablePluginClasses _ => true
  | _ => false

end Problem

end LinkCheck
