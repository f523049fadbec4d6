import LinkCheck.Classpath

/-!
# Inquiries

A check asks for one class after the other, and what it asks for next depends on the answers. An inquiry
is such a computation apart from where the answers come from. A source is asked each time, and may
remember something from one question to the next. A classpath has all answers ready.

## Main definitions

- `Listed` — a class that was found under one of the names that can be found
- `Inquiry` — a computation that asks for classes by name
- `Inquiry.collect` — the same inquiry for each member of a list
- `Inquiry.through` — an inquiry with the answers of a source
- `Inquiry.answeredBy` — an inquiry with the answers of a classpath

## Design notes

Which names can be found is known before the first question. A question may be about any other name too,
but is then answered with nothing. So an inquiry that goes to each name at most once comes to an end.
-/

namespace LinkCheck

/-- A class that was found under a name, which is among those that can be found. -/
structure Listed (names : List ClassName) (name : ClassName) where
  definition : ClassDefinition
  listed : name ∈ names

/-- What an answer means for a class that is needed. -/
def Listed.ofAnswer (names : List ClassName) (name : ClassName) (answer : FindResult) :
    Except Unresolved (Listed names name) :=
  if listed : name ∈ names then
    match answer with
    | .ok (some definition) => .ok ⟨definition, listed⟩
    | .ok none => .error ⟨name, none⟩
    | .error error => .error ⟨name, some error⟩
  else .error ⟨name, none⟩

/-- A computation that asks for classes by name, and goes on with what it is told. -/
inductive Inquiry (names : List ClassName) (α : Type) where
  | done (result : α)
  | ask (name : ClassName) (next : Except Unresolved (Listed names name) → Inquiry names α)

namespace Inquiry

variable {names : List ClassName} {α β : Type}

/-- An inquiry that goes on with another. -/
def bind (inquiry : Inquiry names α) (next : α → Inquiry names β) : Inquiry names β :=
  match inquiry with
  | done result => next result
  | ask name rest => ask name fun found => (rest found).bind next

instance : Monad (Inquiry names) where
  pure := done
  bind := bind

/-- Asks for a class, which has to be there and readable. -/
def load (name : ClassName) : Inquiry names (Except Unresolved (Listed names name)) :=
  ask name done

/-- The results of an inquiry for each member of a list, one behind the other. -/
def collect (inquire : α → Inquiry names (List β)) : List α → Inquiry names (List β)
  | [] => return []
  | member :: members => do return (← inquire member) ++ (← collect inquire members)

/-- An inquiry with the answers of a source. Each question is put to the source as the last one left
it. -/
def through (source : ClassSource) : Inquiry names α → Shelved α
  | done result => return result
  | ask name next => do
    let answer ← source.find name
    (next (Listed.ofAnswer names name answer)).through source

end Inquiry

/-- An inquiry with the answers of a classpath. -/
def Inquiry.answeredBy {α : Type} (classpath : Classpath) : Inquiry classpath.names α → α
  | done result => result
  | ask name next =>
    (next (Listed.ofAnswer classpath.names name (classpath.lookup name))).answeredBy classpath

end LinkCheck
