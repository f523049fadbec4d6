/-!
# Reading text from the left

Descriptors and signatures are read by small recursive functions over the characters that are left.
A reader either fails or gives a value and the rest; a failed reader leaves no trace, so that an
alternative can start where it started.

## Main definitions

- `TextReader` — a reader of some prefix of the characters
- `TextReader.token`, `TextReader.takeWhile1` — single characters and non-empty runs
- `TextReader.optional`, `TextReader.many`, `TextReader.many1` — repetition, as long as it succeeds
- `TextReader.parse?` — reading a whole text
-/

namespace LinkCheck

/-- Reads a value from the front of the characters, or fails. -/
abbrev TextReader (α : Type) := StateT (List Char) Option α

namespace TextReader

variable {α : Type}

/-- Reads exactly the character `expected`. -/
def token (expected : Char) : TextReader Unit
  | [] => none
  | c :: rest => if c = expected then some ((), rest) else none

/-- Reads the longest run of characters that satisfy `accept`, which may not be empty. -/
def takeWhile1 (accept : Char → Bool) : TextReader String := fun input =>
  match input.takeWhile accept with
  | [] => none
  | run => some (String.ofList run, input.dropWhile accept)

/-- Reads with `reader`, or reads nothing where it fails. -/
def optional (reader : TextReader α) : TextReader (Option α) := fun input =>
  match reader input with
  | none => some (none, input)
  | some (value, rest) => some (some value, rest)

/-- Reads with `reader` until it fails, at most `limit` times. -/
def upTo (reader : TextReader α) : Nat → List Char → List α × List Char
  | 0, input => ([], input)
  | limit + 1, input =>
    match reader input with
    | none => ([], input)
    | some (value, rest) =>
      let (values, rest) := upTo reader limit rest
      (value :: values, rest)

/-- Reads with `reader` until it fails. Each success of `reader` takes at least one character, so the
number of characters bounds the number of successes. -/
def many (reader : TextReader α) : TextReader (List α) := fun input =>
  some (upTo reader input.length input)

/-- Reads with `reader` once and then until it fails. -/
def many1 (reader : TextReader α) : TextReader (List α) := do
  let first ← reader
  let others ← many reader
  return first :: others

/-- The value of a text that `reader` reads to its end. -/
def parse? (reader : TextReader α) (text : String) : Option α :=
  match reader text.toList with
  | some (value, []) => some value
  | _ => none

end TextReader

end LinkCheck
