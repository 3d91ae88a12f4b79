/-!
Reading JSON text from the front: blanks, strings, and values that are checked but not kept. Each
reader gives what is left of the text.
-/
namespace LosslessSyntax.JsonReader

def skipBlanks (text : List Char) : List Char :=
  text.dropWhile fun c => c == ' ' || c == '\n' || c == '\t' || c == '\r'

def hexValue? (c : Char) : Option Nat :=
  if '0' ≤ c ∧ c ≤ '9' then some (c.toNat - '0'.toNat)
  else if 'a' ≤ c ∧ c ≤ 'f' then some (c.toNat - 'a'.toNat + 10)
  else if 'A' ≤ c ∧ c ≤ 'F' then some (c.toNat - 'A'.toNat + 10)
  else none

def unit? : List Char → Option (Nat × List Char)
  | a :: b :: c :: d :: rest => do
    let a ← hexValue? a
    let b ← hexValue? b
    let c ← hexValue? c
    let d ← hexValue? d
    return (((a * 16 + b) * 16 + c) * 16 + d, rest)
  | _ => none

def isHighSurrogate (unit : Nat) : Bool := 0xD800 ≤ unit && unit ≤ 0xDBFF

def isLowSurrogate (unit : Nat) : Bool := 0xDC00 ≤ unit && unit ≤ 0xDFFF

def shortEscape? : Char → Option Char
  | '"' => some '"'
  | '\\' => some '\\'
  | '/' => some '/'
  | 'b' => some '\x08'
  | 'f' => some '\x0c'
  | 'n' => some '\n'
  | 'r' => some '\r'
  | 't' => some '\t'
  | _ => none

/-- The rest of a string after its opening quote, decoded. Surrogates have to come in pairs. Each
round takes a character, so the length of the text is fuel enough. -/
def stringRest? : Nat → List Char → Option (List Char × List Char)
  | 0, _ => none
  | _, [] => none
  | _ + 1, '"' :: rest => some ([], rest)
  | fuel + 1, '\\' :: 'u' :: rest => do
    let (unit, rest) ← unit? rest
    let (code, rest) ←
      if isHighSurrogate unit then
        match rest with
        | '\\' :: 'u' :: rest => do
          let (low, rest) ← unit? rest
          if isLowSurrogate low then
            some (0x10000 + (unit - 0xD800) * 0x400 + (low - 0xDC00), rest)
          else none
        | _ => none
      else if isLowSurrogate unit then none
      else some (unit, rest)
    let (tail, rest) ← stringRest? fuel rest
    return (Char.ofNat code :: tail, rest)
  | fuel + 1, '\\' :: c :: rest => do
    let c ← shortEscape? c
    let (tail, rest) ← stringRest? fuel rest
    return (c :: tail, rest)
  | fuel + 1, c :: rest =>
    if c.toNat < 0x20 ∨ c = '\\' then none
    else do
      let (tail, rest) ← stringRest? fuel rest
      return (c :: tail, rest)

def string? : List Char → Option (String × List Char)
  | '"' :: text => (stringRest? text.length text).map fun (decoded, rest) =>
      (String.ofList decoded, rest)
  | _ => none

/-- The rest of a string after its opening quote. Its escapes are checked for their form only. -/
def skipStringRest? : Nat → List Char → Option (List Char)
  | 0, _ => none
  | _, [] => none
  | _ + 1, '"' :: rest => some rest
  | fuel + 1, '\\' :: 'u' :: rest => (unit? rest).bind fun (_, rest) => skipStringRest? fuel rest
  | fuel + 1, '\\' :: c :: rest => (shortEscape? c).bind fun _ => skipStringRest? fuel rest
  | fuel + 1, c :: rest =>
    if c.toNat < 0x20 ∨ c = '\\' then none else skipStringRest? fuel rest

def isDigit (c : Char) : Bool := '0' ≤ c && c ≤ '9'

def skipDigits? (text : List Char) : Option (List Char) :=
  match text with
  | c :: rest => if isDigit c then some (rest.dropWhile isDigit) else none
  | [] => none

def skipFraction? : List Char → Option (List Char)
  | '.' :: rest => skipDigits? rest
  | text => some text

def skipExponent? : List Char → Option (List Char)
  | c :: rest =>
    if c = 'e' ∨ c = 'E' then
      match rest with
      | '+' :: rest => skipDigits? rest
      | '-' :: rest => skipDigits? rest
      | rest => skipDigits? rest
    else some (c :: rest)
  | [] => some []

/-- A number. No digit can follow a leading zero. -/
def skipNumber? (text : List Char) : Option (List Char) :=
  let unsigned := match text with
    | '-' :: rest => rest
    | text => text
  let whole := match unsigned with
    | '0' :: c :: rest => if isDigit c then none else some (c :: rest)
    | text => skipDigits? text
  whole.bind fun rest => (skipFraction? rest).bind skipExponent?

def skipWord? (word : List Char) (text : List Char) : Option (List Char) :=
  if word.isPrefixOf text then some (text.drop word.length) else none

inductive Bracket where
  | array
  | object
deriving DecidableEq, Repr

mutual

/-- A value, inside the given brackets. Each round takes a character, so the length of the text is
fuel enough. -/
def skipValue? : Nat → List Bracket → List Char → Option (List Char)
  | 0, _, _ => none
  | fuel + 1, brackets, text =>
    match skipBlanks text with
    | '[' :: rest =>
      match skipBlanks rest with
      | ']' :: rest => skipAfter? fuel brackets rest
      | rest => skipValue? fuel (.array :: brackets) rest
    | '\x7b' :: rest =>
      match skipBlanks rest with
      | '\x7d' :: rest => skipAfter? fuel brackets rest
      | rest => skipMember? fuel brackets rest
    | '"' :: rest => (skipStringRest? fuel rest).bind (skipAfter? fuel brackets)
    | 'n' :: rest => (skipWord? ['u', 'l', 'l'] rest).bind (skipAfter? fuel brackets)
    | 't' :: rest => (skipWord? ['r', 'u', 'e'] rest).bind (skipAfter? fuel brackets)
    | 'f' :: rest => (skipWord? ['a', 'l', 's', 'e'] rest).bind (skipAfter? fuel brackets)
    | rest => (skipNumber? rest).bind (skipAfter? fuel brackets)

def skipMember? : Nat → List Bracket → List Char → Option (List Char)
  | 0, _, _ => none
  | fuel + 1, brackets, text =>
    match skipBlanks text with
    | '"' :: rest =>
      (skipStringRest? fuel rest).bind fun rest =>
        match skipBlanks rest with
        | ':' :: rest => skipValue? fuel (.object :: brackets) rest
        | _ => none
    | _ => none

def skipAfter? : Nat → List Bracket → List Char → Option (List Char)
  | 0, _, _ => none
  | _ + 1, [], text => some text
  | fuel + 1, .array :: brackets, text =>
    match skipBlanks text with
    | ']' :: rest => skipAfter? fuel brackets rest
    | ',' :: rest => skipValue? fuel (.array :: brackets) rest
    | _ => none
  | fuel + 1, .object :: brackets, text =>
    match skipBlanks text with
    | '\x7d' :: rest => skipAfter? fuel brackets rest
    | ',' :: rest => skipMember? fuel brackets rest
    | _ => none

end

def skip? (text : List Char) : Option (List Char) := skipValue? (2 * text.length + 2) [] text

end LosslessSyntax.JsonReader
