/-!
JSON values and their text: a compact form and one indented by two blanks a level. Objects keep
the order of their members. Text outside ASCII stays as it is, and so does the character U+007F.
-/
namespace LosslessSyntax

mutual

inductive Json where
  | null
  | bool (value : Bool)
  | number (value : Nat)
  | string (value : String)
  | array (elements : List Json)
  | object (members : List JsonMember)

inductive JsonMember where
  | mk (name : String) (value : Json)

end

namespace Json

def ofMembers (members : List (String × Json)) : Json :=
  .object (members.map fun (name, value) => .mk name value)

/-- Quotes, backslashes and the control characters below the blank are escaped. -/
def escapedChar (c : Char) : List Char :=
  match c with
  | '"' => ['\\', '"']
  | '\\' => ['\\', '\\']
  | '\x08' => ['\\', 'b']
  | '\t' => ['\\', 't']
  | '\n' => ['\\', 'n']
  | '\x0c' => ['\\', 'f']
  | '\r' => ['\\', 'r']
  | c =>
    if c.toNat < 0x20 then
      ['\\', 'u', '0', '0'] ++ (if c.toNat < 0x10 then ['0'] else []) ++ Nat.toDigits 16 c.toNat
    else [c]

def quote (text : String) : String :=
  String.ofList (['"'] ++ text.toList.flatMap escapedChar ++ ['"'])

mutual

def compact : Json → String
  | .null => "null"
  | .bool value => if value then "true" else "false"
  | .number value => toString value
  | .string value => quote value
  | .array elements => "[" ++ compactElements elements ++ "]"
  | .object members => "\x7b" ++ compactMembers members ++ "\x7d"

def compactElements : List Json → String
  | [] => ""
  | [value] => compact value
  | value :: rest => compact value ++ "," ++ compactElements rest

def compactMembers : List JsonMember → String
  | [] => ""
  | [member] => compactMember member
  | member :: rest => compactMember member ++ "," ++ compactMembers rest

def compactMember : JsonMember → String
  | .mk name value => quote name ++ ":" ++ compact value

end

def newline (level : Nat) : String := String.ofList ('\n' :: List.replicate (2 * level) ' ')

mutual

def pretty (level : Nat) : Json → String
  | .null => "null"
  | .bool value => if value then "true" else "false"
  | .number value => toString value
  | .string value => quote value
  | .array [] => "[]"
  | .array (value :: rest) =>
    "[" ++ newline (level + 1) ++ pretty (level + 1) value ++
      prettyElements (level + 1) rest ++ newline level ++ "]"
  | .object [] => "\x7b\x7d"
  | .object (member :: rest) =>
    "\x7b" ++ newline (level + 1) ++ prettyMember (level + 1) member ++
      prettyMembers (level + 1) rest ++ newline level ++ "\x7d"

def prettyElements (level : Nat) : List Json → String
  | [] => ""
  | value :: rest => "," ++ newline level ++ pretty level value ++ prettyElements level rest

def prettyMembers (level : Nat) : List JsonMember → String
  | [] => ""
  | member :: rest => "," ++ newline level ++ prettyMember level member ++ prettyMembers level rest

def prettyMember (level : Nat) : JsonMember → String
  | .mk name value => quote name ++ ": " ++ pretty level value

end

end Json

end LosslessSyntax
