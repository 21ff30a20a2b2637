/-! Compact JSON text, built from the inside out. Fields stay in the order given. -/

namespace FramePool

namespace JsonText

def hexDigits (n : Nat) : String :=
  let digits := Nat.toDigits 16 n
  String.ofList (List.replicate (4 - digits.length) '0' ++ digits)

def escape (c : Char) : String :=
  match c with
  | '"' => "\\\""
  | '\\' => "\\\\"
  | '\x08' => "\\b"
  | '\x0c' => "\\f"
  | '\n' => "\\n"
  | '\r' => "\\r"
  | '\t' => "\\t"
  | c => if c.toNat < 0x20 then "\\u" ++ hexDigits c.toNat else c.toString

def string (s : String) : String := "\"" ++ String.join (s.toList.map escape) ++ "\""

def number (n : Nat) : String := toString n

def bool (b : Bool) : String := if b then "true" else "false"

def array (items : List String) : String := "[" ++ ",".intercalate items ++ "]"

def object (fields : List (String × String)) : String :=
  "\x7b" ++ ",".intercalate (fields.map fun (key, value) => string key ++ ":" ++ value) ++ "\x7d"

end JsonText

end FramePool
