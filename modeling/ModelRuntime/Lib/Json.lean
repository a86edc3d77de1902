import ModelRuntime.Cpp.Bytes

/-!
# JSON texts

A decoder for JSON over bytes. Strings decode to the UTF-8 bytes they denote, with every escape
undone and lone surrogates refused; a number stays the text it is. The recursion of `value` is
bounded by a fuel, which is never the reason of a refusal where it exceeds the length of the text.
-/

namespace ModelRuntime.Lib
open Cpp

inductive Json where
  | null
  | bool (b : Bool)
  | number (text : Bytes)
  | string (s : Bytes)
  | array (xs : List Json)
  | object (members : List (Bytes × Json))

namespace Json

/-- Blank, TAB, LF, CR. -/
def isWs (c : UInt8) : Bool := c == 32 || c == 9 || c == 10 || c == 13

def skipWs (r : Bytes) : Bytes := r.dropWhile isWs

/-! ## Strings -/

def hexDigit (c : UInt8) : Option Nat :=
  if 48 ≤ c ∧ c ≤ 57 then some (c.toNat - 48)
  else if 97 ≤ c ∧ c ≤ 102 then some (c.toNat - 87)
  else if 65 ≤ c ∧ c ≤ 70 then some (c.toNat - 55)
  else none

/-- The number that four hexadecimal digits write. -/
def hex4 (a b c d : UInt8) : Option Nat := do
  return (((← hexDigit a) * 16 + (← hexDigit b)) * 16 + (← hexDigit c)) * 16 + (← hexDigit d)

/-- The byte a one-letter escape stands for. -/
def unescape (e : UInt8) : Option UInt8 :=
  if e = quote ∨ e = backslash ∨ e = 47 then some e
  else if e = 98 then some 8
  else if e = 102 then some 12
  else if e = 110 then some 10
  else if e = 114 then some 13
  else if e = 116 then some 9
  else none

/-- The UTF-8 bytes of a code point. -/
def encode (n : Nat) : Bytes := String.utf8EncodeChar (Char.ofNat n)

/-- What stands after a backslash: the bytes it denotes and its length. -/
def escape : Bytes → Option (Bytes × Nat)
  | [] => none
  | 117 :: a :: b :: c :: d :: r => do
    let n ← hex4 a b c d
    if n < 0xD800 ∨ 0xE000 ≤ n then return (encode n, 5)
    match r with
    | 92 :: 117 :: a :: b :: c :: d :: _ => do
      let m ← hex4 a b c d
      if n < 0xDC00 ∧ 0xDC00 ≤ m ∧ m < 0xE000 then
        return (encode (0x10000 + (n - 0xD800) * 1024 + (m - 0xDC00)), 11)
      none
    | _ => none
  | e :: _ => (unescape e).map fun b => ([b], 1)

/-- `stringBody` after the next `skip` bytes. -/
def stringFrom : (skip : Nat) → Bytes → Option (Bytes × Bytes)
  | _, [] => none
  | skip + 1, _ :: r => stringFrom skip r
  | 0, c :: r =>
    if c = quote then some ([], r)
    else if c = backslash then
      match escape r with
      | none => none
      | some (d, n) => (stringFrom n r).map fun (s, t) => (d ++ s, t)
    else if c < 32 then none
    else (stringFrom 0 r).map fun (s, t) => (c :: s, t)

/-- After the opening quote of a string: the bytes it denotes and the text after its closing quote. -/
def stringBody (r : Bytes) : Option (Bytes × Bytes) := stringFrom 0 r

/-! ## Numbers and literals -/

/-- One or more digits. -/
def digits1 : Bytes → Option Bytes
  | [] => none
  | c :: r => if isDigit c then some (r.dropWhile isDigit) else none

/-- `0`, or digits that do not start with `0`. -/
def intPart : Bytes → Option Bytes
  | [] => none
  | c :: r =>
    if c = 48 then some r else if isDigit c then some (r.dropWhile isDigit) else none

/-- The text after `c` where it stands next. -/
def dropByte (p : UInt8 → Bool) : Bytes → Option Bytes
  | [] => none
  | c :: r => if p c then some r else none

/-- An optional `.` with digits. -/
def fracPart (r : Bytes) : Option Bytes :=
  match dropByte (· == 46) r with
  | none => some r
  | some r => digits1 r

/-- An optional `e` or `E` with an optional sign and digits. -/
def expPart (r : Bytes) : Option Bytes :=
  match dropByte (fun c => c == 101 || c == 69) r with
  | none => some r
  | some r => digits1 ((dropByte (fun c => c == 43 || c == 45) r).getD r)

/-- The text after a number. -/
def afterNumber (r : Bytes) : Option Bytes :=
  ((intPart ((dropByte (· == 45) r).getD r)).bind fracPart).bind expPart

/-- `true`, `false`, `null` or a number. -/
def literal (r : Bytes) : Option (Json × Bytes) :=
  if (str "true").isPrefixOf r then some (.bool true, r.drop 4)
  else if (str "false").isPrefixOf r then some (.bool false, r.drop 5)
  else if (str "null").isPrefixOf r then some (.null, r.drop 4)
  else (afterNumber r).map fun rest => (.number (r.take (r.length - rest.length)), rest)

/-! ## Values -/

mutual

/-- The value that stands next and the text after it. -/
def value : Nat → Bytes → Option (Json × Bytes)
  | 0, _ => none
  | _, [] => none
  | fuel + 1, c :: r =>
    if c = quote then (stringBody r).map fun (s, r) => (.string s, r)
    else if c = 91 then
      match dropByte (· == 93) (skipWs r) with
      | some r => some (.array [], r)
      | none => (elements fuel (skipWs r)).map fun (xs, r) => (.array xs, r)
    else if c = openBrace then
      match dropByte (· == closeBrace) (skipWs r) with
      | some r => some (.object [], r)
      | none => (members fuel (skipWs r)).map fun (ms, r) => (.object ms, r)
    else literal (c :: r)

/-- The elements of an array up to its closing bracket. -/
def elements : Nat → Bytes → Option (List Json × Bytes)
  | 0, _ => none
  | fuel + 1, r => do
    let (x, r) ← value fuel r
    match dropByte (· == comma) (skipWs r) with
    | some r => (elements fuel (skipWs r)).map fun (xs, r) => (x :: xs, r)
    | none => (dropByte (· == 93) (skipWs r)).map fun r => ([x], r)

/-- The members of an object up to its closing brace. -/
def members : Nat → Bytes → Option (List (Bytes × Json) × Bytes)
  | 0, _ => none
  | fuel + 1, r => do
    let r ← dropByte (· == quote) r
    let (key, r) ← stringBody r
    let r ← dropByte (· == colon) (skipWs r)
    let (x, r) ← value fuel (skipWs r)
    match dropByte (· == comma) (skipWs r) with
    | some r => (members fuel (skipWs r)).map fun (ms, r) => ((key, x) :: ms, r)
    | none => (dropByte (· == closeBrace) (skipWs r)).map fun r => ([(key, x)], r)

end

/-- The value whose text is all of `bs`. -/
def ofText (bs : Bytes) : Option Json :=
  match value (bs.length + 1) bs with
  | some (v, []) => some v
  | _ => none

/-- The value of a document, blanks around it allowed. -/
def decode (bs : Bytes) : Option Json :=
  match value (bs.length + 1) (skipWs bs) with
  | some (v, r) => if skipWs r = [] then some v else none
  | none => none

/-- The value of the only member with that name. -/
def member (name : Bytes) : Json → Option Json
  | .object ms =>
    match ms.filter (·.1 == name) with
    | [(_, v)] => some v
    | _ => none
  | _ => none

def element (i : Nat) : Json → Option Json
  | .array xs => xs[i]?
  | _ => none

end Json
end ModelRuntime.Lib
