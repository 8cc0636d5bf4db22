import HealthCheck.Lib.CString

/-!
# The JSON field extractors

`apiService_JsonString`, `apiService_JsonNumber`, `apiService_JsonBoolean` and
`apiService_JsonHasKey` look for the quoted key in the text of a request body and read what
stands behind it. They do not parse: the first occurrence of the quoted key counts, wherever it
is.

A text is the bytes before its NUL, and a cursor is the text from its position on; the NUL is
the end of the list. An extractor that returns `0` leaves its output alone, so its result is an
`Option`.
-/

namespace HealthCheck.ApiService

open CString

/-! ## Cursors -/

/-- `(*cursor == ' ') || (*cursor == '\t')`. -/
def isBlank (c : UInt8) : Bool := c = 0x20 || c = 0x09

/-- A blank, `'\r'` or `'\n'`. -/
def isWhite (c : UInt8) : Bool := isBlank c || c = 0x0D || c = 0x0A

/-- `if (*cursor++ != c) return 0U`. -/
def expect (c : UInt8) : Bytes → Option Bytes
  | [] => none
  | d :: cursor => if d = c then some cursor else none

/-- `strchr`. -/
def strchr (c : UInt8) (cursor : Bytes) : Option Bytes :=
  let cursor := cursor.dropWhile (· ≠ c)
  if cursor.isEmpty then none else some cursor

/-- The check behind a value: white space and then `','` or `'}'`. -/
def valueEnds (cursor : Bytes) : Bool :=
  match cursor.dropWhile isWhite with
  | [] => false
  | c :: _ => c = 0x2C || c = 0x7D

/-- `snprintf(pattern, sizeof(pattern), "\"%s\"", key)` with `char pattern[40]`. -/
def pattern (key : Bytes) : Bytes := (0x22 :: (key ++ [0x22])).take 39

/-- The cursor behind the first occurrence of the pattern. -/
def findKey (json key : Bytes) : Option Bytes :=
  (strstr (pattern key) json).map fun i => json.drop (i + (pattern key).length)

/-! ## Strings -/

/-- The loop of `apiService_JsonString` over the characters of the value, with the cursor
behind the closing quote. -/
def stringValue (capacity : ℕ) : ℕ → Bytes → Option (Bytes × Bytes)
  | _, [] => none
  | length, c :: cursor =>
    if c = 0x22 then some ([], cursor)
    else if c = 0x5C ∨ c < 0x20 ∨ length ≥ capacity - 1 then none
    else (stringValue capacity (length + 1) cursor).map fun v => (c :: v.1, v.2)

/-- What `apiService_JsonString` does with the cursor behind the key. -/
def stringAt (capacity : ℕ) (cursor : Bytes) : Option Bytes := do
  let cursor ← expect 0x3A (cursor.dropWhile isBlank)
  let value ← expect 0x22 (cursor.dropWhile isBlank)
  let (text, cursor) ← stringValue capacity 0 value
  if valueEnds cursor then some text else none

/-- `apiService_JsonString`. -/
def jsonString (json key : Bytes) (capacity : ℕ) : Option Bytes :=
  if capacity = 0 then none else (findKey json key).bind (stringAt capacity)

/-! ## Keys, booleans and numbers -/

/-- `apiService_JsonHasKey`. The length is what `snprintf` would have written. -/
def jsonHasKey (json key : Bytes) : Bool :=
  key.length + 2 < 40 && (strstr (pattern key) json).isSome

/-- The cursor behind the next colon and the blanks that follow it. -/
def behindColon (cursor : Bytes) : Option Bytes :=
  (strchr 0x3A cursor).map fun cursor => cursor.tail.dropWhile isBlank

/-- `strncmp(cursor, "true", 4U) == 0`, else `strncmp(cursor, "false", 5U) == 0`: what is
parsed, with the cursor behind it. -/
def booleanToken (cursor : Bytes) : Option (Bool × Bytes) :=
  if (ascii "true").isPrefixOf cursor then some (true, cursor.drop 4)
  else if (ascii "false").isPrefixOf cursor then some (false, cursor.drop 5)
  else none

/-- What `apiService_JsonBoolean` does with the cursor behind the key. -/
def booleanAt (cursor : Bytes) : Option Bool := do
  let cursor ← behindColon cursor
  let (parsed, cursor) ← booleanToken cursor
  if valueEnds cursor then some parsed else none

/-- `apiService_JsonBoolean`. -/
def jsonBoolean (json key : Bytes) : Option Bool := (findKey json key).bind booleanAt

/-- What `apiService_JsonNumber` does with the cursor behind the key. The number starts with a
digit, so `strtoul` takes the digits, and fails with `ERANGE` when 32 bits do not hold them. -/
def numberAt (cursor : Bytes) : Option ℕ := do
  let cursor ← behindColon cursor
  let digits := cursor.takeWhile isDigit
  if digits.isEmpty then none
  else if 2 ^ 32 ≤ decimal digits then none
  else if valueEnds (cursor.drop digits.length) then some (decimal digits)
  else none

/-- `apiService_JsonNumber`. -/
def jsonNumber (json key : Bytes) : Option ℕ := (findKey json key).bind numberAt

end HealthCheck.ApiService
