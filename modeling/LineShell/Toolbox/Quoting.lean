import LineShell.Text.Utf8

/-!
# How tools quote names

Reports of tools quote the names of files so that a shell reads them back as they are. A name
without special characters may stay as it is; others stand between single quotes. Characters that
cannot be printed are written as escapes, and a single quote inside a name is written outside the
quotes, unless double quotes around the whole name do as well.

Other texts are quoted for the eye only: between single quotes, with escapes inside.
-/

namespace LineShell.Toolbox

/-- The letter of the escape that stands for a control character. -/
def escapeLetter? (octet : UInt8) : Option Char :=
  match octet.toNat with
  | 7 => some 'a'
  | 8 => some 'b'
  | 9 => some 't'
  | 10 => some 'n'
  | 11 => some 'v'
  | 12 => some 'f'
  | 13 => some 'r'
  | _ => none

/-- Octets that are printed as they are. -/
def isPrintable (octet : UInt8) : Bool := 0x20 ≤ octet && octet ≤ 0x7E

/-- An octet as three octal digits. -/
def octal (octet : UInt8) : List Char :=
  let n := octet.toNat
  [n / 64, n / 8 % 8, n % 8].map fun digit => Char.ofNat (48 + digit)

/-- The escape for an octet that cannot be printed. -/
def escaped (octet : UInt8) : List Char :=
  '\\' :: match escapeLetter? octet with
    | some letter => [letter]
    | none => octal octet

/-- The character of an octet that can be printed. -/
def charOf (octet : UInt8) : Char := Char.ofNat octet.toNat

/-- Whether a character makes a shell read a name differently, at a position of the name. -/
def isSpecial (alone first : Bool) (octet : UInt8) : Bool :=
  let c := charOf octet
  !isPrintable octet || "'\\? !\"$&()*;<=>[^\x60|:".toList.contains c ||
    ((c == '#' || c == '~') && first) || ((c == '\x7b' || c == '\x7d') && alone)

/-- Whether a character means the same between double quotes as it does in print. -/
def isPlainInQuotes (alone first : Bool) (octet : UInt8) : Bool :=
  let c := charOf octet
  c.isAlphanum || "%+,-./:]_ '@".toList.contains c || ((c == '#' || c == '~') && first) ||
    ((c == '\x7b' || c == '\x7d') && alone)

/-- Whether all octets of a name have a property that may depend on where they stand. -/
def allOctets (p : Bool → Bool → UInt8 → Bool) (name : Bytes) : Bool :=
  (name.mapIdx fun i octet => p (name.length == 1) (i == 0) octet).all id

/-- The inside of a name between single quotes; `escaping` tells that an escape was written last. -/
def quotedInside : Bool → Bytes → List Char
  | _, [] => []
  | escaping, octet :: rest =>
    if octet == 0x27 then "'\\''".toList ++ quotedInside false rest
    else if isPrintable octet then
      (if escaping then "''".toList else []) ++ charOf octet :: quotedInside false rest
    else
      (if escaping then [] else "'$'".toList) ++ escaped octet ++ quotedInside true rest

/-- A name in quotes. -/
def quoteAlways (name : String) : String :=
  let name := octets name
  if name.contains 0x27 && allOctets isPlainInQuotes name then
    "\"" ++ String.ofList (name.map charOf) ++ "\""
  else "'" ++ String.ofList (quotedInside false name) ++ "'"

/-- A name in quotes if it needs them. -/
def quoteName (name : String) : String :=
  if name != "" && allOctets (fun alone first octet => !isSpecial alone first octet) (octets name)
  then name
  else quoteAlways name

/-- A text in quotes for the eye. -/
def quoteText (text : String) : String :=
  let inside := (octets text).flatMap fun octet =>
    if octet == 0x27 || octet == 0x5C then ['\\', charOf octet]
    else if isPrintable octet then [charOf octet]
    else escaped octet
  "'" ++ String.ofList inside ++ "'"

end LineShell.Toolbox
