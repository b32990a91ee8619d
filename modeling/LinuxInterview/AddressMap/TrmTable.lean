import LinuxInterview.AddressMap.Sizes

/-!
# The address table of `trm_addrmap.py`

The table of the reference manual comes as text with one cell on a line. What belongs to the pages is
left out, and the rows are found as three cells of which the second is an address and the third a size.
-/

namespace LinuxInterview.AddressMap
open Library Library.Csv Mmio

def startsWith (start : String) (line : Text) : Bool := start.toList.isPrefixOf line

def tableLine (line : Text) : Bool := startsWith "Table 1-1" line

def sectionLine (line : Text) : Bool := startsWith "1.2 " line || startsWith "1.3 " line

def captions : List Text := ["Module", "Start Address", "Size"].map String.toList

/-- `re.fullmatch(r'\d+', t)`. -/
def isNumber (t : Text) : Bool := !t.isEmpty && t.all isDecimal

def pageNoise (t : Text) : Bool :=
  captions.contains t || startsWith "RK3588 TRM" t || isNumber t ||
    decide ("Copyright".toList <:+: t) || startsWith "Chapter" t

def isHexDigit (c : Char) : Bool :=
  c.isDigit || (decide ('A' ≤ c) && decide (c ≤ 'F')) || (decide ('a' ≤ c) && decide (c ≤ 'f'))

/-- `^[0-9A-Fa-f]{8}$`. -/
def hexre (t : Text) : Bool := t.length == 8 && t.all isHexDigit

/-- The letters that `[KMG]` matches under `re.I`, the Kelvin sign among them. -/
def unitLetters : Text := ['K', 'M', 'G', 'k', 'm', 'g', '\u212a']

/-- What is left of a size after its numeral, `\d+(\.\d+)?`. -/
def afterNumeral (t : Text) : Text :=
  match t.dropWhile isDecimal with
  | '.' :: fraction =>
      if fraction.takeWhile isDecimal = [] then '.' :: fraction else fraction.dropWhile isDecimal
  | rest => rest

/-- `^\d+(\.\d+)?\s*[KMG]B$`. -/
def sizere (t : Text) : Bool :=
  !(t.takeWhile isDecimal).isEmpty &&
    match (afterNumeral t).dropWhile isBlank with
    | [unit, byte] => unitLetters.contains unit && (byte == 'B' || byte == 'b')
    | _ => false

structure Entry where
  module : Text
  start : Nat
  size : Text

def Entry.line (e : Entry) : Text := e.module ++ ',' :: (hex8 e.start ++ ',' :: e.size)

def tokens (lines : List Text) : List Text :=
  ((lines.map strip).filter fun t => !t.isEmpty).filter fun t => !pageNoise t

def scan : List Text → Except PyError (List Entry)
  | name :: address :: size :: rest =>
      if hexre address && sizere size then do
        let start ← intHex address
        let out ← scan rest
        return ⟨name, start, size.filter (· ≠ ' ')⟩ :: out
      else scan (address :: size :: rest)
  | _ => .ok []

/-- The lines that are printed; `none` is an exception. -/
def trmAddrmap (file : Text) : Option (List Text) := do
  let lines := splitAt '\n' file
  let start ← lines.findIdx? tableLine
  let end_ ← lines.findIdx? sectionLine
  let out ← (scan (tokens ((lines.take end_).drop (start + 1)))).toOption
  return [','].intercalate trmHeader ::
    (out.mergeSort fun x y => decide (x.start ≤ y.start)).map Entry.line

end LinuxInterview.AddressMap
