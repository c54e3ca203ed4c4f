import Mathlib.Data.Rat.Floor
import Zeroscript.Register

/-! # Exact numbers

The instance of the `FLOAT` operations without rounding and without NaN. Texts follow
`num_to_str` (a buffer of eleven bytes, `%d` of a 32-bit value, `%f` otherwise) and `atof`. -/
namespace Zeroscript

def truncate (q : ℚ) : ℤ := if 0 ≤ q then ⌊q⌋ else -⌊-q⌋

/-- What `%d` prints of the low half of an `int_t`. -/
def lowHalf (n : ℤ) : ℤ := (n + 2 ^ 31) % 2 ^ 32 - 2 ^ 31

/-- The nearest integer of a nonnegative number, a tie to the even one. -/
def roundEven (q : ℚ) : ℕ :=
  let n := ⌊q⌋.toNat
  if q - n < 1 / 2 ∨ q - n = 1 / 2 ∧ n % 2 = 0 then n else n + 1

/-- Six decimals, as `%f` prints them. -/
def sixDecimals (q : ℚ) : String :=
  let scaled := roundEven (|q| * 10 ^ 6)
  let digits := toString (scaled % 10 ^ 6)
  (if q < 0 then "-" else "") ++ toString (scaled / 10 ^ 6) ++ "."
    ++ "".pushn '0' (6 - digits.length) ++ digits

def numToStr (q : ℚ) : String :=
  let text := if (truncate q : ℚ) = q then toString (lowHalf (truncate q)) else sixDecimals q
  String.ofList (text.toList.take 10)

def isSpace (c : Char) : Bool := c == ' ' || (9 ≤ c.toNat && c.toNat ≤ 13)

def digitValue (c : Char) : ℕ :=
  if c.isDigit then c.toNat - '0'.toNat else c.toLower.toNat - 'a'.toNat + 10

def digitsValue (base : ℕ) (digits : List Char) : ℕ := digits.foldl (fun n c => base * n + digitValue c) 0

/-- Whether there is a minus sign, and what follows the sign. -/
def splitSign : List Char → Bool × List Char
  | '-' :: rest => (true, rest)
  | '+' :: rest => (false, rest)
  | text => (false, text)

/-- The factor of an exponent, which begins with `letter`. -/
def exponentFactor (radix : ℕ) (letter : Char) : List Char → ℚ
  | [] => 1
  | c :: rest =>
    if c.toLower = letter then
      let (negative, digits) := splitSign rest
      let power : ℚ := radix ^ digitsValue 10 (digits.takeWhile Char.isDigit)
      if negative then power⁻¹ else power
    else 1

/-- Digits, an optional fraction and an optional exponent; whatever follows is ignored. -/
def parseUnsigned (base : ℕ) (isDigit : Char → Bool) (radix : ℕ) (letter : Char) (text : List Char) : ℚ :=
  let whole := text.takeWhile isDigit
  match text.dropWhile isDigit with
  | '.' :: rest =>
    let fraction := rest.takeWhile isDigit
    (digitsValue base whole + (digitsValue base fraction : ℚ) / base ^ fraction.length)
      * exponentFactor radix letter (rest.dropWhile isDigit)
  | rest => digitsValue base whole * exponentFactor radix letter rest

def parseDecimal (text : List Char) : ℚ := parseUnsigned 10 Char.isDigit 10 'e' text

def parseMagnitude : List Char → ℚ
  | '0' :: x :: rest =>
    if x = 'x' ∨ x = 'X' then parseUnsigned 16 Char.isHexDigit 2 'p' rest else parseDecimal ('0' :: x :: rest)
  | text => parseDecimal text

/-- `atof`, for which `INF` and `NAN` are no numbers here. -/
def parseNumber (text : String) : ℚ :=
  let (negative, rest) := splitSign (text.toList.dropWhile isSpace)
  if negative then -parseMagnitude rest else parseMagnitude rest

example : parseNumber " -12.5e2;" = -1250 ∧ parseNumber "+0x1Fp1" = 62 := by decide +kernel

instance : NumOps ℚ where
  zero := 0
  one := 1
  add := (· + ·)
  sub := (· - ·)
  mul := (· * ·)
  div := (· / ·)
  fmod x y := x - y * truncate (x / y)
  eq x y := decide (x = y)
  lt x y := decide (x < y)
  le x y := decide (x ≤ y)
  isZero x := decide (x = 0)
  bitEq x y := decide (x = y)
  ofRaw n := n / 2 ^ 1074
  ofNative f := (f.ctorIdx + 1) / 2 ^ 1074
  ofNat n := n
  trunc x := truncate x
  toIndex x := if 0 ≤ x then some (truncate x).toNat else none
  atof := parseNumber
  toText := numToStr

end Zeroscript
