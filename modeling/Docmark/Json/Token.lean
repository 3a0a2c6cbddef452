import Docmark.Json.Decimal
import Docmark.Json.Quoted

namespace Docmark.Json

/-- A value without parts. Numbers are only told apart by whether a double has room for them, since
nothing that is read here is a number. -/
inductive Scalar
  | null
  | bool (b : Bool)
  | number (inRange : Bool)
  | text (q : Quoted)
  /-- The fault of a reader that wants the value, and that of one that passes over it. -/
  | broken (wanted passed : Fault)
  deriving DecidableEq, Repr

inductive Token
  | beginArray
  | endArray
  | beginObject
  | endObject
  | comma
  | colon
  | scalar (s : Scalar)
  deriving DecidableEq, Repr

namespace Token

def readWord (expected : Text) (s : Scalar) (t : Text) : Scalar × Text :=
  match Text.dropOpening? expected t with
  | some rest => (s, rest)
  | none =>
    let fault : Fault := if t.isPrefixOf expected then .ended else .notJson
    (.broken fault fault, [])

def missingDigit (t : Text) : Scalar × Text :=
  (.broken (if t.isEmpty then .ended else .notJson) .notJson, [])

def finish (whole fraction : Text) (exponent : Int) (rest : Text) : Scalar × Text :=
  (.number (Decimal.ofDigits whole fraction exponent).fitsDouble, rest)

def cutSign : Text → Bool × Text
  | '-' :: t => (true, t)
  | '+' :: t => (false, t)
  | t => (false, t)

def readExponent (whole fraction t : Text) : Scalar × Text :=
  let behind := (cutSign t).2
  match behind.takeWhile Char.isDigit with
  | [] => missingDigit behind
  | digits =>
    let n : Int := (Text.numberFrom? 10 0 digits).getD 0
    finish whole fraction (if (cutSign t).1 then -n else n) (behind.dropWhile Char.isDigit)

def readScale (whole fraction : Text) : Text → Scalar × Text
  | 'e' :: t => readExponent whole fraction t
  | 'E' :: t => readExponent whole fraction t
  | t => finish whole fraction 0 t

def readFraction (whole : Text) : Text → Scalar × Text
  | '.' :: t =>
    match t.takeWhile Char.isDigit with
    | [] => missingDigit t
    | fraction => readScale whole fraction (t.dropWhile Char.isDigit)
  | t => readScale whole [] t

def readNumber (first : Char) (t : Text) : Scalar × Text :=
  if first = '0' then
    if t.head?.any Char.isDigit then (.broken .notJson .notJson, []) else readFraction ['0'] t
  else readFraction (first :: t.takeWhile Char.isDigit) (t.dropWhile Char.isDigit)

def readNegative : Text → Scalar × Text
  | first :: t => if first.isDigit then readNumber first t else missingDigit (first :: t)
  | [] => missingDigit []

def readScalar (c : Char) (t : Text) : Scalar × Text :=
  if c = '"' then ((Quoted.scan t).map .text id)
  else if c = 'n' then readWord "ull" .null t
  else if c = 't' then readWord "rue" (.bool true) t
  else if c = 'f' then readWord "alse" (.bool false) t
  else if c = '-' then readNegative t
  else if c.isDigit then readNumber c t
  else (.broken .notJson .notJson, [])

def punctuation? : Char → Option Token
  | '[' => some beginArray
  | ']' => some endArray
  | '{' => some beginObject
  | '}' => some endObject
  | ',' => some comma
  | ':' => some colon
  | _ => none

def isSpace (c : Char) : Bool :=
  c == ' ' || c == '\n' || c == '\r' || c == '\t'

def read (c : Char) (t : Text) : Token × Text :=
  match punctuation? c with
  | some token => (token, t)
  | none => (readScalar c t).map .scalar id

theorem length_dropDigits_le (t : Text) : (t.dropWhile Char.isDigit).length ≤ t.length :=
  (List.dropWhile_sublist _).length_le

theorem length_readWord_le (expected : Text) (s : Scalar) (t : Text) :
    (readWord expected s t).2.length ≤ t.length := by
  unfold readWord
  split
  · next h => simp [Text.dropOpening?_eq_some.1 h]
  · simp

theorem length_cutSign_le (t : Text) : (cutSign t).2.length ≤ t.length := by
  unfold cutSign
  split <;> simp

theorem length_readExponent_le (whole fraction t : Text) :
    (readExponent whole fraction t).2.length ≤ t.length := by
  have hd := Nat.le_trans (length_dropDigits_le (cutSign t).2) (length_cutSign_le t)
  cases h : (cutSign t).2.takeWhile Char.isDigit with
  | nil => simp [readExponent, h, missingDigit]
  | cons d ds => simpa [readExponent, h, finish] using hd

theorem length_readScale_le (whole fraction t : Text) :
    (readScale whole fraction t).2.length ≤ t.length := by
  unfold readScale
  split
  · exact Nat.le_succ_of_le (length_readExponent_le whole fraction _)
  · exact Nat.le_succ_of_le (length_readExponent_le whole fraction _)
  · simp [finish]

theorem length_readFraction_le (whole t : Text) : (readFraction whole t).2.length ≤ t.length := by
  unfold readFraction
  split
  · split
    · simp [missingDigit]
    · exact Nat.le_succ_of_le (Nat.le_trans (length_readScale_le _ _ _) (length_dropDigits_le _))
  · exact length_readScale_le _ _ _

theorem length_readNumber_le (first : Char) (t : Text) :
    (readNumber first t).2.length ≤ t.length := by
  unfold readNumber
  split
  · split
    · simp
    · exact length_readFraction_le _ _
  · exact Nat.le_trans (length_readFraction_le _ _) (length_dropDigits_le _)

theorem length_readNegative_le (t : Text) : (readNegative t).2.length ≤ t.length := by
  unfold readNegative
  split
  · split
    · exact Nat.le_succ_of_le (length_readNumber_le _ _)
    · simp [missingDigit]
  · simp [missingDigit]

theorem length_readScalar_le (c : Char) (t : Text) : (readScalar c t).2.length ≤ t.length := by
  unfold readScalar
  repeat' split
  · exact Quoted.length_scan_le t
  · exact length_readWord_le _ _ t
  · exact length_readWord_le _ _ t
  · exact length_readWord_le _ _ t
  · exact length_readNegative_le t
  · exact length_readNumber_le c t
  · simp

theorem length_read_le (c : Char) (t : Text) : (read c t).2.length ≤ t.length := by
  unfold read
  split
  · exact Nat.le_refl _
  · exact length_readScalar_le c t

end Token

def tokens : Text → List Token
  | [] => []
  | c :: t =>
    if Token.isSpace c then tokens t
    else (Token.read c t).1 :: tokens (Token.read c t).2
termination_by t => t.length
decreasing_by
  · simp
  · exact Nat.lt_succ_of_le (Token.length_read_le c t)

end Docmark.Json
