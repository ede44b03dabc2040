import ObserverRelay.Json.Token
import ObserverRelay.Text.Numeral
/-!
# Numbers in a document

A number is an optional minus sign, an integer without leading zeros, and optionally a
fraction and an exponent. Integers of 64 bits are kept exactly; every other number becomes
a binary number in three steps: as many digits as fit into 64 bits are taken for the
significand, that is rounded to a binary number, and then it is multiplied with or divided by
the power of ten, each operation rounding once more.
-/
namespace ObserverRelay.Json

/-- Takes digits into a significand of 64 bits as long as they fit. The second part holds
the digits that were left out. -/
def absorb (significand : Nat) : List Nat → Nat × List Nat
  | [] => (significand, [])
  | d :: ds =>
    if significand * 10 + d < Numeral.bound64 then absorb (significand * 10 + d) ds
    else (significand, d :: ds)

/-- The largest power of ten that one operation multiplies with or divides by. -/
def decadeLimit : Nat := 308

/-- `x` divided `n` times by the largest power of ten, or until it is zero. -/
def divDecades (x : Binary64) : (n : Nat) → Option Binary64
  | 0 => some x
  | n + 1 =>
    if x.isZero then some x
    else (x.div? (Binary64.powerOfTen decadeLimit)).bind (divDecades · n)

/-- `x` divided by ten to the `k`, at most 308 decimal places at a time. -/
def divPowerOfTen (x : Binary64) (k : Nat) : Option Binary64 :=
  let steps := (k - 1) / decadeLimit
  (divDecades x steps).bind fun y => y.div? (Binary64.powerOfTen (k - steps * decadeLimit))

/-- The binary number `significand · 10 ^ exponent` in rounded steps, or `none` when it is too
large. -/
def scaled? (significand : Nat) (exponent : Int) : Option Binary64 :=
  let x := Binary64.ofNat significand
  if exponent < 0 then divPowerOfTen x exponent.natAbs
  else if exponent ≤ decadeLimit then x.mul? (Binary64.powerOfTen exponent.toNat)
  else if x.isZero then some x
  else none

/-- The binary number of the three parts, at the place behind them. -/
def binaryAt {s : Bytes} (negative : Bool) (significand : Nat) (exponent : Int) (rest : Bytes)
    (h : rest.length < s.length) : Outcome s Number :=
  match scaled? significand exponent with
  | some x => .ok ⟨.binary (if negative then x.negate else x), rest, h⟩
  | none => .error (.here .numberOutOfRange rest)

/-- The value of digits, or the digits at which it leaves the range of an exponent. -/
def exponentValue (acc : Nat) : Bytes → Nat ⊕ Bytes
  | [] => .inl acc
  | b :: rest =>
    if acc * 10 + digitValue b ≤ 2147483647 then exponentValue (acc * 10 + digitValue b) rest
    else .inr rest

/-- The text behind a sign, if it starts with one. -/
def skipSign : Bytes → Bytes
  | [] => []
  | b :: t => if b = 0x2B ∨ b = 0x2D then t else b :: t

theorem length_skipSign_le : (s : Bytes) → (skipSign s).length ≤ s.length
  | [] => Nat.le_refl _
  | b :: t => by
    rw [skipSign]
    split
    · exact Nat.le_succ _
    · exact Nat.le_refl _

/-- The end of a number from behind the `e` of its exponent. An exponent out of range makes
a number other than zero too large or zero. -/
def readExponent (negative : Bool) (significand : Nat) (exponent : Int) : Reader Number :=
  fun s =>
    let minus := s.head? == some 0x2D
    match skipSign s, length_skipSign_le s with
    | [], _ => .error (.here .endInValue [])
    | b :: t, h =>
      if isDigit b then
        let all := (b :: t).takeWhile isDigit
        match exponentValue 0 all with
        | .inl e =>
          binaryAt negative significand (if minus then exponent - e else exponent + e)
            (skipDigits t) (skipDigits_shorter h)
        | .inr later =>
          if significand ≠ 0 ∧ ¬minus then
            .error (.here .numberOutOfRange (t.drop (all.length - later.length - 1)))
          else .ok ⟨.binary (.zero negative), skipDigits t, skipDigits_shorter h⟩
      else .error (.here .badNumber t)

/-- The end of a number behind its last digit, where an exponent may follow. -/
def readScale (negative : Bool) (significand : Nat) (exponent : Int) (s t : Bytes)
    (h : t.length < s.length) : Outcome s Number :=
  match t, h with
  | [], h => binaryAt negative significand exponent [] h
  | b :: rest, h =>
    if b = 0x65 ∨ b = 0x45 then
      (readExponent negative significand exponent rest).within (shorter_of_cons h)
    else binaryAt negative significand exponent (b :: rest) h

/-- The end of a number from behind its point. -/
def readFraction (negative : Bool) (significand : Nat) (exponent : Int) : Reader Number
  | [] => .error (.next .endInValue [])
  | b :: t =>
    if isDigit b then
      let digits := (b :: t).takeWhile isDigit
      let (sig, left) := absorb significand (digits.map digitValue)
      readScale negative sig (exponent - (digits.length - left.length : Nat)) (b :: t)
        (skipDigits t) (skipDigits_shorter_cons b t)
    else .error (.next .badNumber (b :: t))

/-- The number of a sign and the value of its digits, when these fit into 64 bits and
nothing follows. Below the least integer, and for the negative zero, it is binary. -/
def integerNumber (negative : Bool) (n : Nat) : Number :=
  if ¬negative then .integer n
  else if n = 0 ∨ Numeral.signedBound64 < n then .binary (Binary64.ofNat n).negate
  else .integer (-(n : Int))

/-- Whether an exponent follows. -/
def exponentFollows (s : Bytes) : Bool := s.head?.any fun b => b == 0x65 || b == 0x45

/-- The end of a number behind the digits of its integer. Those in `left` did not fit into
the significand. -/
def readTail (negative : Bool) (significand : Nat) (left : List Nat) (s t : Bytes)
    (h : t.length < s.length) : Outcome s Number :=
  match t, h with
  | 0x2E :: rest, h =>
    (readFraction negative significand left.length rest).within (shorter_of_cons h)
  | t, h =>
    if left = [] ∧ ¬exponentFollows t then .ok ⟨integerNumber negative significand, t, h⟩
    else readScale negative significand left.length s t h

/-- A number from its first digit on; the sign has been taken. -/
def readMagnitude (negative : Bool) : Reader Number
  | [] => .error (.here .endInValue [])
  | b :: t =>
    if ¬isDigit b then .error (.here .badNumber t)
    else if b = 0x30 ∧ t.head?.any isDigit then .error (.next .badNumber t)
    else
      let digits := (b :: t).takeWhile isDigit
      let (sig, left) := absorb 0 (digits.map digitValue)
      readTail negative sig left (b :: t) (skipDigits t) (skipDigits_shorter_cons b t)

/-- A number; the text starts with a minus sign or a digit. -/
def readNumber : Reader Number
  | 0x2D :: t => (readMagnitude true t).behind 0x2D
  | t => readMagnitude false t

/-- An exponent passed over, from behind its `e`. -/
def passExponent : Reader Unit := fun s =>
  match skipSign s, length_skipSign_le s with
  | [], _ => .error (.here .badNumber [])
  | b :: t, h =>
    if isDigit b then .ok ⟨(), skipDigits t, skipDigits_shorter h⟩
    else .error (.here .badNumber t)

/-- What may follow the digits of a number, passed over. -/
def passScale (s t : Bytes) (h : t.length < s.length) : Outcome s Unit :=
  match t, h with
  | [], h => .ok ⟨(), [], h⟩
  | b :: rest, h =>
    if b = 0x65 ∨ b = 0x45 then (passExponent rest).within (shorter_of_cons h)
    else .ok ⟨(), b :: rest, h⟩

/-- A fraction passed over, from behind its point. -/
def passFraction : Reader Unit
  | [] => .error (.next .badNumber [])
  | b :: t =>
    if isDigit b then passScale (b :: t) (skipDigits t) (skipDigits_shorter_cons b t)
    else .error (.next .badNumber (b :: t))

/-- The end of a number behind the digits of its integer, passed over. -/
def passTail (s t : Bytes) (h : t.length < s.length) : Outcome s Unit :=
  match t, h with
  | 0x2E :: rest, h => (passFraction rest).within (shorter_of_cons h)
  | t, h => passScale s t h

/-- A number passed over from its first digit on: its form is judged, its size is not. -/
def passMagnitude : Reader Unit
  | [] => .error (.here .badNumber [])
  | b :: t =>
    if ¬isDigit b then .error (.here .badNumber t)
    else if b = 0x30 ∧ t.head?.any isDigit then .error (.next .badNumber t)
    else if b = 0x30 then passTail (b :: t) t (shorter_tail b t)
    else passTail (b :: t) (skipDigits t) (skipDigits_shorter_cons b t)

/-- A number passed over; the text starts with a minus sign or a digit. -/
def passNumber : Reader Unit
  | 0x2D :: t => (passMagnitude t).behind 0x2D
  | t => passMagnitude t

end ObserverRelay.Json
