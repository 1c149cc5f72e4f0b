import ContinuousQuery.Lexical.Scanner

/-!
Numbers keep the spelling they have in the text; only their datatype is read off it.
A double has an exponent, a decimal has a point with digits after it.
-/

namespace ContinuousQuery.Lexical.Scanner

def digits : Scanner (List Char) := run Char.isDigit

def someDigits : Scanner (List Char) := runOfSome Char.isDigit

def sign : Scanner (List Char) :=
  (List.singleton <$> satisfy (fun char => char == '+' || char == '-')) <|> pure []

def exponent : Scanner (List Char) := do
  let mark ← satisfy (fun char => char == 'e' || char == 'E')
  let sign ← sign
  let power ← someDigits
  return mark :: sign ++ power

def double : Scanner (List Char) :=
  (do
    let whole ← someDigits
    exact "."
    let fraction ← digits
    return whole ++ '.' :: fraction ++ (← exponent)) <|>
  (do
    exact "."
    let fraction ← someDigits
    return '.' :: fraction ++ (← exponent)) <|>
  (do
    let whole ← someDigits
    return whole ++ (← exponent))

def decimal : Scanner (List Char) := do
  let whole ← digits
  exact "."
  let fraction ← someDigits
  return whole ++ '.' :: fraction

def unsignedNumber : Scanner (List Char × String) :=
  ((·, "double") <$> double) <|> ((·, "decimal") <$> decimal) <|> ((·, "integer") <$> someDigits)

end ContinuousQuery.Lexical.Scanner
