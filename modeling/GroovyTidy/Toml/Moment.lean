import GroovyTidy.Toml.Scan

set_option autoImplicit false

/-!
Dates and times of TOML, and the text they are written as.
-/
namespace GroovyTidy.Toml

open Scan

def twoDigits (least greatest : Nat) : Scan (List Char) := do
  let text ← digits 2
  if least ≤ valueOf 10 text ∧ valueOf 10 text ≤ greatest then return text else refuse

def isLeapYear (year : Nat) : Bool :=
  year % 4 == 0 && (year % 100 != 0 || year % 400 == 0)

def daysIn (year month : Nat) : Nat :=
  if month = 2 then if isLeapYear year then 29 else 28
  else if month = 4 ∨ month = 6 ∨ month = 9 ∨ month = 11 then 30
  else 31

def date : Scan (List Char) := do
  let year ← digits 4
  char '-'
  let month ← twoDigits 1 12
  char '-'
  let day ← twoDigits 1 (daysIn (valueOf 10 year) (valueOf 10 month))
  return year ++ ['-'] ++ month ++ ['-'] ++ day

def trimZeros (text : List Char) : List Char :=
  (text.reverse.dropWhile (· == '0')).reverse

/-- The fraction of a second to nine digits, without zeros at the end. -/
def secondFraction : Scan (List Char) := do
  char '.'
  let places := trimZeros ((← someOf isDigit).take 9)
  return if places.isEmpty then [] else '.' :: places

def time : Scan (List Char) := do
  let hour ← twoDigits 0 23
  char ':'
  let minute ← twoDigits 0 59
  char ':'
  let second ← twoDigits 0 60
  let places ← maybe secondFraction
  return hour ++ [':'] ++ minute ++ [':'] ++ second ++ places.getD []

/-- The distance from universal time. No distance has no negative sign. -/
def zone : Scan (List Char) :=
  (do
      let _ ← one fun c => c == 'Z' || c == 'z'
      return ['Z']) <|>
    (do
      let sign ← one fun c => c == '+' || c == '-'
      let hour ← twoDigits 0 23
      char ':'
      let minute ← twoDigits 0 59
      let sign := if valueOf 10 (hour ++ minute) = 0 then '+' else sign
      return sign :: hour ++ [':'] ++ minute)

def timeOfDay : Scan (List Char) := do
  let _ ← one fun c => c == 'T' || c == 't' || c == ' '
  let time ← time
  let zone ← maybe zone
  return 'T' :: time ++ zone.getD []

def moment : Scan (List Char) :=
  (do
      let date ← date
      let time ← maybe timeOfDay
      return date ++ time.getD []) <|> time

end GroovyTidy.Toml
