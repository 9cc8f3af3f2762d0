/-
The families of EZ-USB parts.

Four families differ in where they can be written and in what their boot EEPROM holds.
A family is typed by its token, in any case, and shown by its display name.
-/

namespace UsbBoot.Chip

/-- A family of parts. -/
inductive Family
  /-- The first parts, AN21xx. -/
  | an21
  /-- EZ-USB FX. -/
  | fx
  /-- EZ-USB FX2, CY7C68013. -/
  | fx2
  /-- EZ-USB FX2LP, CY7C68013A and relatives. -/
  | fx2lp
  deriving DecidableEq, Repr

namespace Family

/-- All families, the oldest first. -/
def all : List Family := [.an21, .fx, .fx2, .fx2lp]

/-- The family that is assumed where nothing is known: the one most others agree with. -/
def fallback : Family := .fx

/-- The word a family is typed as. -/
def token : Family → String
  | .an21 => "an21"
  | .fx => "fx"
  | .fx2 => "fx2"
  | .fx2lp => "fx2lp"

/-- The name a family is shown by. -/
def display : Family → String
  | .an21 => "AN21"
  | .fx => "FX"
  | .fx2 => "FX2"
  | .fx2lp => "FX2LP"

/-- The family with exactly this token. -/
def ofToken? (token : String) : Option Family :=
  all.find? (·.token == token)

/-- The family a name means, letters taken in either case.  No letter beyond ASCII has one of
the letters of a token as its small form, so the ASCII case map suffices. -/
def ofName? (name : String) : Option Family :=
  ofToken? (String.ofList (name.toList.map Char.toLower))

@[simp] theorem ofToken?_token (family : Family) : ofToken? family.token = some family := by
  cases family <;> decide

end Family
end UsbBoot.Chip
