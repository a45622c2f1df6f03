import MusicScore.Text.Pattern

/-!
# Kinds of plain scalars

A scalar without quotation marks stands for a value whose kind is read off its characters: a truth
value, a number, nothing, a time, one of two signs with a meaning of their own, or else text. The
patterns are those of YAML 1.1, so that an exponent has a sign, a zero leads octal digits, and colons
separate sexagesimal places. A tag says outright what kind is meant, and there are further kinds that only
a tag can give.
-/
namespace MusicScore.Yaml

open MusicScore.Text

/-- The kind of value that a node stands for. -/
inductive Kind where
  | nothing
  | truth
  | whole
  | float
  | time
  | merge
  | standard
  | text
  | bytes
  | sequence
  | mapping
  | members
  | pairs
  deriving DecidableEq

namespace Kind

/-- The words for *yes*. -/
def yesWords : List String :=
  ["yes", "Yes", "YES", "true", "True", "TRUE", "on", "On", "ON"]

/-- The words for *no*. -/
def noWords : List String :=
  ["no", "No", "NO", "false", "False", "FALSE", "off", "Off", "OFF"]

/-- The words for nothing. -/
def nothingWords : List String := ["", "~", "null", "Null", "NULL"]

/-- A sign, or none. -/
def sign : Pattern := .optional (.chars ['-', '+'])

/-- A decimal digit. -/
def digit : Pattern := .oneOf [('0', '9')]

/-- Decimal digits and underscores, or none. -/
def digitsOrMarks : Pattern := .repeated (.oneOf [('0', '9'), ('_', '_')])

/-- A sexagesimal place after a colon, once or more often. -/
def places : Pattern :=
  .atLeastOnce (.all [.chars [':'], .optional (.oneOf [('0', '5')]), digit])

/-- An exponent, or none. -/
def exponent : Pattern :=
  .optional (.all [.chars ['e', 'E'], .chars ['-', '+'], .atLeastOnce digit])

/-- A number with a point, in decimal or sexagesimal places, or a special number. -/
def floatPattern : Pattern :=
  .any
    [.all [sign, digit, digitsOrMarks, .chars ['.'], digitsOrMarks, exponent],
      .all [.chars ['.'], digit, digitsOrMarks, exponent],
      .all [sign, digit, digitsOrMarks, places, .chars ['.'], digitsOrMarks],
      .all [sign, .chars ['.'], .words ["inf", "Inf", "INF"]],
      .all [.chars ['.'], .words ["nan", "NaN", "NAN"]]]

/-- A whole number in binary, octal, decimal, hexadecimal or sexagesimal places. -/
def wholePattern : Pattern :=
  .any
    [.all [sign, .word ['0', 'b'], .atLeastOnce (.chars ['0', '1', '_'])],
      .all [sign, .chars ['0'], .atLeastOnce (.oneOf [('0', '7'), ('_', '_')])],
      .all [sign, .any [.chars ['0'], .all [.oneOf [('1', '9')], digitsOrMarks]]],
      .all [sign, .word ['0', 'x'],
        .atLeastOnce (.oneOf [('0', '9'), ('a', 'f'), ('A', 'F'), ('_', '_')])],
      .all [sign, .oneOf [('1', '9')], digitsOrMarks, places]]

/-- Two decimal digits. -/
def twoDigits : Pattern := .join digit digit

/-- One or two decimal digits. -/
def oneOrTwoDigits : Pattern := .join digit (.optional digit)

/-- Four decimal digits. -/
def fourDigits : Pattern := .join twoDigits twoDigits

/-- Blanks within a line, or none. -/
def gap : Pattern := .repeated (.chars [' ', '\t'])

/-- The zone of a time, or none. -/
def zone : Pattern :=
  .optional (.all [gap, .any [.chars ['Z'],
    .all [.chars ['-', '+'], oneOrTwoDigits, .optional (.all [.chars [':'], twoDigits])]]])

/-- A day, or a day and a time. -/
def timePattern : Pattern :=
  .any
    [.all [fourDigits, .chars ['-'], twoDigits, .chars ['-'], twoDigits],
      .all [fourDigits, .chars ['-'], oneOrTwoDigits, .chars ['-'], oneOrTwoDigits,
        .any [.chars ['T', 't'], .atLeastOnce (.chars [' ', '\t'])], oneOrTwoDigits,
        .chars [':'], twoDigits, .chars [':'], twoDigits,
        .optional (.all [.chars ['.'], .repeated digit]), zone]]

/-- The start of the names of the tags of YAML itself. -/
def standardTag : List Char := "tag:yaml.org,2002:".toList

/-- The tags of YAML itself. -/
def tagNames : List (String × Kind) :=
  [("null", nothing), ("bool", truth), ("int", whole), ("float", float), ("timestamp", time),
    ("merge", merge), ("value", standard), ("str", text), ("binary", bytes), ("seq", sequence),
    ("map", mapping), ("set", members), ("omap", pairs), ("pairs", pairs)]

/-- The kind that a tag names. -/
def ofTag? (tag : List Char) : Option Kind :=
  if standardTag.isPrefixOf tag then tagNames.lookup (String.ofList (tag.drop standardTag.length))
  else none

/-- The kind of a plain scalar. -/
def ofPlain (s : List Char) : Kind :=
  let word := String.ofList s
  if yesWords.contains word || noWords.contains word then truth
  else if floatPattern.admits s then float
  else if wholePattern.admits s then whole
  else if word = "<<" then merge
  else if nothingWords.contains word then nothing
  else if timePattern.admits s then time
  else if word = "=" then standard
  else text

end Kind

end MusicScore.Yaml
