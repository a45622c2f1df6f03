import MusicScore.Datum.Order

/-!
# Instruments

The 128 instruments of General MIDI, level 1, by their program numbers. An instrument is shown under
its name in words; its name in the table is the same in capitals, with underscores for spaces.
-/
namespace MusicScore

/-- An instrument by its program number. -/
structure Instrument where
  program : Fin 128
  deriving DecidableEq, Repr

namespace Instrument

/-- The names of the instruments, by program number. -/
def names : Vector String 128 :=
  #v["Acoustic Grand Piano", "Bright Acoustic Piano", "Electric Grand Piano", "Honky Tonk Piano",
    "Electric Piano 1", "Electric Piano 2", "Harpsichord", "Clavinet", "Celesta", "Glockenspiel",
    "Music Box", "Vibraphone", "Marimba", "Xylophone", "Tubular Bells", "Dulcimer",
    "Drawbar Organ", "Percussive Organ", "Rock Organ", "Church Organ", "Reed Organ", "Accordion",
    "Harmonica", "Tango Accordion", "Acoustic Guitar Nylon", "Acoustic Guitar Steel",
    "Electric Guitar Jazz", "Electric Guitar Clean", "Electric Guitar Muted",
    "Overdriven Guitar", "Distortion Guitar", "Guitar Harmonics", "Acoustic Bass",
    "Electric Bass Finger", "Electric Bass Pick", "Fretless Bass", "Slap Bass 1", "Slap Bass 2",
    "Synth Bass 1", "Synth Bass 2", "Violin", "Viola", "Cello", "Contrabass", "Tremolo Strings",
    "Pizzicato Strings", "Orchestral Harp", "Timpani", "String Ensemble 1", "String Ensemble 2",
    "Synth Strings 1", "Synth Strings 2", "Choir Aahs", "Voice Oohs", "Synth Voice",
    "Orchestra Hit", "Trumpet", "Trombone", "Tuba", "Muted Trumpet", "French Horn",
    "Brass Section", "Synth Brass 1", "Synth Brass 2", "Soprano Sax", "Alto Sax", "Tenor Sax",
    "Baritone Sax", "Oboe", "English Horn", "Bassoon", "Clarinet", "Piccolo", "Flute",
    "Recorder", "Pan Flute", "Blown Bottle", "Shakuhachi", "Whistle", "Ocarina", "Lead 1 Square",
    "Lead 2 Sawtooth", "Lead 3 Calliope", "Lead 4 Chiff", "Lead 5 Charang", "Lead 6 Voice",
    "Lead 7 Fifths", "Lead 8 Bass And Lead", "Pad 1 New Age", "Pad 2 Warm", "Pad 3 Polysynth",
    "Pad 4 Choir", "Pad 5 Bowed", "Pad 6 Metallic", "Pad 7 Halo", "Pad 8 Sweep", "Fx 1 Rain",
    "Fx 2 Soundtrack", "Fx 3 Crystal", "Fx 4 Atmosphere", "Fx 5 Brightness", "Fx 6 Goblins",
    "Fx 7 Echoes", "Fx 8 Sci Fi", "Sitar", "Banjo", "Shamisen", "Koto", "Kalimba", "Bagpipe",
    "Fiddle", "Shanai", "Tinkle Bell", "Agogo", "Steel Drums", "Woodblock", "Taiko Drum",
    "Melodic Tom", "Synth Drum", "Reverse Cymbal", "Guitar Fret Noise", "Breath Noise",
    "Seashore", "Bird Tweet", "Telephone Ring", "Helicopter", "Applause", "Gunshot"]

/-- The name in words. -/
def name (i : Instrument) : String := names[i.program]

/-- A character of a name as it stands in the table. -/
def tableChar (c : Char) : Char := if c = ' ' then '_' else c.toUpper

/-- The name in capitals with underscores. -/
def tableName (i : Instrument) : String := String.ofList (i.name.toList.map tableChar)

/-- All instruments in the order of their program numbers. -/
def all : List Instrument := (List.finRange 128).map Instrument.mk

/-- The first instrument of the table. -/
def first : Instrument := ⟨0⟩

/-- The instrument with a number equal to the given datum for program number. -/
def ofDatum (value : Datum) : Except Fault Instrument :=
  match all.find? fun i => value.same (.ofInt (i.program : Nat)) with
  | some i => .ok i
  | none => .error (.value (.instrument value.plain))

end Instrument

end MusicScore
