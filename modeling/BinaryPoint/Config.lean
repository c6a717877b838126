import BinaryPoint.Binder
import BinaryPoint.Inference

/-! # Limits and presets

What a build is told from outside: how far the search for a fractional width goes, how
wide a value type may be, and the formats that have names.
-/

namespace BinaryPoint

/-- Limits and named formats. The limits come from outside and may be of any type. -/
structure Config where
  maxFractionalBits : Datum := .int Inference.defaultBound
  maxTotalBits : Datum := .int Binder.defaultLimit
  formats : List (Datum × Format) := []

namespace Config

/-- The format of a preset. -/
def preset (c : Config) (name : String) : Option Format :=
  (c.formats.find? fun e => e.1.eq (.text name)).map (·.2)

/-- The limits and presets that hold unless a registry is given. -/
def standard : Config where
  formats :=
    [ (.text "q7", ⟨true, 0, 7⟩),
      (.text "q15", ⟨true, 0, 15⟩),
      (.text "q31", ⟨true, 0, 31⟩),
      (.text "q7_8", ⟨true, 7, 8⟩),
      (.text "uq8_8", ⟨false, 8, 8⟩),
      (.text "uq0_8", ⟨false, 0, 8⟩) ]

/-- A binder with the width limit of a configuration. -/
def binder (c : Config) (origin : Nat) : Binder := ⟨c.maxTotalBits, origin⟩

end Config

end BinaryPoint
