import ObserverRelay.Text.Blank
import ObserverRelay.Text.Numeral
/-!
# Durations

Spans of time in whole milliseconds, written as a number of 64 bits and a unit: `ms`, `s`,
`m`, or none for seconds. White space may stand around the text and before the unit.
-/
namespace ObserverRelay.Relay

/-- A span of time in milliseconds. -/
structure Duration where
  millis : Nat
  deriving DecidableEq, Repr

namespace Duration

/-- No time at all. -/
def zero : Duration := ⟨0⟩

instance : Add Duration := ⟨fun a b => ⟨a.millis + b.millis⟩⟩

@[simp] theorem millis_add (a b : Duration) : (a + b).millis = a.millis + b.millis := rfl

/-- A number of seconds. -/
def ofSeconds (n : Nat) : Duration := ⟨n * 1000⟩

/-- The whole seconds. -/
def seconds (d : Duration) : Nat := d.millis / 1000

/-- The milliseconds beyond the whole seconds. -/
def subMillis (d : Duration) : Nat := d.millis % 1000

/-- A number of 64 bits, white space around it aside. -/
def count? (s : String) : Option Nat := (Numeral.read Numeral.bound64 (Text.trim s)).toOption

/-- The duration that a trimmed text names. The units are tried from the longest on, and a
number of minutes must fit into 64 bits as seconds. -/
def ofTrimmed? (s : String) : Option Duration :=
  match Text.withoutEnding? "ms" s with
  | some n => (count? n).map fun k => ⟨k⟩
  | none =>
    match Text.withoutEnding? "s" s with
    | some n => (count? n).map ofSeconds
    | none =>
      match Text.withoutEnding? "m" s with
      | some n =>
        (count? n).bind fun k =>
          if k * 60 < Numeral.bound64 then some (ofSeconds (k * 60)) else none
      | none => (Numeral.read Numeral.bound64 s).toOption.map ofSeconds

/-- The duration that a text names; the refusal carries the text without the white space
around it. -/
def read (s : String) : Except String Duration :=
  match ofTrimmed? (Text.trim s) with
  | some d => .ok d
  | none => .error (Text.trim s)

end Duration

end ObserverRelay.Relay
