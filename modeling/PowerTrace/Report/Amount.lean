import PowerTrace.Text.Decimal

/-!
# Amounts in a report

Durations and frequencies in the unit that suits their size, and differences of two durations.
-/

namespace PowerTrace.Report

/-- A duration, given in microseconds, as microseconds, milliseconds or seconds. -/
def duration (us : Float) : String :=
  if us < 1000 then Text.fixed 0 us ++ "us"
  else if us < 1000000 then Text.fixed 2 (us / 1000) ++ "ms"
  else Text.fixed 2 (us / 1000000) ++ "s"

/-- A frequency, given in Hz, as Hz, kHz, MHz or GHz. -/
def frequency (hz : Nat) : String :=
  let f := Float.ofNat hz
  if hz < 1000 then toString hz ++ "Hz"
  else if hz < 1000000 then Text.fixed 2 (f / 1000) ++ "kHz"
  else if hz < 1000000000 then Text.fixed 2 (f / 1000000) ++ "MHz"
  else Text.fixed 2 (f / 1000000000) ++ "GHz"

/-- A difference of two durations, with its sign.  No difference is left blank, and so is one of
more than a day. -/
def durationDelta (us : Float) : String :=
  let size := us.abs
  if us == 0 then ""
  else if size < 1000 then Text.fixedSigned 0 us ++ "us"
  else if size < 1000000 then Text.fixedSigned 1 (us / 1000) ++ "ms"
  else if size < 100000000000 then Text.fixedSigned 1 (us / 1000000) ++ "s"
  else ""

/-- A difference of two counts, with its sign; no difference is left blank. -/
def countDelta (current baseline : Nat) : String :=
  if current = baseline then ""
  else if baseline < current then "+" ++ toString (current - baseline)
  else "-" ++ toString (baseline - current)

end PowerTrace.Report
