import Cadence.Config.Field

/-!
A timer's configuration: its settings, and whether it starts out active. A configuration is valid if its period comes
to an amount and it does not end before it starts.
-/

namespace Cadence

namespace Settings

def checkPeriod (s : Settings) : Except Error Unit :=
  match s.period with
  | none => .ok ()
  | some period => period.amount.map fun _ => ()

def checkSpan (s : Settings) : Except Error Unit :=
  match s.startTime, s.endTime with
  | some start, some finish =>
    if finish ≤ start then .error (.config (.endNotAfterStart finish start)) else .ok ()
  | _, _ => .ok ()

def validate (s : Settings) : Except Error Unit := do
  s.checkPeriod
  s.checkSpan

end Settings

structure Configuration where
  settings : Settings
  active : Bool
deriving DecidableEq

def Configuration.initial : Configuration := ⟨.empty, true⟩

end Cadence
