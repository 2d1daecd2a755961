/-!
# Clocks

The wall clock in seconds. The whole seconds and the nanoseconds beyond them are taken to floats
apart and added.
-/

namespace Jukebox.Clock

/-- Seconds of the wall clock from milliseconds. -/
def seconds (ms : Nat) : Float :=
  (ms / 1000).toUInt64.toFloat + (ms % 1000 * 1000000).toUInt64.toFloat / 1000000000

end Jukebox.Clock
