/-!
# `WebOfTrust.AnalyticsSettings`: how the strong set is analysed
-/

set_option autoImplicit false

namespace WebOfTrust

/-- What can be set for an analysis. Zero stands for a value that is found out at the time of the
run. `Analyzer.start` is given the values that were found out. -/
structure AnalyticsSettings where
  /-- The number of tasks that compute clustering coefficients; zero for one per processor. -/
  workers : UInt64 := 0
  /-- The year in which keys dated in the future are counted; zero for the present one. -/
  currentYear : Int32 := 0
  deriving DecidableEq, Repr, Inhabited

end WebOfTrust
