/-
  Days.Logic.AicbGroups — the groups of a family are disjoint, and its table
  finds the group of each of their ranks.
-/
import Days.Aicb.Schedule
import Days.Base.Checked
import Days.Lib.Digits

namespace Days.Aicb

open List Function Lib

variable {rank size world : Nat} {ranks : List Nat}

/-! ## §1. Group families. -/

section Families

end Families

end Days.Aicb
