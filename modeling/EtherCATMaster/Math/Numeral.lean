import Mathlib.Data.Nat.Cast.Defs

/- Bounds of the numerals that definitions of several modules use. Being named, they are shared
by these definitions, which then carry no proof of their own. -/

namespace EtherCATMaster.Math

scoped instance atLeastTwo2 : Nat.AtLeastTwo 2 := ⟨by decide⟩
scoped instance atLeastTwo3 : Nat.AtLeastTwo 3 := ⟨by decide⟩
scoped instance atLeastTwo6 : Nat.AtLeastTwo 6 := ⟨by decide⟩
scoped instance atLeastTwo35 : Nat.AtLeastTwo 35 := ⟨by decide⟩
scoped instance atLeastTwo100 : Nat.AtLeastTwo 100 := ⟨by decide⟩
scoped instance atLeastTwo1000 : Nat.AtLeastTwo 1000 := ⟨by decide⟩
scoped instance atLeastTwo10000 : Nat.AtLeastTwo 10000 := ⟨by decide⟩
scoped instance atLeastTwo1000000 : Nat.AtLeastTwo 1000000 := ⟨by decide⟩

end EtherCATMaster.Math
