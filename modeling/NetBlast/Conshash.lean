import Mathlib.Tactic

/-!
# The backend lookup table

`conshash.h`: a table of `TABLE_SIZE` backend identifiers, indexed by a flow hash modulo its size.
-/

namespace NetBlast

/-- `TABLE_SIZE`. -/
def tableSize : Nat := 65537

/-- `LookUpTable`: an `int64_t` backend identifier for every residue of the flow hash. -/
abbrev LookUpTable := Fin tableSize → BitVec 64

/-- `lut[hash % TABLE_SIZE]`. -/
def LookUpTable.backend (lut : LookUpTable) (hash : BitVec 64) : BitVec 64 :=
  lut ⟨hash.toNat % tableSize, Nat.mod_lt _ (by decide)⟩

end NetBlast
