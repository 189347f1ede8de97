import Mathlib.Data.Nat.Basic

/-! # Identifiers shared by the modelled components

Positions in the write-ahead log (`XLogRecPtr`) are compared but never computed with, so the
modules about workers use natural numbers for them; the wire modules use the sixty-four bit words
that travel. Zero keeps its meaning of "no position" and "no object".
-/

namespace PGLogical

def invalidXLogRecPtr : ℕ := 0

/-- A catalog object identifier. -/
abbrev Oid := UInt32

def invalidOid : Oid := 0

end PGLogical
