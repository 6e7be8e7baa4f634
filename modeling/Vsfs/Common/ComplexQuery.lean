import Std.Data.ExtTreeMap
import Vsfs.Common.Basic

/-!
# Queries

`ComplexQuery`: a directory and a range of keys for each index name that the query names.
The source keeps the ranges in an `unordered_map`; nothing that uses it depends on the order
of the names.
-/

namespace Vsfs

open Std

structure StringRange where
  lower : Str := []
  lowerClosed : Bool
  upper : Str := []
  upperClosed : Bool
  deriving DecidableEq, Repr

structure ComplexQuery where
  root : Str := []
  rangeQueryMap : ExtTreeMap Str StringRange := ∅

namespace ComplexQuery

def getNamesOfRangeQueries (query : ComplexQuery) : List Str := query.rangeQueryMap.keys

/-- A null pointer for a name without a range. -/
def rangeQuery (query : ComplexQuery) (name : Str) : Option StringRange :=
  query.rangeQueryMap[name]?

end ComplexQuery

end Vsfs
