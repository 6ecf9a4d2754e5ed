import LineShell.Text.Utf8

/-!
# Variables of a process

A process is handed its variables as a list of octet strings, sorted by name and with one string for
a name: of two pairs with one name the later holds. Where a process sets its own, they stay in order.
-/

namespace LineShell.Host

/-- Whether octets come before others: by the first that differs, a shorter run before a longer. -/
def octetsBefore : Bytes → Bytes → Bool
  | [], _ => true
  | _ :: _, [] => false
  | a :: as, b :: bs => if a == b then octetsBefore as bs else a < b

/-- The pairs without those that a later pair of the same name overrides. -/
def lastOfEachName (ps : List (Bytes × Bytes)) : List (Bytes × Bytes) :=
  ps.foldr (fun p kept => if kept.any (·.1 == p.1) then kept else p :: kept) []

/-- The pairs after one has been set, in the place of the one of its name if there is one. -/
def setPair (ps : List (Bytes × Bytes)) (p : Bytes × Bytes) : List (Bytes × Bytes) :=
  if ps.any (·.1 == p.1) then ps.map fun q => if q.1 == p.1 then p else q else ps ++ [p]

/-- The octet strings of a process that sets its variables one after the other. -/
def setStrings (ps : List (Bytes × Bytes)) : List Bytes :=
  (ps.foldl setPair []).map fun p => p.1 ++ 61 :: p.2

/-- The pairs that a process is handed. -/
def handedPairs (ps : List (Bytes × Bytes)) : List (Bytes × Bytes) :=
  (lastOfEachName ps).mergeSort fun a b => octetsBefore a.1 b.1

/-- The octet strings that a process is handed. -/
def handedStrings (ps : List (Bytes × Bytes)) : List Bytes :=
  (handedPairs ps).map fun p => p.1 ++ 61 :: p.2

end LineShell.Host
