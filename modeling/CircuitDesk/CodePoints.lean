namespace CircuitDesk

structure CodePoints where
  ranges : Array (Nat × Nat)

namespace CodePoints

/-- Whether one of the ranges from number `lo` up to number `hi` holds `n`. Every step at least halves what is
left, so as many steps as there are ranges are enough. -/
def search (s : CodePoints) (n : Nat) : (steps lo hi : Nat) → Bool
  | 0, _, _ => false
  | steps + 1, lo, hi =>
    if lo < hi then
      let mid := (lo + hi) / 2
      match s.ranges[mid]? with
      | none => false
      | some (first, last) =>
        if n < first then search s n steps lo mid
        else if last < n then search s n steps (mid + 1) hi
        else true
    else false

def contains (s : CodePoints) (n : Nat) : Bool := s.search n (s.ranges.size + 1) 0 s.ranges.size

end CodePoints

end CircuitDesk
