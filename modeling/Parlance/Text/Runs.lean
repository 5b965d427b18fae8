/-! Sets of characters, given by the runs of their code points. -/

namespace Parlance.Text

abbrev Runs := Array (Nat × Nat)

namespace Runs

/-- Looks for the run among those from `low` up to `high`, halving the span each time. -/
def holdsBetween (runs : Runs) (code : Nat) : Nat → Nat → Nat → Bool
  | 0, _, _ => false
  | fuel + 1, low, high =>
      if high ≤ low then false
      else
        let middle := (low + high) / 2
        match runs[middle]? with
        | none => false
        | some (first, last) =>
            if code < first then holdsBetween runs code fuel low middle
            else if last < code then holdsBetween runs code fuel (middle + 1) high
            else true

def holds (runs : Runs) (char : Char) : Bool := runs.holdsBetween char.toNat 32 0 runs.size

end Runs

end Parlance.Text
