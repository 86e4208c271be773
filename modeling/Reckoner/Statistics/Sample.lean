import Reckoner.Binary.Exact
import Reckoner.Scalar

/-! Statistics of a list of values, in either precision. -/
namespace Reckoner.Statistics

/-- What a precision adds to plain arithmetic: comparisons, NaN and the square root. -/
class Measure (α : Type) extends Scalar α, BEq α where
  below : α → α → Bool
  nan : α
  sqrt : α → α

instance : Measure Float where
  beq := (· == ·)
  below x y := x < y
  nan := Binary.nan
  sqrt := Float.sqrt

instance : Measure Float32 where
  beq := (· == ·)
  below x y := x < y
  nan := 0.0 / 0.0
  sqrt := Float32.sqrt

variable {α : Type} [Measure α]

open Scalar (ofNat)

/-- Puts a value before those of a descending list that are not above it. It passes nothing that it
is not below, so equal values keep their order and NaN stops it. -/
def insertDescending (x : α) : List α → List α
  | [] => [x]
  | y :: ys => if Measure.below x y then y :: insertDescending x ys else x :: y :: ys

def sorted (xs : List α) : List α :=
  (xs.foldl (fun ordered x => insertDescending x ordered) []).reverse

def mean (xs : List α) : α :=
  if xs.isEmpty then Measure.nan else xs.foldl (· + ·) (ofNat 0) / ofNat xs.length

/-- The middle value, or the mean of the two in the middle. -/
def median (xs : List α) : α :=
  let ordered := sorted xs
  let middle := xs.length / 2
  let at? (i : Nat) : α := ordered[i]?.getD Measure.nan
  if xs.isEmpty then Measure.nan
  else if xs.length % 2 = 1 then at? middle
  else (at? (middle - 1) + at? middle) / ofNat 2

/-- The runs of equal values in a list, by their first value and their length. -/
def runs : List α → List (α × Nat)
  | [] => []
  | x :: xs =>
    match runs xs with
    | [] => [(x, 1)]
    | (y, n) :: rest => if y == x then (x, n + 1) :: rest else (x, 1) :: (y, n) :: rest

/-- The longest of the runs met so far: their common length and their values, in the order in which
they came. -/
structure Leaders (α : Type) where
  count : Nat
  values : List α

/-- A longer run drops the leaders before it, one as long joins them. -/
def Leaders.meet {α : Type} (leaders : Leaders α) (run : α × Nat) : Leaders α :=
  match compare run.2 leaders.count with
  | .gt => ⟨run.2, [run.1]⟩
  | .eq => ⟨leaders.count, leaders.values ++ [run.1]⟩
  | .lt => leaders

/-- All values that share the highest frequency, in ascending order. -/
def mode (xs : List α) : List α :=
  ((runs (sorted xs)).foldl Leaders.meet ⟨0, []⟩).values

def variance (xs : List α) : α :=
  let average := mean xs
  if xs.isEmpty then Measure.nan
  else
    xs.foldl (fun sum x => sum + (x - average) * (x - average)) (ofNat 0) / ofNat xs.length

def stdDev (xs : List α) : α := Measure.sqrt (variance xs)

/-- The weighted mean. There is none without values, with a different number of weights, or with
weights whose sum is zero. -/
def weightedMean (xs weights : List α) : α :=
  let weight := weights.foldl (· + ·) (ofNat 0)
  if xs.length != weights.length || xs.isEmpty || weight == ofNat 0 then Measure.nan
  else (xs.zip weights).foldl (fun sum (x, w) => sum + x * w) (ofNat 0) / weight

structure Summary where
  count : Nat
  mean : Float
  median : Float
  mode : List Float
  variance : Float
  stdDev : Float
  min : Float
  max : Float

/-- The least of some values. NaN is passed over, and the first of equal values stays. -/
def least (xs : List Float) : Float :=
  xs.foldl (fun low x => if x < low then x else low) Binary.infinity

def greatest (xs : List Float) : Float :=
  xs.foldl (fun high x => if high < x then x else high) (-Binary.infinity)

def summarize (xs : List Float) : Summary where
  count := xs.length
  mean := mean xs
  median := median xs
  mode := mode xs
  variance := variance xs
  stdDev := stdDev xs
  min := if xs.isEmpty then Binary.nan else least xs
  max := if xs.isEmpty then Binary.nan else greatest xs

end Reckoner.Statistics
