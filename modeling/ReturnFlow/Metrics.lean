import ReturnFlow.Double.Print
import ReturnFlow.Keyed

/-!
Counters, gauges and histograms by key, and their summary as text.
-/

namespace ReturnFlow

/-- The measurements recorded so far; each kind has keys of its own. -/
structure Metrics where
  counters : List (String × UInt64)
  gauges : List (String × Double)
  /-- The recorded values of a histogram, in order. -/
  histograms : List (String × List Double)

namespace Metrics

def empty : Metrics := ⟨[], [], []⟩

/-- A key with its labels, in the order given. -/
def key (name : String) (labels : List (String × String)) : String :=
  if labels.isEmpty then name
  else
    let settings := labels.map fun (k, v) => k ++ "=" ++ v
    name ++ String.singleton '{' ++ String.intercalate "," settings ++ String.singleton '}'

/-! ## Recording -/

/-- Adds to a counter, which starts at zero and wraps around at the end of its range. -/
def addCount (m : Metrics) (key : String) (n : UInt64) : Metrics :=
  { m with counters := Keyed.set key ((Keyed.get? key m.counters).getD 0 + n) m.counters }

def setCount (m : Metrics) (key : String) (n : UInt64) : Metrics :=
  { m with counters := Keyed.set key n m.counters }

def setGauge (m : Metrics) (key : String) (v : Double) : Metrics :=
  { m with gauges := Keyed.set key v m.gauges }

/-- The value of a gauge, which starts at zero. -/
def gaugeOrZero (m : Metrics) (key : String) : Double :=
  (Keyed.get? key m.gauges).getD (Double.ofInt 0)

def raiseGauge (m : Metrics) (key : String) (v : Double) : Metrics :=
  m.setGauge key ((m.gaugeOrZero key).add v)

def lowerGauge (m : Metrics) (key : String) (v : Double) : Metrics :=
  m.setGauge key ((m.gaugeOrZero key).sub v)

def record (m : Metrics) (key : String) (v : Double) : Metrics :=
  { m with
    histograms := Keyed.set key ((Keyed.get? key m.histograms).getD [] ++ [v]) m.histograms }

/-! ## Reading -/

def counter? (m : Metrics) (key : String) : Option UInt64 := Keyed.get? key m.counters

def gauge? (m : Metrics) (key : String) : Option Double := Keyed.get? key m.gauges

def histogram? (m : Metrics) (key : String) : Option (List Double) := Keyed.get? key m.histograms

/-- The least number of a list, infinity if there is none; a NaN does not count, and of equal
numbers, such as the two zeros, the last one is taken. -/
def least (values : List Double) : Double :=
  values.foldl (fun low v => if v.isNaN || low.lt v then low else v) (Double.infinity false)

/-- The greatest number of a list, minus infinity if there is none; a NaN does not count, and of
equal numbers the last one is taken. -/
def greatest (values : List Double) : Double :=
  values.foldl (fun high v => if v.isNaN || v.lt high then high else v) (Double.infinity true)

/-- The sum from left to right; that of no number, or of negative zeros only, is negative zero. -/
def total (values : List Double) : Double :=
  values.foldl Double.add (Double.ofCode true 0)

def average (values : List Double) : Double :=
  (total values).divCount values.length

/-- Numbers of a summary have three places. -/
def number (v : Double) : String := v.fixed 3

def histogramLine (key : String) (values : List Double) : String :=
  key ++ ": count=" ++ values.length.repr ++ ", min=" ++ number (least values) ++
    ", max=" ++ number (greatest values) ++ ", avg=" ++ number (average values)

/-- All measurements, a line each: counters, gauges, histograms that have values, and by key among
those. -/
def summary (m : Metrics) : String :=
  let counters := m.counters.map fun (key, n) => key ++ ": " ++ n.toNat.repr
  let gauges := m.gauges.map fun (key, v) => key ++ ": " ++ number v
  let histograms := (m.histograms.filter fun (_, values) => !values.isEmpty).map
    fun (key, values) => histogramLine key values
  String.join ((counters ++ gauges ++ histograms).map (· ++ "\n"))

end Metrics

end ReturnFlow
