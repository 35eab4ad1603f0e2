import ReturnFlow.Metrics
import ReturnFlow.Simulation

/-!
The analysis of methods: a body is reduced to its slice and the slice is executed with unknown
arguments.

Several methods are analysed independently of each other, except that they share one pool; the
failure of one leaves the others alone. A run over many methods hands them to workers, and in which
order they come to be analysed is not for the run to say: the schedule is a parameter of it. What a
run takes for granted is that

* its workers start: if they cannot be set up there is no run and nothing to report,
* each method is analysed once (the schedule holds the methods with their positions, each once),
* an analysis is not interrupted by another one that works on the same pool.

Setting up the log and the recorder of a program, the spans around a run and the clock are left out:
the time that a run took is a parameter too, and so is the number of workers, which it only reports.
-/

namespace ReturnFlow

/-- A method to be analysed, with its body. -/
structure MethodBody where
  method : Method
  code : List Instruction

/-- What is known of the result of a method. -/
structure Analysis where
  method : Method
  result : Element

namespace Analysis

/-- Analyses a method in a session. -/
def run (env : Setting) (body : MethodBody) : StateM Session (Except AnalysisError Analysis) := do
  match reduce env.ignored body.code with
  | .error e => return .error ⟨body.method, .flow e⟩
  | .ok r =>
    r.events.forM Session.emit
    Session.emit (.methodReduced r.size r.code.length)
    match ← simulateMethod env r.code (.ofUnknown body.method) with
    | .error cause => return .error ⟨body.method, cause⟩
    | .ok e => return .ok ⟨body.method, e⟩

end Analysis

/-- Analyses a method with a pool of its own. -/
def analyze (env : Setting) (body : MethodBody) : Except AnalysisError Analysis × Session :=
  (Analysis.run env body).run .empty

/-- Analyses methods in one session, in the order of the schedule. Each comes with its position
among all of them, by which the outcomes are listed. -/
def analyzeScheduled (env : Setting) (schedule : List (MethodBody × Nat)) :
    StateM Session (List (Except AnalysisError Analysis)) := do
  let done ← schedule.mapM fun job => do return (job.2, ← Analysis.run env job.1)
  return (List.range schedule.length).filterMap fun position => done.lookup position

/-! ## Measurements of a run -/

namespace Metrics

def methodsAnalyzed : String := "jaxan_methods_analyzed_total"
def methodsFailed : String := "jaxan_methods_failed_total"
def poolMethods : String := "jaxan_pool_methods"
def resultValues : String := "jaxan_result_values"
def runDuration : String := "jaxan_run_duration_seconds"

/-- Counts an outcome and, if it is a success, the values of its result. -/
def recordOutcome (m : Metrics) : Except AnalysisError Analysis → Metrics
  | .ok a => (m.addCount methodsAnalyzed 1).record resultValues (.ofInt a.result.values.length)
  | .error _ => m.addCount methodsFailed 1

/-- A duration in seconds: the whole seconds and the rest are rounded one by one. -/
def seconds (milliseconds : Nat) : Double :=
  let rest := milliseconds % 1000 * 1000000
  (Double.ofInt (milliseconds / 1000 : Nat)).add
    (Double.ofUnits false (rest * Double.unitsPerOne) 1000000000)

/-- Records the size of the pool at the end of a run and the time that the run took. -/
def recordRun (m : Metrics) (pooled milliseconds : Nat) : Metrics :=
  (m.setGauge poolMethods (.ofInt pooled)).record runDuration (seconds milliseconds)

end Metrics

/-- What a run over many methods leaves behind. -/
structure Report where
  /-- The outcomes in the order of the methods. -/
  results : List (Except AnalysisError Analysis)
  pool : Pool
  /-- What the run logs once all methods are done. -/
  log : List Event
  metrics : Metrics

/-- Analyses many methods that share a pool, in the order of the schedule: a rearrangement of the
methods with their positions, and unless another one is given, the order of the methods. The time
that the run took is for the record. -/
def analyzeAll (env : Setting) (threads : Nat) (bodies : List MethodBody) (milliseconds : Nat)
    (schedule : List (MethodBody × Nat) := bodies.zipIdx) : Report :=
  let (results, session) := (analyzeScheduled env schedule).run .empty
  let errors := results.filterMap fun
    | .ok _ => none
    | .error e => some e
  let metrics := results.foldl Metrics.recordOutcome .empty
  { results := results
    pool := session.pool
    log := errors.map .analysisFailed ++
      [.analysisComplete bodies.length errors.length session.pool.size threads]
    metrics := metrics.recordRun session.pool.size milliseconds }

end ReturnFlow
