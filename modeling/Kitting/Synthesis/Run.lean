import Kitting.Synthesis.Proposal

/-!
Synthesis runs: the part numbers without a proposal go to the service in batches, and the checkpoint
grows by each answered batch.

A batch is submitted until its answer is usable, or until its attempts are used up; then the run stops,
and a later one goes on from the checkpoint. What the service does is left open: it may keep a state `σ`
of any kind, and so may whoever stores the checkpoints.
-/

namespace Kitting

structure Checkpoint where
  proposals : List Proposal := []
  timestamp : String := ""
  deriving DecidableEq

namespace Checkpoint

def partNumbers (c : Checkpoint) : List String := c.proposals.map (·.partNumber)

def extend (c : Checkpoint) (now : String) (more : List Proposal) : Checkpoint :=
  ⟨c.proposals ++ more, now⟩

def reading : Reading Checkpoint := .record fun fs =>
  Checkpoint.mk <$> fs.optional "proposals" (.list Proposal.reading) []
    <*> fs.optional "timestamp" .strict ""

def toJson (c : Checkpoint) : Json :=
  .obj [("proposals", .arr (c.proposals.map Proposal.toJson)), ("timestamp", .str c.timestamp)]

/-- The checkpoint in a file's text. Anything wrong with it, down to a single field, makes it empty; only
an overflow is more than wrong. The text is read as every other JSON text; left out is that checkpoints have a
stricter reader, for which the escape of a lone surrogate, or very deep nesting, is wrong too. -/
def ofText (s : String) : Except Error Checkpoint :=
  match Json.ofText? s with
  | none => .ok {}
  | some v => match reading.run v with
    | .ok c => .ok c
    | .error (.invalid _) => .ok {}
    | .error e => .error e

def toText (c : Checkpoint) : String := Json.render .checkpoint c.toJson

end Checkpoint

namespace Synthesis

/-- How a run works: part numbers to a batch, further attempts after a failed one, and orders to show of
each part number. -/
structure Settings where
  clusterSize : Int := 5
  maxRetries : Int := 2
  maxEvidence : Int := 8
  deriving DecidableEq, Repr

structure Run where
  checkpoint : Checkpoint
  completed : Bool := true
  clustersDone : Nat := 0
  failed : List String := []
  deriving DecidableEq

def Run.toJson (r : Run) : Json :=
  .obj [("checkpoint", r.checkpoint.toJson), ("completed", .bool r.completed),
    ("clusters_done", .int r.clustersDone), ("failed_cluster", .arr (r.failed.map .str))]

def pending (book : EvidenceBook) (c : Checkpoint) : List String :=
  (Assoc.keys book).filter (!c.partNumbers.contains ·)

def chunksFrom {α : Type} (size : Nat) : (fuel : Nat) → List α → List (List α)
  | _, [] => []
  | 0, _ => []
  | fuel + 1, x :: xs => (x :: xs).take size :: chunksFrom size fuel ((x :: xs).drop size)

def clusters (settings : Settings) (numbers : List String) : List (List String) :=
  chunksFrom (max settings.clusterSize 1).toNat numbers.length numbers

def batch (settings : Settings) (book : EvidenceBook) (cluster : List String) : List Evidence :=
  (cluster.filterMap (Assoc.get? book)).map (·.shorten settings.maxEvidence)

structure Service (σ : Type) where
  ask : List Evidence → String → EStateM Error σ (Option String)
  save : Checkpoint → EStateM Error σ Unit

variable {σ : Type}

def liftResult {α : Type} : Except Error α → EStateM Error σ α
  | .ok a => pure a
  | .error e => throw e

def attempt (service : Service σ) (book : EvidenceBook) (parts : List Part) (evidence : List Evidence)
    (hint : String) : Nat → EStateM Error σ (Option (List Proposal))
  | 0 => pure none
  | n + 1 => do
    let answer ← service.ask evidence hint
    match ← liftResult (Proposal.ofAnswer book parts answer) with
    | some ps => pure (some ps)
    | none => attempt service book parts evidence hint n

def runClusters (service : Service σ) (settings : Settings) (book : EvidenceBook) (parts : List Part)
    (glossary : Glossary) (now : String) (done : Nat) (c : Checkpoint) :
    List (List String) → EStateM Error σ Run
  | [] => pure { checkpoint := c, clustersDone := done }
  | cluster :: rest => do
    let evidence := batch settings book cluster
    let attempts := (settings.maxRetries + 1).toNat
    match ← attempt service book parts evidence (glossary.hint evidence) attempts with
    | none => pure { checkpoint := c, completed := false, clustersDone := done, failed := cluster }
    | some ps =>
      let c := c.extend now ps
      service.save c
      runClusters service settings book parts glossary now (done + 1) c rest

def run (service : Service σ) (settings : Settings) (book : EvidenceBook) (parts : List Part)
    (glossary : Glossary) (now : String) (c : Checkpoint) : EStateM Error σ Run :=
  runClusters service settings book parts glossary now 0 c (clusters settings (pending book c))

end Synthesis

end Kitting
