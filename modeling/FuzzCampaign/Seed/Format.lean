import FuzzCampaign.GlobalState
import FuzzCampaign.Json.Shape
import FuzzCampaign.Seed.Record

/-!
The JSON shapes of a campaign's files. Every field of a seed's metadata may be absent or `null`; of
the global state, the last id and the total coverage may not; the queue's counts may be absent but
not `null`.
-/

namespace FuzzCampaign

open Json

/-- A natural that may be `null`. -/
def readCount : Reader (Option Nat) := readOption (readNatural 64)

/-- The shape of a seed's metadata. -/
def Seed.Metadata.shape : Shape Seed.Metadata where
  name := "RawSeedRecord"
  blank := .empty
  fields :=
    [.of "id" .faultInList readCount fun m v => { m with id := v },
      .of "parent_id" .faultInList readCount fun m v => { m with parent := v },
      .of "depth" .faultInList (readOption (readNatural 32)) fun m v => { m with depth := v },
      .of "state" .faultInList (readOption readString) fun m v => { m with state := v },
      .of "old_cov" .faultInList readCount fun m v => { m with oldCoverage := v },
      .of "new_cov" .faultInList readCount fun m v => { m with newCoverage := v },
      .of "cov_incr" .faultInList readCount fun m v => { m with increment := v },
      .of "oracle_verdict" .faultInList (readOption readString) fun m v => { m with verdict := v }]

/-- The shape of the queue's counts. -/
def QueueStats.shape : Shape QueueStats where
  name := "QueueStats"
  blank := ⟨0, 0⟩
  fields :=
    [.of "pool_size" .allowed (readNatural 64) fun q v => { q with poolSize := v },
      .of "processed_count" .allowed (readNatural 64) fun q v => { q with processed := v }]

/-- The shape of the global state. -/
def GlobalState.shape : Shape GlobalState where
  name := "GlobalState"
  blank := ⟨0, 0, none, none⟩
  fields :=
    [.of "last_allocated_id" .fault (readNatural 64) fun g v => { g with lastAllocated := v },
      .of "total_coverage" .fault (readNatural 64) fun g v => { g with totalCoverage := v },
      .of "current_fuzzing_id" .allowed readCount fun g v => { g with current := v },
      .of "queue_stats" .allowed (readOption QueueStats.shape.read) fun g v => { g with queue := v }]

/-- Reads a seed's metadata file. -/
def Seed.Metadata.parse (text : List UInt8) : Except Fault Seed.Metadata := shape.parse text

/-- Reads the global state's file. -/
def GlobalState.parse (text : List UInt8) : Except Fault GlobalState := shape.parse text

end FuzzCampaign
