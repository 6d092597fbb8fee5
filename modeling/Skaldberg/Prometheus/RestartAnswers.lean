import Skaldberg.Ingest.Restarts
import Skaldberg.Prometheus.StoreAnswers

/-!
# What a server answers after it has crashed

A query does not know how often the server has been started: it finds what the store has that the
server implements (`Skaldberg.Restarts`). The store may have a sample twice, since a start reads
what it finds in the log, whether it has been committed or not. But what a client was told was
accepted is found once it is flushed, and nothing is found that no client has sent.
-/

namespace Skaldberg.Prometheus

variable {F R : Type} [F64 F] {xxh3 : List UInt8 → UInt64} {codec : Extern F}
  {c S rotationBytes : ℕ} {t : Restarts.State (RawSample F) F}

section Instances

/-- The batches of one of the samples of two jobs. -/
def jobBatches : List (List (ValidatedSample Whole)) :=
  [jobSample "api" 0 1, jobSample "db" 0 2].filterMap fun raw =>
    ((validate sumHash raw 0).toOption).map fun x => [x]

/-- The encodings of samples with whole values, reading back these batches. -/
def jobCodec : Extern Whole where
  crc32 := Encoding.wholeCodec.crc32
  toVec := Encoding.wholeCodec.toVec
  fromSlice payload := jobBatches.find? fun samples => Encoding.wholeCodec.toVec samples == payload

/-- A server that crashes between its log and its buffer, in the middle of the next append, and in
the middle of a flush. -/
def crashing : List (Restarts.Action (RawSample Whole)) :=
  [.serve (.letIn [jobSample "api" 0 1]), .serve (.check 0), .serve (.spawn 0 0),
    .serve (.log 0 .ok), .restart ⟨false, .idle⟩ .ok,
    .serve (.letIn [jobSample "db" 0 2]), .serve (.check 0), .serve (.spawn 0 0),
    .restart ⟨false, .append 0 0⟩ .ok,
    .serve (.letIn [jobSample "db" 0 2]), .serve (.check 0), .serve (.spawn 0 0),
    .serve (.log 0 .ok), .serve (.insert 0), .serve .take, .restart ⟨true, .idle⟩ .ok,
    .serve .take, .serve (.commit .ok), .serve .truncate]

end Instances

end Skaldberg.Prometheus
