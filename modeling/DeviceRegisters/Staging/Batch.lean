import DeviceRegisters.Staging.Basic

/-!
# DeviceRegisters.Staging.Batch

Batches: operations that are held back together.  A batch begins by choosing
cached mode; however it ends, live mode is chosen and everything pending is
flushed.
-/

namespace DeviceRegisters.Staging

variable {β : Type} [Device.Backend β]

/-- Begins a batch. -/
def beginBatch (s : Staging β) : Staging β := s.setLive false

/-- Ends a batch and reports how the flush went. -/
def commit (s : Staging β) : Except Error Unit × Staging β := (s.setLive true).flushAll

/-- The log line of a flush whose failure nobody waits for. -/
def lossLine (e : Error) : LogLine := ⟨.error, "flush at end of batch failed: " ++ e.message⟩

/-- Ends a batch that nobody waits for: a flush that fails is logged. -/
def drop (s : Staging β) : Staging β :=
  match s.commit with
  | (.ok (), s) => s
  | (.error e, s) => { s with device := Device.Backend.note s.device (lossLine e) }

/-- Ends a batch whose body gave an answer.  The batch ends also when the body
failed, and the body's error comes before the flush's. -/
def close {α : Type} (s : Staging β) : Except Error α → Except Error α × Staging β
  | .error e => (.error e, s.drop)
  | .ok value =>
    match s.commit with
    | (.ok (), s) => (.ok value, s)
    | (.error e, s) => (.error e, s)

/-- Runs a body as a batch. -/
def batch {α : Type} (s : Staging β) (body : Staging β → Except Error α × Staging β) :
    Except Error α × Staging β :=
  let (answer, s) := body s.beginBatch
  s.close answer

end DeviceRegisters.Staging
