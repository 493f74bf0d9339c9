import Dao.Core.Text

/-!
# Batches of Log Events

`collectBatch` of the CloudWatch log driver. It takes messages and ticks of its
timer until the channel of messages is closed. The lists it passes to
`publishBatch` are collected in order; what `publishBatch` makes of one, and
whether the service accepts it, has no influence on the next. Sequence tokens
are left out.
-/

namespace Dao.CloudWatch

def perEventBytes : Nat := 26
def maximumBytesPerPut : Nat := 1048576
def maximumLogEventsPerPut : Nat := 10000
def maximumBytesPerEvent : Nat := 262144 - perEventBytes

/-- `logger.Message`, with its time in nanoseconds. -/
structure Message where
  line : Bytes
  unixNano : Int64

structure InputLogEvent where
  message : Bytes
  timestamp : Int64
  deriving DecidableEq

/-- What the goroutine receives. -/
inductive Input where
  | tick
  | message (msg : Message)

/-- The variables of `collectBatch`, with what was published. -/
structure Batch where
  events : List InputLogEvent
  bytes : Nat
  published : List (List InputLogEvent)

def Batch.empty : Batch := ⟨[], 0, []⟩

/-- `publishBatch`, and a new batch. -/
def Batch.publish (b : Batch) : Batch := ⟨[], 0, b.published ++ [b.events]⟩

/-- Append an event, after publishing what there is if it does not fit. -/
def Batch.add (event : InputLogEvent) (b : Batch) : Batch :=
  let lineBytes := event.message.length
  let b :=
    if b.events.length ≥ maximumLogEventsPerPut ∨
        b.bytes + lineBytes + perEventBytes > maximumBytesPerPut then b.publish
    else b
  { b with events := b.events ++ [event], bytes := b.bytes + (lineBytes + perEventBytes) }

/-- The loop over the rest of a line. -/
def addLine (timestamp : Int64) (unprocessedLine : Bytes) (b : Batch) : Batch :=
  if unprocessedLine = [] then b
  else
    addLine timestamp (unprocessedLine.drop maximumBytesPerEvent)
      (b.add ⟨unprocessedLine.take maximumBytesPerEvent, timestamp⟩)
  termination_by unprocessedLine.length
  decreasing_by
    have hpos := List.length_pos_iff.mpr ‹¬unprocessedLine = []›
    rw [List.length_drop, maximumBytesPerEvent, perEventBytes]
    omega

/-- `collectBatch`, until the channel is closed. -/
def collectBatch : List Input → Batch → List (List InputLogEvent)
  | [], b => b.publish.published
  | .tick :: inputs, b => collectBatch inputs b.publish
  | .message msg :: inputs, b => collectBatch inputs (addLine (msg.unixNano / 1000000) msg.line b)

/-- `byTimestamp.Less`. -/
def less (a b : InputLogEvent) : Bool := a.timestamp < b.timestamp

/-- What `publishBatch` submits, once more if the sequence token is refused. -/
def publishBatch (sort : List InputLogEvent → List InputLogEvent) (events : List InputLogEvent)
    (refused : Bool) : List (List InputLogEvent) :=
  if events.isEmpty then [] else if refused then [sort events, sort events] else [sort events]

end Dao.CloudWatch
