import Dao.Lib.Run

/-!
# Events

`Events` and its publisher. `Log` is two steps: the event is appended to the
buffer under one lock, and published under another. `Subscribe` copies the
buffer and joins the publisher while it has the first lock, which is one step.
Sending does not time out here. `loadBufferedEvents` is what `SubscribeTopic`
returns of the buffer.

An event carries the call of `Log` it comes from, so that two events are the
same only if they were logged once. `completed` lists the events in the order in
which their calls return, and a subscriber remembers how many had returned
before it came.
-/

namespace Dao.Events

/-- An event, and the call that logs it. -/
structure Event (μ : Type) where
  call : Nat
  message : μ
  deriving DecidableEq

/-- A subscriber: what `Subscribe` returned and what its channel was sent. -/
structure Subscriber (μ : Type) where
  current : List (Event μ)
  channel : List (Event μ)
  /-- How many calls of `Log` had returned. -/
  joined : Nat

/-- Where a call of `Log` is. -/
inductive Call (μ : Type) where
  | none
  /-- The event is in the buffer. -/
  | appended (message : μ)
  | returned

/-- `Events`, the calls of `Log`, and the subscribers of the publisher. -/
structure Sys (μ : Type) where
  events : List (Event μ)
  calls : Nat → Call μ
  subscribers : Nat → Option (Subscriber μ)
  /-- The channels that have been closed. -/
  evicted : Nat → Bool
  completed : List (Event μ)

/-- The size of the buffer. -/
def eventsLimit : Nat := 64

section Steps

variable {μ : Type}

/-- The buffer after another event. The oldest goes when it is full. -/
def push (events : List (Event μ)) (e : Event μ) : List (Event μ) :=
  if events.length = eventsLimit then events.tail ++ [e] else events ++ [e]

/-- `sendTopic`, for a subscriber without a topic. -/
def Subscriber.send (e : Event μ) (u : Subscriber μ) : Subscriber μ :=
  { u with channel := u.channel ++ [e] }

/-- What can happen next. -/
inductive Action (μ : Type) where
  /-- A call of `Log` appends its event. -/
  | append (call : Nat) (message : μ)
  /-- It publishes it. -/
  | publish (call : Nat)
  | subscribe (subscriber : Nat)
  | evict (subscriber : Nat)

/-- One step, unless it is not enabled. A channel that is closed again panics. -/
def step : Action μ → Sys μ → Except Unit (Unit × Sys μ)
  | .append call message, s =>
    match s.calls call with
    | .none => .ok ((), { s with
        events := push s.events ⟨call, message⟩
        calls := Function.update s.calls call (.appended message) })
    | _ => .error ()
  | .publish call, s =>
    match s.calls call with
    | .appended message => .ok ((), { s with
        calls := Function.update s.calls call .returned
        subscribers := fun j => (s.subscribers j).map (Subscriber.send ⟨call, message⟩)
        completed := s.completed ++ [⟨call, message⟩] })
    | _ => .error ()
  | .subscribe j, s =>
    if (s.subscribers j).isSome || s.evicted j then .error ()
    else .ok ((), { s with
      subscribers := Function.update s.subscribers j (some ⟨s.events, [], s.completed.length⟩) })
  | .evict j, s =>
    if (s.subscribers j).isSome then .ok ((), { s with
      subscribers := Function.update s.subscribers j none
      evicted := Function.update s.evicted j true })
    else .error ()

/-- `New`. -/
def initial : Sys μ := ⟨[], fun _ => .none, fun _ => none, fun _ => false, []⟩

end Steps

section Query

variable {μ : Type} (timeNano : μ → Int64)

/-- `UnixNano` of a time, in nanoseconds since 1970, and 0 for the zero time. -/
def unixNano : Option Int → Int64
  | none => 0
  | some t => .ofInt t

/-- The loop of `loadBufferedEvents`, from the newest event to the oldest. -/
def loadLoop (sinceNanoUnix untilNanoUnix : Int64) (topic : Option (μ → Bool)) :
    List (Event μ) → List (Event μ) → List (Event μ)
  | [], buffered => buffered
  | ev :: older, buffered =>
    if timeNano ev.message < sinceNanoUnix then buffered
    else if 0 < untilNanoUnix ∧ untilNanoUnix < timeNano ev.message then
      loadLoop sinceNanoUnix untilNanoUnix topic older buffered
    else loadLoop sinceNanoUnix untilNanoUnix topic older
      (if topic.all (· ev.message) then ev :: buffered else buffered)

def loadBufferedEvents (since until' : Option Int) (topic : Option (μ → Bool))
    (events : List (Event μ)) : List (Event μ) :=
  if since.isNone && until'.isNone then []
  else loadLoop timeNano (unixNano since) (unixNano until') topic events.reverse []

end Query

end Dao.Events
