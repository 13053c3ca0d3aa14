import PyNetX.Client
/-!
# EventBus — the process-wide queue of health events

`NotificationEventBus` as every client's `emit` finds it.  The time stamp that `emit` fills in is left out, as it is in
the events.
-/
namespace PyNetX

/-- `NotificationEventBus`. -/
structure EventBus where
  queue : List NotificationHealthEvent := []
  droppedEvents : Nat := 0

/-- The event that `next_event` makes up when its time is over; its `type` is no health event's. -/
structure TimeoutEvent where
  valid : Bool := false
  type : String := "timeout"
  label : String := "None"
  message : String := "No notification health event available before timeout"
  healthEventsDropped : Int

namespace EventBus

def maxQueueSize : Nat := 10000

/-- `emit`, the body of its section under `mtx_`. -/
def emit (bus : EventBus) (event : NotificationHealthEvent) : EventBus :=
  if maxQueueSize ≤ bus.queue.length then
    { queue := bus.queue.tail ++ [{ event with healthEventsDropped := (bus.droppedEvents + 1 : Nat) }]
      droppedEvents := bus.droppedEvents + 1 }
  else { bus with queue := bus.queue ++ [event] }

/-- The same when `push_back` gets no memory, which `emit` swallows: the oldest event is out by then. -/
def emitRefused (bus : EventBus) : EventBus :=
  if maxQueueSize ≤ bus.queue.length then { queue := bus.queue.tail, droppedEvents := bus.droppedEvents + 1 } else bus

/-- The end of `next_event` that finds an event: what it returns, and the bus. -/
def deliver (bus : EventBus) : Option (NotificationHealthEvent × EventBus) :=
  match bus.queue with
  | [] => none
  | event :: queue => some ({ event with healthEventsDropped := bus.droppedEvents }, { bus with queue := queue })

def clear (_ : EventBus) : EventBus := {}

end EventBus

end PyNetX
