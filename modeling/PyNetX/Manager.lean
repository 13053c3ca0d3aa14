import Mathlib.Data.Finset.Erase
import Mathlib.Data.Finset.Insert
import PyNetX.Lib.FirstLeast
import PyNetX.Lib.Run
import PyNetX.Lib.Tally
/-!
# Manager — the notification reactors and their manager

`NotificationReactor`'s registrations and `NotificationReactorManager`'s four structures, with what the kernel decides
as inputs: whether `epoll_ctl` adds a descriptor, whether a reactor's epoll descriptor and thread can be made, whether
memory is left, and when a client's last reference goes.  A client is named by a number.
-/
namespace PyNetX

/-- `std::unordered_map<int, V>`. -/
abbrev FdMap (V : Type) := AList (fun _ : Int => V)

/-- How a call ends; `undefined` is an access behind the end of `reactors_`. -/
inductive CallEnd where
  | returned
  | threw (what : String)
  | undefined
  deriving DecidableEq

/-- A `NotificationReactor`: its handler table, and the descriptors that its epoll set holds. -/
structure Reactor where
  handlers : FdMap Nat := ∅
  epoll : Finset Int := ∅

namespace Reactor

/-- `add`; the kernel refuses a descriptor that the set holds, and may refuse any other. -/
def add (r : Reactor) (fd : Int) (client : Nat) (expired : Bool) (kernel : Except String Unit) :
    Except String Reactor :=
  let threw (what : String) : Except String Reactor := .error ("Error happened while adding to reactor pool: " ++ what)
  if fd < 0 then threw "NotificationReactor: invalid FD"
  else if expired then threw "NotificationReactor: expired client"
  else
    match (if fd ∈ r.epoll then .error "File exists" else kernel) with
    | .error strerror => threw ("NotificationReactor: epoll_ctl ADD failed: " ++ strerror)
    | .ok () => .ok { handlers := r.handlers.insert fd client, epoll := insert fd r.epoll }

def remove (r : Reactor) (fd : Int) : Reactor :=
  if fd < 0 then r else { handlers := r.handlers.erase fd, epoll := r.epoll.erase fd }

/-- The kernel takes a closed socket out of every epoll set. -/
def socketClosed (r : Reactor) (fd : Int) : Reactor := { r with epoll := r.epoll.erase fd }

end Reactor

/-- `std::min_element`: the first place whose value no other is less than. -/
def minElement (counts : List Nat) : Nat := counts.findIdx (fun c => counts.all (fun c' => c ≤ c'))

/-- `NotificationReactorManager`. -/
structure Manager where
  reactors : List Reactor := []
  deviceCounts : List Nat := []
  fdToReactor : FdMap Nat := ∅
  fdToClient : FdMap Nat := ∅

/-- What happens during a `set_reactor_count`: the order in which `fd_to_client_` is walked, what `reserve` and `assign`
come to, what each reactor's construction comes to, how many of the three looks at a descriptor's `weak_ptr` find its
client alive, and what `epoll_ctl` says to a descriptor. -/
structure Rebuild where
  walk : List (Σ _ : Int, Nat) → List (Σ _ : Int, Nat) := id
  walk_perm : ∀ entries, (walk entries).Perm entries := by exact fun _ => .refl _
  room : Except String Unit := .ok ()
  created : Nat → Except String Unit := fun _ => .ok ()
  alive : Int → Nat := fun _ => 3
  kernel : Int → Except String Unit := fun _ => .ok ()

namespace Manager

/-- Registers `fd` at the least loaded reactor: the end of `add`, and of a round of `set_reactor_count`'s loop. -/
def place (m : Manager) (fd : Int) (client : Nat) (expired : Bool) (kernel : Except String Unit) : Manager × CallEnd :=
  let best := minElement m.deviceCounts
  match m.reactors[best]? with
  | none => (m, .undefined)
  | some r =>
    match r.add fd client expired kernel with
    | .error what => (m, .threw what)
    | .ok r =>
      ({ reactors := m.reactors.set best r
         deviceCounts := m.deviceCounts.modify best (· + 1)
         fdToReactor := m.fdToReactor.insert fd best
         fdToClient := m.fdToClient.insert fd client }, .returned)

/-- `add`; `created` is what the construction of a first reactor comes to. -/
def add (m : Manager) (fd : Int) (client : Option Nat) (created kernel : Except String Unit) : Manager × CallEnd :=
  match client with
  | none => (m, .threw "NotificationReactorManager::add got null client")
  | some client =>
    if m.reactors = [] then
      match created with
      | .error what => (m, .threw what)
      | .ok () => { m with reactors := [{}], deviceCounts := m.deviceCounts ++ [0] }.place fd client false kernel
    else m.place fd client false kernel

def remove (m : Manager) (fd : Int) : Manager :=
  match m.fdToReactor.lookup fd with
  | none => m
  | some idx =>
    { reactors := m.reactors.modify idx (fun r => r.remove fd)
      deviceCounts := m.deviceCounts.modify idx (· - 1)
      fdToReactor := m.fdToReactor.erase fd
      fdToClient := m.fdToClient.erase fd }

/-- The loop of `set_reactor_count` that registers what was registered before. -/
def readd (env : Rebuild) : List (Σ _ : Int, Nat) → Manager → Manager × CallEnd
  | [], m => (m, .returned)
  | ⟨fd, client⟩ :: rest, m =>
    if env.alive fd < 2 then readd env rest m
    else
      match m.place fd client (env.alive fd < 3) (env.kernel fd) with
      | (m, .returned) => readd env rest m
      | (m, ended) => (m, ended)

/-- The loop that constructs reactors, `left` of them from reactor `i` on: how many there are at its end, and how it
ends. -/
def construct (env : Rebuild) : Nat → Nat → Nat × CallEnd
  | 0, i => (i, .returned)
  | left + 1, i =>
    match env.created i with
    | .error what => (i, .threw what)
    | .ok () => construct env left (i + 1)

/-- `set_reactor_count`.  The old reactors lose their registrations and are destroyed, whatever comes after. -/
def setReactorCount (m : Manager) (newCount : Nat) (env : Rebuild) : Manager × CallEnd :=
  if newCount = 0 then (m, .threw "new_count must be greater than 0")
  else
    let all := (env.walk m.fdToClient.entries).filter (fun e => 0 < env.alive e.1)
    match env.room with
    | .error what => ({}, .threw what)
    | .ok () =>
      let deviceCounts := List.replicate newCount 0
      match construct env newCount 0 with
      | (i, .returned) => readd env all { reactors := List.replicate i {}, deviceCounts := deviceCounts }
      | (i, ended) => ({ reactors := List.replicate i {}, deviceCounts := deviceCounts }, ended)

/-- A socket is closed without `remove`, as `mark_notification_dead` does. -/
def socketClosed (m : Manager) (fd : Int) : Manager := { m with reactors := m.reactors.map (·.socketClosed fd) }

/-- Reactor `i`'s own `remove`; the loop's dropping of a handler whose client is gone does the same. -/
def reactorRemove (m : Manager) (i : Nat) (fd : Int) : Manager :=
  { m with reactors := m.reactors.modify i (fun r => r.remove fd) }

end Manager

/-- What happens to a manager. -/
inductive ManagerCall where
  | add (fd : Int) (client : Option Nat) (created kernel : Except String Unit)
  | remove (fd : Int)
  | setReactorCount (newCount : Nat) (env : Rebuild)
  | socketClosed (fd : Int)
  | reactorRemove (i : Nat) (fd : Int)

def ManagerCall.step (m : Manager) : ManagerCall → Manager
  | .add fd client created kernel => (m.add fd client created kernel).1
  | .remove fd => m.remove fd
  | .setReactorCount newCount env => (m.setReactorCount newCount env).1
  | .socketClosed fd => m.socketClosed fd
  | .reactorRemove i fd => m.reactorRemove i fd

def runManager (calls : List ManagerCall) : Manager := Run.run ManagerCall.step {} calls

end PyNetX
