import MetricRelay.Filter

/-!
A filter that several tasks share. A task does its call in parts: each part has the filter to itself,
and parts of other tasks may come between two of them. In particular a key is looked up in one part and an
unknown host is noted in a later one, and a refresh holds nothing while it waits for the server.
-/
namespace MetricRelay

namespace Filter

/-- What a task asks of the filter. -/
inductive Call where
  | pass (host key : String)
  | note (host : String)
  | replace (host : String) (keys : ActiveKeys)
  | refresh
  deriving DecidableEq, Repr, Inhabited

/-- How far a task has come with its call. -/
inductive Task where
  | called (call : Call)
  /-- The key was looked up and the host not found; it is still to be noted. -/
  | unknown (host key : String)
  /-- The caller was told whether the key passes. -/
  | judged (host key : String) (passes : Bool)
  | done (call : Call)
  /-- These hosts of a refresh have no answer; the server was asked for the first one. -/
  | asking (hosts : List String)
  /-- A refresh that was given up while it waited for the first of these hosts. -/
  | cancelled (hosts : List String)
  deriving DecidableEq, Repr, Inhabited

/-- What a task did in a part of its call. -/
inductive Deed where
  | lookedUp (host key : String)
  | noted (host : String)
  | replaced (host : String) (keys : ActiveKeys)
  | asked (host : String)
  | warned (notice : Notice)
  deriving DecidableEq, Repr, Inhabited

/-- What a task goes on with. -/
inductive Part where
  /-- What it can do by itself. -/
  | own
  /-- It copies the hosts that are kept track of, in some order. -/
  | copy (order : List String)
  /-- It gets the server's answer for the host that it asked for. -/
  | answer (server : String → Except ClientError ActiveKeys)
  | cancel

/-- A refresh asks for the first host that has no answer. -/
def asks (hosts : List String) : List Deed := hosts.head?.toList.map .asked

/-- What a refresh does with the server's answer for a host. -/
def settles (host : String) : Except ClientError ActiveKeys → Deed
  | .ok keys => .replaced host keys
  | .error cause => .warned (.checksUnavailable host cause)

/-- One part of a call: the filter after it, how far the task has come, and what it did. A part that does
not fit changes nothing. -/
def advance (f : Filter) : Task → Part → Filter × Task × List Deed
  | .called (.pass host key), .own =>
    if f.enabled then
      match f.judge host key with
      | some passes => (f, .judged host key passes, [.lookedUp host key])
      | none => (f, .unknown host key, [.lookedUp host key])
    else (f, .judged host key true, [])
  | .unknown host key, .own => (f.note host, .judged host key false, [.noted host])
  | .called (.note host), .own => (f.note host, .done (.note host), [.noted host])
  | .called (.replace host keys), .own =>
    (f.replace host keys, .done (.replace host keys), [.replaced host keys])
  | .called .refresh, .copy order =>
    if order.isPerm f.tracked then (f, .asking order, asks order) else (f, .called .refresh, [])
  | .asking (host :: rest), .answer server =>
    (f.learn host (server host), .asking rest, settles host (server host) :: asks rest)
  | .asking (host :: rest), .cancel => (f, .cancelled (host :: rest), [])
  | task, _ => (f, task, [])

/-- What can happen next: a further task makes a call, or one of the tasks goes on. -/
inductive Move where
  | call (call : Call)
  | act (task : Nat) (part : Part)

/-- A filter with the tasks that share it. -/
structure Shared where
  filter : Filter
  /-- One task for each call, in the order of the calls. -/
  tasks : List Task
  /-- All that was done so far, each time with the number of the task that did it. -/
  history : List (Nat × Deed)
  deriving DecidableEq, Repr

namespace Shared

def start (enabled : Bool) (localHost : String) : Shared := ⟨Filter.start enabled localHost, [], []⟩

def step (p : Shared) : Move → Shared
  | .call call => { p with tasks := p.tasks ++ [.called call] }
  | .act i part =>
    match p.tasks[i]? with
    | none => p
    | some task =>
      let (filter, task, deeds) := p.filter.advance task part
      ⟨filter, p.tasks.set i task, p.history ++ deeds.map (i, ·)⟩

/-- The parts of all calls, in any order in which they may come. -/
def run (p : Shared) (moves : List Move) : Shared := moves.foldl step p

end Shared

end Filter

end MetricRelay
