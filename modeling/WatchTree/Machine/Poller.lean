import WatchTree.Machine.Delivery

/-!
# Pollers

A poller has a thread, which bears the name of its root. It fetches until its stop signal is set or
its root is closed; whoever plays a script to it does one of the two at the end of the script. A
fetch is told the revision of the root's latest state. It fails if it returns an error, or if it or
the push of its result panics; a success clears the backoff.
-/

namespace WatchTree.Machine

variable {α : Type}

/-- The bytes before the name of the root in the name of a poller's thread. -/
def threadNameStart : List UInt8 :=
  [114, 101, 118, 119, 97, 116, 99, 104, 45, 112, 111, 108, 108, 45]

/-- A thread cannot have a name with a null character. The panic tells where the first null byte
stands, and all bytes of the name. -/
def threadNamePanic? (root : String) : Option Payload :=
  let bytes := threadNameStart ++ root.toList.flatMap String.utf8EncodeChar
  match bytes.findIdx? fun b => b = 0 with
  | none => none
  | some position =>
    some (.text ("thread name may not contain interior null bytes: NulError(" ++ toString position
      ++ ", [" ++ ", ".intercalate (bytes.map fun b => toString b.toNat) ++ "])"))

/-- Ends a poller: the answer holds what happened on its thread. -/
def finish (m : Machine α) (p : Polling α) : Machine α :=
  let m := m.recordOn true (.logged p.root (m.nameOf p.root) .pollerFinished)
  let news := m.world.history.take (m.world.history.length - p.since)
  let events := (news.filter Entry.onPoller).reverse.map Entry.event
  m.answer (.polled (if p.ending = .drop then none else some false) events)

/-- Pauses after a success. -/
def succeed (m : Machine α) (p : Polling α) : Machine α :=
  (m.push (.polling { p with backoff := none })).recordOn true (.paused p.root p.config.delay)

/-- Pauses after a failure. -/
def fail (m : Machine α) (p : Polling α) (error : String) : Machine α :=
  let pause := p.config.nextBackoff p.backoff
  ((m.push (.polling { p with backoff := some pause })).recordOn true
    (.logged p.root (m.nameOf p.root) (.fetchFailed error pause))).recordOn true
      (.paused p.root pause)

/-- The error text of a panic during a fetch or a push. -/
def pollPanic (payload : Payload) : String := "poll panicked: " ++ payload.message

def setStopped (m : Machine α) (stopped : Bool) : Machine α :=
  m.inWorld fun w => { w with stopped }

/-- The next fetch of a poller, unless its signal is set or its root is closed. While it waits for
that, others may act; it looks at both again when they have done so. Where the script has ended, the
poller is ended. -/
def fetchNext (m : Machine α) (p : Polling α) : Machine α :=
  match m.world.watcher? p.root with
  | none => m.finish p
  | some body =>
    if m.world.stopped || body.closed then m.finish p
    else
      match p.script with
      | [] =>
        if p.ending = .close then (m.push (.ending p)).close p.root
        else (m.setStopped true).finish p
      | ⟨[], actions, reply⟩ :: rest =>
        ((m.push (.fetching { p with script := rest } reply)).record
          (.fetched (body.latest.map Latest.revision))).push (.script .fetch actions)
      | ⟨before, actions, reply⟩ :: rest =>
        (m.push (.polling { p with script := ⟨[], actions, reply⟩ :: rest })).push
          (.script .elsewhere before)

def takeReply [BEq α] (m : Machine α) (p : Polling α) : Reply α → Machine α
  | .state revision value =>
    (m.push (.pushing p)).offer p.root ⟨revision, value.on p.face⟩
  | .nothing => m.succeed p
  | .failed error => m.fail p error
  | .panicked payload => m.fail p (pollPanic payload)

end WatchTree.Machine
