import LineShell.Builtin.Basic
import LineShell.Session

/-! A session together with the world around it and a journal of what was done there. -/

namespace LineShell

inductive Event
  | call (builtin : Builtin) (args : List Text)
  | print (octets : Bytes)
  | flush
  | launch (request : Launch)
  | persist
  deriving DecidableEq, Repr

structure Machine (σ : Type) where
  session : Session
  world : σ
  /-- The events so far, the last one first. -/
  past : List Event := []

namespace Machine

variable {σ : Type}

def record (m : Machine σ) (e : Event) : Machine σ := { m with past := e :: m.past }

def journal (m : Machine σ) : List Event := m.past.reverse

def update (m : Machine σ) (f : Session → Session) : Machine σ :=
  { m with session := f m.session }

def print (m : Machine σ) (t : Text) : Except IoError Unit × Machine σ :=
  if t.isEmpty then (.ok (), m)
  else
    let octets := Utf8.encode t
    let (answer, sink) := m.session.sink.write octets
    (answer, (m.record (.print octets)).update fun s => { s with sink })

def flush (m : Machine σ) : Except IoError Unit × Machine σ :=
  (m.session.sink.flush, m.record .flush)

def ask {α : Type} (m : Machine σ) (question : σ → α × σ) : α × Machine σ :=
  let (answer, world) := question m.world
  (answer, { m with world })

def request (m : Machine σ) (program : Path) (argv : List Text) : Launch :=
  { program, argv, environment := m.session.environment.vars.entries,
    directory := m.session.directory }

/-- Runs a program after flushing the output, so that both come in order; it is run as well if that
fails. What the program wrote goes to the sink, and is lost if that is broken. -/
def spawn (host : Host σ) (m : Machine σ) (program : Path) (argv : List Text) :
    Except IoError Nat × Machine σ :=
  let request := m.request program argv
  match (m.flush.2.record (.launch request)).ask (host.launch request) with
  | (.error e, m) => (.error e, m)
  | (.ok (status, output), m) =>
    (.ok status.code, m.update fun s => { s with sink := (s.sink.write output).2 })

end Machine

end LineShell
