import LineShell.Builtin.Dispatch
import LineShell.Chain.Basic
import LineShell.Expansion
import LineShell.Resolution

/-! Running a line: its links from left to right, each expanded only when its turn comes. -/

namespace LineShell

inductive Flow
  | continue
  | exit (status : Int)
  deriving DecidableEq, Repr

namespace Machine

variable {σ : Type}

def expander (m : Machine σ) : Expander :=
  { aliases := m.session.aliases, environment := m.session.environment,
    status := m.session.status, pid := m.session.pid }

def argv (m : Machine σ) (t : Text) : List Text := Text.words (m.expander.expand t)

def settle (m : Machine σ) (status : Int) : Flow × Machine σ :=
  (.continue, m.update (·.withStatus status))

def refuse (m : Machine σ) (command message : Text) (status : Int) : Flow × Machine σ :=
  (m.update (·.report command message)).settle status

def runBuiltin (host : Host σ) (m : Machine σ) (b : Builtin) (args : List Text) :
    Flow × Machine σ :=
  match b.run host m args with
  | (.ok (.status status), m) => m.settle status
  | (.ok (.exit status), m) => (.exit status, m.update (·.withStatus status))
  | (.error e, m) => m.refuse b.name e.message e.status

def runProgram (host : Host σ) (m : Machine σ) (program : Path) (name : Text)
    (args : List Text) : Flow × Machine σ :=
  match m.spawn host program (name :: args) with
  | (.ok code, m) => m.settle code
  | (.error e, m) => m.refuse name e.message 126

def runCommand (host : Host σ) (m : Machine σ) (name : Text) (args : List Text) :
    Flow × Machine σ :=
  match m.ask (Resolution.resolve host m.session.environment m.session.directory name) with
  | (.builtin b, m) => runBuiltin host m b args
  | (.external program, m) => runProgram host m program name args
  | (.notExecutable _, m) => m.refuse name "Permission denied".toList 126
  | (.notFound, m) => m.refuse name "not found".toList 127

def runText (host : Host σ) (m : Machine σ) (t : Text) : Flow × Machine σ :=
  match m.argv t with
  | [] => (.continue, m)
  | name :: args => runCommand host m name args

def runLink (host : Host σ) (m : Machine σ) (link : Link) : Flow × Machine σ :=
  if link.operator.admits m.session.status then runText host m link.text else (.continue, m)

def runChain (host : Host σ) (m : Machine σ) : Chain → Flow × Machine σ
  | [] => (.continue, m)
  | link :: later =>
    match runLink host m link with
    | (.exit status, m) => (.exit status, m)
    | (.continue, m) => runChain host m later

def runLine (host : Host σ) (m : Machine σ) (line : Text) : Flow × Machine σ :=
  runChain host m (Chain.parse line)

end Machine

end LineShell
