import LineShell.Execution
import LineShell.Source

/-! A whole run of the shell: lines are read and run one at a time, and then all is put away. -/

namespace LineShell

structure Ending (σ : Type) where
  result : Except IoError Int
  machine : Machine σ
  unread : Feed
  unsaved : Option HistoryError

namespace Shell

variable {σ : Type}

def loop (host : Host σ) (m : Machine σ) : Feed → Except IoError Int × Machine σ × Feed
  | .finished => (.ok m.session.status, m, .finished)
  | .failed e => (.error e, m, .failed e)
  | .line t later =>
    match (m.update (·.accept t)).runLine host t with
    | (.exit status, m) => (.ok status, m, later)
    | (.continue, m) => loop host m later

def finish (host : Host σ) (m : Machine σ) : Option HistoryError × Machine σ :=
  match (m.flush.2.record .persist).ask (m.session.history.persist host) with
  | (.ok (), m) => (none, m)
  | (.error e, m) => (some e, m)

def run (host : Host σ) (m : Machine σ) (feed : Feed) : Ending σ :=
  let (result, m, unread) := loop host m feed
  let (unsaved, m) := finish host m
  { result, machine := m, unread, unsaved }

end Shell

end LineShell
