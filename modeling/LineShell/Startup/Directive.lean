import LineShell.Session
import LineShell.Startup.Setting

/-! Carrying out the directives of a startup file in a session. -/

namespace LineShell

/-- Carries out a directive. Values of variables are expanded as things stand then, and a name
that is not valid is passed over. -/
def Directive.apply (s : Session) : Directive → Session
  | .alias name value => { s with aliases := s.aliases.insert name value }
  | .setenv name value =>
    { s with
      environment := s.environment.setIfValid name (s.environment.expandValue value) }

namespace Session

def applyDirectives (s : Session) (ds : List Directive) : Session := ds.foldl Directive.apply s

end Session

end LineShell
