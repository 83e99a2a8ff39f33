-- Lexical normalization: a path without `.`, and without `..` where a name
-- stands before it. No file is looked at, so a link is not resolved.
import CompileCommands.Path

namespace CompileCommands.Path

/-- One component more on a normalized path, which is kept last component
first. `..` takes back a name, is dropped at the root, and is kept else. -/
def pushComponent (above : List Component) : Component → List Component
  | .current => above
  | .root => [.root]
  | .normal name => .normal name :: above
  | .parent =>
    match above with
    | .normal _ :: rest => rest
    | .root :: _ => above
    | _ => .parent :: above

/-- The components of the normalized path. -/
def normalComponents (components : List Component) : List Component :=
  (components.foldl pushComponent []).reverse

/-- The path without `.`, and with `..` only where a relative path climbs
above its start. -/
def normalize (p : Path) : Path := ofComponents (normalComponents p.components)

/-- The normalized place of `p`, seen from `base`. -/
def absolutize (p base : Path) : Path :=
  if p.isAbsolute then p.normalize else (base.join p).normalize

end CompileCommands.Path
