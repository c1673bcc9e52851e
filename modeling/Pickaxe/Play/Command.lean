import Pickaxe.Text.Blank
import Pickaxe.Text.Lowercase

/-! Chat commands. A line is a command if one of its words is a command word in any case; of
several, the first counts. -/
namespace Pickaxe.Play

inductive Command where
  /-- Stop mining, say goodbye and leave. -/
  | stop
  /-- Start mining, or start over. -/
  | mine
  /-- Answer a request to follow. -/
  | me
deriving DecidableEq, Repr

namespace Command

def word : Command → String
  | .stop => "!stop"
  | .mine => "!mine"
  | .me => "!me"

def ofWord? (w : String) : Option Command := [stop, mine, me].find? (·.word = w)

def classify (line : String) : Option Command :=
  (Text.words (Text.lower line)).findSome? ofWord?

end Command

end Pickaxe.Play
