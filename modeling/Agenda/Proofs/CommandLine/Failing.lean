/-
Runs that fail.

Every command looks at the files, works out its text, and writes it last. Up to there it leaves the
files as they are. Writing is three steps: making folders adds folders and nothing else, opening the
file empties it, and filling it puts the text there. So a run that fails before the last of them
leaves every file as it was, with its bytes, and none is new.

The last step is not up to the program. A disk that has opened a file and then breaks off leaves a
beginning of the text in it, and what was there before is gone. The program neither writes to
another place first nor puts the old file back, so all that can be said then is that this one file
is the only one.
-/
import Agenda.Proofs.CommandLine.Work

set_option autoImplicit false

namespace Agenda

namespace CommandLine

variable {p : Platform} {s : Surroundings} {arguments : List String}

/-! ## Writing -/

end CommandLine

end Agenda
