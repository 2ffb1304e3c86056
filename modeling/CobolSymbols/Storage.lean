import CobolSymbols.Text.Label

/-!
# Storage sections of the data division
-/

set_option autoImplicit false

namespace CobolSymbols

inductive StorageSection where
  | file
  | globalStorage
  | workingStorage
  | localStorage
  | linkage
deriving DecidableEq, Repr

namespace StorageSection

instance : Labelled StorageSection where
  all := [.file, .globalStorage, .workingStorage, .localStorage, .linkage]
  label
    | .file => "File"
    | .globalStorage => "GlobalStorage"
    | .workingStorage => "WorkingStorage"
    | .localStorage => "LocalStorage"
    | .linkage => "Linkage"

def keyword : StorageSection → String
  | .file => "FILE SECTION"
  | .globalStorage => "GLOBAL-STORAGE SECTION"
  | .workingStorage => "WORKING-STORAGE SECTION"
  | .localStorage => "LOCAL-STORAGE SECTION"
  | .linkage => "LINKAGE SECTION"

end StorageSection

end CobolSymbols
