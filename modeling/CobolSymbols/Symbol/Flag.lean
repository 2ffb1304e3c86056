import CobolSymbols.Entry.Procedure
import CobolSymbols.FlagSet
import CobolSymbols.Storage

/-!
# Flags of symbols
-/

set_option autoImplicit false

namespace CobolSymbols

inductive SymbolFlag where
  | global
  | exported
  | hidden
  | byReference
  | byContent
  | byValue
  | input
  | output
  | inout
  | returning
  | workingStorage
  | linkage
  | localStorage
  | fileSection
  | globalStorage
  | builtinType
  | redefines
  | blankWhenZero
  | justified
  | synchronized
  | signSeparate
  | external
  | groupUsageNational
  | hasValue
  | inTypeBody
  | strongType
  | strictType
  | weakType
  | nestedProgram
  | stackedProgram
  | mainProgram
  | removed
deriving DecidableEq, Repr

instance : Flag SymbolFlag where
  all := [.global, .exported, .hidden, .byReference, .byContent, .byValue, .input, .output, .inout, .returning,
    .workingStorage, .linkage, .localStorage, .fileSection, .globalStorage, .builtinType, .redefines, .blankWhenZero,
    .justified, .synchronized, .signSeparate, .external, .groupUsageNational, .hasValue, .inTypeBody, .strongType,
    .strictType, .weakType, .nestedProgram, .stackedProgram, .mainProgram, .removed]
  label
    | .global => "GLOBAL"
    | .exported => "PUBLIC"
    | .hidden => "PRIVATE"
    | .byReference => "BY_REFERENCE"
    | .byContent => "BY_CONTENT"
    | .byValue => "BY_VALUE"
    | .input => "INPUT"
    | .output => "OUTPUT"
    | .inout => "INOUT"
    | .returning => "RETURNING"
    | .workingStorage => "WORKING_STORAGE"
    | .linkage => "LINKAGE"
    | .localStorage => "LOCAL_STORAGE"
    | .fileSection => "FILE_SECTION"
    | .globalStorage => "GLOBAL_STORAGE"
    | .builtinType => "BUILTIN_TYPE"
    | .redefines => "REDEFINES"
    | .blankWhenZero => "BLANK_WHEN_ZERO"
    | .justified => "JUSTIFIED"
    | .synchronized => "SYNC"
    | .signSeparate => "SIGN_SEPARATE"
    | .external => "EXTERNAL"
    | .groupUsageNational => "GROUP_USAGE_NATIONAL"
    | .hasValue => "HAS_ATOMIC_VALUE"
    | .inTypeBody => "IN_TYPEDEF"
    | .strongType => "STRONG_TYPEDEF"
    | .strictType => "STRICT_TYPEDEF"
    | .weakType => "WEAK_TYPEDEF"
    | .nestedProgram => "NESTED_PROGRAM"
    | .stackedProgram => "STACKED_PROGRAM"
    | .mainProgram => "MAIN_PROGRAM"
    | .removed => "REMOVED"
  position := SymbolFlag.ctorIdx

abbrev SymbolFlags := FlagSet SymbolFlag

namespace SymbolFlags

def visibility : SymbolFlags := .ofList [.global, .exported, .hidden]

def storageOrigin : SymbolFlags :=
  .ofList [.workingStorage, .linkage, .localStorage, .fileSection, .globalStorage]

def restrictions : SymbolFlags := .ofList [.strongType, .strictType, .weakType]

end SymbolFlags

def StorageSection.flag : StorageSection → SymbolFlag
  | .file => .fileSection
  | .globalStorage => .globalStorage
  | .workingStorage => .workingStorage
  | .localStorage => .localStorage
  | .linkage => .linkage

def Sharing.flag : Sharing → SymbolFlag
  | .byReference => .byReference
  | .byContent => .byContent
  | .byValue => .byValue

def Direction.flag : Direction → SymbolFlag
  | .input => .input
  | .output => .output
  | .inout => .inout

def Restriction.flag : Restriction → SymbolFlag
  | .weak => .weakType
  | .strict => .strictType
  | .strong => .strongType

def Visibility.flag : Visibility → SymbolFlag
  | .hidden => .hidden
  | .exported => .exported

namespace SymbolFlags

def restriction? (flags : SymbolFlags) : Option Restriction :=
  [Restriction.strong, .strict, .weak].find? fun r => flags.has r.flag

def storage? (flags : SymbolFlags) : Option StorageSection :=
  (Labelled.all : List StorageSection).find? fun s => flags.has s.flag

end SymbolFlags

end CobolSymbols
