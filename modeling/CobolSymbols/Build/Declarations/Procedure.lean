import CobolSymbols.Build.Declarations.Data

/-!
# Procedures

A declared procedure has a linkage section of its own, which holds its parameters. The parameters of a program are
items of its linkage section that the procedure division header names. Sections and paragraphs belong to the innermost
program or procedure.
-/

set_option autoImplicit false

namespace CobolSymbols

/-- The signature with one more parameter, or with the item that is given back. -/
def Signature.add (signature : Signature) (id : SymbolId) : Option Direction → Signature
  | some _ => { signature with parameters := signature.parameters ++ [id] }
  | none => { signature with returning := some id }

namespace Declarations

/-- The flag of a parameter passed in a direction; the item that is given back has none. -/
def parameterFlag : Option Direction → SymbolFlag
  | some direction => direction.flag
  | none => .returning

def declareParameters (linkage : ScopeRef) : Forest → Signature → Declarations → Forest × Signature × Declarations
  | .nil, signature, d => (.nil, signature, d)
  | .cons node children siblings, signature, d =>
    match node.kind with
    | .parameter entry direction =>
      let (id, children, d) := d.declareItem entry .plain ⟨some linkage, none⟩ children
        (fun place d => declareFields children place d)
      let (siblings, signature, d) := declareParameters linkage siblings (signature.add id direction)
        (d.addFlags id (.single (parameterFlag direction)))
      (.cons (node.bindSymbol id) children siblings, signature, d)
    | _ =>
      let (siblings, signature, d) := declareParameters linkage siblings signature d
      (.cons node children siblings, signature, d)

def setSignature (d : Declarations) (id : SymbolId) (signature : Signature) : Declarations :=
  d.modify id fun s => { s with type := some (.signature signature) }

def procedureSymbol (header : DeclaredProcedure) (scope : SymbolId) : Symbol :=
  { name := header.name
    flags := .single header.visibility.flag
    owner := some scope
    position := header.position
    body := .procedure {} }

def openProcedure (d : Declarations) (header : DeclaredProcedure) (scope : SymbolId) : SymbolId × Declarations :=
  let (id, d) := d.alloc (procedureSymbol header scope)
  let d := (d.enterIn id (some (.slot scope .procedures))).registerProgram id
  (id, { d with scopes := id :: d.scopes })

/-- Open a declared procedure and make the symbols of its parameters, which are the children of its node. -/
def startProcedure (d : Declarations) (header : DeclaredProcedure) (parameters : Forest) :
    Option SymbolId × Forest × Declarations :=
  match d.currentScope with
  | none => (none, parameters, d)
  | some scope =>
    let saved := d.storage
    let (id, d) := d.openProcedure header scope
    let (parameters, signature, d) := declareParameters (.slot id .linkage) parameters {}
      { d with storage := some .linkage }
    (some id, parameters, { d.setSignature id signature with storage := saved })

def endProcedure (d : Declarations) : Declarations :=
  { d with scopes := d.scopes.tail, storage := none, heading := none }

/-- The linkage item that a parameter names, flagged with how it is passed; a missing one is reported. -/
def resolveParameter (d : Declarations) (scope : SymbolId) (parameter : CallParameter) :
    Option SymbolId × Declarations :=
  let found := (d.table.scope? (.slot scope .linkage)).bind fun linkage => (linkage.lookup parameter.target.name).head?
  match found with
  | none =>
    let level := d.context.options.unresolvedParameters
    let context := d.context.reportAt level (.unresolvedParameter parameter.target.name) parameter.target.position
    (none, { d with context })
  | some id =>
    let flags := (parameter.sharing.getD .byReference).flag :: parameter.direction.toList.map Direction.flag
    (some id, d.addFlags id (.ofList flags))

def resolveParameters (scope : SymbolId) : List CallParameter → Declarations → List SymbolId × Declarations
  | [], d => ([], d)
  | parameter :: rest, d =>
    let (found, d) := d.resolveParameter scope parameter
    let (others, d) := resolveParameters scope rest d
    (found.toList ++ others, d)

def resolveReturning (d : Declarations) (scope : SymbolId) : Option Reference → Option SymbolId × Declarations
  | none => (none, d)
  | some reference =>
    match d.resolveParameter scope { target := reference } with
    | (none, d) => (none, d)
    | (some id, d) => (some id, d.addFlags id (.single .returning))

/-- Find the parameters of a program; a procedure has its signature from its declaration. -/
def startProcedureDivision (d : Declarations) (header : ProcedureHeader) : Declarations :=
  let d := { d with storage := none }
  match d.currentScope with
  | none => d
  | some scope =>
    if (d.table.get scope).kind != .program then d
    else
      let (parameters, d) := resolveParameters scope header.parameters d
      let (returning, d) := d.resolveReturning scope header.returning
      d.setSignature scope ⟨parameters, returning⟩

def headingSymbol (heading : SectionHeading) (scope : SymbolId) : Symbol :=
  { name := heading.name, owner := some scope, position := heading.position, body := .heading }

def startHeading (d : Declarations) (heading : SectionHeading) : Option SymbolId × Declarations :=
  match d.currentScope with
  | none => (none, d)
  | some scope =>
    let (id, d) := d.alloc (headingSymbol heading scope)
    (some id, { d.enterIn id (some (.slot scope .sections)) with heading := some id })

/-- The symbol of a paragraph, which belongs to the procedure section it stands in, or else to the scope. -/
def paragraphSymbol (d : Declarations) (heading : ParagraphHeading) (scope : SymbolId) : Symbol :=
  { name := heading.name
    owner := some (d.heading.getD scope)
    position := heading.position
    body := .paragraph d.heading }

def startParagraph (d : Declarations) (heading : ParagraphHeading) : Option SymbolId × Declarations :=
  match d.currentScope with
  | none => (none, d)
  | some scope =>
    let (id, d) := d.alloc (d.paragraphSymbol heading scope)
    (some id, d.enterIn id (some (.slot scope .paragraphs)))

end Declarations

end CobolSymbols
