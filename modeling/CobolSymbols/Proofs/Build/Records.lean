import CobolSymbols.Proofs.Build.Binding

/-!
# Making whole records and parameters

A record that lies in no other definition is made into symbols when it is closed, and the parameters of a procedure when
the procedure starts. Outside of programs nothing is made.
-/

set_option autoImplicit false

namespace CobolSymbols

open Forest

namespace Declarations

section Records

variable {base : Nat} {d : Declarations} {scope : SymbolId} {inside : Bool} {d' : Declarations} {f f' : Forest}

/-- What making records that lie side by side gives. -/
structure Converted (d : Declarations) (inside : Bool) (f : Forest) (made : Forest × Declarations) : Prop where
  settled : made.1.Settled inside .outside
  realized : made.1.Realized made.2.table
  gains : Gains d.table.size made.2.table.size f.symbols made.1.symbols

/-- Records that are complete and wait to be made. -/
structure Complete (d : Declarations) (inside : Bool) (f : Forest) : Prop where
  waiting : f.Waiting inside
  indexed : f.Indexed
  realized : f.Realized d.table
  symbols : ∀ id ∈ f.symbols, id < d.table.size

theorem ItemMade.converted {place : Placement} {node : Node} {children : Forest}
    {made : SymbolId × Forest × Declarations}
    (h : ItemMade d place inside (Standing.outside.below node.kind) children made)
    (hdef : node.isDefinition = true) :
    Converted d inside (.cons node children .nil) (.cons (node.bindSymbol made.1) made.2.1 .nil, made.2.2) := by
  obtain ⟨hsettled, hrealized, hgains⟩ := h.bound hdef rfl
  exact ⟨hsettled, hrealized, hgains⟩

theorem Complete.children {node : Node} {children siblings : Forest} (h : d.Complete inside (.cons node children siblings))
    (hdef : node.isDefinition = true) : d.Complete inside children ∧ children.indexNames = node.kind.indexNames := by
  obtain ⟨⟨hnode, -⟩, ⟨hnames, hindexed, -⟩, ⟨-, hrealized, -⟩, hsymbols⟩ := h
  rw [if_pos hdef] at hnode
  rw [symbols_cons] at hsymbols
  exact ⟨⟨hnode.2, hindexed, hrealized, fun id hid => hsymbols id (by simp [hid])⟩, hnames⟩

theorem Complete.of_table (h : d.Complete inside f) (htable : d'.table = d.table) : d'.Complete inside f :=
  ⟨h.waiting, h.indexed, htable ▸ h.realized, htable ▸ h.symbols⟩

/-- Only the table counts. -/
theorem Converted.of_table {d₁ d₂ : Declarations} (h : Converted d₁ inside f (f', d₂))
    (htable : d₁.table = d.table) (htable' : d₂.table = d'.table) : Converted d inside f (f', d') where
  settled := h.settled
  realized := htable' ▸ h.realized
  gains := htable ▸ htable' ▸ h.gains

/-- Moves that enter nothing into a group keep what has been made. -/
theorem Converted.moves {parent : Option ScopeRef} {d'' : Declarations}
    (h : Converted d inside f (f', d')) (hmoves : Moves base d'.table.size parent d' d'')
    (hparent : ∀ group, parent ≠ some (.fields group)) : Converted d inside f (f', d'') where
  settled := h.settled
  realized := h.realized.keep fun id _ => (hmoves.preserves hparent).view id
  gains := h.gains.mono le_rfl hmoves.extends.size_le

section Top

variable {place : Placement} {owner : SymbolId} {node : Node} {children : Forest}

/-- An entry with clauses that lies in no other definition is made with everything below it. -/
theorem declareItem_converted {kind : ItemKind} {entry : DataEntry} (h : d.Accepts base place owner entry.level kind)
    (hparent : ∀ group, place.parent ≠ some (.fields group)) (hcomplete : d.Complete inside (.cons node children .nil))
    (hdef : node.isDefinition = true)
    (hbelow : .ofBody (if kind.isType then some d.table.size else place.typeBody) = Standing.outside.below node.kind) :
    Converted d inside (.cons node children .nil)
      (.cons (node.bindSymbol (d.declareItem entry kind place children fun place d => declareFields children place d).1)
        (d.declareItem entry kind place children fun place d => declareFields children place d).2.1 .nil,
      (d.declareItem entry kind place children fun place d => declareFields children place d).2.2) := by
  obtain ⟨hchildren, -⟩ := hcomplete.children hdef
  have hmade := declareItem_made h (fun group hgroup => absurd hgroup (hparent group)) hchildren.waiting
    hchildren.realized (fun other hother => ⟨hchildren.symbols other hother, hparent other⟩)
    (declareFields_fill children hchildren.waiting hchildren.indexed)
  rw [hbelow] at hmade
  exact hmade.converted hdef

theorem declareNode_converted {parent : Option ScopeRef} (hfits : d.Fits base ⟨parent, none⟩ owner)
    (hslot : ∀ o, parent ≠ some (.slot o .types)) (hparent : ∀ group, parent ≠ some (.fields group))
    (hcomplete : d.Complete inside (.cons node children .nil)) (hdef : node.isDefinition = true)
    (hitem : ∀ entry, node.kind ≠ .typeDefinition entry) :
    Converted d inside (.cons node children .nil)
      (.cons (bindIfMade node (d.declareNode node ⟨parent, none⟩ children fun place d => declareFields children place d).1)
        (d.declareNode node ⟨parent, none⟩ children fun place d => declareFields children place d).2.1 .nil,
      (d.declareNode node ⟨parent, none⟩ children fun place d => declareFields children place d).2.2) := by
  obtain ⟨hchildren, hindexed⟩ := hcomplete.children hdef
  rcases declareNode_made hfits hslot (fun group hgroup => absurd hgroup (hparent group)) (fun _ => hchildren.waiting)
    hchildren.realized hindexed (fun other hother => ⟨hchildren.symbols other hother, hparent other⟩)
    (fun _ => declareFields_fill children hchildren.waiting hchildren.indexed) with
    ⟨-, hnothing⟩ | ⟨made, heq, -, htype, hmade⟩
  · obtain ⟨⟨entry, hkind⟩, _⟩ := hnothing hdef
    exact absurd hkind (hitem entry)
  · have hbelow : (Standing.ofBody none).below node.kind = Standing.outside.below node.kind := by
      simp [Standing.below, Standing.ofBody, htype.resolve_left Bool.false_ne_true]
    rw [heq]
    exact ItemMade.converted (hbelow ▸ hmade) hdef

theorem declareTop_converted (h : d.Scoped base scope) (tree : Tree) (hdef : tree.node.isDefinition = true)
    (hcomplete : d.Complete inside (.ofTree tree)) :
    Converted d inside (.ofTree tree) (.ofTree (d.declareTop tree scope).1, (d.declareTop tree scope).2) := by
  obtain ⟨node, children⟩ := tree
  by_cases htype : ∃ entry, node.kind = .typeDefinition entry
  · obtain ⟨entry, hkind⟩ := htype
    have hbelow : Standing.ofBody (some d.table.size) = Standing.outside.below node.kind := by
      rw [hkind]
      rfl
    rw [declareTop_of_type hkind]
    exact declareItem_converted (h.accepts_type _ _) (by simp) hcomplete hdef hbelow
  · have hitem : ∀ entry, node.kind ≠ .typeDefinition entry := fun entry heq => htype ⟨entry, heq⟩
    rw [declareTop_of_item hitem]
    exact declareNode_converted (h.fits_top hitem) (topParent_ne_types hitem scope) (d.topParent_ne_fields _ scope)
      hcomplete hdef hitem

end Top

/-- Making a record gives its definitions their symbols, inside of a program. -/
theorem declareRecord_converted (h : d.Ready base) (hscope : inside = true → d.currentScope ≠ none) (tree : Tree)
    (hdef : tree.node.isDefinition = true) (hcomplete : d.Complete inside (.ofTree tree)) :
    Converted d inside (.ofTree tree) (.ofTree (d.declareRecord tree).1, (d.declareRecord tree).2) := by
  cases hcurrent : d.currentScope with
  | none =>
    have hinside : inside = false := by
      cases inside with
      | false => rfl
      | true => exact absurd hcurrent (hscope rfl)
    subst hinside
    rw [declareRecord_of_none hcurrent]
    exact ⟨hcomplete.waiting.settled_outside _, hcomplete.realized, Gains.refl _ _ _⟩
  | some scope =>
    have hclear : Moves base d.table.size none d d.clearRenames := clearRenames_moves d
    have hscoped := (h.scoped hcurrent).moves hclear
    have hmade : Converted d inside (.ofTree tree) _ :=
      (declareTop_converted hscoped tree hdef (hcomplete.of_table rfl)).of_table rfl rfl
    rw [declareRecord_of_some hcurrent]
    have hpending := (declareTop_moves hscoped tree).pendingRenames nofun
    generalize d.clearRenames.declareTop tree scope = made at hmade hpending ⊢
    obtain ⟨tree', d'⟩ := made
    have hchecked : Moves base d'.table.size none d' d'.checkRenames.clearRenames :=
      ((checkRenames_checks _).moves hpending).trans (clearRenames_moves d'.checkRenames)
    exact hmade.moves hchecked nofun

end Records

section Parameters

variable {base : Nat} {d : Declarations} {scope : SymbolId} {inside : Bool}

/-- Records are made one after the other. -/
theorem Converted.cons {node node' : Node} {children children' siblings siblings' : Forest} {d' d'' : Declarations}
    (h : Converted d inside (.cons node children .nil) (.cons node' children' .nil, d'))
    (h' : Converted d' inside siblings (siblings', d'')) (hsize : d.table.size ≤ d'.table.size)
    (hpres : d'.table.Preserves d''.table) :
    Converted d inside (.cons node children siblings) (.cons node' children' siblings', d'') := by
  have hrealized := h.realized.keep fun id _ => hpres.view id
  refine ⟨⟨h.settled.1, h'.settled⟩, ⟨hrealized.1, hrealized.2.1, h'.realized⟩, ?_⟩
  rw [symbols_cons_nil, symbols_cons_nil node']
  exact h.gains.append h'.gains hsize hpres.size_le

theorem declareParameters_cons {node : Node} {entry : DataEntry} {direction : Option Direction}
    (hkind : node.kind = .parameter entry direction) (linkage : ScopeRef) (children siblings : Forest)
    (signature : Signature) (d : Declarations) {made : SymbolId × Forest × Declarations}
    (hmade : d.declareItem entry .plain ⟨some linkage, none⟩ children (fun place d => declareFields children place d) =
      made) :
    declareParameters linkage (.cons node children siblings) signature d =
      (.cons (node.bindSymbol made.1) made.2.1
        (declareParameters linkage siblings (signature.add made.1 direction)
          (made.2.2.addFlags made.1 (.single (parameterFlag direction)))).1,
      (declareParameters linkage siblings (signature.add made.1 direction)
        (made.2.2.addFlags made.1 (.single (parameterFlag direction)))).2) := by
  subst hmade
  rw [declareParameters]
  simp only [hkind]

/-- Parameters are made one after the other. -/
theorem declareParameters_converted (f : Forest) (hroots : ∀ n ∈ f.roots, ∃ entry direction, n.kind = .parameter entry direction)
    (signature : Signature) (d : Declarations) (h : d.Scoped base scope) (hcomplete : d.Complete inside f) :
    Converted d inside f ((declareParameters (.slot scope .linkage) f signature d).1,
      (declareParameters (.slot scope .linkage) f signature d).2.2) := by
  induction f generalizing signature d with
  | nil => exact ⟨trivial, trivial, Gains.refl _ _ _⟩
  | cons node children siblings _ ih =>
    obtain ⟨entry, direction, hkind⟩ := hroots node List.mem_cons_self
    have hdef : node.isDefinition = true := Node.isDefinition_of_kind hkind
    have hplain : ItemKind.plain.isType = false := rfl
    obtain ⟨hwaiting, hindexed, hrealized, hsymbols⟩ := hcomplete
    have hcompleteHead : d.Complete inside (.cons node children .nil) := by
      refine ⟨⟨hwaiting.1, trivial⟩, ⟨hindexed.1, hindexed.2.1, trivial⟩, ⟨hrealized.1, hrealized.2.1, trivial⟩, ?_⟩
      intro id hid
      exact hsymbols id (by rw [symbols_cons_nil]; exact List.mem_append_left _ hid)
    have hhead := declareItem_converted (h.fits_linkage.accepts (by simp) entry.level ⟨hplain, nofun⟩ nofun) (by simp)
      hcompleteHead hdef (by rw [hkind]; rfl)
    obtain ⟨hmoves, hlt⟩ := parameter_moves h entry children
    have hbase : base ≤ (d.declareItem entry .plain ⟨some (.slot scope .linkage), none⟩ children
        fun place d => declareFields children place d).1 := h.base_le.trans h.lt.le
    have hlt' : (d.declareItem entry .plain ⟨some (.slot scope .linkage), none⟩ children
        fun place d => declareFields children place d).1 < _ := hlt
    generalize hmade : d.declareItem entry .plain ⟨some (.slot scope .linkage), none⟩ children
      (fun place d => declareFields children place d) = made at hhead hmoves hbase hlt'
    rw [declareParameters_cons hkind _ _ _ _ _ hmade]
    obtain ⟨id, children', d'⟩ := made
    have hflagged : Moves base d'.table.size none d' (d'.addFlags id (.single (parameterFlag direction))) :=
      addFlags_moves hbase hlt' (avoids_parameterFlag direction)
    have hboth := hmoves.trans (addFlags_moves hbase hlt' (avoids_parameterFlag direction))
    have hhead' := hhead.moves hflagged nofun
    generalize d'.addFlags id (.single (parameterFlag direction)) = flagged at hboth hhead' ⊢
    have hscoped := h.moves hboth
    have hcompleteRest : flagged.Complete inside siblings := by
      refine ⟨hwaiting.2, hindexed.2.2, hrealized.2.2.keep fun id' _ => ?_, fun id' hid => ?_⟩
      · exact (hboth.preserves (by simp)).view id'
      · refine (hsymbols id' ?_).trans_le hboth.extends.size_le
        rw [symbols_cons]
        exact List.mem_append_right _ hid
    have hrest := ih (fun n hn => hroots n (List.mem_cons_of_mem _ hn)) (signature.add id direction) flagged hscoped
      hcompleteRest
    have hrestMoves := declareParameters_moves siblings (signature.add id direction) flagged hscoped le_rfl
    exact hhead'.cons hrest hboth.extends.size_le (hrestMoves.preserves (by simp))

theorem size_alloc_enterIn (s : Symbol) (ref : ScopeRef) :
    ((d.alloc s).2.enterIn d.table.size (some ref)).table.size = d.table.size + 1 := by
  have hentered := Table.size_enter (d.alloc s).2.table ref d.table.size
  exact hentered.trans (Table.size_alloc d.table s)

/-- A procedure gets its symbol, and then its parameters get theirs. -/
theorem startProcedure_converted (h : d.Ready base) (hscope : inside = true → d.currentScope ≠ none)
    (header : DeclaredProcedure) {parameters : Forest}
    (hroots : ∀ n ∈ parameters.roots, ∃ entry direction, n.kind = .parameter entry direction)
    (hcomplete : d.Complete inside parameters) :
    (d.startProcedure header parameters).2.1.Settled inside .outside ∧
      (d.startProcedure header parameters).2.1.Realized (d.startProcedure header parameters).2.2.table ∧
      Gains d.table.size (d.startProcedure header parameters).2.2.table.size parameters.symbols
        ((d.startProcedure header parameters).1.toList ++ (d.startProcedure header parameters).2.1.symbols) := by
  cases hcurrent : d.currentScope with
  | none =>
    have hinside : inside = false := by
      cases inside with
      | false => rfl
      | true => exact absurd hcurrent (hscope rfl)
    subst hinside
    rw [startProcedure_of_none hcurrent]
    exact ⟨hcomplete.waiting.settled_outside _, hcomplete.realized, Gains.refl _ _ _⟩
  | some scope =>
    have hopened := procedure_moves (h.scoped hcurrent) header
    have hscoped := h.scoped_linkage hcurrent header
    have hsize : (d.openProcedure header scope).2.table.size = d.table.size + 1 :=
      size_alloc_enterIn (d := d) (procedureSymbol header scope) (.slot scope .procedures)
    have hcomplete' : (d.openProcedure header scope).2.Complete inside parameters := by
      refine ⟨hcomplete.waiting, hcomplete.indexed, hcomplete.realized.keep fun id _ => ?_, fun id hmem => ?_⟩
      · exact (hopened.preserves (by simp)).view id
      · exact (hcomplete.symbols id hmem).trans_le hopened.extends.size_le
    have hmade := declareParameters_converted parameters hroots {} _ hscoped (hcomplete'.of_table rfl)
    have hmoves := declareParameters_moves parameters {} _ hscoped le_rfl
    unfold startProcedure
    simp only [hcurrent]
    generalize hlisted : declareParameters (.slot d.table.size .linkage) parameters {}
      { (d.openProcedure header scope).2 with storage := some .linkage } = made at hmade hmoves
    obtain ⟨parameters', signature, d'⟩ := made
    have hsigned : Moves base d'.table.size none d' { d'.setSignature d.table.size signature with storage := d.storage } :=
      (Move.setSignature d' d.table.size signature hscoped.base_le (hscoped.moves hmoves).kind).moves.trans
        (Move.note (d'.setSignature d.table.size signature) d.storage d'.pendingRenames fun _ hentry => .inl hentry).moves
    have hfinal := hmade.moves hsigned nofun
    have hgains := hfinal.gains
    have hsize' : ({ (d.openProcedure header scope).2 with storage := some .linkage } : Declarations).table.size =
      d.table.size + 1 := hsize
    rw [hsize'] at hgains
    have hlt : d.table.size < d'.table.size := Nat.lt_of_lt_of_le (hsize' ▸ Nat.lt_succ_self _) hmoves.extends.size_le
    have hid : (d.openProcedure header scope).1 = d.table.size := rfl
    rw [hid, hlisted]
    exact ⟨hfinal.settled, hfinal.realized, hgains.cons (hlt.trans_le hsigned.extends.size_le)⟩

end Parameters

section Made

variable {base : Nat} {d : Declarations}

theorem startProgram_gains (h : d.Ready base) (header : ProgramHeader) :
    Gains d.table.size (d.startProgram header).2.table.size [] [(d.startProgram header).1] := by
  obtain ⟨base', program, made, _, hmade, htable, _⟩ := h.startProgram_cases header
  rw [htable]
  exact Gains.single hmade.id_eq.symm.le hmade.lt

theorem alloc_enterIn_gains (s : Symbol) (ref : ScopeRef) :
    Gains d.table.size ((d.alloc s).2.enterIn d.table.size (some ref)).table.size [] [d.table.size] := by
  rw [size_alloc_enterIn]
  exact Gains.single le_rfl (Nat.lt_succ_self _)

theorem startHeading_gains (heading : SectionHeading) :
    Gains d.table.size (d.startHeading heading).2.table.size [] (d.startHeading heading).1.toList := by
  unfold startHeading
  split
  · exact Gains.refl _ _ _
  · rename_i scope _
    exact alloc_enterIn_gains (headingSymbol heading scope) _

theorem startParagraph_gains (heading : ParagraphHeading) :
    Gains d.table.size (d.startParagraph heading).2.table.size [] (d.startParagraph heading).1.toList := by
  unfold startParagraph
  split
  · exact Gains.refl _ _ _
  · rename_i scope _
    exact alloc_enterIn_gains (d.paragraphSymbol heading scope) _

end Made

end Declarations

end CobolSymbols
