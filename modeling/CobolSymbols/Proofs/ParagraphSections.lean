import CobolSymbols.Proofs.Session.Boundaries

/-!
# The sections of paragraphs

A paragraph belongs to the section that the declarations keep when it starts. That is the section which has started last,
unless a section, a program or a procedure has ended or a program has started since. Where no section, program or procedure
stands in a section it is the section around the paragraph in the tree, and the paragraph is then declared in the program or
procedure that lists it. A procedure that is declared inside a section keeps the section for its own paragraphs.
-/

set_option autoImplicit false

namespace CobolSymbols

section Headings

variable {es : List Boundary} {h : SymbolId}

/-- The section that is kept has been started. -/
theorem started_of_current (hcurrent : headings.current es = some h) :
    ∃ before after, es = before ++ .start ⟨.heading, some h⟩ :: after := by
  induction es using List.reverseRecOn with
  | nil => cases hcurrent
  | append_singleton es e ih =>
    have hearlier : headings.current es = some h → ∃ before after, es ++ [e] = before ++ .start ⟨.heading, some h⟩ :: after := by
      intro hes
      obtain ⟨before, after, rfl⟩ := ih hes
      exact ⟨before, after ++ [e], by simp⟩
    rw [Sectioning.current_append] at hcurrent
    cases e with
    | record symbol => exact hearlier hcurrent
    | finish =>
      rw [Sectioning.next] at hcurrent
      split at hcurrent
      · cases hcurrent
      · exact hearlier hcurrent
    | start o =>
      obtain ⟨construct, symbol⟩ := o
      cases construct with
      | heading =>
        obtain rfl : symbol = some h := hcurrent
        exact ⟨es, [], rfl⟩
      | program => cases hcurrent
      | _ => exact hearlier hcurrent

/-- The nearest section stands in the same program or procedure. -/
theorem open_of_nearest {os : List Opening} (hnearest : headings.nearest os = some h) :
    ∃ inner outer, os = inner ++ ⟨.heading, some h⟩ :: outer ∧ scopeSymbols os = scopeSymbols outer := by
  induction os with
  | nil => cases hnearest
  | cons o os ih =>
    have houter : headings.nearest os = some h → o.construct.isScope = false →
        ∃ inner outer, o :: os = inner ++ ⟨.heading, some h⟩ :: outer ∧ scopeSymbols (o :: os) = scopeSymbols outer := by
      intro hos hscope
      obtain ⟨inner, outer, hsplit, hscopes⟩ := ih hos
      refine ⟨o :: inner, outer, congrArg (o :: ·) hsplit, ?_⟩
      rw [scopeSymbols_cons, hscope, if_neg Bool.false_ne_true, List.nil_append, hscopes]
    obtain ⟨construct, symbol⟩ := o
    cases construct with
    | heading =>
      obtain rfl : symbol = some h := hnearest
      exact ⟨[], os, rfl, rfl⟩
    | program | procedure => cases hnearest
    | _ => exact houter hnearest rfl

end Headings

namespace Table

variable {t : Table} {before : List Boundary} {id h scope : SymbolId}

/-- What belongs to a section is declared where the section is. -/
theorem Ordered.enclosingScope_of_heading (ht : t.Ordered) (hkind : (t.get h).kind = .heading) (hown : t.OwnedBy id h) :
    t.enclosingScope id = t.enclosingScope h := by
  rw [ht.enclosingScope_eq hown, Symbol.isScope_eq, hkind]
  rfl

/-- The sections that have been started are in the table. -/
def HeadingsAt (t : Table) (before : List Boundary) : Prop :=
  ∀ earlier later h, before = earlier ++ .start ⟨.heading, some h⟩ :: later → t.HeadingAt earlier h

/-- A paragraph is declared in the program or procedure around it unless its section belongs to another one. -/
theorem HeadingsAt.enclosingScope_iff (hheadings : t.HeadingsAt before) (ht : t.Ordered) (hat : t.ParagraphAt before id)
    (hscope : scopeAfter before = some scope) :
    t.enclosingScope id = some scope ↔ ∀ h, (t.get id).heading? = some h → t.OwnedBy h scope := by
  obtain ⟨_, hheading, scope', hscope', hprog, hown, _⟩ := hat
  obtain rfl : scope' = scope := Option.some.inj (hscope'.symm.trans hscope)
  rw [hheading]
  cases hcurrent : headings.current before with
  | none =>
    rw [hcurrent] at hown
    exact ⟨fun _ => nofun, fun _ => ht.enclosingScope_of_program hprog hown⟩
  | some h =>
    rw [hcurrent] at hown
    obtain ⟨earlier, later, hearlier⟩ := started_of_current hcurrent
    have hstarted := hheadings earlier later h hearlier
    obtain ⟨outer, _, houter, hown'⟩ := hstarted.scope
    rw [ht.enclosingScope_of_heading hstarted.kind hown, ht.enclosingScope_of_program houter hown']
    refine ⟨fun heq h' hh' => ?_, fun hall => ?_⟩
    · cases hh'
      cases heq
      exact hown'
    · exact congrArg some (Option.some.inj (hown'.symm.trans (hall h rfl)))

/-- The nearest section around belongs to the program or procedure around. -/
theorem HeadingsAt.ownedBy_of_nearest (hheadings : t.HeadingsAt before) (hscope : scopeAfter before = some scope)
    (hnearest : headings.nearest (openAfter before) = some h) : t.OwnedBy h scope := by
  obtain ⟨inner, outer, hopen, hscopes⟩ := open_of_nearest hnearest
  obtain ⟨earlier, later, hsplit, hearlier⟩ := started_of_openAfter hopen
  obtain ⟨scope', hscope', _, hown⟩ := (hheadings earlier later h hsplit).scope
  unfold scopeAfter at hscope hscope'
  rw [hscopes, ← hearlier, hscope'] at hscope
  cases hscope
  exact hown

theorem mem_contents_of_listed {p : SymbolId} {slot : ScopeSlot} (hid : id ∈ t.listed p slot) :
    id ∈ (t.get p).contents := ((t.get p).listing_sublist slot).subset hid

end Table

/-- In every session, the boundaries of the tree of a well-nested unit tell the sections of its paragraphs. A paragraph
records the section that is kept where it starts and is listed by the program or procedure around it alone. It is declared
there unless its section belongs to another one. Where no section, program or procedure before it stands in a section, the
recorded section is the one around it, and it is declared where it is listed. -/
theorem Session.paragraph_sections (options : Options) (actions : List Action) (file : FileId) {events : List Event}
    (hnested : WellNested events) :
    let s := reached options actions
    let tree := (s.compile file events).1.tree
    let t := (s.compile file events).2.table
    (∀ id, s.table.size ≤ id → (t.get id).kind = .paragraph → .start ⟨.paragraph, some id⟩ ∈ tree.boundaries) ∧
    ∀ before id after, tree.boundaries = before ++ .start ⟨.paragraph, some id⟩ :: after →
      (openAfter before, .start ⟨.paragraph, some id⟩) ∈ tree.places ∧ (t.get id).kind = .paragraph ∧
      (t.get id).heading? = headings.current before ∧
      ∃ scope, scopeAfter before = some scope ∧ (∀ p, id ∈ t.listed p .paragraphs ↔ p = scope) ∧
        (t.enclosingScope id = some scope ↔ ∀ h, (t.get id).heading? = some h → t.OwnedBy h scope) ∧
        (headings.Flat before →
          (t.get id).heading? = headings.nearest (openAfter before) ∧ t.enclosingScope id = some scope) := by
  intro s tree t
  have hregular := regular_reached options actions
  obtain ⟨hholds, hcovers, _⟩ := hregular.boundaries_hold (inPlace_reached options actions) file hnested
  have ht : t.Regular := (hregular.compile file events).table
  refine ⟨hcovers, fun before id after hsplit => ?_⟩
  have hat : t.ParagraphAt before id := hholds _ _ _ hsplit
  obtain ⟨scope, hscope, _, _, hlisted⟩ := hat.scope
  have hheadings : t.HeadingsAt before := by
    rintro earlier later h rfl
    rw [List.append_assoc, List.cons_append] at hsplit
    exact hholds earlier (.start ⟨.heading, some h⟩) _ hsplit
  have hiff := hheadings.enclosingScope_iff ht.tidy.ordered hat hscope
  refine ⟨Tree.mem_places rfl hsplit, hat.kind, hat.heading, scope, hscope, fun p => ⟨fun hp => ?_, ?_⟩, hiff,
    fun hflat => ?_⟩
  · exact (ht.enteredIn (Table.mem_contents_of_listed hp)).unique (ht.enteredIn (Table.mem_contents_of_listed hlisted))
  · rintro rfl
    exact hlisted
  · have hnearest := hat.heading.trans hflat.current_eq.2
    exact ⟨hnearest, hiff.mpr fun h hh => hheadings.ownedBy_of_nearest hscope (hnearest.symm.trans hh)⟩

/-- A program with a paragraph in a section, and after it a procedure with a paragraph of its own. -/
def procedureAfterSection : List Event :=
  [.startProgram { name := "P", position := ⟨1, 8⟩ }, .startProcedureDivision {},
    .startSection { name := "S", position := ⟨2, 8⟩ }, .startParagraph { name := "A", position := ⟨3, 8⟩ }, .endParagraph,
    .endSection, .startProcedure { name := "F", position := ⟨4, 8⟩ },
    .startParagraph { name := "X", position := ⟨5, 8⟩ }, .endParagraph, .endProcedure, .endProcedureDivision,
    .endProgram none]

theorem paragraph_sections_after :
    WellNested procedureAfterSection ∧
      let t := ((Session.reached {} []).compile 0 procedureAfterSection).2.table
      (t.get 12).heading? = some 11 ∧ t.enclosingScope 12 = some 10 ∧
        (t.get 14).heading? = none ∧ t.enclosingScope 14 = some 13 := by
  have hnested : WellNested procedureAfterSection := by decide
  let before : List Boundary :=
    [.start ⟨.program, some 10⟩, .start ⟨.procedureDivision, none⟩, .start ⟨.heading, some 11⟩]
  let between : List Boundary := [.start ⟨.paragraph, some 12⟩, .finish, .finish, .start ⟨.procedure, some 13⟩]
  have hboundaries : ((Session.reached {} []).compile 0 procedureAfterSection).1.tree.boundaries =
      before ++ between ++ [.start ⟨.paragraph, some 14⟩, .finish, .finish, .finish, .finish] := by decide +kernel
  obtain ⟨_, hall⟩ := Session.paragraph_sections {} [] 0 hnested
  obtain ⟨_, _, _, scope, hscope, _, _, hinner⟩ := hall before 12 _ (hboundaries.trans (List.append_assoc _ _ _))
  obtain ⟨_, _, _, scope', hscope', _, _, hafter⟩ := hall (before ++ between) 14 _ hboundaries
  cases hscope
  cases hscope'
  obtain ⟨hheading, henclosing⟩ := hinner (by decide)
  obtain ⟨hheading', henclosing'⟩ := hafter (by decide)
  exact ⟨hnested, hheading, henclosing, hheading', henclosing'⟩

/-- A program with a section that declares a procedure with a paragraph. -/
def procedureInSection : List Event :=
  [.startProgram { name := "P", position := ⟨1, 8⟩ }, .startProcedureDivision {},
    .startSection { name := "S", position := ⟨2, 8⟩ }, .startProcedure { name := "F", position := ⟨3, 8⟩ },
    .startParagraph { name := "X", position := ⟨4, 8⟩ }, .endParagraph, .endProcedure, .endSection,
    .endProcedureDivision, .endProgram none]

/-- The paragraph of a procedure that stands in a section records that section, and it is declared in the program around
the procedure although the procedure lists it. -/
theorem paragraph_of_procedure_in_section :
    let unit := (Session.reached {} []).compile 0 procedureInSection
    WellNested procedureInSection ∧
      ([⟨.procedure, some 12⟩, ⟨.heading, some 11⟩, ⟨.procedureDivision, none⟩, ⟨.program, some 10⟩],
        .start ⟨.paragraph, some 13⟩) ∈ unit.1.tree.places ∧
      (unit.2.table.get 13).heading? = some 11 ∧ unit.2.table.listed 12 .paragraphs = [13] ∧
      unit.2.table.enclosingScope 13 = some 10 := by
  decide +kernel

end CobolSymbols
