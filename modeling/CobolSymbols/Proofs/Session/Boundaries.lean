import CobolSymbols.Proofs.Build.Following
import CobolSymbols.Proofs.DataBinding
import CobolSymbols.Proofs.Session.InPlace

/-!
# The boundaries of a unit

When the events of a unit are well nested, the boundaries of its tree tell what the table holds about its sections,
paragraphs and records.
-/

set_option autoImplicit false

namespace CobolSymbols

/-- When nothing is open the boundaries of the tree are those that have been met. -/
theorem Build.Shaped.boundaries_toTree {b : Build} (h : b.Shaped []) (hcurrent : b.current.isDefinition = false) :
    b.path.toTree.boundaries = b.path.boundaries := by
  obtain ⟨habove, hkind, _⟩ := h.at_root hcurrent
  exact Path.boundaries_toTree hkind habove

namespace Session

variable {s : Session} {events : List Event}

/-- The boundaries of the tree of a unit tell what is in the table. All paragraphs of the unit are among them, and their
records are of the unit. -/
theorem Regular.boundaries_hold (h : s.Regular) (hplace : s.table.InPlace) (file : FileId) (hnested : WellNested events) :
    (∀ before e after, (s.compile file events).1.tree.boundaries = before ++ e :: after →
      e.Holds (s.compile file events).2.table before) ∧
    (∀ id, s.table.size ≤ id → ((s.compile file events).2.table.get id).kind = .paragraph →
      .start ⟨.paragraph, some id⟩ ∈ (s.compile file events).1.tree.boundaries) ∧
    ∀ id, .record (some id) ∈ (s.compile file events).1.tree.boundaries → s.table.size ≤ id := by
  have hstart : (Build.start { s.context with file }).Steady [] :=
    ⟨Build.tracks_start h.sound, h.bound_start hplace file, Build.inStep_start _⟩
  have hread := hstart.events hnested
  have hfollows := ((Build.follows_start { s.context with file }).events hstart hnested).closeDefinitions hread none
  have htree : (s.compile file events).1.tree.boundaries =
      ((Build.start { s.context with file }).steps events).close.path.boundaries :=
    (hread.closeDefinitions none).tracks.toShaped.boundaries_toTree hread.tracks.closeDefinitions_current
  rw [htree]
  exact ⟨hfollows.holds, hfollows.covers, hfollows.records⟩

end Session

end CobolSymbols
