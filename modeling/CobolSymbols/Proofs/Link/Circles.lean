import CobolSymbols.Proofs.Link.Inside
import Mathlib.Data.List.Chain

/-!
# Circles of types

What the reference of an item means does not depend on what has been linked. So the types of a unit form a graph: a type
leads to those that the references in its body mean. Linking follows this graph from the types of items outside of types
and from the types that wait because of their tables. The types on its path lead from one to the next, so a reference back
into the path closes a circle of the graph, and each item is reported at most once.
-/

set_option autoImplicit false

namespace CobolSymbols

open List

open Relation (TransGen ReflTransGen)

namespace Table

variable {t t' : Table} {types : List SymbolId}

/-- The body of a type has an item whose reference means the target. -/
def Means (t : Table) (type target : SymbolId) : Prop := ∃ item ∈ (t.get type).typedItems, t.meant? item = some target

/-- Types each of which leads to the next, where the last one repeats the first; the reference of `item` closes the
circle. -/
def Circle (t : Table) (item : SymbolId) (types : List SymbolId) : Prop :=
  ∃ first body lister, types = body ++ [first] ∧ body.head? = some first ∧ body.getLast? = some lister ∧
    List.IsChain t.Means body ∧ item ∈ (t.get lister).typedItems ∧ t.meant? item = some first

theorem reflTransGen_of_isChain {r : SymbolId → SymbolId → Prop} {first last : SymbolId} (h : List.IsChain r types)
    (hfirst : types.head? = some first) (hlast : types.getLast? = some last) : ReflTransGen r first last := by
  induction types generalizing first with
  | nil => cases hfirst
  | cons type rest ih =>
    cases hfirst
    cases rest with
    | nil =>
      cases hlast
      exact .refl
    | cons next rest =>
      obtain ⟨hstep, hrest⟩ := isChain_cons_cons.mp h
      exact .head hstep (ih hrest rfl (by simpa using hlast))

end Table

namespace Linker

variable {l l' : Linker} {t : Table} {roots : SymbolId → Prop} {prior : List Problem} {item type : SymbolId}
  {path : List SymbolId}

/-- What is known of the state of linking: `t` is the table at the start, `roots` are the types that linking starts from,
and `prior` are the circles reported before. -/
structure Noted (t : Table) (roots : SymbolId → Prop) (prior : List Problem) (l : Linker) : Prop where
  size : l.table.size = t.size
  text : ∀ id, (l.table.get id).text = (t.get id).text
  faithful : ∀ item result, List.lookup item l.resolved = some result → result = t.meant? item
  nodup : l.cyclic.Nodup
  reports : ∃ reports : List (SymbolId × List SymbolId), l.cyclic = reports.map Prod.fst ∧
    l.context.circular.map (·.problem) = prior ++ reports.reverse.map (fun r => .circularType (r.2.map t.name)) ∧
    ∀ r ∈ reports, t.Circle r.1 r.2 ∧ ∃ root, roots root ∧ ∀ first, r.2.head? = some first → ReflTransGen t.Means root first

section

variable (h : l.Noted t roots prior)
include h

theorem Noted.meant? : l.table.meant? = t.meant? := Table.meant?_congr h.size h.text

theorem Noted.typedItems (type : SymbolId) :
    (l.table.get type).typedItems = (t.get type).typedItems := congrArg (·.2.2.2.2.2.1) (h.text type)

theorem Noted.quiet (hchanges : Changes l l') (hresolved : l'.resolved = l.resolved)
    (hcyclic : l'.cyclic = l.cyclic) (hcircular : l'.context.circular = l.context.circular) : l'.Noted t roots prior where
  size := hchanges.size_eq.trans h.size
  text id := (hchanges.keeps blind_text id).trans (h.text id)
  faithful := hresolved ▸ h.faithful
  nodup := hcyclic ▸ h.nodup
  reports := hcyclic ▸ hcircular ▸ h.reports

theorem Noted.resolve (item : SymbolId) : (l.resolve item).2.Noted t roots prior := by
  obtain ⟨_, hresolved, hcyclic⟩ := resolve_state l item
  refine h.quiet (resolve_changes l item) hresolved hcyclic ?_
  unfold Linker.resolve
  simp only
  split
  · split
    · rfl
    · exact l.context.circular_push rfl _ _
    · exact l.context.circular_push rfl _ _
  · rfl

/-- Looking a reference up gives what it means. -/
theorem Noted.resolveOnce (item : SymbolId) :
    (l.resolveOnce item).2.Noted t roots prior ∧ (l.resolveOnce item).1 = t.meant? item := by
  unfold Linker.resolveOnce
  split
  · rename_i result hresult
    exact ⟨h, h.faithful item result hresult⟩
  · have hfound : (l.resolve item).1 = t.meant? item := (resolve_fst l item).trans (congrFun h.meant? item)
    refine ⟨{ h.resolve item with faithful := fun other result hresult => ?_ }, hfound⟩
    simp only [lookup_cons] at hresult
    split at hresult
    · rename_i heq
      cases hresult
      rw [hfound, beq_iff_eq.mp heq]
    · exact (h.resolve item).faithful other result hresult

/-- An item whose reference means a type of the path closes a circle. -/
theorem Noted.reportCycle {target root : SymbolId}
    (hchain : List.IsChain t.Means (path ++ [type])) (hhead : (path ++ [type]).head? = some root) (hroot : roots root)
    (hitem : item ∈ (t.get type).typedItems) (hmeant : t.meant? item = some target) (hpath : target ∈ path ++ [type])
    (hnew : item ∉ l.cyclic) : (l.reportCycle (path ++ [type]) item target).Noted t roots prior := by
  obtain ⟨reports, hcyclic, hcircular, hgood⟩ := h.reports
  obtain ⟨before, after, hsplit, hbefore⟩ := eq_append_cons_of_mem hpath
  have hdrop : (path ++ [type]).dropWhile (· != target) = target :: after := by
    rw [hsplit, dropWhile_append_of_pos fun other hother => by
      simpa using fun heq : other = target => hbefore (heq ▸ hother)]
    simp
  have hlast : (target :: after).getLast? = some type := by
    rw [← getLast?_append_of_ne_nil before (cons_ne_nil target after), ← hsplit, getLast?_concat]
  have hname : l.table.name = t.name := funext fun id => congrArg (·.1) (h.text id)
  rw [hsplit] at hchain hhead
  have hcircle : t.Circle item (target :: after ++ [target]) :=
    ⟨target, target :: after, type, rfl, rfl, hlast, hchain.right_of_append, hitem, hmeant⟩
  have hreach : ReflTransGen t.Means root target := by
    rw [append_cons] at hchain hhead
    refine Table.reflTransGen_of_isChain hchain.left_of_append ?_ getLast?_concat
    cases before <;> exact hhead
  refine ⟨h.size, h.text, h.faithful, nodup_cons.mpr ⟨hnew, h.nodup⟩, (item, target :: after ++ [target]) :: reports,
    congrArg (item :: ·) hcyclic, ?_, ?_⟩
  · unfold Linker.reportCycle Context.report
    simp only [hdrop, hname, Context.circular, Context.push, filter_append, map_append, reverse_cons]
    rw [← append_assoc, ← hcircular]
    simp [Context.circular, Problem.isCircular]
  · intro r hr
    rcases mem_cons.mp hr with rfl | hr
    · refine ⟨hcircle, root, hroot, fun first hfirst => ?_⟩
      cases hfirst
      exact hreach
    · exact hgood r hr

theorem Noted.use (scope item target : SymbolId) {linkTarget : SymbolId → Linker → Linker}
    (hlink : ∀ l : Linker, l.Noted t roots prior → (linkTarget target l).Noted t roots prior) :
    (l.use scope item target linkTarget).Noted t roots prior := by
  have hrecorded : ((l.bind item target).record scope target item).2.Noted t roots prior := by
    refine h.quiet (.trans (.single (.bind l item target)) (record_changes _ scope target item)) ?_ ?_ ?_ <;>
      · unfold record
        split <;> rfl
  unfold Linker.use
  split
  · rename_i l₁ heq
    rw [heq] at hrecorded
    exact hlink l₁ hrecorded
  · rename_i l₁ heq
    rw [heq] at hrecorded
    exact hrecorded

end

theorem Noted.linkBody {scope root : SymbolId} (steps : Nat) (h : l.Noted t roots prior)
    (hchain : List.IsChain t.Means (path ++ [type])) (hhead : (path ++ [type]).head? = some root) (hroot : roots root) :
    (linkBody scope steps type path l).Noted t roots prior := by
  -- the path grows with the depth: the induction is on the steps that are left, for every chain from the root
  induction steps generalizing type path l with
  | zero => exact h
  | succ steps ih =>
    refine List.foldlRecOn (motive := Noted t roots prior) _ _ h fun l hl item hitem => ?_
    rw [h.typedItems] at hitem
    unfold Linker.linkListed
    split
    · exact hl
    · rename_i hcyclic
      obtain ⟨hlooked, hfound⟩ := hl.resolveOnce item
      have hkept := (looked_resolveOnce l item).cyclic
      split
      · rename_i l₁ heq
        rw [heq] at hlooked
        exact hlooked
      · rename_i target l₁ heq
        rw [heq] at hlooked hfound hkept
        split
        · rename_i hpath
          refine hlooked.reportCycle hchain hhead hroot hitem hfound.symm (contains_iff_mem.mp hpath) ?_
          rw [hkept]
          exact fun hmem => hcyclic (contains_iff_mem.mpr hmem)
        · refine hlooked.use scope item target fun l hl => ih hl ?_ ?_
          · refine isChain_append.mpr ⟨hchain, isChain_singleton target, ?_⟩
            intro last hlast first hfirst
            simp only [getLast?_concat, head?_cons, Option.mem_def, Option.some.injEq] at hlast hfirst
            rw [← hlast, ← hfirst]
            exact ⟨item, hitem, hfound.symm⟩
          · rw [head?_append, hhead]
            rfl

section

variable (h : l.Noted t roots prior)
include h

theorem Noted.linkType (scope : SymbolId) (hroot : roots type) : (l.linkType scope type).Noted t roots prior := by
  have hchain : List.IsChain t.Means ([] ++ [type]) := isChain_singleton type
  exact h.linkBody _ hchain rfl hroot

theorem Noted.linkItem (hroot : ∀ type, t.meant? item = some type → roots type) :
    (l.linkItem item).Noted t roots prior := by
  have hlooked := h.resolve item
  have hfound : (l.resolve item).1 = t.meant? item := (resolve_fst l item).trans (congrFun h.meant? item)
  unfold Linker.linkItem
  split
  · rename_i l₁ heq
    rw [heq] at hlooked
    exact hlooked
  · rename_i type l₁ heq
    rw [heq] at hlooked hfound
    split
    · exact hlooked.quiet (.single (.bind l₁ item type)) rfl rfl rfl
    · rename_i scope _
      exact hlooked.use scope item type fun l hl => hl.linkType scope (hroot type hfound.symm)

theorem Noted.setDependingOn (item : SymbolId) (object : DependingOn)
    (found : Option SymbolId) : (l.setDependingOn item object found).Noted t roots prior := by
  refine h.quiet (setDependingOn_changes l item object found) ?_ ?_ ?_
  · cases found <;> rfl
  · cases found <;> rfl
  · cases found with
    | some target => rfl
    | none =>
      unfold Linker.setDependingOn Context.reportAt
      simp only
      split
      · exact l.context.circular_push rfl _ _
      · rfl

theorem Noted.linkDependentType (hroot : roots type) : (l.linkDependentType type).Noted t roots prior := by
  refine List.foldlRecOn (motive := Noted t roots prior) _ _ ?_ fun l hl item _ => ?_
  · split
    · rename_i scope _
      exact h.linkType scope hroot
    · exact h
  · split
    · exact hl
    · exact hl.setDependingOn item _ _

theorem Noted.resolveDependingOn (table : SymbolId) : (l.resolveDependingOn table).Noted t roots prior := by
  unfold Linker.resolveDependingOn
  split
  · exact h
  · exact h.setDependingOn table _ _

end

/-- Linking a unit reports circles of the graph only, each item once. -/
theorem Noted.linkUnit {items types : List SymbolId} (h : l.Noted t roots prior)
    (hitems : ∀ item ∈ items, ∀ type, t.meant? item = some type → roots type) (htypes : ∀ type ∈ types, roots type)
    (tables : List SymbolId) : (l.linkUnit items types tables).Noted t roots prior := by
  have hlinked := List.foldlRecOn (motive := Noted t roots prior) _ _ h fun l hl item hitem => hl.linkItem (hitems item hitem)
  have hdep := List.foldlRecOn (motive := Noted t roots prior) _ _ hlinked fun l hl type htype =>
      hl.linkDependentType (htypes type htype)
  exact List.foldlRecOn (motive := Noted t roots prior) _ _ hdep fun l hl table _ => hl.resolveDependingOn table

end Linker

end CobolSymbols
