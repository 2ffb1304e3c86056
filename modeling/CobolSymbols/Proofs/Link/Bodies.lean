import CobolSymbols.Proofs.Link.Search
import Mathlib.Data.List.Chain
import Mathlib.Data.List.Nodup
import Mathlib.Data.List.Perm.Subperm

/-!
# Linking the bodies of types

Linking the body of a type settles it. The search is as deep as its path is long, and a path meets no type twice, so the
number of steps allowed for is never used up.
-/

set_option autoImplicit false

namespace CobolSymbols.Linker

open List Table

open Relation (TransGen ReflTransGen)

/-- The next type on the path after a given one: all other references of that type lead to settled types. -/
def Leads (l : Linker) (settled : SymbolId → Prop) (type next : SymbolId) : Prop :=
  l.table.Edge type next ∧ ∀ target, l.table.Edge type target → settled target ∨ target = next

/-- The body of a type is being linked; `path` holds the types open above it. -/
structure Open (l : Linker) (base : Nat) (settled : SymbolId → Prop) (path : List SymbolId) (type : SymbolId) :
    Prop where
  search : l.Search base settled (path ++ [type])
  chain : List.IsChain (l.Leads settled) (path ++ [type])
  nodup : (path ++ [type]).Nodup
  types : ∀ open' ∈ path ++ [type], l.table.Reachable base open'
  last : ∀ target, l.table.Edge type target → settled target

variable {l l' : Linker} {base : Nat} {settled settled' : SymbolId → Prop} {path : List SymbolId} {type : SymbolId}
  {item scope target : SymbolId} {linkTarget : SymbolId → Linker → Linker}

theorem Leads.follows (hfollows : Follows l l' path) (hsub : ∀ type, settled type → settled' type) {next : SymbolId}
    (htype : type ∈ path) (h : l.Leads settled type next) : l'.Leads settled' type next :=
  ⟨hfollows.edge h.1, fun target hedge => (h.2 target (hfollows.quiet type target htype hedge)).imp_left (hsub target)⟩

/-- Along the path references lead from each type to the last one. -/
theorem chain_reaches (hchain : List.IsChain (l.Leads settled) (path ++ [type])) {open' : SymbolId}
    (h : open' ∈ path ++ [type]) : ReflTransGen l.table.Edge open' type := by
  induction path generalizing open' with
  | nil =>
    have heq : open' = type := mem_singleton.mp h
    subst heq
    exact .refl
  | cons first rest ih =>
    have htail : List.IsChain (l.Leads settled) (rest ++ [type]) := hchain.tail
    rcases mem_cons.mp h with heq | hrest
    · cases rest with
      | nil =>
        have hfirst : l.Leads settled first type := (isChain_cons_cons.mp hchain).1
        rw [heq]
        exact .single hfirst.1
      | cons second others =>
        have hfirst : l.Leads settled first second := (isChain_cons_cons.mp hchain).1
        rw [heq]
        exact .head hfirst.1 (ih htail mem_cons_self)
    · exact ih htail hrest

/-- The path that goes on while the types on it are left alone. -/
theorem chain_follows (hchain : List.IsChain (l.Leads settled) (path ++ [type])) (hfollows : Follows l l' path)
    (hsub : ∀ type, settled type → settled' type) : List.IsChain (l'.Leads settled') (path ++ [type]) := by
  induction path with
  | nil => exact isChain_singleton type
  | cons first rest ih =>
    have htail := ih hchain.tail (hfollows.mono fun _ h => mem_cons_of_mem _ h)
    have hleads : ∀ {next}, l.Leads settled first next → l'.Leads settled' first next :=
      Leads.follows hfollows hsub mem_cons_self
    cases rest with
    | nil | cons second others => exact isChain_cons_cons.mpr ⟨hleads (isChain_cons_cons.mp hchain).1, htail⟩

/-- Going on with the body of a type after linking something that leaves the path above it alone. -/
theorem Open.follows (h : l.Open base settled path type) (hfollows : Follows l l' path)
    (hsub : ∀ type, settled type → settled' type) (hsearch : l'.Search base settled' (path ++ [type]))
    (hlast : ∀ target, l'.table.Edge type target → settled' target) : l'.Open base settled' path type where
  search := hsearch
  chain := chain_follows h.chain hfollows hsub
  nodup := h.nodup
  types open' hopen := by
    unfold Reachable
    rw [hfollows.arranges.isType, hfollows.arranges.typedItems]
    exact h.types open' hopen
  last := hlast

/-- What linking the body of a type gives. -/
structure Linked (l l' : Linker) (base : Nat) (settled settled' : SymbolId → Prop) (path : List SymbolId)
    (type : SymbolId) : Prop where
  sub : ∀ type, settled type → settled' type
  settled : settled' type
  search : l'.Search base settled' path
  follows : Follows l l' path

theorem Linked.sub_goal {settled' : SymbolId → Prop} (h : Linked l l' base settled settled' path type) (other : SymbolId)
    (hother : settled other ∨ other = type) : settled' other := hother.elim (h.sub other) (· ▸ h.settled)

/-- A function that links bodies in tables of a size while the types of `path` are open. -/
def LinksBodies (base size : Nat) (path : List SymbolId) (linkTarget : SymbolId → Linker → Linker) : Prop :=
  ∀ (l : Linker) (settled : SymbolId → Prop) (type : SymbolId), l.table.size = size → l.Open base settled path type →
    ∃ settled', Linked l (linkTarget type l) base settled settled' path type

section

variable (h : l.Open base settled path type)
include h

/-- Once all items that a type lists have been dealt with, the type is settled. -/
theorem Open.settle (hdone : ∀ item ∈ (l.table.get type).typedItems, l.Settles settled item) :
    l.Search base (fun other => settled other ∨ other = type) path := by
  have hsearch := h.search
  have hsettles : ∀ {item}, l.Settles settled item → l.Settles (fun other => settled other ∨ other = type) item := by
    rintro item (hcyclic | hnone | ⟨target, hlookup, hrefers, htarget⟩)
    · exact .inl hcyclic
    · exact .inr (.inl hnone)
    · exact .inr (.inr ⟨target, hlookup, hrefers, .inl htarget⟩)
  have hmove : ∀ {other}, settled other ∨ other ∈ path ++ [type] → (settled other ∨ other = type) ∨ other ∈ path := by
    rintro other (hother | hother)
    · exact .inl (.inl hother)
    · rcases mem_append.mp hother with hother | hother
      · exact .inr hother
      · exact .inl (.inr (mem_singleton.mp hother))
  refine { hsearch with reachable := ?_, done := ?_, visited := ?_, used := ?_ }
  · rintro other (hother | hother)
    · exact hsearch.reachable other hother
    · rw [hother]
      exact h.types type (mem_append_right _ (mem_singleton_self type))
  · rintro other item (hother | hother) hitem
    · exact hsettles (hsearch.done other item hother hitem)
    · rw [hother] at hitem
      exact hsettles (hdone item hitem)
  · exact fun other item target hitem hbase hrefers => hmove (hsearch.visited other item target hitem hbase hrefers)
  · exact fun scope other items hscope hitems => hmove (hsearch.used scope other items hscope hitems)

theorem Open.bind
    (hitem : item ∈ (l.table.get type).typedItems) (hresult : List.lookup item l.resolved = some (some target))
    (hcyclic : item ∉ l.cyclic) (htarget : target ∉ path ++ [type]) :
    (l.bind item target).Search base settled (path ++ [type]) ∧ Follows l (l.bind item target) path ∧
      ∀ found, (l.bind item target).table.Edge type found → settled found ∨ found = target := by
  have hsearch := h.search
  have htype : type ∈ path ++ [type] := mem_append_right _ (mem_singleton_self type)
  have hbase : base ≤ item := hsearch.item_base hitem (h.types type htype)
  obtain ⟨hreach, href⟩ := hsearch.found item target hresult
  -- a type that is not on the path leads back to it only when it is settled, and then all is bound already
  have hback : l.table.Refers item target ∨ ¬ ReflTransGen l.table.Edge target type := by
    by_cases hsettled : settled target
    · by_cases hown : settled type
      · rcases hsearch.done type item hown hitem with hdone | hdone | ⟨found, hlookup, hrefers, _⟩
        · exact absurd hdone hcyclic
        · rw [hresult] at hdone
          cases hdone
        · rw [hresult] at hlookup
          cases hlookup
          exact .inl hrefers
      · exact .inr fun hreaches => hown (hsearch.closed_star hsettled hreaches)
    · refine .inr fun hreaches => ?_
      rcases ReflTransGen.cases_head hreaches with heq | ⟨next, hedge, _⟩
      · exact htarget (heq ▸ htype)
      · exact hsearch.no_edge hreach hsettled htarget hedge
  have hbound := hsearch.bind hitem htype hresult hcyclic hback
  refine ⟨hbound, ⟨arranges_bind l item target, ?_, ?_, fun _ _ hlookup => hlookup, fun _ hother => hother, ?_⟩, ?_⟩
  · rw [bind_table, size_modify]
  · intro other found hrefers ⟨lister, hlisted⟩
    by_cases heq : other = item
    · rw [heq] at hrefers hlisted ⊢
      have hcached := hsearch.cached lister item found hlisted hbase hrefers
      rw [hresult] at hcached
      cases hcached
      exact refers_bind_self href
    · exact (refers_bind_of_ne heq).mpr hrefers
  · intro open' found hopen hedge
    rcases hsearch.edge_bind hitem hedge with hedge | ⟨heq, _⟩
    · exact hedge
    · rw [heq] at hopen
      have hdisjoint := (nodup_append.mp h.nodup).2.2 type hopen type (mem_singleton_self type)
      exact absurd rfl hdisjoint
  · intro found hedge
    rcases hsearch.edge_bind hitem hedge with hedge | ⟨_, heq⟩
    · exact .inl (h.last found hedge)
    · exact .inr heq

/-- The path with one more type, whose body is linked next. -/
theorem Open.push (hsearch : l'.Search base settled (path ++ [type] ++ [target]))
    (hfollows : Follows l l' path) (hreach : l'.table.Reachable base target) (htarget : target ∉ path ++ [type])
    (hedge : l'.table.Edge type target) (hlast : ∀ found, l'.table.Edge type found → settled found ∨ found = target)
    (hnext : ∀ found, l'.table.Edge target found → settled found) : l'.Open base settled (path ++ [type]) target where
  search := hsearch
  chain := by
    have hchain := chain_follows h.chain hfollows fun _ hsettled => hsettled
    refine isChain_append.mpr ⟨hchain, isChain_singleton target, ?_⟩
    intro last hlast' first hfirst
    simp only [getLast?_concat, head?_cons, Option.mem_def, Option.some.injEq] at hlast' hfirst
    rw [← hlast', ← hfirst]
    exact ⟨hedge, hlast⟩
  nodup := by
    refine nodup_append.mpr ⟨h.nodup, nodup_singleton target, ?_⟩
    intro open' hopen other hother
    rw [mem_singleton.mp hother]
    exact fun heq => htarget (heq ▸ hopen)
  types open' hopen := by
    rcases mem_append.mp hopen with hopen | hopen
    · unfold Reachable
      rw [hfollows.arranges.isType, hfollows.arranges.typedItems]
      exact h.types open' hopen
    · rw [mem_singleton.mp hopen]
      exact hreach
  last := hnext

variable (hlink : LinksBodies base l.table.size (path ++ [type]) linkTarget) (hscope : base ≤ scope ∨ scope = rootId)
include hlink hscope

variable (hitem : item ∈ (l.table.get type).typedItems)
include hitem

theorem Open.use (hresult : List.lookup item l.resolved = some (some target)) (hcyclic : item ∉ l.cyclic)
    (htarget : target ∉ path ++ [type]) :
    ∃ settled', (∀ other, settled other → settled' other) ∧
      (l.use scope item target linkTarget).Open base settled' path type ∧
      Follows l (l.use scope item target linkTarget) path ∧
      (l.use scope item target linkTarget).Settles settled' item := by
  obtain ⟨hbound, hbindFollows, hbindLast⟩ := h.bind hitem hresult hcyclic htarget
  obtain ⟨hreach, href⟩ := h.search.found item target hresult
  have hrecorded := untouched_record (l.bind item target) scope target item
  have hrefers : (l.bind item target).table.Refers item target := refers_bind_self href
  have hfollows := hbindFollows.trans (hrecorded.follows path)
  have hlast : ∀ found, ((l.bind item target).record scope target item).2.table.Edge type found →
      settled found ∨ found = target := by
    rw [hrecorded.edge]
    exact hbindLast
  have hlookup : List.lookup item ((l.bind item target).record scope target item).2.resolved = some (some target) := by
    rw [hrecorded.resolved]
    exact hresult
  have hitem' : item ∈ (((l.bind item target).record scope target item).2.table.get type).typedItems := by
    rw [hfollows.arranges.typedItems]
    exact hitem
  have hrefers' : ((l.bind item target).record scope target item).2.table.Refers item target := by
    rw [hrecorded.refers]
    exact hrefers
  have hreach' : ((l.bind item target).record scope target item).2.table.Reachable base target := by
    unfold Reachable
    rw [hfollows.arranges.isType, hfollows.arranges.typedItems]
    exact hreach
  have hpushedSearch : ((l.bind item target).record scope target item).2.Search base settled
      (path ++ [type] ++ [target]) := by
    refine (hbound.weaken fun _ hother => mem_append_left _ hother).record (.inr ?_) scope item
    exact mem_append_right _ (mem_singleton_self target)
  unfold Linker.use
  split
  · rename_i l₁ heq
    -- first use in the scope: the body of the target is linked with the type on the path
    rw [heq] at hpushedSearch hrecorded hfollows hlast hlookup hitem' hrefers' hreach'
    have hnext : ∀ found, l₁.table.Edge target found → settled found := by
      intro found hedge
      rw [hrecorded.edge] at hedge
      have hreachBound := (hbound.found item target hresult).1
      by_cases hsettled : settled target
      · exact hbound.closed hsettled hedge
      · exact absurd hedge (hbound.no_edge hreachBound hsettled htarget)
    have hpushed := h.push hpushedSearch hfollows hreach' htarget ⟨item, hitem', hrefers'⟩ hlast hnext
    obtain ⟨settled', hlinked⟩ := hlink l₁ settled target hfollows.size hpushed
    have habove : Follows l₁ (linkTarget target l₁) path :=
      hlinked.follows.mono fun _ hother => mem_append_left _ hother
    have htype : type ∈ path ++ [type] := mem_append_right _ (mem_singleton_self type)
    refine ⟨settled', hlinked.sub, ?_, hfollows.trans habove, ?_⟩
    · refine h.follows (hfollows.trans habove) hlinked.sub hlinked.search fun found hedge => ?_
      rcases hlast found (hlinked.follows.quiet type found htype hedge) with hfound | hfound
      · exact hlinked.sub found hfound
      · rw [hfound]
        exact hlinked.settled
    · exact .inr (.inr ⟨target, hlinked.follows.resolved item _ hlookup,
        hlinked.follows.refers item target hrefers' ⟨type, hitem'⟩, hlinked.settled⟩)
  · rename_i l₁ heq
    -- used before in the scope, and not on the path: the target is settled
    have hsettled : settled target := hbound.settled_of_record hscope (by rw [heq]) htarget
    have hsearch := hbound.record (.inl hsettled) scope item
    rw [heq] at hrecorded hfollows hlast hlookup hitem' hrefers' hreach' hsearch
    refine ⟨settled, fun _ hother => hother, ?_, hfollows, .inr (.inr ⟨target, hlookup, hrefers', hsettled⟩)⟩
    refine h.follows hfollows (fun _ hother => hother) hsearch fun found hedge => ?_
    rcases hlast found hedge with hfound | hfound
    · exact hfound
    · rw [hfound]
      exact hsettled

/-- Dealing with one listed item of the type whose body is being linked. -/
theorem Open.linkListed :
    ∃ settled', (∀ other, settled other → settled' other) ∧
      (l.linkListed scope (path ++ [type]) linkTarget item).Open base settled' path type ∧
      Follows l (l.linkListed scope (path ++ [type]) linkTarget item) path ∧
      (l.linkListed scope (path ++ [type]) linkTarget item).Settles settled' item := by
  have htype : type ∈ path ++ [type] := mem_append_right _ (mem_singleton_self type)
  have hbase : base ≤ item := h.search.item_base hitem (h.types type htype)
  unfold Linker.linkListed
  split
  · rename_i hcyclic
    exact ⟨settled, fun _ hother => hother, h, Follows.refl l path, .inl (contains_iff_mem.mp hcyclic)⟩
  · rename_i hcyclic
    have hcyclic : item ∉ l.cyclic := fun hmem => hcyclic (contains_iff_mem.mpr hmem)
    have hlooked := looked_resolveOnce l item
    have hfollows := hlooked.follows path
    have hsearch := h.search.looked hbase hlooked
    have hopen : (l.resolveOnce item).2.Open base settled path type := by
      refine h.follows hfollows (fun _ hother => hother) hsearch fun target hedge => h.last target ?_
      rwa [hlooked.table] at hedge
    split
    · rename_i l₁ heq
      rw [heq] at hlooked hfollows hopen
      exact ⟨settled, fun _ hother => hother, hopen, hfollows, .inr (.inl hlooked.result)⟩
    · rename_i target l₁ heq
      rw [heq] at hlooked hfollows hopen
      have hitem₁ : item ∈ (l₁.table.get type).typedItems := by
        rw [hlooked.table]
        exact hitem
      split
      · rename_i hpath
        have hpath : target ∈ path ++ [type] := contains_iff_mem.mp hpath
        -- were the item bound, the path would lead back to where it started
        have hunbound : ∀ found, ¬ l₁.table.Refers item found := by
          intro found hrefers
          have hcached := hopen.search.cached type item found hitem₁ hbase hrefers
          rw [hlooked.result] at hcached
          cases hcached
          exact hopen.search.acyclic type (TransGen.head' ⟨item, hitem₁, hrefers⟩ (chain_reaches hopen.chain hpath))
        have hreported : Follows l₁ (l₁.reportCycle (path ++ [type]) item target) path :=
          ⟨Arranges.refl _, rfl, fun _ _ h _ => h, fun _ _ h => h, fun _ h => mem_cons_of_mem _ h, fun _ _ _ h => h⟩
        refine ⟨settled, fun _ hother => hother, ?_, hfollows.trans hreported, .inl mem_cons_self⟩
        exact hopen.follows hreported (fun _ hother => hother) (hopen.search.reportCycle _ hunbound) hopen.last
      · rename_i hpath
        have hpath : target ∉ path ++ [type] := fun hmem => hpath (contains_iff_mem.mpr hmem)
        have hcyclic₁ : item ∉ l₁.cyclic := by
          rw [hlooked.cyclic]
          exact hcyclic
        obtain ⟨settled', hsub, hused⟩ := hopen.use (hfollows.size ▸ hlink) hscope hitem₁ hlooked.result hcyclic₁ hpath
        exact ⟨settled', hsub, hused.1, hfollows.trans hused.2.1, hused.2.2⟩

end

theorem Open.foldl_linkListed {size : Nat} (hlink : LinksBodies base size (path ++ [type]) linkTarget)
    (hscope : base ≤ scope ∨ scope = rootId) (items : List SymbolId) (l : Linker) (settled : SymbolId → Prop)
    (hsize : l.table.size = size) (h : l.Open base settled path type)
    (hitems : ∀ item ∈ items, item ∈ (l.table.get type).typedItems) :
    ∃ settled', (∀ other, settled other → settled' other) ∧
      (items.foldl (fun l item => l.linkListed scope (path ++ [type]) linkTarget item) l).Open base settled' path type ∧
      Follows l (items.foldl (fun l item => l.linkListed scope (path ++ [type]) linkTarget item) l) path ∧
      ∀ item ∈ items,
        (items.foldl (fun l item => l.linkListed scope (path ++ [type]) linkTarget item) l).Settles settled' item := by
  induction items generalizing l settled with
  | nil => exact ⟨settled, fun _ hother => hother, h, Follows.refl l path, nofun⟩
  | cons item rest ih =>
    have hitem := hitems item mem_cons_self
    obtain ⟨settled₁, hsub₁, hopen₁, hfollows₁, hsettles₁⟩ := h.linkListed (hsize.symm ▸ hlink) hscope hitem
    have hrest : ∀ other ∈ rest, other ∈
        ((l.linkListed scope (path ++ [type]) linkTarget item).table.get type).typedItems := by
      intro other hother
      rw [hfollows₁.arranges.typedItems]
      exact hitems other (mem_cons_of_mem _ hother)
    obtain ⟨settled₂, hsub₂, hopen₂, hfollows₂, hsettles₂⟩ :=
      ih _ settled₁ (hfollows₁.size.trans hsize) hopen₁ hrest
    refine ⟨settled₂, fun other hother => hsub₂ other (hsub₁ other hother), hopen₂, hfollows₁.trans hfollows₂, ?_⟩
    intro other hother
    rcases mem_cons.mp hother with heq | hother
    · rw [heq]
      have hlisted : item ∈ ((l.linkListed scope (path ++ [type]) linkTarget item).table.get type).typedItems := by
        rw [hfollows₁.arranges.typedItems]
        exact hitem
      exact hfollows₂.settles hsub₂ hlisted hsettles₁
    · exact hsettles₂ other hother

theorem length_le_size {t : Table} {ids : List SymbolId} (hnodup : ids.Nodup) (hlt : ∀ id ∈ ids, id < t.size) :
    ids.length ≤ t.size := by
  have hsub : ids.Subperm (List.range t.size) :=
    subperm_of_subset hnodup fun id hid => mem_range.mpr (hlt id hid)
  have hlength := hsub.length_le
  rwa [length_range] at hlength

/-- A path meets no type twice, so it is no longer than the table. -/
theorem Open.length_le (h : l.Open base settled path type) : path.length + 1 ≤ l.table.size := by
  have hlength := length_le_size h.nodup fun open' hopen => (h.types open' hopen).1.lt_size
  rwa [length_append, length_singleton] at hlength

/-- Linking the body of a type settles it. The steps allowed for and the length of the path add up to more than the size
of the table. -/
theorem linkBody_spec (hscope : base ≤ scope ∨ scope = rootId) (steps : Nat) (type : SymbolId)
    (path : List SymbolId) (l : Linker) (settled : SymbolId → Prop) (h : l.Open base settled path type)
    (hsteps : l.table.size < steps + path.length) :
    ∃ settled', Linked l (linkBody scope steps type path l) base settled settled' path type := by
  induction steps generalizing type path l settled with
  | zero =>
    have hlength := h.length_le
    omega
  | succ steps ih =>
    have hlink : LinksBodies base l.table.size (path ++ [type])
        fun target l => linkBody scope steps target (path ++ [type]) l := by
      intro l₁ settled₁ target hsize hopen
      refine ih target (path ++ [type]) l₁ settled₁ hopen ?_
      rw [hsize, length_append, length_singleton]
      omega
    obtain ⟨settled₁, hsub, hopen, hfollows, hsettles⟩ :=
      Open.foldl_linkListed hlink hscope (l.table.get type).typedItems l settled rfl h fun _ hitem => hitem
    refine ⟨fun other => settled₁ other ∨ other = type, ?_⟩
    refine ⟨fun other hother => .inl (hsub other hother), .inr rfl, hopen.settle fun item hitem => ?_, hfollows⟩
    rw [hfollows.arranges.typedItems] at hitem
    exact hsettles item hitem

end CobolSymbols.Linker
