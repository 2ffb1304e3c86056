import CobolSymbols.Proofs.Build.Laying
import CobolSymbols.Proofs.Build.Orderly

/-!
# Items stand where their marks tell

In every table that a session reaches, an item carries the flag of its storage section and of no other, types and what
lies in them carry none, and no item is marked both as global and as one of GLOBAL-STORAGE. The scope of a storage section
lists exactly the items of that section that belong to its program or procedure. The domain of a program holds exactly the
items outside of types that are declared in the program. Programs belong to programs or to the root.
-/

set_option autoImplicit false

namespace CobolSymbols

open Symbol SymbolFlags Table SymbolKind

namespace Table

variable {t t' t'' : Table}

/-- An item that a session starts with. -/
structure Builtin (t : Table) (v : SymbolId) : Prop where
  owner : t.OwnedBy v rootId
  unmarked : (t.get v).flags.Unmarked
  plain : (t.get v).indexed? = none

/-- An item of a program or procedure that lies outside of types. -/
structure ItemOf (t : Table) (p v : SymbolId) : Prop where
  item : t.IsItem v
  outside : t.Home v none
  enclosed : t.enclosingScope v = some p
  program : (t.get p).kind.isProgramLike = true

/-- Items stand where their marks tell, and programs know their items. -/
structure InPlace (t : Table) : Prop where
  items : ∀ v, t.IsItem v → t.Builtin v ∨ ∃ origin, t.Laid origin v
  others : ∀ v, ¬ t.IsItem v → (t.get v).flags.Unmarked
  types : ∀ v, t.IsType v → ∀ s : StorageSection, (t.get v).flags.has s.flag = false
  listed : ∀ p (kept : StorageSection) v, v ∈ t.listed p kept.slot ↔
    (t.get v).flags.has kept.flag = true ∧ t.OwnedBy v p ∧ (t.get p).kind.isProgramLike = true
  nested : ∀ id owner, (t.get id).kind = .program → t.OwnedBy id owner → owner = rootId ∨ (t.get owner).kind = .program
  bearers : ∀ p name v, v ∈ t.bearers p name ↔ t.ItemOf p v ∧ (t.get v).name = name

/-- The second table has new symbols, and its new items stand where their marks tell. -/
structure Adds (t t' : Table) : Prop extends Extends t t' where
  stamp : ∀ id, id < t.size → t.SameStamp t' id
  items : ∀ v, t.size ≤ v → t'.IsItem v → ∃ origin, t'.Laid origin v ∧ (t'.IsType v → origin = none)
  others : ∀ v, t.size ≤ v → ¬ t'.IsItem v → (t'.get v).flags.Unmarked
  listed : ∀ p (kept : StorageSection) v, v ∈ t'.listed p kept.slot ↔ v ∈ t.listed p kept.slot ∨
    t.size ≤ v ∧ (t'.get v).flags.has kept.flag = true ∧ t'.OwnedBy v p ∧ (t'.get p).kind.isProgramLike = true
  nested : ∀ id owner, t.size ≤ id → (t'.get id).kind = .program → t'.OwnedBy id owner →
    owner = rootId ∨ (t'.get owner).kind = .program
  bearers : ∀ p name v, v ∈ t'.bearers p name ↔
    v ∈ t.bearers p name ∨ t.size ≤ v ∧ t'.ItemOf p v ∧ (t'.get v).name = name

section Adds

variable {p v : SymbolId}

theorem Extends.itemOf_iff (h : Extends t t') (ht : t.Ordered) (hv : v < t.size) : t'.ItemOf p v ↔ t.ItemOf p v := by
  have henclosed := h.enclosingScope ht hv
  have hkind : t.enclosingScope v = some p → (t'.get p).kind = (t.get p).kind := fun hp =>
    h.kind (lt_size_of_enclosingScope hp)
  constructor
  · rintro ⟨hitem, houtside, hp, hprog⟩
    rw [henclosed] at hp
    refine ⟨?_, (h.home_none_iff ht hv).mp houtside, hp, hkind hp ▸ hprog⟩
    unfold IsItem at hitem ⊢
    rwa [h.kind hv] at hitem
  · rintro ⟨hitem, houtside, hp, hprog⟩
    refine ⟨?_, (h.home_none_iff ht hv).mpr houtside, henclosed.trans hp, (hkind hp).symm ▸ hprog⟩
    unfold IsItem at hitem ⊢
    rwa [h.kind hv]

theorem Builtin.keep (h : t.Builtin v) (hsame : t.SameStamp t' v) : t'.Builtin v where
  owner := hsame.ownedBy_iff.mpr h.owner
  unmarked f hf := (hsame.has hf).trans (h.unmarked f hf)
  plain := hsame.indexed?.trans h.plain

/-- New symbols that are in place leave everything in place. -/
theorem InPlace.adds (h : t.InPlace) (ht : t.Ordered) (hadds : Adds t t') : t'.InPlace where
  items v hv := by
    by_cases hold : v < t.size
    · rcases h.items v ((hadds.stamp v hold).isItem_iff.mp hv) with hbuiltin | ⟨origin, hlaid⟩
      · exact .inl (hbuiltin.keep (hadds.stamp v hold))
      · exact .inr ⟨origin, hlaid.keep hadds.stamp⟩
    · obtain ⟨origin, hlaid, _⟩ := hadds.items v (not_lt.mp hold) hv
      exact .inr ⟨origin, hlaid⟩
  others v hv := by
    by_cases hold : v < t.size
    · intro f hf
      rw [(hadds.stamp v hold).has hf]
      exact h.others v (fun hitem => hv ((hadds.stamp v hold).isItem_iff.mpr hitem)) f hf
    · exact hadds.others v (not_lt.mp hold) hv
  types v hv s := by
    by_cases hold : v < t.size
    · rw [(hadds.stamp v hold).has s.isMark_flag]
      exact h.types v ((hadds.isType_iff hold).mp hv) s
    · obtain ⟨origin, hlaid, horigin⟩ := hadds.items v (not_lt.mp hold) hv.isItem
      rw [hlaid.flags s, horigin hv]
      rfl
  listed p kept v := by
    rw [hadds.listed, h.listed]
    by_cases hold : v < t.size
    · have hsame := hadds.stamp v hold
      have hkind : t.OwnedBy v p → (t'.get p).kind = (t.get p).kind := fun hown =>
        hadds.kind ((ht v p hown).trans hold)
      rw [hsame.has kept.isMark_flag, hsame.ownedBy_iff]
      refine ⟨fun hv => hv.elim (fun hv => ⟨hv.1, hv.2.1, hkind hv.2.1 ▸ hv.2.2⟩) fun hv =>
        absurd hold hv.1.not_gt, fun hv => .inl ⟨hv.1, hv.2.1, ?_⟩⟩
      rw [← hkind hv.2.1]
      exact hv.2.2
    · refine ⟨fun hv => hv.elim (fun hv => absurd hv.2.1.lt_size hold) fun hv => hv.2, fun hv => .inr ?_⟩
      exact ⟨not_lt.mp hold, hv⟩
  nested id owner hid hown := by
    by_cases hold : id < t.size
    · rw [hadds.kind hold] at hid
      rw [(hadds.stamp id hold).ownedBy_iff] at hown
      refine (h.nested id owner hid hown).imp_right fun hkind => ?_
      rw [hadds.kind ((ht id owner hown).trans hold)]
      exact hkind
    · exact hadds.nested id owner (not_lt.mp hold) hid hown
  bearers p name v := by
    rw [hadds.bearers, h.bearers]
    by_cases hold : v < t.size
    · rw [hadds.itemOf_iff ht hold, (hadds.stamp v hold).name]
      exact ⟨fun hv => hv.elim (fun hv => hv) fun hv => absurd hold hv.1.not_gt, .inl⟩
    · refine ⟨fun hv => hv.elim (fun hv => absurd hv.1.item.lt_size hold) fun hv => hv.2, fun hv => .inr ?_⟩
      exact ⟨not_lt.mp hold, hv⟩

/-- Which items a program has is told by the owners and the kinds of symbols. -/
theorem itemOf_congr (hsize : t'.size = t.size) (hsame : ∀ id, t.SameStamp t' id) : t'.ItemOf p v ↔ t.ItemOf p v := by
  have howned : t'.OwnedBy = t.OwnedBy := by
    funext id owner
    exact propext (hsame id).ownedBy_iff
  have hwithin : t'.Within = t.Within := by
    unfold Within
    rw [howned]
  have htype : t'.IsType = t.IsType := by
    funext id
    exact propext (hsame id).isType_iff
  have hchain : ∀ steps start, t'.chainFrom steps start = t.chainFrom steps start := by
    intro steps
    induction steps with
    | zero => exact fun _ => rfl
    | succ steps ih =>
      intro start
      cases start with
      | none => rfl
      | some id => rw [chainFrom, chainFrom, (hsame id).owner, ih]
  have hscope : (fun id => (t'.get id).isScope) = fun id => (t.get id).isScope := by
    funext id
    rw [isScope_eq, isScope_eq, (hsame id).kind]
  have henclosing : t'.enclosingScope v = t.enclosingScope v := by
    unfold enclosingScope owners
    rw [hsize, (hsame v).owner, hchain, hscope]
  have hhome : t'.Home v none ↔ t.Home v none := by
    unfold Home
    rw [hwithin, htype]
  have hitem := (hsame v).isItem_iff
  constructor
  · rintro ⟨h, houtside, hp, hprog⟩
    exact ⟨hitem.mp h, hhome.mp houtside, henclosing ▸ hp, (hsame p).kind ▸ hprog⟩
  · rintro ⟨h, houtside, hp, hprog⟩
    exact ⟨hitem.mpr h, hhome.mpr houtside, henclosing.trans hp, (hsame p).kind.symm ▸ hprog⟩

/-- A change that makes no symbol and changes no stamp leaves everything in place, as long as the lists stay. -/
theorem InPlace.same (h : t.InPlace) (hsize : t'.size = t.size) (hsame : ∀ id, t.SameStamp t' id)
    (hlisted : ∀ p (kept : StorageSection), t'.listed p kept.slot = t.listed p kept.slot)
    (hbearers : ∀ p name, t'.bearers p name = t.bearers p name) : t'.InPlace where
  items v hv :=
    (h.items v ((hsame v).isItem_iff.mp hv)).imp (fun hbuiltin => hbuiltin.keep (hsame v)) fun ⟨origin, hlaid⟩ =>
      ⟨origin, hlaid.keep fun id _ => hsame id⟩
  others v hv f hf := by
    rw [(hsame v).has hf]
    exact h.others v (fun hitem => hv ((hsame v).isItem_iff.mpr hitem)) f hf
  types v hv s := by
    rw [(hsame v).has s.isMark_flag]
    exact h.types v ((hsame v).isType_iff.mp hv) s
  listed p kept v := by
    rw [hlisted, h.listed, (hsame v).has kept.isMark_flag, (hsame v).ownedBy_iff, (hsame p).kind]
  nested id owner hid hown := by
    rw [(hsame id).kind] at hid
    rw [(hsame owner).kind]
    exact h.nested id owner hid ((hsame id).ownedBy_iff.mp hown)
  bearers p name v := by
    rw [hbearers, h.bearers, itemOf_congr hsize hsame, (hsame v).name]

/-- Programs and procedures are not marked as global. -/
theorem InPlace.global_of_program (h : t.InPlace) (hp : (t.get p).kind.isProgramLike = true) :
    (t.get p).flags.has .global = false := by
  refine h.others p (fun hitem => ?_) .global rfl
  have hnot := isScope_of_isItem hitem
  rw [isScope_of_isProgramLike hp] at hnot
  cases hnot

end Adds

end Table

namespace Linker

variable {l l' : Linker}

theorem unmarked_restrictions : SymbolFlags.restrictions.Unmarked :=
  avoids_ofList [.strongType, .strictType, .weakType] (by decide)

theorem blind_stamp : Blind Symbol.stamp where
  bind _ _ _ := stamp_addFlags _ unmarked_restrictions.inter
  list _ _ := stamp_mapProgram _ _
  object _ _ := rfl

theorem blind_stock : Blind Symbol.stock where
  bind _ _ _ := stock_of_body rfl
  list _ _ := stock_mapProgram _ (fun _ => rfl) fun _ => rfl
  object _ _ := stock_of_body rfl

theorem Changes.stamp (h : Changes l l') (id : SymbolId) : l.table.SameStamp l'.table id := h.keeps blind_stamp id

theorem Changes.stock (h : Changes l l') (id : SymbolId) : (l'.table.get id).stock = (l.table.get id).stock :=
  h.keeps blind_stock id

/-- Linking leaves everything in place. -/
theorem Changes.inPlace (h : Changes l l') (hplace : l.table.InPlace) : l'.table.InPlace := by
  refine hplace.same h.size_eq h.stamp (fun p kept => ?_) fun p name => ?_
  · exact congrFun (congrArg Prod.snd (h.stock p)) kept.slot
  · exact congrArg (fun stock : Domain SymbolId × (ScopeSlot → List SymbolId) => stock.1.lookup name) (h.stock p)

end Linker

/-- A symbol that has just been made keeps no lists. -/
theorem Symbol.Fresh.stock_eq {s : Symbol} (h : s.Fresh) : s.stock = ({}, fun _ => []) := by
  have hdomain : s.domain = {} := by
    unfold Symbol.domain
    cases hprog : s.program? with
    | none => rfl
    | some data =>
      rw [h.program data hprog]
      rfl
  have hlisting : s.listing = fun _ => [] := by
    funext slot
    unfold Symbol.listing
    cases hscope : s.scope? slot with
    | none => rfl
    | some scope =>
      rw [h.scope?_eq hscope]
      rfl
  rw [Symbol.stock, hdomain, hlisting]

namespace Declarations

variable {d d' : Declarations} {scope : SymbolId} {place : Placement}

section Lays

variable (h : Lays scope scope place d d')
include h

/-- What is declared at the top of a program is declared in the program. -/
theorem Lays.enclosingScope_eq (hordered : d'.table.Ordered) (hprog : (d'.table.get scope).kind.isProgramLike = true)
    {v : SymbolId} (hv : New d d' v) : d'.table.enclosingScope v = some scope := by
  induction v using Nat.strongRecOn with
  | _ v ih =>
    obtain ⟨owner, hown, hlt, _⟩ := (h.laid v hv).owner
    rw [hordered.enclosingScope_eq hown]
    rcases h.owned v owner hv.1 hown with heq | hnew
    · rw [heq, if_pos]
      rw [isScope_eq]
      exact isScope_of_isProgramLike hprog
    · have howner : New d d' owner := ⟨hnew, hlt.trans hv.2⟩
      rw [if_neg, ih owner hlt howner]
      rw [isScope_eq, isScope_of_isItem (h.laid owner howner).item]
      exact Bool.false_ne_true

/-- Without a type at the top, nothing that is declared lies in a type. -/
theorem Lays.home_none (houtside : d'.table.Home scope none)
    (hbody : place.typeBody = none) {v : SymbolId} (hv : New d d' v) : d'.table.Home v none := by
  induction v using Nat.strongRecOn with
  | _ v ih =>
    obtain ⟨owner, hown, hlt, _⟩ := (h.laid v hv).owner
    have hnot : ¬ d'.table.IsType v := fun htype => by
      rw [h.types v hv htype] at hbody
      cases hbody
    refine Home.of_owner hown hnot ?_
    rcases h.owned v owner hv.1 hown with heq | hnew
    · rw [heq]
      exact houtside
    · exact ih owner hlt ⟨hnew, hlt.trans hv.2⟩

theorem Lays.adds (hext : d.table.Extends d'.table) (hordered : d'.table.Ordered)
    (hprog : (d'.table.get scope).kind.isProgramLike = true) (houtside : d'.table.Home scope none)
    (hplace : ∀ p (kept : StorageSection), place.parent = some (.slot p kept.slot) ↔
      p = scope ∧ d.sectionOf place = some kept)
    (hbody : ∀ type, place.typeBody = some type →
      d'.table.IsType type ∧ ∀ v, New d d' v → d'.table.Within type v) : d.table.Adds d'.table where
  toExtends := hext
  stamp := h.stamp
  items v hv hitem := by
    refine ⟨_, h.laid v ⟨hv, hitem.lt_size⟩, fun htype => ?_⟩
    unfold sectionOf
    rw [h.types v ⟨hv, hitem.lt_size⟩ htype]
    rfl
  others v hv hitem := by
    by_cases hlt : v < d'.table.size
    · exact absurd (h.laid v ⟨hv, hlt⟩).item hitem
    · rw [get_of_size_le (not_lt.mp hlt)]
      exact avoids_empty
  listed p kept v := by
    rw [h.listed, hplace]
    refine or_congr_right ⟨?_, ?_⟩
    · rintro ⟨⟨rfl, hsection⟩, hv, hown⟩
      rw [(h.laid v hv).flags kept, hsection]
      exact ⟨hv.1, decide_eq_true rfl, hown, hprog⟩
    · rintro ⟨hle, hflag, hown, hkind⟩
      have hv : New d d' v := ⟨hle, hown.lt_size⟩
      have hp : p = scope := by
        refine (h.owned v p hle hown).resolve_right fun hnew => ?_
        have hitem := (h.laid p ⟨hnew, (hordered v p hown).trans hown.lt_size⟩).item
        have hscope := isScope_of_isProgramLike hkind
        rw [isScope_of_isItem hitem] at hscope
        cases hscope
      subst hp
      exact ⟨⟨rfl, of_decide_eq_true (((h.laid v hv).flags kept).symm.trans hflag)⟩, hv, hown⟩
  nested id owner hle hkind hown := absurd hkind ((h.laid id ⟨hle, hown.lt_size⟩).item.kind_ne rfl)
  bearers p name v := by
    rw [h.bearers]
    refine or_congr_right ⟨?_, ?_⟩
    · rintro ⟨hnone, rfl, hv, hname⟩
      exact ⟨hv.1, ⟨(h.laid v hv).item, h.home_none houtside hnone hv, h.enclosingScope_eq hordered hprog hv,
        hprog⟩, hname⟩
    · rintro ⟨hle, hitem, hname⟩
      have hv : New d d' v := ⟨hle, hitem.item.lt_size⟩
      have hp : p = scope := Option.some.inj (hitem.enclosed.symm.trans (h.enclosingScope_eq hordered hprog hv))
      refine ⟨?_, hp, hv, hname⟩
      cases htype : place.typeBody with
      | none => rfl
      | some type =>
        obtain ⟨htype', hwithin⟩ := hbody type htype
        exact absurd (hwithin v hv) (hitem.outside type htype')

end Lays

section Others

/-- A program, a procedure, a section or a paragraph is made and entered among symbols of its kind. -/
theorem adds_other {s : Symbol} (hfresh : s.Fresh) (hitem : s.kind.isItem = false) (hflags : s.flags.Unmarked)
    (howner : s.kind = .program → ∀ owner, s.owner = some owner → owner = rootId ∨ (d.table.get owner).kind = .program)
    {parent : Option ScopeRef} (hparent : ∀ p (kept : StorageSection), parent ≠ some (.slot p kept.slot)) :
    d.table.Adds ((d.alloc s).2.enterIn d.table.size parent).table := by
  have hstamped : Stamped d ((d.alloc s).2.enterIn d.table.size parent) :=
    (alloc_stamped s).trans (enterIn_stamped _ _)
  have hget := d.get_made s
  have hself := enterIn_stamp (d := (d.alloc s).2) d.table.size parent d.table.size
  have hnot : ∀ v, d.table.size ≤ v → ¬ ((d.alloc s).2.enterIn d.table.size parent).table.IsItem v := by
    intro v hv hitem'
    obtain rfl := eq_size_of_new hv hitem'.lt_size
    unfold IsItem at hitem'
    rw [hself.kind, hget, hitem] at hitem'
    cases hitem'
  have hstocks := stock_alloc (d := d) hfresh.stock_eq
  have hothers : ∀ v, d.table.size ≤ v → (((d.alloc s).2.enterIn d.table.size parent).table.get v).flags.Unmarked := by
    intro v hv
    by_cases hlt : v < ((d.alloc s).2.enterIn d.table.size parent).table.size
    · obtain rfl := eq_size_of_new hv hlt
      intro f hf
      rw [hself.has hf, hget, hflags f hf]
    · rw [get_of_size_le (not_lt.mp hlt)]
      exact avoids_empty
  constructor
  case toExtends =>
    refine (Extends.alloc d.table s).trans ?_
    cases parent with
    | none => exact Extends.refl _
    | some ref => exact Extends.enter _ ref _
  case stamp => exact hstamped.stamp
  case items => exact fun v hv hitem' => absurd hitem' (hnot v hv)
  case others => exact fun v hv _ => hothers v hv
  case listed =>
    intro p kept v
    have hlisted : (d.alloc s).2.table.listed p kept.slot = d.table.listed p kept.slot :=
      congrFun (congrArg Prod.snd (hstocks p)) kept.slot
    constructor
    · intro hv
      rcases mem_listed_enterIn hv with hv | ⟨hp, _⟩
      · exact .inl (hlisted ▸ hv)
      · exact absurd hp (hparent p kept)
    · rintro (hv | ⟨hle, hflag, _⟩)
      · exact listed_subset_enterIn _ _ p kept.slot (hlisted.symm ▸ hv)
      · exact absurd ((hothers v hle _ kept.isMark_flag).symm.trans hflag) Bool.false_ne_true
  case nested =>
    intro id owner hle hkind hown
    obtain rfl := eq_size_of_new hle hown.lt_size
    rw [hself.kind, hget] at hkind
    rw [hself.ownedBy_iff] at hown
    unfold OwnedBy at hown
    rw [hget] at hown
    refine (howner hkind owner hown).imp_right fun hprog => ?_
    have hold : owner < d.table.size := lt_size_of_isProgramLike (by rw [hprog]; rfl)
    rw [(hstamped.stamp owner hold).kind]
    exact hprog
  case bearers =>
    intro p name v
    have hbearers : (d.alloc s).2.table.bearers p name = d.table.bearers p name :=
      congrArg (fun stock : Domain SymbolId × (ScopeSlot → List SymbolId) => stock.1.lookup name) (hstocks p)
    rw [bearers_enterIn, hbearers]
    exact ⟨.inl, fun hv => hv.elim (fun hv => hv) fun hv => absurd hv.2.1.item (hnot v hv.1)⟩

theorem Quiet.inPlace (h : Quiet d d') (hplace : d.table.InPlace) : d'.table.InPlace := by
  exact hplace.same h.size_eq h.stamp (fun p kept => h.listed p kept.slot) h.bearers

end Others

section Records

variable {base : Nat}

/-- What is made with a type definition lies in it. -/
theorem declareRecord_body (tree : Tree) (hcurrent : d.currentScope = some scope)
    (hprog : (d.table.get scope).kind.isProgramLike = true) (hglobal : (d.table.get scope).flags.has .global = false)
    {type : SymbolId} (htype : (d.topPlace tree scope).typeBody = some type) :
    (d.declareRecord tree).2.table.IsType type ∧
      ∀ v, New d (d.declareRecord tree).2 v → (d.declareRecord tree).2.table.Within type v := by
  have hlays := declareRecord_lays hcurrent hprog hglobal tree
  unfold topPlace at htype
  split at htype
  · rename_i hkind
    obtain ⟨entry, hkind⟩ : ∃ entry, tree.node.kind = .typeDefinition entry := by
      cases hkind' : tree.node.kind <;> simp [hkind', NodeKind.isTypeDefinition] at hkind ⊢
    obtain rfl : d.table.size = type := Option.some.inj htype
    have hground := ground_types (d := d.clearRenames) hcurrent hprog hglobal
    have hmade : (d.clearRenames.declareTop tree scope).2 =
        (d.clearRenames.declareItem entry (.typeDefinition (entry.typeClause.getD {}).restriction [])
          ⟨some (.slot scope .types), none⟩ tree.children (fun place d => declareFields tree.children place d)).2.2 := by
      unfold declareTop
      rw [hkind]
      rfl
    obtain ⟨_, hself, howned⟩ := hground.declareType_lays entry _ (fieldsLay scope tree.children) hmade
    have hquiet : Quiet (d.clearRenames.declareTop tree scope).2 (d.declareRecord tree).2 := by
      rw [declareRecord_of_some hcurrent]
      exact (checkRenames_checks _).quiet.trans clearRenames_quiet
    refine ⟨(hquiet.stamp _).isType_iff.mpr hself, fun v hv => ?_⟩
    · induction v using Nat.strongRecOn with
      | _ v ih =>
        rcases Nat.eq_or_lt_of_le hv.1 with heq | hgt
        · rw [← heq]
          exact Relation.ReflTransGen.refl
        · obtain ⟨owner, hown, hlt, _⟩ := (hlays.laid v hv).owner
          have hle := howned v owner hgt ((hquiet.stamp v).ownedBy_iff.mp hown)
          exact within_iff.mpr (.inr ⟨owner, hown, ih owner hlt ⟨hle, hlt.trans hv.2⟩⟩)
  · cases htype

theorem slot_injective {kept kept' : StorageSection} (h : kept.slot = kept'.slot) : kept = kept' := by
  cases kept <;> cases kept' <;> first | rfl | cases h

theorem Scoped.declareRecord_inPlace (h : d.Scoped base scope) (hplace : d.table.InPlace) (tree : Tree) :
    (d.declareRecord tree).2.table.InPlace := by
  have hmoves := declareRecord_moves h tree
  have hglobal := hplace.global_of_program h.kind
  have hlays := declareRecord_lays h.current h.kind hglobal tree
  refine hplace.adds h.ordered (hlays.adds hmoves.extends (hmoves.ordered h.ordered) (h.moves hmoves).kind
    (h.moves hmoves).outside ?_ fun type htype => declareRecord_body tree h.current h.kind hglobal htype)
  intro p kept
  unfold topPlace sectionOf
  split
  · refine ⟨fun hparent => ?_, fun hsection => absurd hsection.2 nofun⟩
    cases kept <;> cases hparent
  · simp only [Option.map_eq_some_iff]
    constructor
    · rintro ⟨kept', hstorage, href⟩
      injection href with hscope hslot
      rw [slot_injective hslot] at hstorage
      exact ⟨hscope.symm, hstorage⟩
    · rintro ⟨rfl, hstorage⟩
      exact ⟨kept, hstorage, rfl⟩

end Records

section Steps

variable {base : Nat}

/-- The parameters of a procedure are items of its linkage section. -/
theorem Scoped.declareParameters_inPlace (h : d.Scoped base scope) (hplace : d.table.InPlace)
    (hstorage : d.storage = some .linkage) (parameters : Forest) :
    (declareParameters (.slot scope .linkage) parameters {} d).2.2.table.InPlace := by
  have hmoves := declareParameters_moves parameters {} d h le_rfl
  have hground : d.Ground scope scope ⟨some (.slot scope .linkage), none⟩ :=
    ground_top h.current h.kind (hplace.global_of_program h.kind) fun ref href => by cases href; exact ⟨_, rfl, nofun⟩
  refine hplace.adds h.ordered ((hground.declareParameters_lays parameters {}).adds hmoves.extends
    (hmoves.ordered h.ordered) (h.moves hmoves).kind (h.moves hmoves).outside ?_ nofun)
  intro p kept
  have hsection : d.sectionOf ⟨some (.slot scope .linkage), none⟩ = some .linkage := hstorage
  rw [hsection]
  constructor
  · intro hparent
    cases kept <;> cases hparent
    exact ⟨rfl, rfl⟩
  · rintro ⟨rfl, hkept⟩
    cases hkept
    rfl

theorem Resolves.quiet (h : Resolves scope d d') : Quiet d d' := by
  induction h with
  | refl => exact Quiet.refl d
  | report _ c htold ih => exact ih.trans (quiet_of_table rfl htold.table)
  | flag _ id flags _ hpassing ih => exact ih.trans (addFlags_quiet _ id hpassing.unmarked)

/-- Finding the parameters of a program marks nothing. -/
theorem startProcedureDivision_quiet (header : ProcedureHeader) :
    Quiet { d with storage := none } (d.startProcedureDivision header) := by
  rcases startProcedureDivision_cases d header with heq | ⟨scope, found, signature, _, _, hfound, heq⟩
  · rw [heq]
    exact Quiet.refl _
  · rw [heq]
    exact hfound.quiet.trans (setSignature_quiet signature)

theorem addDuplicate_quiet (parent id : SymbolId) : Quiet d (d.addDuplicate parent id) :=
  modify_quiet (fun s => s.stamp_mapProgram _) fun s => s.stock_mapProgram (fun _ => rfl) fun _ => rfl

section

variable (hplace : d.table.InPlace) (ht : d.table.Ordered)
include hplace ht

theorem inPlace_other {s : Symbol} (hfresh : s.Fresh) (hitem : s.kind.isItem = false) (hflags : s.flags.Unmarked)
    (howner : s.kind = .program → ∀ owner, s.owner = some owner → owner = rootId ∨ (d.table.get owner).kind = .program)
    (parent : Option ScopeRef) (hparent : ∀ p (kept : StorageSection), parent ≠ some (.slot p kept.slot)) :
    ((d.alloc s).2.enterIn d.table.size parent).table.InPlace := 
  hplace.adds ht (adds_other hfresh hitem hflags howner hparent)

theorem openProcedure_inPlace (header : DeclaredProcedure)
    (scope : SymbolId) : (d.openProcedure header scope).2.table.InPlace := by
  have hmade := inPlace_other hplace ht (s := procedureSymbol header scope) (fresh_procedureSymbol header scope) rfl
    (avoids_single (by cases header.visibility <;> rfl)) nofun (some (.slot scope .procedures))
    (by intro p kept; cases kept <;> nofun)
  exact registerProgram_quiet.inPlace hmade

theorem startHeading_inPlace (heading : SectionHeading) : (d.startHeading heading).2.table.InPlace := by
  unfold startHeading
  split
  · exact hplace
  · rename_i scope _
    exact inPlace_other hplace ht (s := headingSymbol heading scope)
      (fresh_of_body (.inl rfl) (.inl rfl) avoids_empty) rfl avoids_empty nofun _ (by intro p kept; cases kept <;> nofun)

theorem startParagraph_inPlace (heading : ParagraphHeading) : (d.startParagraph heading).2.table.InPlace := by
  unfold startParagraph
  split
  · exact hplace
  · rename_i scope _
    exact inPlace_other hplace ht (s := d.paragraphSymbol heading scope)
      (fresh_of_body (.inl rfl) (.inr (.inl ⟨_, rfl⟩)) avoids_empty) rfl avoids_empty nofun _
      (by intro p kept; cases kept <;> nofun)

end

/-- A program is made in the program around it or in the root and entered there, unless its name is taken. -/
theorem startProgram_made (d : Declarations) (header : ProgramHeader) : ∃ owner place parent made,
    (owner = rootId ∨ d.openPrograms.head? = some owner) ∧ place.isMark = false ∧ place.isTrait = false ∧
      (∀ p (kept : StorageSection), parent ≠ some (.slot p kept.slot)) ∧
      Quiet ((d.alloc (programSymbol header owner place)).2.enterIn d.table.size parent) made ∧
      (d.startProgram header).2.table = made.table := by
  have hslot : ∀ owner p (kept : StorageSection), some (ScopeRef.slot owner .programs) ≠ some (.slot p kept.slot) := by
    intro owner p kept
    cases kept <;> nofun
  cases hhead : d.openPrograms.head? with
  | some parent =>
    have htable := (startProgram_nested hhead header).1
    unfold declareNested at htable
    simp only at htable
    split at htable
    · exact ⟨parent, .nestedProgram, none, _, .inr rfl, rfl, rfl, nofun, addDuplicate_quiet parent _, htable⟩
    · exact ⟨parent, .nestedProgram, _, _, .inr rfl, rfl, rfl, hslot parent, registerProgram_quiet, htable⟩
  | none =>
    have htable := (startProgram_topLevel hhead header).1
    unfold declareTopLevel at htable
    simp only at htable
    refine ⟨rootId, if d.programs.isEmpty then .mainProgram else .stackedProgram, ?_⟩
    split at htable
    · exact ⟨none, _, .inl rfl, by split <;> rfl, by split <;> rfl, nofun, Quiet.refl _, htable⟩
    · exact ⟨some (.slot rootId .programs), _, .inl rfl, by split <;> rfl, by split <;> rfl, hslot rootId,
        registerProgram_quiet, htable⟩

variable (h : d.Ready base) (hplace : d.table.InPlace)
include h hplace

/-- The parameters of a procedure that has just been opened are declared in its linkage section. -/
theorem Ready.ground_linkage (hscope : d.currentScope = some scope) (header : DeclaredProcedure) :
    Ground { (d.openProcedure header scope).2 with storage := some .linkage } d.table.size d.table.size
      ⟨some (.slot d.table.size .linkage), none⟩ := by
  have hopened := openProcedure_inPlace hplace h.sound.ordered header scope
  have hscoped := h.scoped_linkage hscope header
  refine ground_top hscoped.current hscoped.kind (hopened.global_of_program hscoped.kind) fun ref href => ?_
  cases href
  exact ⟨_, rfl, nofun⟩

theorem Ready.startProcedure_inPlace (header : DeclaredProcedure)
    (parameters : Forest) : (d.startProcedure header parameters).2.2.table.InPlace := by
  cases hscope : d.currentScope with
  | none =>
    rw [startProcedure_of_none hscope]
    exact hplace
  | some scope =>
    have hopened := openProcedure_inPlace hplace h.sound.ordered header scope
    have hmade := (h.scoped_linkage hscope header).declareParameters_inPlace hopened rfl parameters
    unfold Declarations.startProcedure
    simp only [hscope]
    exact (setSignature_quiet _).inPlace hmade

theorem Ready.startProgram_inPlace (header : ProgramHeader) : (d.startProgram header).2.table.InPlace := by
  obtain ⟨owner, place, parent, made, howner, hmark, hplain, hparent, hquiet, htable⟩ := startProgram_made d header
  rw [htable]
  refine hquiet.inPlace (inPlace_other hplace h.sound.ordered (fresh_programSymbol header owner hplain) rfl
    (avoids_single hmark) (fun _ other hother => ?_) parent hparent)
  cases hother
  exact howner.imp_right fun hhead => (h.programs owner (List.mem_of_head? hhead)).2.2

/-- Every step leaves everything in place. -/
theorem Ready.inPlace_step (hstep : Step d d') : d'.table.InPlace := by
  have ht := h.sound.ordered
  cases hstep with
  | startProgram header => exact h.startProgram_inPlace hplace header
  | endProgram =>
    unfold Declarations.endProgram
    simp only
    split
    · exact (Linker.linkUnit_changes { context := d.context } d.typedItems d.dependentTypes d.dependentTables).inPlace
        hplace
    · exact hplace
  | setStorage storage => exact hplace
  | declareRecord tree =>
    cases hscope : d.currentScope with
    | none =>
      rw [declareRecord_of_none hscope]
      exact hplace
    | some scope => exact (h.scoped hscope).declareRecord_inPlace hplace tree
  | startProcedureDivision header => exact (startProcedureDivision_quiet header).inPlace hplace
  | startProcedure header parameters => exact h.startProcedure_inPlace hplace header parameters
  | endProcedure => exact hplace
  | startHeading heading => exact startHeading_inPlace hplace ht heading
  | endHeading => exact hplace
  | startParagraph heading => exact startParagraph_inPlace hplace ht heading

/-- Any number of steps leaves everything in place. -/
theorem Ready.inPlace_steps (hsteps : Steps d d') : d'.table.InPlace := by
  refine (hsteps.keep (P := fun d => (∃ base, d.Ready base) ∧ d.table.InPlace) ?_ ⟨⟨base, h⟩, hplace⟩).2
  rintro d d' hstep ⟨⟨base, hready⟩, hplace⟩
  exact ⟨hstep.ready ⟨base, hready⟩, hready.inPlace_step hplace hstep⟩

end Steps

end Declarations

end CobolSymbols
