import CobolSymbols.Proofs.Session.Leftovers

/-!
# What building a file again detaches

A session remembers for each file the programs that the last request for it gave. A request to build the file again
detaches these, and a request to build it once more without detaching forgets them. So a program is detached by the next
request for its file, if that is one to build the file again, or it stays for good. Requests for other files leave it and
everything in it untouched.
-/

set_option autoImplicit false

namespace CobolSymbols

open List Relation Table

/-- Only the root can change in what does not last. -/
theorem Symbol.eq_of_lasting {s s' : Symbol} (hkind : ¬ (s.kind = .root ∨ s.kind = .namespaceKind))
    (h : s'.lasting = s.lasting) : s' = s := by
  have hsame : ∀ s : Symbol, ¬ (s.kind = .root ∨ s.kind = .namespaceKind) → s.lasting = s := by
    intro s hs
    unfold Symbol.kind at hs
    unfold Symbol.lasting
    cases hbody : s.body with
    | root scopes => simp [hbody] at hs
    | namespaceBody scopes => simp [hbody] at hs
    | _ => rfl
  have hkind' : s'.kind = s.kind := (Symbol.lasting_eq h).2.2.2.2.2
  rw [← hsame s hkind, ← h, hsame s' (hkind' ▸ hkind)]

namespace Table

variable {t t' t'' : Table} {base : Nat} {program other id : SymbolId} {programs : List SymbolId}

/-- A symbol is the same in two tables: what it holds, what lists it and finds it, and its slot. -/
structure Untouched (t t' : Table) (id : SymbolId) : Prop where
  get : t'.get id = t.get id
  ledger : t'.ledger id = t.ledger id
  slots : ∀ index, t'.slots.get? index = some id ↔ t.slots.get? index = some id

theorem Untouched.refl (t : Table) (id : SymbolId) : Untouched t t id := ⟨rfl, rfl, fun _ => Iff.rfl⟩

theorem Untouched.trans (h : Untouched t t' id) (h' : Untouched t' t'' id) : Untouched t t'' id :=
  ⟨h'.get.trans h.get, h'.ledger.trans h.ledger, fun index => (h'.slots index).trans (h.slots index)⟩

theorem Within.lt_size (hwithin : t.Within program id) (hlt : program < t.size) : id < t.size := by
  rcases within_iff.mp hwithin with heq | ⟨_, howner, _⟩
  · exact heq ▸ hlt
  · exact howner.lt_size

theorem Within.ne_root (hwithin : t.Within program id) (ht : t.Ordered) (hown : t.OwnedBy program rootId) :
    id ≠ rootId := by
  rintro rfl
  have hle : program ≤ rootId := hwithin.le ht
  exact absurd (ht _ _ hown) hle.not_gt

variable (h : t.Regular)
include h

/-- In regular tables a symbol and its ledger tell its slot. -/
theorem Regular.untouched (h' : t'.Regular) (hget : t'.get id = t.get id)
    (hledger : t'.ledger id = t.ledger id) : Untouched t t' id := by
  refine ⟨hget, hledger, fun index => ?_⟩
  rw [h'.tidy.slots.slot_iff, h.tidy.slots.slot_iff, hget]

variable (hsound : t.Sound base)
include hsound

theorem Regular.within_of_entered (hown : t.OwnedBy program rootId)
    (hunder : t.Under program id) : t.Within program id := by
  have hroot : program ≠ rootId := fun heq => absurd (hsound.ordered _ _ hown) (by rw [heq]; exact Nat.lt_irrefl _)
  induction hunder using ReflTransGen.head_induction_on with
  | refl => exact ReflTransGen.refl
  | head hentered hunder ih =>
    rename_i id container
    have hid := h.lt_size_of_entered hentered
    rcases (h.standing id hid).place with hnone | ⟨other, hother, htogether⟩
    · exact absurd hentered hnone.not_enteredIn
    · rw [hother.unique hentered] at htogether
      rcases htogether with heq | ⟨outermost, houter, hcont, hwithin⟩
      · rw [heq] at hunder
        exact absurd ((Under.le hunder).antisymm (Nat.zero_le _)) hroot
      · rwa [hsound.ordered.outermost_unique hown houter ih hcont]

/-- Removing a program of the root leaves the other ones untouched with everything in them. -/
theorem Regular.untouched_removeProgram (hkind : (t.get program).kind = .program)
    (hown : t.OwnedBy program rootId) (hother : t.OwnedBy other rootId) (hne : other ≠ program)
    (hwithin : t.Within other id) : Untouched t (t.removeProgram program).2 id := by
  have hregular := h.removeProgram hsound hkind
  cases hpresent : (t.get program).isRemoved with
  | true =>
    rw [removeProgram_of_removed hpresent]
    exact Untouched.refl t id
  | false =>
    have hdetached := h.detached_removeProgram hsound hkind hpresent
    have hself := h.self_mem_owned hsound hkind
    have hout : id ∉ t.owned program := by
      intro hmem
      have hbelow := h.within_of_entered hsound hown ((h.mem_owned hsound hkind).mp hmem).1
      exact hne (hsound.ordered.outermost_unique hother hown hwithin hbelow)
    refine h.untouched hregular ?_ ((h.ledger_removed hself hdetached).1 id hout)
    have hid : (t.get program).owner ≠ some id := by
      intro howner
      exact hwithin.ne_root hsound.ordered hother (OwnedBy.unique howner hown)
    rw [hdetached.get, if_neg hout, get_delist, if_neg hid]

theorem Regular.untouched_foldl
    (hprogs : ∀ program ∈ programs, (t.get program).kind = .program ∧ t.OwnedBy program rootId)
    (hother : t.OwnedBy other rootId) (hnot : other ∉ programs) (hwithin : t.Within other id) :
    Untouched t (programs.foldl (fun t program => (t.removeProgram program).2) t) id := by
  induction programs generalizing t with
  | nil => exact Untouched.refl t id
  | cons program rest ih =>
    obtain ⟨hkind, hown⟩ := hprogs program mem_cons_self
    rw [mem_cons, not_or] at hnot
    have hid : id < t.size := hwithin.lt_size hother.lt_size
    have hfirst := h.purged_removeProgram hsound hkind
    refine (h.untouched_removeProgram hsound hkind hown hother hnot.1 hwithin).trans ?_
    refine ih hfirst.regular hfirst.sound (fun program' hprog' => ?_) ?_ hnot.2 ?_
    · obtain ⟨hkind', hown'⟩ := hprogs program' (mem_cons_of_mem program hprog')
      exact ⟨(hfirst.kind hown'.lt_size).trans hkind', (hfirst.ownedBy_iff hown'.lt_size).mpr hown'⟩
    · exact (hfirst.ownedBy_iff hother.lt_size).mpr hother
    · exact (hfirst.within_iff h.tidy.ordered hid).mpr hwithin

end Table

namespace Session

variable {s : Session} {file : FileId} {program id : SymbolId}

/-- The programs that a session remembers of a file. -/
def remembered (s : Session) (file : FileId) : List SymbolId := (List.lookup file s.units).getD []

section Remembering

theorem lookup_filter_of_ne {units : List (FileId × List SymbolId)} {other : FileId} (hne : other ≠ file) :
    List.lookup other (units.filter (·.1 != file)) = List.lookup other units := by
  induction units with
  | nil => rfl
  | cons entry rest ih =>
    obtain ⟨key, programs⟩ := entry
    by_cases hkey : key = file
    · have hother : (other == key) = false := by simpa [hkey] using hne
      rw [filter_cons_of_neg (by simp [hkey]), ih, lookup_cons, hother]
    · rw [filter_cons_of_pos (by simp [hkey]), lookup_cons, lookup_cons, ih]

theorem remembered_serve_self (s : Session) (request : Request) :
    (s.serve request).2.remembered request.file = (s.serve request).1.programs := by
  unfold remembered serve
  split <;> exact congrArg (Option.getD · []) lookup_cons_self

theorem remembered_serve_of_ne (s : Session) (request : Request) (hne : file ≠ request.file) :
    (s.serve request).2.remembered file = s.remembered file := by
  have hcompile : ∀ s : Session, (s.compile request.file request.events).2.remembered file = s.remembered file := by
    intro s
    have hkey : (file == request.file) = false := by simpa using hne
    unfold remembered Session.compile
    simp only [lookup_cons, hkey, lookup_filter_of_ne hne]
  unfold serve
  split
  · refine (hcompile (s.detach request.file)).trans ?_
    unfold remembered Session.detach
    simp only [lookup_filter_of_ne hne]
  · exact hcompile s

theorem Regular.of_remembered (h : s.Regular) (hprog : program ∈ s.remembered file) :
    (s.table.get program).kind = .program ∧ s.table.OwnedBy program rootId := by
  unfold remembered at hprog
  cases hlookup : List.lookup file s.units with
  | none => simp [hlookup] at hprog
  | some programs =>
    obtain ⟨before, after, heq, _⟩ := lookup_eq_some_iff.mp hlookup
    refine h.units (file, programs) ?_ program (by simpa [hlookup] using hprog)
    rw [heq]
    exact mem_append_right before mem_cons_self

end Remembering

section Untouched

variable {request : Request}

variable (h : s.Regular)
include h

/-- Building a unit touches no symbol that was there but the root. -/
theorem Regular.untouched_compile (file : FileId) (events : List Event) (hid : id < s.table.size)
    (hroot : id ≠ rootId) : s.table.Untouched (s.compile file events).2.table id := by
  have horderly := Declarations.orderly_start (c := { s.context with file }) h.sound h.table
  obtain ⟨hspares, _⟩ := horderly.steps_spares (Build.unit_steps { s.context with file } events)
  refine h.table.untouched (h.compile file events).table ?_ ((advances_compile h file events).continues.kept id hid)
  refine Symbol.eq_of_lasting ?_ (hspares id hid)
  exact fun hkind => hroot ((h.sound.root id).mp hkind)

/-- A request touches no program of the root but those that are remembered of its file, and those only if the file is
built again. -/
theorem Regular.untouched_serve (request : Request) (hown : s.table.OwnedBy program rootId)
    (hnot : request.again = true → program ∉ s.remembered request.file) (hwithin : s.table.Within program id) :
    s.table.Untouched (s.serve request).2.table id := by
  have hid : id < s.table.size := hwithin.lt_size hown.lt_size
  have hroot := hwithin.ne_root h.sound.ordered hown
  unfold Session.serve
  split
  · rename_i hagain
    have hfirst : s.table.Untouched (s.detach request.file).table id :=
      h.table.untouched_foldl h.sound (fun _ hprog => h.of_remembered hprog) hown (hnot hagain) hwithin
    have hsize := (h.purged_detach request.file).size_eq
    exact hfirst.trans ((h.detach request.file).untouched_compile _ _ (hsize ▸ hid) hroot)
  · exact h.untouched_compile _ _ hid hroot

theorem Regular.extends_serve (request : Request) : s.table.Extends (s.serve request).2.table := by
  unfold Session.serve
  split
  · exact (h.purged_detach request.file).toExtends.trans
      (advances_compile (h.detach request.file) request.file request.events).continues.toExtends
  · exact (advances_compile h request.file request.events).continues.toExtends

theorem Regular.removed_serve (request : Request) (hremoved : (s.table.ledger id).removed = true) :
    ((s.serve request).2.table.ledger id).removed = true := by
  have hcompile : ∀ {s : Session}, s.Regular → (s.table.ledger id).removed = true →
      ((s.compile request.file request.events).2.table.ledger id).removed = true := by
    intro s h hremoved
    have hid : id < s.table.size := by
      by_contra hge
      rw [h.table.tidy.beyond id (not_lt.mp hge)] at hremoved
      cases hremoved
    have hkept := (advances_compile h request.file request.events).continues.kept id hid
    exact (congrArg Ledger.removed hkept).trans hremoved
  unfold Session.serve
  split
  · exact hcompile (h.detach request.file) ((h.purged_detach request.file).marked id hremoved)
  · exact hcompile h hremoved

theorem Regular.removed_again (hagain : request.again = true)
    (hprog : program ∈ s.remembered request.file) : ((s.serve request).2.table.ledger program).removed = true := by
  have hpurged := h.purged_detach request.file
  have hlt : program < (s.detach request.file).table.size := by
    rw [hpurged.size_eq]
    exact (h.of_remembered hprog).2.lt_size
  have hkept := (advances_compile (h.detach request.file) request.file request.events).continues.kept program hlt
  unfold Session.serve
  rw [if_pos hagain]
  exact (congrArg Ledger.removed hkept).trans (hpurged.removed program hprog)

/-- The programs that a request gives are new. -/
theorem Regular.fresh_serve (hprog : program ∈ (s.serve request).1.programs) : s.table.size ≤ program := by
  have hcompile : ∀ {s : Session}, s.Regular →
      program ∈ (s.compile request.file request.events).1.programs → s.table.size ≤ program := by
    intro s h hprog
    exact ((advances_compile h request.file request.events).added program hprog).resolve_left not_mem_nil
  unfold Session.serve at hprog
  split at hprog
  · exact (h.purged_detach request.file).size_eq ▸ hcompile (h.detach request.file) hprog
  · exact hcompile h hprog

end Untouched

section Lifetimes

/-- The session after it has been asked to build more units. -/
def afterMore (s : Session) (requests : List Request) : Session := requests.foldl (fun s request => (s.serve request).2) s

theorem Regular.afterMore (h : s.Regular) (requests : List Request) : (s.afterMore requests).Regular :=
  List.foldlRecOn (motive := Regular) requests _ h fun _ h request _ => h.serve request

variable {requests : List Request}

variable (h : s.Regular)
include h

theorem Regular.extends_afterMore (requests : List Request) : s.table.Extends (s.afterMore requests).table := by
  refine (List.foldlRecOn (motive := fun s' : Session => s'.Regular ∧ s.table.Extends s'.table) requests _
    ⟨h, Extends.refl _⟩ ?_).2
  exact fun _ hs request _ => ⟨hs.1.serve request, hs.2.trans (hs.1.extends_serve request)⟩

theorem Regular.removed_afterMore (hremoved : (s.table.ledger id).removed = true) :
    ((s.afterMore requests).table.ledger id).removed = true := by
  refine (List.foldlRecOn (motive := fun s : Session => s.Regular ∧ (s.table.ledger id).removed = true) requests _
    ⟨h, hremoved⟩ ?_).2
  exact fun _ hs request _ => ⟨hs.1.serve request, hs.1.removed_serve request hs.2⟩

theorem Regular.mem_remembered_serve (request : Request) (hlt : program < s.table.size) :
    program ∈ (s.serve request).2.remembered file ↔ file ≠ request.file ∧ program ∈ s.remembered file := by
  by_cases hfile : file = request.file
  · rw [hfile, remembered_serve_self]
    exact iff_of_false (fun hmem => absurd (h.fresh_serve hmem) hlt.not_ge) fun hand => hand.1 rfl
  · rw [remembered_serve_of_ne s request hfile]
    exact ⟨fun hmem => ⟨hfile, hmem⟩, And.right⟩

theorem Regular.mem_remembered_afterMore (hlt : program < s.table.size)
    (hmem : program ∈ (s.afterMore requests).remembered file) : program ∈ s.remembered file := by
  induction requests generalizing s with
  | nil => exact hmem
  | cons request rest ih =>
    have hlt' := hlt.trans_le (h.extends_serve request).size_le
    exact ((h.mem_remembered_serve request hlt).mp (ih (h.serve request) hlt' hmem)).2

theorem Regular.untouched_of_forgotten (hown : s.table.OwnedBy program rootId)
    (hnone : ∀ file, program ∉ s.remembered file) (hwithin : s.table.Within program id) :
    s.table.Untouched (s.afterMore requests).table id := by
  induction requests generalizing s with
  | nil => exact Untouched.refl _ _
  | cons request rest ih =>
    have hext := h.extends_serve request
    have hid := hwithin.lt_size hown.lt_size
    refine (h.untouched_serve request hown (fun _ => hnone request.file) hwithin).trans ?_
    refine ih (h.serve request) ((hext.ownedBy_iff hown.lt_size).mpr hown) (fun file hmem => ?_)
      ((hext.within_iff h.sound.ordered hid).mpr hwithin)
    exact hnone file ((h.mem_remembered_serve request hown.lt_size).mp hmem).2

/-- The next request for the file of a program decides: if it is one to build the file again, the program is removed for
good, otherwise it stays with everything in it. -/
theorem Regular.lifetime (requests : List Request) (hown : s.table.OwnedBy program rootId)
    (hfile : ∀ other, program ∈ s.remembered other ↔ other = file) :
    if (requests.find? (·.file == file)).any (·.again) then ((s.afterMore requests).table.ledger program).removed = true
    else ∀ id, s.table.Within program id → s.table.Untouched (s.afterMore requests).table id := by
  induction requests generalizing s with
  | nil => exact fun id _ => Untouched.refl _ _
  | cons request rest ih =>
    have hext := h.extends_serve request
    have hown' := (hext.ownedBy_iff hown.lt_size).mpr hown
    have hmem : ∀ other, program ∈ (s.serve request).2.remembered other ↔ other ≠ request.file ∧ other = file := by
      intro other
      rw [h.mem_remembered_serve request hown.lt_size, hfile]
    have hwithin' : ∀ {id}, s.table.Within program id → (s.serve request).2.table.Within program id := fun hwithin =>
      (hext.within_iff h.sound.ordered (hwithin.lt_size hown.lt_size)).mpr hwithin
    by_cases hsame : request.file = file
    · rw [find?_cons_of_pos (by simpa using hsame), Option.any_some]
      split
      · rename_i hagain
        exact (h.serve request).removed_afterMore (h.removed_again hagain ((hfile _).mpr hsame))
      · rename_i hagain
        intro id hwithin
        refine (h.untouched_serve request hown (fun htrue => absurd htrue hagain) hwithin).trans ?_
        refine (h.serve request).untouched_of_forgotten hown' (fun other hother => ?_) (hwithin' hwithin)
        obtain ⟨hne, heq⟩ := (hmem other).mp hother
        exact hne (heq.trans hsame.symm)
    · rw [find?_cons_of_neg (by simpa using hsame)]
      have hrest := ih (h.serve request) hown' fun other => by
        rw [hmem other]
        exact ⟨And.right, fun heq => ⟨fun hother => hsame (hother.symm.trans heq), heq⟩⟩
      split at hrest
      · rename_i hdetached
        rw [if_pos hdetached]
        exact hrest
      · rename_i hkept
        rw [if_neg hkept]
        intro id hwithin
        refine (h.untouched_serve request hown (fun _ hremembered => ?_) hwithin).trans (hrest id (hwithin' hwithin))
        exact hsame ((hfile _).mp hremembered)

end Lifetimes

section Requests

variable {request : Request}

theorem after_eq_reached (options : Options) (requests : List Request) :
    after options requests = reached options (requests.map .build) := by
  unfold after reached
  rw [foldl_map]
  rfl

/-- The next request for a file, the last one being one to build it again. -/
theorem any_next_again (requests : List Request) (file : FileId) (events : List Event) :
    ((requests ++ [(⟨true, file, events⟩ : Request)]).find? (·.file == file)).any (·.again) =
      (requests.find? (·.file == file)).all (·.again) := by
  rw [find?_append]
  cases requests.find? (·.file == file) with
  | none => simp
  | some request => rfl

/-- What a request gives is remembered of its file alone, belongs to the root and stays at first. -/
theorem Regular.given (h : s.Regular) (hprog : program ∈ (s.serve request).1.programs) :
    (∀ other, program ∈ (s.serve request).2.remembered other ↔ other = request.file) ∧
      (s.serve request).2.table.OwnedBy program rootId ∧
      ((s.serve request).2.table.ledger program).removed = false := by
  have hremembered : program ∈ (s.serve request).2.remembered request.file := by
    rw [remembered_serve_self]
    exact hprog
  have hfresh := h.fresh_serve hprog
  obtain ⟨-, hown⟩ := (h.serve request).of_remembered hremembered
  refine ⟨fun other => ⟨fun hother => ?_, fun heq => heq ▸ hremembered⟩, hown, ?_⟩
  · by_contra hne
    rw [remembered_serve_of_ne s request hne] at hother
    exact absurd (h.of_remembered hother).2.lt_size hfresh.not_gt
  · have hlt := hown.lt_size
    unfold Session.serve at hlt ⊢
    split at hlt <;> rename_i hagain
    · rw [if_pos hagain]
      have hsize := (h.purged_detach request.file).size_eq
      exact ((advances_compile (h.detach request.file) request.file request.events).gathered program
        (hsize.symm ▸ hfresh) hlt).1
    · rw [if_neg hagain]
      exact ((advances_compile h request.file request.events).gathered program hfresh hlt).1

/-- After any requests, a file is built again. A program that an earlier request gave for the file is detached exactly if
the next request for the file was one to build it again, which this one is if there was none in between. Otherwise the
program has been there ever since, untouched with everything in it. The programs of other files are untouched too. -/
theorem programs_detached_by_next_request (options : Options) (requests : List Request) (file : FileId)
    (events : List Event) :
    let s := after options requests
    let s' := (s.recompile file events).2
    ∀ before request between, requests = before ++ request :: between →
      ∀ program ∈ ((after options before).serve request).1.programs,
        (request.file = file →
          if (between.find? (·.file == file)).all (·.again) then s'.table.Gone program
          else (s'.table.get program).isRemoved = false ∧
            let built := ((after options before).serve request).2
            ∀ id, built.table.Within program id → built.table.Untouched s'.table id) ∧
        (request.file ≠ file → ∀ id, s.table.Within program id → s.table.Untouched s'.table id) := by
  intro s s' before request between hsplit program hprogram
  have hregular : (after options before).Regular := by
    rw [after_eq_reached]
    exact regular_reached options _
  obtain ⟨hfile, hown, hpresent⟩ := hregular.given hprogram
  have hbuilt := hregular.serve request
  have hs : s = ((after options before).serve request).2.afterMore between := by
    show after options requests = _
    rw [hsplit]
    unfold after afterMore
    rw [foldl_append]
    rfl
  have hs' : s' = ((after options before).serve request).2.afterMore (between ++ [⟨true, file, events⟩]) := by
    show (s.recompile file events).2 = _
    rw [hs]
    unfold afterMore
    rw [foldl_append]
    rfl
  refine ⟨fun hsame => ?_, fun hne id hwithin => ?_⟩
  · have hlife := hbuilt.lifetime (between ++ [⟨true, file, events⟩]) hown hfile
    rw [← hs', hsame, any_next_again] at hlife
    split at hlife
    · rename_i hnext
      rw [if_pos hnext]
      have hafter : s' = reached options ((requests ++ [(⟨true, file, events⟩ : Request)]).map .build) := by
        rw [← after_eq_reached]
        unfold after
        rw [foldl_append]
        rfl
      have hregular' : s'.Regular := hafter ▸ regular_reached options _
      have hcleared : s'.table.Cleared := hafter ▸ cleared_reached options _
      refine hcleared.gone hregular'.table ?_ hlife
      rw [hs']
      exact Nat.lt_of_lt_of_le hown.lt_size (hbuilt.extends_afterMore _).size_le
    · rename_i hnext
      rw [if_neg hnext]
      have hself := hlife program ReflTransGen.refl
      exact ⟨(congrArg Ledger.removed hself.ledger).trans hpresent, hlife⟩
  · have hextends := hbuilt.extends_afterMore between
    rw [← hs] at hextends
    have hregular' : s.Regular := hs ▸ hbuilt.afterMore between
    refine hregular'.untouched_serve ⟨true, file, events⟩ ((hextends.ownedBy_iff hown.lt_size).mpr hown)
      (fun _ hmem => ?_) hwithin
    rw [hs] at hmem
    exact hne ((hfile file).mp (hbuilt.mem_remembered_afterMore hown.lt_size hmem)).symm

end Requests

/-- A unit of one program. -/
def oneProgram (name : String) : List Event := [.startProgram { name, position := ⟨1, 8⟩ }, .endProgram none]

/-- A file is built, another one is, and then the first one again. -/
def buildAndAgain : List Request := [⟨false, 0, oneProgram "P"⟩, ⟨false, 1, oneProgram "Q"⟩, ⟨true, 0, oneProgram "P"⟩]

/-- Building the first file once more detaches what it gave the second time; what it gave the first time was detached
before. -/
theorem programs_detached_again :
    ((after {} buildAndAgain).recompile 0 (oneProgram "P")).2.table.Gone 10 ∧
      ((after {} buildAndAgain).recompile 0 (oneProgram "P")).2.table.Gone 12 ∧
      (after {} buildAndAgain).table.Untouched ((after {} buildAndAgain).recompile 0 (oneProgram "P")).2.table 11 := by
  have hall := programs_detached_by_next_request {} buildAndAgain 0 (oneProgram "P")
  have hfirst := (hall [] ⟨false, 0, oneProgram "P"⟩ [⟨false, 1, oneProgram "Q"⟩, ⟨true, 0, oneProgram "P"⟩] rfl 10
    (by decide +kernel)).1 rfl
  have hother := (hall [⟨false, 0, oneProgram "P"⟩] ⟨false, 1, oneProgram "Q"⟩ [⟨true, 0, oneProgram "P"⟩] rfl 11
    (by decide +kernel)).2 (by decide)
  have hagain := (hall [⟨false, 0, oneProgram "P"⟩, ⟨false, 1, oneProgram "Q"⟩] ⟨true, 0, oneProgram "P"⟩ [] rfl 12
    (by decide +kernel)).1 rfl
  exact ⟨hfirst, hagain, hother 11 ReflTransGen.refl⟩

/-- A file that is built twice without detaching keeps what it gave the first time when it is built again. -/
theorem program_built_twice_stays :
    let requests : List Request := [⟨false, 0, oneProgram "P"⟩, ⟨false, 0, oneProgram "P"⟩]
    let t := ((after {} requests).recompile 0 (oneProgram "P")).2.table
    ((after {} []).serve ⟨false, 0, oneProgram "P"⟩).1.programs = [10] ∧ (t.get 10).isRemoved = false ∧
      10 ∈ t.lookupProgram "P" := by
  decide +kernel

end Session

end CobolSymbols
