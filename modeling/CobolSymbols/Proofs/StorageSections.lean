import CobolSymbols.Proofs.OpenScopes
import CobolSymbols.Proofs.Session.Boundaries

/-!
# The two sections of the data division

While a unit is read, the section of the data division is kept twice. The tree marks new nodes with the one, and the
symbols of records are entered into the scope of the other. Programs and procedures put the section of the tree aside
until they end. The declarations put nothing aside: a procedure that starts leaves their section as it is, and a program
or procedure that ends leaves none. So the two part where a procedure starts in a section and where a program or
procedure ends that has been started in one, until something else changes a section. They are the same everywhere else.
-/

set_option autoImplicit false

namespace CobolSymbols

open Declarations List Option

/-- Whether an event changes a section of the data division that is kept. -/
def Event.changesStorage : Event → Bool
  | .startProgram _ | .endProgram _ | .startProcedure _ | .endProcedure => true
  | .startStorage .. | .endStorage _ | .startProcedureDivision _ => true
  | _ => false

/-- A program or procedure from its start to its end. -/
def WholeScope (events : List Event) : Prop :=
  ∃ (c : Construct) (start : Event) (body : List Event) (finish : Event),
    c.isScope = true ∧ start.opens = some c ∧ WellNested body ∧ finish.closes = some c ∧
      events = start :: body ++ [finish]

section Nesting

variable {events : List Event} {cs : List Construct} {c : Construct}

theorem foldlM_nest_concat {cs cs' : List Construct} {event : Event} :
    (events ++ [event]).foldlM nest cs = some cs' ↔
      ∃ ds, events.foldlM nest cs = some ds ∧ nest ds event = some cs' := by
  rw [foldlM_append, bind_eq_bind, bind_eq_some_iff]
  simp

/-- What is open has been opened where only that was open which is around it. -/
theorem opened_of_nested (inner : List Construct) {outer : List Construct}
    (h : events.foldlM nest [] = some (inner ++ c :: outer)) :
    ∃ before start body, events = before ++ start :: body ∧ before.foldlM nest [] = some outer ∧
      start.opens = some c ∧ body.foldlM nest [] = some inner := by
  induction events using List.reverseRecOn generalizing inner with
  | nil => exact absurd (eq_nil_of_append_eq_nil (Option.some.inj h).symm).2 nofun
  | append_singleton events event ih =>
    obtain ⟨ds, hds, hevent⟩ := foldlM_nest_concat.mp h
    -- the construct was open before the event, and the event belongs to what is read in it
    have hearlier : ∀ inner', ds = inner' ++ c :: outer → nest inner' event = some inner →
        ∃ before start body, events ++ [event] = before ++ start :: body ∧ before.foldlM nest [] = some outer ∧
          start.opens = some c ∧ body.foldlM nest [] = some inner := by
      intro inner' hinner' hevent'
      obtain ⟨before, start, body, rfl, hbefore, hstart, hbody⟩ := ih inner' (hinner' ▸ hds)
      exact ⟨before, start, body ++ [event], by simp, hbefore, hstart, foldlM_nest_concat.mpr ⟨inner', hbody, hevent'⟩⟩
    cases hopens : event.opens with
    | some opened =>
      have hnew : opened :: ds = inner ++ c :: outer := by simpa [nest, hopens] using hevent
      cases inner with
      | nil =>
        obtain ⟨rfl, rfl⟩ := List.cons.inj hnew
        exact ⟨events, event, [], rfl, hds, hopens, rfl⟩
      | cons first inner =>
        obtain ⟨rfl, rfl⟩ := List.cons.inj hnew
        exact hearlier inner rfl (by simp [nest, hopens])
    | none =>
      cases hcloses : event.closes with
      | some closed =>
        have hclosed := Build.nest_of_closes hevent hopens hcloses
        exact hearlier (closed :: inner) hclosed (by simp [nest, hopens, hcloses])
      | none =>
        have hsame : ds = inner ++ c :: outer := by simpa [nest, hopens, hcloses] using hevent
        exact hearlier inner hsame (by simp [nest, hopens, hcloses])

/-- What ends has been started, and everything in between is complete. -/
theorem wholeScope_of_nested (h : events.foldlM nest [] = some (c :: cs)) (hscope : c.isScope = true) {finish : Event}
    (hfinish : finish.closes = some c) : ∃ before scope, WholeScope scope ∧ events ++ [finish] = before ++ scope := by
  obtain ⟨before, start, body, rfl, -, hstart, hbody⟩ := opened_of_nested [] h
  exact ⟨before, start :: body ++ [finish], ⟨c, start, body, finish, hscope, hstart, hbody, hfinish, rfl⟩, by simp⟩

end Nesting

/-- The sections of the data division that are kept: by the tree, for the programs and procedures around, innermost
first, and by the declarations. -/
structure KeptStorage where
  tree : Option StorageSection
  aside : List (Option StorageSection)
  symbols : Option StorageSection

namespace KeptStorage

/-- What an event does to the sections that are kept. -/
def next (k : KeptStorage) : Event → KeptStorage
  | .startProgram _ => ⟨none, k.tree :: k.aside, none⟩
  | .startProcedure _ => ⟨none, k.tree :: k.aside, k.symbols⟩
  | .endProgram _ | .endProcedure => ⟨k.aside.headD k.tree, k.aside.tail, none⟩
  | .startStorage storage _ => { k with tree := some storage, symbols := some storage }
  | .endStorage _ | .startProcedureDivision _ => { k with tree := none, symbols := none }
  | _ => k

/-- What events do to the sections that are kept. -/
def after (k : KeptStorage) (events : List Event) : KeptStorage := events.foldl next k

variable {k : KeptStorage} {events : List Event} {event : Event} {c : Construct} {cs : List Construct}

theorem after_append (k : KeptStorage) (events events' : List Event) :
    k.after (events ++ events') = (k.after events).after events' := foldl_append

theorem next_of_same (h : event.changesStorage = false) : k.next event = k := by
  cases event <;> first | rfl | cases h

theorem after_of_same (h : ∀ event ∈ events, event.changesStorage = false) : k.after events = k := by
  induction events with
  | nil => rfl
  | cons event rest ih =>
    rw [forall_mem_cons] at h
    show (k.next event).after rest = k
    rw [next_of_same h.1, ih h.2]

/-- Programs and procedures that start put a section aside. -/
theorem next_of_opens (h : event.opens = some c) (hscope : c.isScope = true) :
    (k.next event).aside = k.tree :: k.aside := by
  cases event <;> cases h <;> first | rfl | cases hscope

/-- Programs and procedures that end take it back. -/
theorem next_of_closes (h : event.closes = some c) (hscope : c.isScope = true) :
    k.next event = ⟨k.aside.headD k.tree, k.aside.tail, none⟩ := by
  cases event <;> cases h <;> first | rfl | cases hscope

/-- An event puts one section aside for a program or procedure that it opens and takes one back for one that it closes. -/
theorem drop_aside_next {ds : List Construct} (h : nest ds event = some cs) :
    (k.next event).aside.drop (cs.countP Construct.isScope) = k.aside.drop (ds.countP Construct.isScope) := by
  cases event with
  | startProgram | startProcedure =>
    obtain rfl := Build.nest_of_opens h rfl
    rw [countP_cons_of_pos rfl]
    rfl
  | endProgram | endProcedure =>
    obtain rfl := Build.nest_of_closes h rfl rfl
    rw [countP_cons_of_pos rfl]
    exact drop_tail
  | startDataDivision | startStorage | startFile | startProcedureDivision | startDeclaratives | startSection
  | startParagraph =>
    obtain rfl := Build.nest_of_opens h rfl
    rfl
  | endDataDivision | endStorage | endFile | endProcedureDivision | endDeclaratives | endSection | endParagraph =>
    obtain rfl := Build.nest_of_closes h rfl rfl
    rfl
  | dataEntry | redefinesEntry | renamesEntry | conditionEntry | typedefEntry | statement =>
    obtain rfl := Build.nest_of_neither h rfl rfl
    rfl

/-- One section is put aside for each program and procedure that is open. -/
theorem drop_aside_after (h : events.foldlM nest [] = some cs) :
    (k.after events).aside.drop (cs.countP Construct.isScope) = k.aside := by
  induction events using List.reverseRecOn generalizing cs with
  | nil =>
    obtain rfl : [] = cs := Option.some.inj h
    rfl
  | append_singleton events event ih =>
    obtain ⟨ds, hds, hevent⟩ := foldlM_nest_concat.mp h
    rw [after_append]
    exact (drop_aside_next hevent).trans (ih hds)

/-- A whole program or procedure leaves the section of the tree as it was, and no section of the declarations. -/
theorem after_wholeScope (h : WholeScope events) : k.after events = ⟨k.tree, k.aside, none⟩ := by
  obtain ⟨c, start, body, finish, hscope, hstart, hbody, hfinish, rfl⟩ := h
  have haside : ((k.next start).after body).aside = k.tree :: k.aside :=
    (drop_aside_after (k := k.next start) hbody).trans (next_of_opens hstart hscope)
  have hsplit : k.after (start :: body ++ [finish]) = ((k.next start).after body).next finish :=
    after_append k (start :: body) [finish]
  rw [hsplit, next_of_closes hfinish hscope, haside]
  rfl

/-- What makes the two sections differ: a procedure that starts where the declarations keep a section, and a whole program
or procedure where the tree keeps one. -/
inductive Parts (k : KeptStorage) : List Event → Prop
  | procedure (header : DeclaredProcedure) (h : k.symbols ≠ none) : Parts k [.startProcedure header]
  | scope {events : List Event} (hscope : WholeScope events) (h : k.tree ≠ none) : Parts k events

theorem parts_iff : k.Parts events ↔
    (∃ header, events = [.startProcedure header]) ∧ k.symbols ≠ none ∨ WholeScope events ∧ k.tree ≠ none := by
  constructor
  · rintro (⟨header, h⟩ | ⟨hscope, h⟩)
    · exact .inl ⟨⟨header, rfl⟩, h⟩
    · exact .inr ⟨hscope, h⟩
  · rintro (⟨⟨header, rfl⟩, h⟩ | ⟨hscope, h⟩)
    · exact .procedure header h
    · exact .scope hscope h

/-- After a part that makes the sections differ one of them is none. -/
theorem Parts.apart (h : k.Parts events) : (k.after events).tree ≠ (k.after events).symbols := by
  cases h with
  | procedure header h => exact h.symm
  | scope hscope h =>
    rw [after_wholeScope hscope]
    exact h

/-- An event that ends a program or procedure ends a whole one. -/
theorem whole_of_finish {finish : Event} (hfinish : finish.closes = some c) (hscope : c.isScope = true)
    (hnested : (events ++ [finish]).foldlM nest [] = some cs) :
    ∃ before scope, WholeScope scope ∧ events ++ [finish] = before ++ scope := by
  obtain ⟨ds, hds, hnest⟩ := foldlM_nest_concat.mp hnested
  have hopens : finish.opens = none := by cases finish <;> cases hfinish <;> rfl
  rw [Build.nest_of_closes hnest hopens hfinish] at hds
  exact wholeScope_of_nested hds hscope hfinish

/-- The two sections differ where the last that has changed one of them makes them differ, and only there. -/
theorem apart_iff (hsame : k.tree = k.symbols) (hnested : events.foldlM nest [] = some cs) :
    (k.after events).tree ≠ (k.after events).symbols ↔
      ∃ before last rest, events = before ++ last ++ rest ∧ (∀ event ∈ rest, event.changesStorage = false) ∧
        (k.after before).Parts last := by
  constructor
  · intro hapart
    induction events using List.reverseRecOn generalizing cs with
    | nil => exact absurd hsame hapart
    | append_singleton events event ih =>
      have hnext : k.after (events ++ [event]) = (k.after events).next event := after_append k events [event]
      have hended : ∀ c, event.closes = some c → c.isScope = true →
          ∃ before last rest, events ++ [event] = before ++ last ++ rest ∧
            (∀ event ∈ rest, event.changesStorage = false) ∧ (k.after before).Parts last := by
        intro c hcloses hscope
        obtain ⟨before, scope, hwhole, heq⟩ := whole_of_finish hcloses hscope hnested
        refine ⟨before, scope, [], by rw [heq, append_nil], forall_mem_nil _,
          .scope hwhole ?_⟩
        rw [heq, after_append, after_wholeScope hwhole] at hapart
        exact hapart
      cases hchanges : event.changesStorage with
      | false =>
        rw [hnext, next_of_same hchanges] at hapart
        obtain ⟨ds, hds, -⟩ := foldlM_nest_concat.mp hnested
        obtain ⟨before, last, rest, rfl, hrest, hparts⟩ := ih hds hapart
        refine ⟨before, last, rest ++ [event], by simp, ?_, hparts⟩
        intro other hother
        rcases mem_append.mp hother with hold | hnew
        · exact hrest other hold
        · rw [mem_singleton.mp hnew, hchanges]
      | true =>
        rw [hnext] at hapart
        cases event with
        | startProcedure header =>
          exact ⟨events, [.startProcedure header], [], by simp, forall_mem_nil _,
            .procedure header hapart.symm⟩
        | endProgram marker => exact hended .program rfl rfl
        | endProcedure => exact hended .procedure rfl rfl
        | startProgram | startStorage | endStorage | startProcedureDivision => exact absurd rfl hapart
        | _ => cases hchanges
  · rintro ⟨before, last, rest, rfl, hrest, hparts⟩
    rw [after_append, after_of_same hrest, after_append]
    exact hparts.apart

/-- Where no program and no procedure starts in a section of the tree, the two sections are the same. -/
theorem same_of_flat (hsame : k.tree = k.symbols) (hnested : events.foldlM nest [] = some cs)
    (hflat : ∀ before start rest c, events = before ++ start :: rest → start.opens = some c → c.isScope = true →
      (k.after before).tree = none) : (k.after events).tree = (k.after events).symbols := by
  by_contra hapart
  induction hlength : events.length using Nat.strongRecOn generalizing events cs with
  | ind length ih =>
    obtain ⟨before, last, rest, rfl, -, hparts⟩ := (apart_iff hsame hnested).mp hapart
    cases hparts with
    | scope hscope h =>
      obtain ⟨c, start, body, finish, hc, hstart, -, -, rfl⟩ := hscope
      exact h (hflat before start (body ++ [finish] ++ rest) c (by simp) hstart hc)
    | procedure header h =>
      -- the sections differ before the procedure as well, since the tree keeps none there
      have hnone := hflat before (.startProcedure header) rest .procedure (by simp) rfl rfl
      rw [append_assoc, foldlM_append] at hnested
      obtain ⟨ds, hds, -⟩ := bind_eq_some_iff.mp hnested
      refine ih before.length ?_ hds ?_ ?_ rfl
      · rw [← hlength]
        simp
      · intro earlier start later c heq
        exact hflat earlier start (later ++ [.startProcedure header] ++ rest) c (by simp [heq])
      · rw [hnone]
        exact h.symm

end KeptStorage

namespace Build

variable {b b' : Build} {cs cs' : List Construct} {o : Opening}

/-- The sections of the data division that the builder keeps. -/
def keptStorage (b : Build) : KeptStorage := ⟨b.storage, b.frames.map Frame.storage, b.declarations.storage⟩

theorem Steady.exitDefinition_keptStorage (h : b.Steady cs) (hdef : b.current.isDefinition = true) :
    b.exitDefinition.keptStorage = b.keptStorage := by
  obtain ⟨o, os, habove⟩ := h.tracks.above_of_definition hdef
  obtain ⟨_, hready⟩ := h.tracks.ready
  have hmode := hready.declareRecord_mode h.bound.place b.path.current.toTree
  rw [exitDefinition_of_above habove]
  split
  · rfl
  · unfold keptStorage
    rw [storage_of_mode hmode]

theorem Steady.closeDefinitions_keptStorage (h : b.Steady cs) (bound : Option Level) :
    (b.closeDefinitions bound).keptStorage = b.keptStorage :=
  (closeDefinitions_keep (P := fun b' => b'.Steady cs ∧ b'.keptStorage = b.keptStorage)
    (fun hdef h =>
      ⟨h.1.exitDefinition hdef, (h.1.exitDefinition_keptStorage hdef).trans h.2⟩) ⟨h, rfl⟩ bound).2

variable {base : Nat}

/-- What a construct that is opened does to the sections that the builder keeps. -/
theorem Follows.opens_keptStorage (h : b.Follows base) (h' : b'.Follows base) (hopens : Opens b b' o) :
    b'.keptStorage = ⟨if o.construct.isScope then none else (storages.opened o).getD b.storage,
      if o.construct.isScope then b.storage :: b.keptStorage.aside else b.keptStorage.aside,
      (storages.opened o).getD b.declarations.storage⟩ := by
  have hsymbols := h'.storage
  rw [hopens.boundaries, Sectioning.current_append, ← h.storage] at hsymbols
  unfold keptStorage
  rw [hopens.kept, hopens.frames, hsymbols]
  split <;> rfl

/-- What a construct that is closed does to the sections that the builder keeps. -/
theorem Follows.closes_keptStorage (h : b.Follows base) (h' : b'.Follows base) (hcloses : Closes b b' o) :
    b'.keptStorage = ⟨if o.construct.isScope then b.keptStorage.aside.headD b.storage
        else if storages.ended o.construct then none else b.storage,
      if o.construct.isScope then b.keptStorage.aside.tail else b.keptStorage.aside,
      if storages.ended o.construct then none else b.declarations.storage⟩ := by
  have hsymbols := h'.storage
  rw [hcloses.boundaries, Sectioning.current_append, Path.openAfter_boundaries, hcloses.openings, ← h.storage] at hsymbols
  unfold keptStorage
  rw [hcloses.kept, hcloses.frames, hsymbols]
  split
  · rw [map_tail]
    rfl
  · rfl

/-- What each well-nested event does to the sections that the builder keeps. -/
theorem Steady.keptStorage_event {event : Event} (h : b.Steady cs) (hfollows : b.Follows base)
    (hnest : nest cs event = some cs') : (b.step event).keptStorage = b.keptStorage.next event := by
  have hnext := hfollows.event h hnest
  have hkept := h.closeDefinitions_keptStorage none
  cases hopens : event.opens with
  | some c =>
    obtain ⟨closed, id, hclosed, hid⟩ := h.tracks.opens hopens
    have hsame : closed.Follows base ∧ closed.keptStorage = b.keptStorage := by
      rcases hclosed with rfl | rfl
      · exact ⟨hfollows, rfl⟩
      · exact ⟨hfollows.closeDefinitions h none, hkept⟩
    rw [hsame.1.opens_keptStorage hnext hid, ← hsame.2]
    cases event <;> cases hopens <;> rfl
  | none =>
    cases hcloses : event.closes with
    | some c =>
      obtain rfl := nest_of_closes hnest hopens hcloses
      obtain ⟨id, hid⟩ := h.tracks.closes hcloses
      rw [(hfollows.closeDefinitions h none).closes_keptStorage hnext hid, ← hkept]
      cases event <;> cases hcloses <;> rfl
    | none =>
      have hentry := entry_keep (P := (·.keptStorage = b.keptStorage)) (fun _ => id) (fun _ _ => id) id rfl
        h.closeDefinitions_keptStorage hopens hcloses
      rw [hentry]
      cases event <;> cases hopens <;> first | rfl | cases hcloses

theorem Steady.keptStorage_events {c : Context} {events : List Event} (h : (start c).Steady cs)
    (hnest : events.foldlM nest cs = some cs') :
    ((start c).steps events).keptStorage = (start c).keptStorage.after events := by
  induction events using List.reverseRecOn generalizing cs' with
  | nil => rfl
  | append_singleton events event ih =>
    obtain ⟨ds, hds, hevent⟩ := foldlM_nest_concat.mp hnest
    rw [KeptStorage.after_append, ← ih hds, steps, foldl_append]
    exact (h.events hds).keptStorage_event ((follows_start c).events h hds) hevent

end Build

namespace Session

/-- The section of the tree and that of the declarations, after every prefix of well-nested events. They differ exactly
where the last that has changed one of them is a procedure that has started where the declarations kept a section, or a
whole program or procedure that stands where the tree kept one. In the first case the tree keeps none and the declarations
keep what they kept before the procedure; in the second the tree keeps what it kept before, and the declarations keep
none. They are the same after every prefix in which no program and no procedure starts in a section of the tree. -/
theorem storage_sections_apart_iff (options : Options) (actions : List Action) (file : FileId)
    {read rest : List Event} (hnested : WellNested (read ++ rest)) :
    let upTo := fun events => (reached options actions).read file events
    ((upTo read).storage ≠ (upTo read).declarations.storage ↔
      ∃ before last after, read = before ++ last ++ after ∧ (∀ event ∈ after, event.changesStorage = false) ∧
        ((∃ header, last = [.startProcedure header]) ∧ (upTo before).declarations.storage ≠ none ∨
          WholeScope last ∧ (upTo before).storage ≠ none)) ∧
    (∀ before header after, read = before ++ .startProcedure header :: after →
      (∀ event ∈ after, event.changesStorage = false) →
      (upTo read).storage = none ∧ (upTo read).declarations.storage = (upTo before).declarations.storage) ∧
    (∀ before scope after, read = before ++ scope ++ after → WholeScope scope →
      (∀ event ∈ after, event.changesStorage = false) →
      (upTo read).storage = (upTo before).storage ∧ (upTo read).declarations.storage = none) ∧
    ((∀ before start after c, read = before ++ start :: after → start.opens = some c → c.isScope = true →
      (upTo before).storage = none) → (upTo read).storage = (upTo read).declarations.storage) := by
  have hregular := regular_reached options actions
  have hplace : (reached options actions).table.InPlace := inPlace_reached options actions
  generalize reached options actions = s at hregular hplace ⊢
  have hstart : (Build.start { s.context with file }).Steady [] :=
    ⟨Build.tracks_start hregular.sound, hregular.bound_start hplace file, Build.inStep_start _⟩
  unfold WellNested at hnested
  rw [foldlM_append] at hnested
  obtain ⟨cs, hread, -⟩ := bind_eq_some_iff.mp hnested
  have hkept : ∀ before after, read = before ++ after →
      (s.read file before).keptStorage = (⟨none, [], none⟩ : KeptStorage).after before := by
    intro before after heq
    rw [heq, foldlM_append] at hread
    obtain ⟨ds, hds, -⟩ := bind_eq_some_iff.mp hread
    exact hstart.keptStorage_events hds
  have htree : ∀ before after, read = before ++ after →
      (s.read file before).storage = ((⟨none, [], none⟩ : KeptStorage).after before).tree := fun before after heq =>
    congrArg KeptStorage.tree (hkept before after heq)
  have hsymbols : ∀ before after, read = before ++ after →
      (s.read file before).declarations.storage = ((⟨none, [], none⟩ : KeptStorage).after before).symbols :=
    fun before after heq => congrArg KeptStorage.symbols (hkept before after heq)
  have hall := (append_nil read).symm
  intro upTo
  refine ⟨?_, ?_, ?_, ?_⟩
  · show (s.read file read).storage ≠ (s.read file read).declarations.storage ↔ _
    rw [htree read [] hall, hsymbols read [] hall, KeptStorage.apart_iff rfl hread]
    refine exists_congr fun before => exists_congr fun last => exists_congr fun after => and_congr_right fun heq =>
      and_congr_right fun _ => ?_
    rw [append_assoc] at heq
    show _ ↔ _ ∧ (s.read file before).declarations.storage ≠ none ∨ _ ∧ (s.read file before).storage ≠ none
    rw [htree before _ heq, hsymbols before _ heq]
    exact KeptStorage.parts_iff
  · intro before header after heq hafter
    show (s.read file read).storage = none ∧
      (s.read file read).declarations.storage = (s.read file before).declarations.storage
    rw [htree read [] hall, hsymbols read [] hall, hsymbols before _ heq, heq, append_cons,
      KeptStorage.after_append, KeptStorage.after_of_same hafter, KeptStorage.after_append]
    exact ⟨rfl, rfl⟩
  · intro before scope after heq hscope hafter
    rw [append_assoc] at heq
    show (s.read file read).storage = (s.read file before).storage ∧ (s.read file read).declarations.storage = none
    rw [htree read [] hall, hsymbols read [] hall, htree before _ heq, heq, KeptStorage.after_append,
      KeptStorage.after_append, KeptStorage.after_of_same hafter, KeptStorage.after_wholeScope hscope]
    exact ⟨rfl, rfl⟩
  · intro hflat
    show (s.read file read).storage = (s.read file read).declarations.storage
    rw [htree read [] hall, hsymbols read [] hall]
    refine KeptStorage.same_of_flat rfl hread fun before start after c heq hopens hscope => ?_
    rw [← htree before _ heq]
    exact hflat before start after c heq hopens hscope

end Session

/-- The events up to the start of a section. -/
def sectionStart : List Event :=
  [.startProgram { name := "P", position := ⟨1, 8⟩ }, .startDataDivision ⟨2, 8⟩,
    .startStorage .workingStorage { position := ⟨3, 8⟩ }]

/-- The events from the end of the section on. -/
def sectionRest : List Event := [.endStorage .workingStorage, .endDataDivision, .endProgram none]

/-- A whole program to stand in the section. -/
def programInside : List Event := [.startProgram { name := "Q", position := ⟨4, 8⟩ }, .endProgram none]

theorem storage_sections_apart_inside :
    WellNested (sectionStart ++ programInside ++ sectionRest) ∧ WholeScope programInside ∧
      ((Session.reached {} []).read 0 (sectionStart ++ programInside)).storage = some .workingStorage ∧
      ((Session.reached {} []).read 0 (sectionStart ++ programInside)).declarations.storage = none := by
  have hnested : WellNested (sectionStart ++ programInside ++ sectionRest) := by decide
  have hwhole : WholeScope programInside :=
    ⟨.program, .startProgram { name := "Q", position := ⟨4, 8⟩ }, [], .endProgram none, rfl, rfl, by decide, rfl, rfl⟩
  obtain ⟨-, -, hafter, -⟩ := Session.storage_sections_apart_iff {} [] 0 hnested
  obtain ⟨htree, hsymbols⟩ := hafter sectionStart programInside [] (append_nil _).symm hwhole
    fun _ hmem => absurd hmem not_mem_nil
  refine ⟨hnested, hwhole, htree.trans ?_, hsymbols⟩
  decide +kernel

/-- The two sections differ inside of a program: after a program that stands in a section has ended, and in a procedure
that stands in a section. -/
theorem storage_sections_differ :
    (WellNested (sectionStart ++ programInside ++ sectionRest) ∧
      let b := (Session.reached {} []).read 0 (sectionStart ++ programInside)
      b.declarations.openPrograms = [10] ∧ b.storage = some .workingStorage ∧ b.declarations.storage = none) ∧
    WellNested (sectionStart ++ [.startProcedure { name := "F" }] ++ .endProcedure :: sectionRest) ∧
      let b := (Session.reached {} []).read 0 (sectionStart ++ [.startProcedure { name := "F" }])
      b.declarations.openPrograms = [10] ∧ b.storage = none ∧ b.declarations.storage = some .workingStorage := by
  decide +kernel

end CobolSymbols
