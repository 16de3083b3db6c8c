import SchemaAccessors.Proofs.DraftSteps

/-!
# The changes that filling makes

Filling is taken apart into the parts that a type gets, so that each can be spoken about by itself. Whatever is
filled, and whether it succeeds or not, comes to changes of the one list.
-/

namespace SchemaAccessors

/-! ## Members -/

/-- The constructor for a raw value. -/
def RawKind.constructor (raw : RawKind) : Constructor :=
  ⟨[⟨raw.field.name, raw.field.type⟩], [(raw.field.name, raw.field.name)], .visible⟩

/-- The getter for the raw value. -/
def RawKind.getter (raw : RawKind) : Method :=
  { name := raw.field.type.getterStem ++ raw.name, returns := raw.field.type, body? := some (.field raw.field) }

namespace WrapperType

def withMethods (t : WrapperType) (methods : List Method) : WrapperType :=
  { t with methods := t.methods ++ methods }

end WrapperType

namespace Drafting

section Members

variable {s : Setting} {type : TypeId} {d : Drafting}

lemma withChange_withChange (f g : WrapperType → WrapperType) :
    (d.withChange type f).withChange type g = d.withChange type (g ∘ f) := by
  simp only [withChange, Model.update, List.modify_modify_eq]

lemma outcome_addMethod_of_free {method : Method} (h : d.model.hasMember type method.name = false) :
    outcome (addMethod type method) d = (.ok ⟨⟩, d.withChange type (·.withMethods [method])) := by
  rw [addMethod, outcome_onModel, Model.addMethod, h]
  rfl

lemma outcome_addMethod_of_taken {method : Method} (h : d.model.hasMember type method.name = true) :
    outcome (addMethod type method) d = (.error (.memberExists (d.model.nameOf type) method.name), d) := by
  rw [addMethod, outcome_onModel, Model.addMethod, h]
  rfl

lemma of_addMethod_eq_ok {method : Method} {d' : Drafting} (h : outcome (addMethod type method) d = (.ok ⟨⟩, d')) :
    d.model.hasMember type method.name = false ∧ d' = d.withChange type (·.withMethods [method]) := by
  cases hm : d.model.hasMember type method.name with
  | true =>
    rw [outcome_addMethod_of_taken hm] at h
    simp at h
  | false =>
    rw [outcome_addMethod_of_free hm] at h
    exact ⟨rfl, by simpa [eq_comm] using h⟩

lemma leads_addMethod (method : Method) : Leads s (addMethod type method) := by
  intro d
  cases hm : d.model.hasMember type method.name with
  | true =>
    rw [outcome_addMethod_of_taken hm]
  | false =>
    rw [outcome_addMethod_of_free hm]
    exact .single (.extend fun _ => ⟨rfl, rfl⟩)

lemma writeScaffold_eq (raw : RawKind) :
    writeScaffold type raw = (do
      onModel fun m => do return (← m.addField type raw.field, ())
      onModel fun m => .ok (m.addConstructor type raw.constructor, ())
      addMethod type raw.getter) := rfl

/-- Writing a scaffold: the field and the constructor, unless the name of the field is taken, and the getter. -/
lemma outcome_writeScaffold (raw : RawKind) :
    outcome (writeScaffold type raw) d =
      if d.model.hasMember type raw.field.name then
        (.error (.memberExists (d.model.nameOf type) raw.field.name), d)
      else
        outcome (addMethod type raw.getter) (d.withChange type fun t =>
          { t with fields := t.fields ++ [raw.field], constructors := t.constructors ++ [raw.constructor] }) := by
  rw [writeScaffold_eq]
  split_ifs with h
  · refine outcome_bind_of_error ?_
    rw [outcome_onModel, Model.addField, if_pos h]
    rfl
  · have hfield : outcome (onModel fun m => do return (← m.addField type raw.field, ())) d =
        (.ok (), d.withChange type fun t => { t with fields := t.fields ++ [raw.field] }) := by
      rw [outcome_onModel, Model.addField, if_neg h]
      rfl
    have hconstructor (e : Drafting) :
        outcome (onModel fun m => .ok (m.addConstructor type raw.constructor, ())) e =
          (.ok (), e.withChange type fun t => { t with constructors := t.constructors ++ [raw.constructor] }) := by
      rw [outcome_onModel]
      rfl
    rw [outcome_bind_of_ok hfield, outcome_bind_of_ok (hconstructor _), withChange_withChange]
    rfl

lemma leads_writeScaffold (raw : RawKind) : Leads s (writeScaffold type raw) := by
  intro d
  rw [outcome_writeScaffold]
  split_ifs
  · exact .refl
  · refine Relation.ReflTransGen.head ?_ (leads_addMethod _ _)
    exact .extend fun _ => ⟨rfl, rfl⟩

lemma leads_freeSuffix (stems : List String) (left : Nat) (suffix : String) :
    Leads s (freeSuffix type stems left suffix) := by
  induction left generalizing suffix with
  | zero => exact leads_get.bind fun d => leads_throw _
  | succ left ih =>
    unfold freeSuffix
    refine leads_get.bind fun d => ?_
    dsimp only
    split
    · exact (leads_note _).bind fun _ => (leads_lift _).bind ih
    · exact leads_pure _

lemma leads_writeProperty (raw : RawKind) (key : String) (required : Bool) (default? : Option Json) (x : Draft) :
    Leads s (writeProperty s type raw key required default? x) := by
  unfold writeProperty
  refine (leads_lift _).bind fun attempts => (leads_freeSuffix _ _ _).bind fun suffix => ?_
  refine (leads_addMethod _).bind fun _ => ?_
  split
  · exact leads_addMethod _
  · exact leads_pure _

lemma leads_writeItem (raw : RawKind) (default? : Option Json) (x : Draft) :
    Leads s (writeItem s type raw default? x) := by
  unfold writeItem
  refine leads_get.bind fun d => (leads_lift _).bind fun attempts => ?_
  exact (leads_freeSuffix _ _ _).bind fun suffix => leads_addMethod _

lemma skip_of_lenient (hlenient : s.config.strictSchemaShapes.truthy = false) (entry : MalformedEntry) :
    skip s entry = note (.skipped entry) := by
  rw [skip, hlenient]
  rfl

lemma skip_of_strict (hstrict : s.config.strictSchemaShapes.truthy = true) (entry : MalformedEntry) :
    skip s entry = throw (.malformedEntry entry) := by
  rw [skip, if_pos hstrict]

lemma leads_skip (entry : MalformedEntry) : Leads s (skip s entry) := by
  unfold skip
  split
  · exact leads_throw _
  · exact leads_note _

end Members

/-! ## The parts of filling -/

/-- The draft of a node, made if there is none, filled, and looked up. -/
def drafted (s : Setting) (fuel : Nat) (n : SchemaNode) : DraftM Draft := do
  let id ← declare s n
  fill s fuel id
  draft id

/-- What a type with the draft `x` gets for a property. -/
def fillProperty (s : Setting) (fuel : Nat) (type : TypeId) (x : Draft) (p : String × Entry) : DraftM PUnit :=
  match p.2 with
  | .plain value => skip s ⟨.property p.1, x.node.uri, value⟩
  | .node n => do
    writeProperty s type x.raw p.1 (x.node.required.contains p.1) n.literal? (← drafted s fuel n)

/-- What a type with the draft `x` gets for the item at a position. -/
def fillItem (s : Setting) (fuel : Nat) (type : TypeId) (x : Draft) (p : Entry × Nat) : DraftM PUnit :=
  match p.1 with
  | .plain value => skip s ⟨.item p.2, x.node.uri, value⟩
  | .node n => do writeItem s type x.raw n.literal? (← drafted s fuel n)

/-- The getter for the size of an array. -/
def fillSize (type : TypeId) (x : Draft) : DraftM PUnit :=
  if x.node.kinds.contains .array then
    addMethod type { name := "size", returns := { raw := .integer }, body? := some (.length x.raw.field) }
  else pure ⟨⟩

/-- All that a type with the draft `x` gets. -/
def fillType (s : Setting) (fuel : Nat) (type : TypeId) (x : Draft) : DraftM PUnit := do
  writeScaffold type x.raw
  let properties ← onStore (Store.properties s.loader x.node)
  properties.forM (fillProperty s fuel type x)
  let items ← onStore (Store.items s.loader x.node)
  items.zipIdx.forM (fillItem s fuel type x)
  fillSize type x

/-- What the draft `x` gets: members for its type, if it has one. -/
def fillDraft (s : Setting) (fuel : Nat) (x : Draft) : DraftM PUnit :=
  match x.wrapper? with
  | none => pure ⟨⟩
  | some type => fillType s fuel type x

lemma fill_succ (s : Setting) (fuel : Nat) (id : DraftId) :
    fill s (fuel + 1) id = (do
      let x ← draft id
      if x.started then return ⟨⟩
      update id fun x => { x with started := true }
      fillDraft s fuel x) := by
  rw [fill]
  refine bind_congr fun x => ?_
  split
  · rfl
  refine bind_congr fun _ => ?_
  unfold fillDraft
  cases x.wrapper? with
  | none => rfl
  | some type => rfl

section Filling

variable {s : Setting} {fuel : Nat}

lemma leads_drafted (hfill : ∀ id, Leads s (fill s fuel id)) (n : SchemaNode) : Leads s (drafted s fuel n) :=
  (leads_declare s n).bind fun id => (hfill id).bind fun _ => leads_draft id

/-- What is drafted is a draft. -/
lemma mem_of_drafted {n : SchemaNode} {x : Draft} {d d' : Drafting}
    (h : outcome (drafted s fuel n) d = (.ok x, d')) : x ∈ d'.drafts := by
  obtain ⟨id, e, -, h⟩ := outcome_bind_eq_ok h
  obtain ⟨⟨⟩, e', -, h⟩ := outcome_bind_eq_ok h
  obtain ⟨hx, rfl⟩ := of_draft_eq_ok h
  exact List.mem_of_getElem? hx

lemma leads_fillProperty (hfill : ∀ id, Leads s (fill s fuel id)) (type : TypeId) (x : Draft)
    (p : String × Entry) : Leads s (fillProperty s fuel type x p) := by
  unfold fillProperty
  split
  · exact leads_skip _
  · exact (leads_drafted hfill _).bind fun y => leads_writeProperty _ _ _ _ y

lemma leads_fillItem (hfill : ∀ id, Leads s (fill s fuel id)) (type : TypeId) (x : Draft) (p : Entry × Nat) :
    Leads s (fillItem s fuel type x p) := by
  unfold fillItem
  split
  · exact leads_skip _
  · exact (leads_drafted hfill _).bind fun y => leads_writeItem _ _ y

lemma leads_fillSize (type : TypeId) (x : Draft) : Leads s (fillSize type x) := by
  unfold fillSize
  split
  · exact leads_addMethod _
  · exact leads_pure _

lemma leads_fillType (hfill : ∀ id, Leads s (fill s fuel id)) (type : TypeId) (x : Draft) :
    Leads s (fillType s fuel type x) := by
  unfold fillType
  refine (leads_writeScaffold _).bind fun _ => ?_
  refine (leads_onStore (Store.reads_properties _ _)).bind fun properties => ?_
  refine (leads_forM fun p _ => leads_fillProperty hfill type x p).bind fun _ => ?_
  refine (leads_onStore (Store.reads_items _ _)).bind fun items => ?_
  exact (leads_forM fun p _ => leads_fillItem hfill type x p).bind fun _ => leads_fillSize type x

lemma leads_fillDraft (hfill : ∀ id, Leads s (fill s fuel id)) (x : Draft) : Leads s (fillDraft s fuel x) := by
  unfold fillDraft
  split
  · exact leads_pure _
  · exact leads_fillType hfill _ x

lemma leads_fill (fuel : Nat) (id : DraftId) : Leads s (fill s fuel id) := by
  induction fuel generalizing id with
  | zero => exact leads_throw _
  | succ fuel ih =>
    intro d
    rw [fill_succ]
    cases hx : d.drafts[id]? with
    | none =>
      rw [outcome_bind, outcome_draft, hx]
      exact .refl
    | some x =>
      rw [outcome_bind_of_ok (outcome_draft_of_some d hx)]
      split
      · exact .refl
      · next hstarted =>
        rw [outcome_bind_of_ok (outcome_update d _ _)]
        exact .head (.start hx (by simpa using hstarted)) (leads_fillDraft ih x _)

lemma outcome_bound (d : Drafting) : outcome (bound s) d = (.ok (d.store.capacity s.loader + 1), d) := rfl

lemma leads_complete (n : SchemaNode) : Leads s (complete s n) :=
  (leads_declare s n).bind fun id => leads_bound.bind fun fuel => (leads_fill fuel id).bind fun _ => leads_pure id

/-- What is registered under a URI, as a draft. -/
def registered (r : String × Option DraftId) : DraftM DraftId :=
  match r.2 with
  | some id => pure id
  | none => throw .noDraft

lemma pending_eq :
    pending = (do
      let ids ← (← get).registry.mapM registered
      let d ← get
      return ids.filter fun id => (d.drafts[id]?).any (!·.started)) := rfl

lemma leads_registered (r : String × Option DraftId) : Leads s (registered r) := by
  unfold registered
  split
  · exact leads_pure _
  · exact leads_throw _

lemma leads_mapM {α β : Type} {f : α → DraftM β} (hf : ∀ a, Leads s (f a)) (xs : List α) :
    Leads s (xs.mapM f) := fun d =>
  outcome_mapM_leads (fun _ => .refl) .trans xs (fun a _ => hf a) d

lemma leads_pending : Leads s pending := by
  rw [pending_eq]
  refine leads_get.bind fun d => ?_
  exact (leads_mapM leads_registered _).bind fun ids => leads_get.bind fun d => leads_pure _

/-- One of the rest filled. -/
def finishOne (s : Setting) (id : DraftId) : DraftM PUnit := do
  note (.completing (← draft id).node.uri)
  fill s (← bound s) id

lemma finishIn_succ (rounds : Nat) :
    finishIn s (rounds + 1) = (do
      let ids ← pending
      if ids.isEmpty then return ⟨⟩
      ids.forM (finishOne s)
      finishIn s rounds) := rfl

lemma leads_finishOne (id : DraftId) : Leads s (finishOne s id) :=
  (leads_draft id).bind fun _ => (leads_note _).bind fun _ => leads_bound.bind fun fuel => leads_fill fuel id

lemma leads_finishIn (rounds : Nat) : Leads s (finishIn s rounds) := by
  induction rounds with
  | zero => exact leads_throw _
  | succ rounds ih =>
    rw [finishIn_succ]
    refine leads_pending.bind fun ids => ?_
    split
    · exact leads_pure _
    · exact (leads_forM fun id _ => leads_finishOne id).bind fun _ => ih

lemma leads_finish : Leads s (finish s) :=
  leads_bound.bind fun rounds => leads_finishIn rounds

end Filling

/-- A pass: the root is drafted and filled, and then the rest. -/
def pass (s : Setting) (root : SchemaNode) : DraftM Unit := do
  let _ ← complete s root
  finish s

lemma leads_pass {s : Setting} (root : SchemaNode) : Leads s (pass s root) :=
  (leads_complete root).bind fun _ => leads_finish

end Drafting

end SchemaAccessors
