import SchemaAccessors.Proofs.Termination

/-!
# Each draft is filled once

Filling is asked for again and again, by every reference that leads to a node and by the rounds in which the rest
is filled. That it begins once for each draft is said by a pass that keeps a log: it does what a pass does, and
adds to the log where filling begins. The log of a pass that succeeds has each draft once.
-/

namespace SchemaAccessors

namespace Drafting

/-! ## A pass with a log -/

/-- Steps of drafting, with a log of the drafts that filling began for. -/
abbrev LogM := ExceptT Failure (StateM (Drafting × List DraftId))

/-- Steps of drafting that add nothing to the log. -/
def quietly {α : Type} (steps : DraftM α) : LogM α :=
  ExceptT.mk fun (d, log) => ((outcome steps d).1, (outcome steps d).2, log)

/-- Adds a draft to the log. -/
def logBegin (id : DraftId) : LogM PUnit :=
  modify fun (d, log) => (d, log ++ [id])

section Logged

variable (s : Setting) (fill : DraftId → LogM PUnit)

def loggedDrafted (n : SchemaNode) : LogM Draft := do
  let id ← quietly (declare s n)
  fill id
  quietly (draft id)

def loggedProperty (type : TypeId) (x : Draft) (p : String × Entry) : LogM PUnit :=
  match p.2 with
  | .plain value => quietly (skip s ⟨.property p.1, x.node.uri, value⟩)
  | .node n => do
    let y ← loggedDrafted s fill n
    quietly (writeProperty s type x.raw p.1 (x.node.required.contains p.1) n.literal? y)

def loggedItem (type : TypeId) (x : Draft) (p : Entry × Nat) : LogM PUnit :=
  match p.1 with
  | .plain value => quietly (skip s ⟨.item p.2, x.node.uri, value⟩)
  | .node n => do
    let y ← loggedDrafted s fill n
    quietly (writeItem s type x.raw n.literal? y)

def loggedType (type : TypeId) (x : Draft) : LogM PUnit := do
  quietly (writeScaffold type x.raw)
  let properties ← quietly (onStore (Store.properties s.loader x.node))
  properties.forM (loggedProperty s fill type x)
  let items ← quietly (onStore (Store.items s.loader x.node))
  items.zipIdx.forM (loggedItem s fill type x)
  quietly (fillSize type x)

def loggedDraft (x : Draft) : LogM PUnit :=
  match x.wrapper? with
  | none => pure ⟨⟩
  | some type => loggedType s fill type x

end Logged

/-- Filling, with a log of where it begins. -/
def loggedFill (s : Setting) : (fuel : Nat) → DraftId → LogM PUnit
  | 0, _ => throw .exhausted
  | fuel + 1, id => do
    let x ← quietly (draft id)
    if x.started then return ⟨⟩
    logBegin id
    quietly (update id fun x => { x with started := true })
    loggedDraft s (loggedFill s fuel) x

def loggedComplete (s : Setting) (n : SchemaNode) : LogM DraftId := do
  let id ← quietly (declare s n)
  loggedFill s (← quietly (bound s)) id
  return id

def loggedFinishOne (s : Setting) (id : DraftId) : LogM PUnit := do
  let x ← quietly (draft id)
  quietly (note (.completing x.node.uri))
  loggedFill s (← quietly (bound s)) id

def loggedFinishIn (s : Setting) : (rounds : Nat) → LogM PUnit
  | 0 => throw .exhausted
  | rounds + 1 => do
    let ids ← quietly pending
    if ids.isEmpty then return ⟨⟩
    ids.forM (loggedFinishOne s)
    loggedFinishIn s rounds

/-- A pass, with a log of where filling begins. -/
def loggedPass (s : Setting) (root : SchemaNode) : LogM PUnit := do
  let _ ← loggedComplete s root
  loggedFinishIn s (← quietly (bound s))

/-! ## What the log says -/

/-- A log has the drafts that are started, each once. -/
structure Logs (log : List DraftId) (d : Drafting) : Prop where
  distinct : log.Nodup
  mem_iff : ∀ id : DraftId, id ∈ log ↔ ∃ x, d.drafts[id]? = some x ∧ x.started = true

/-- The same drafts are started. -/
def Idle (d d' : Drafting) : Prop :=
  ∀ id : DraftId,
    (∃ x, d'.drafts[id]? = some x ∧ x.started = true) ↔ ∃ x, d.drafts[id]? = some x ∧ x.started = true

lemma idle_of_drafts {d d' : Drafting} (h : d'.drafts = d.drafts) : Idle d d' := by
  intro id
  rw [h]

lemma Adds.isIdle {s : Setting} {d d' : Drafting} (h : Adds s d d') : Idle d d' := by
  intro id
  constructor
  · rintro ⟨x, hx, hs⟩
    exact ⟨x, h.idle hx hs, hs⟩
  · rintro ⟨x, hx, hs⟩
    obtain ⟨y, hy, -, hstarted⟩ := h.steps.keepsNodes hx
    exact ⟨y, hy, hstarted hs⟩

lemma Logs.idle {log : List DraftId} {d d' : Drafting} (h : Logs log d) (hidle : Idle d d') : Logs log d' :=
  ⟨h.distinct, fun id => (h.mem_iff id).trans (hidle id).symm⟩

/-- A draft that is started is added to the log. -/
lemma Logs.start {log : List DraftId} {d : Drafting} {id : DraftId} {x : Draft} (h : Logs log d)
    (hx : d.drafts[id]? = some x) (hunstarted : x.started = false) : Logs (log ++ [id]) (d.withStarted id) := by
  have hnew : id ∉ log := by
    rw [h.mem_iff]
    rintro ⟨y, hy, hs⟩
    obtain rfl : x = y := Option.some.inj (hx.symm.trans hy)
    simp [hunstarted] at hs
  refine ⟨h.distinct.append (List.nodup_singleton _) (by simpa using hnew), fun j => ?_⟩
  by_cases hj : id = j
  · subst hj
    simp [withStarted, hx]
  · have hj' : j ≠ id := Ne.symm hj
    have hat : (d.withStarted id).drafts[j]? = d.drafts[j]? := List.getElem?_modify_ne _ _ hj
    rw [List.mem_append, h.mem_iff, hat]
    simp [hj']

/-- Where steps succeed, the steps with a log do the same, and the log is kept right. -/
def Mirrors {α : Type} (steps : DraftM α) (logged : LogM α) : Prop :=
  ∀ ⦃d d' : Drafting⦄ ⦃log : List DraftId⦄ ⦃a : α⦄, Logs log d → outcome steps d = (.ok a, d') →
    ∃ log', outcome logged (d, log) = (.ok a, d', log') ∧ Logs log' d'

section Mirrors

variable {α β : Type} {s : Setting} {fuel : Nat}

lemma mirrors_quietly {steps : DraftM α} (h : ∀ d a d', outcome steps d = (.ok a, d') → Idle d d') :
    Mirrors steps (quietly steps) := by
  intro d d' log a hlog hok
  refine ⟨log, ?_, hlog.idle (h d a d' hok)⟩
  show ((outcome steps d).1, (outcome steps d).2, log) = _
  rw [hok]

lemma mirrors_pure (a : α) : Mirrors (pure a) (pure a) := by
  intro d d' log b hlog hok
  obtain ⟨rfl, rfl⟩ : a = b ∧ d = d' := by
    simpa using hok
  exact ⟨log, rfl, hlog⟩

lemma Mirrors.bind {x : DraftM α} {y : LogM α} {f : α → DraftM β} {g : α → LogM β} (h : Mirrors x y)
    (hf : ∀ a, Mirrors (f a) (g a)) : Mirrors (x >>= f) (y >>= g) := by
  intro d d' log b hlog hok
  obtain ⟨a, e, hx, hb⟩ := outcome_bind_eq_ok hok
  obtain ⟨log', hy, hlog'⟩ := h hlog hx
  rw [outcome_bind_of_ok hy]
  exact hf a hlog' hb

lemma mirrors_forM {f : α → DraftM PUnit} {g : α → LogM PUnit} (hf : ∀ a, Mirrors (f a) (g a)) (xs : List α) :
    Mirrors (xs.forM f) (xs.forM g) := by
  induction xs with
  | nil => exact mirrors_pure _
  | cons a xs ih => exact (hf a).bind fun _ => ih

lemma mirrors_draft (id : DraftId) : Mirrors (draft id) (quietly (draft id)) :=
  mirrors_quietly fun _ _ _ hok => idle_of_drafts (by rw [(of_draft_eq_ok hok).2])

lemma mirrors_declare (n : SchemaNode) : Mirrors (declare s n) (quietly (declare s n)) := by
  refine mirrors_quietly fun d id d' hok => ?_
  have hadds := adds_declare s n d
  rw [hok] at hadds
  exact hadds.isIdle

lemma mirrors_onStore (steps : StoreM α) : Mirrors (onStore steps) (quietly (onStore steps)) := by
  refine mirrors_quietly fun d a d' hok => ?_
  obtain ⟨store, trace, -, rfl⟩ := of_onStore_eq_ok hok
  exact idle_of_drafts rfl

lemma mirrors_skip (entry : MalformedEntry) : Mirrors (skip s entry) (quietly (skip s entry)) := by
  refine mirrors_quietly fun d a d' hok => ?_
  obtain ⟨trace, rfl⟩ := of_skip hok
  exact idle_of_drafts rfl

lemma mirrors_bound : Mirrors (bound s) (quietly (bound s)) :=
  mirrors_quietly fun _ _ _ hok => idle_of_drafts (congrArg (·.2.drafts) hok).symm

/-- Filling with a log does what filling does, and logs each draft that it starts. -/
def FillMirrors (s : Setting) (fuel : Nat) : Prop :=
  ∀ id, Mirrors (fill s fuel id) (loggedFill s fuel id)

lemma mirrors_drafted (hfill : FillMirrors s fuel) (n : SchemaNode) :
    Mirrors (drafted s fuel n) (loggedDrafted s (loggedFill s fuel) n) :=
  (mirrors_declare n).bind fun id => (hfill id).bind fun _ => mirrors_draft id

lemma mirrors_fillProperty (hfill : FillMirrors s fuel) (type : TypeId) (x : Draft) (p : String × Entry) :
    Mirrors (fillProperty s fuel type x p) (loggedProperty s (loggedFill s fuel) type x p) := by
  obtain ⟨key, entry⟩ := p
  cases entry with
  | plain value => exact mirrors_skip _
  | node n =>
    refine (mirrors_drafted hfill n).bind fun y => mirrors_quietly fun d _ d' hok => ?_
    exact idle_of_drafts (of_writeProperty (s := s) hok).1.drafts

lemma mirrors_fillItem (hfill : FillMirrors s fuel) (type : TypeId) (x : Draft) (p : Entry × Nat) :
    Mirrors (fillItem s fuel type x p) (loggedItem s (loggedFill s fuel) type x p) := by
  obtain ⟨entry, position⟩ := p
  cases entry with
  | plain value => exact mirrors_skip _
  | node n =>
    refine (mirrors_drafted hfill n).bind fun y => mirrors_quietly fun d _ d' hok => ?_
    exact idle_of_drafts (of_writeItem (s := s) hok).1.drafts

lemma mirrors_fillType (hfill : FillMirrors s fuel) (type : TypeId) (x : Draft) :
    Mirrors (fillType s fuel type x) (loggedType s (loggedFill s fuel) type x) := by
  unfold fillType loggedType
  refine Mirrors.bind ?_ fun _ => ?_
  · exact mirrors_quietly fun d _ d' hok => idle_of_drafts (of_writeScaffold (s := s) hok).1.drafts
  refine (mirrors_onStore _).bind fun properties => ?_
  refine (mirrors_forM (mirrors_fillProperty hfill type x) properties).bind fun _ => ?_
  refine (mirrors_onStore _).bind fun items => ?_
  refine (mirrors_forM (mirrors_fillItem hfill type x) items.zipIdx).bind fun _ => ?_
  exact mirrors_quietly fun d _ d' hok => idle_of_drafts (of_fillSize (s := s) hok).1.drafts

lemma mirrors_fillDraft (hfill : FillMirrors s fuel) (x : Draft) :
    Mirrors (fillDraft s fuel x) (loggedDraft s (loggedFill s fuel) x) := by
  unfold fillDraft loggedDraft
  cases x.wrapper? with
  | none => exact mirrors_pure _
  | some type => exact mirrors_fillType hfill type x

theorem mirrors_fill (fuel : Nat) : FillMirrors s fuel := by
  induction fuel with
  | zero =>
    intro id d d' log a _ hok
    simp [fill] at hok
  | succ fuel ih =>
    intro id
    rw [fill_succ, loggedFill]
    intro d d' log a hlog hok
    obtain ⟨x, e, hdraft, hrest⟩ := outcome_bind_eq_ok hok
    obtain ⟨log', hsame, hlog'⟩ := mirrors_draft id hlog hdraft
    obtain ⟨hx, rfl⟩ := of_draft_eq_ok hdraft
    rw [outcome_bind_of_ok hsame]
    by_cases hstarted : x.started = true
    · rw [if_pos hstarted] at hrest ⊢
      exact mirrors_pure _ hlog' hrest
    · rw [if_neg hstarted] at hrest ⊢
      rw [outcome_bind_of_ok (outcome_update e id _)] at hrest
      have hbegun := hlog'.start hx (by simpa using hstarted)
      exact mirrors_fillDraft ih x hbegun hrest

lemma mirrors_fillBound (id : DraftId) :
    Mirrors (do fill s (← bound s) id) (do loggedFill s (← quietly (bound s)) id) :=
  mirrors_bound.bind fun fuel => mirrors_fill fuel id

lemma mirrors_complete (n : SchemaNode) : Mirrors (complete s n) (loggedComplete s n) := by
  refine (mirrors_declare n).bind fun id => ?_
  have hfill := (mirrors_fillBound (s := s) id).bind fun _ => mirrors_pure id
  rwa [bind_assoc, bind_assoc] at hfill

lemma mirrors_finishOne (id : DraftId) : Mirrors (finishOne s id) (loggedFinishOne s id) := by
  refine (mirrors_draft id).bind fun x => ?_
  refine Mirrors.bind ?_ fun _ => mirrors_fillBound id
  exact mirrors_quietly fun _ _ _ hok => idle_of_drafts (congrArg (·.2.drafts) hok).symm

/-- Looking for what is pending changes nothing. -/
lemma outcome_pending_snd (d : Drafting) : (outcome pending d).2 = d := by
  have hregistered (r : String × Option DraftId) (e : Drafting) : e = (outcome (registered r) e).2 := by
    unfold registered
    split <;> rfl
  have hall := outcome_mapM_leads (R := Eq) (fun _ => rfl) Eq.trans d.registry (fun r _ => hregistered r) d
  rw [pending_eq, outcome_bind_of_ok (outcome_get d)]
  refine (outcome_bind_leads (R := Eq) Eq.trans hall fun ids e _ => ?_).symm
  rfl

lemma mirrors_finishIn (rounds : Nat) : Mirrors (finishIn s rounds) (loggedFinishIn s rounds) := by
  induction rounds with
  | zero =>
    intro d d' log a _ hok
    simp [finishIn] at hok
  | succ rounds ih =>
    rw [finishIn_succ, loggedFinishIn]
    refine Mirrors.bind ?_ fun ids => ?_
    · refine mirrors_quietly fun d ids d' hok => idle_of_drafts ?_
      have hsame := outcome_pending_snd d
      rw [hok] at hsame
      exact congrArg (·.drafts) hsame
    · split
      · exact mirrors_pure _
      · exact (mirrors_forM mirrors_finishOne ids).bind fun _ => ih

/-- A pass with a log does what a pass does. -/
theorem mirrors_pass (root : SchemaNode) : Mirrors (pass s root) (loggedPass s root) :=
  (mirrors_complete root).bind fun _ => mirrors_bound.bind fun rounds => mirrors_finishIn rounds

end Mirrors

/-! ## Passes end, and fill each draft once -/

/-- A pass whose loader answers for finitely many URIs comes to an end without reaching a bound. Where it
succeeds, every draft that is registered is started, and filling began once for each. -/
theorem pass_ends {s : Setting} {store : Store} {root : SchemaNode}
    (hfinite : {uri | ∃ document, s.loader.fetch uri = .ok document}.Finite) (hstore : store.Genuine)
    (hroot : root ∈ store.nodes) (model : Model) :
    (outcome (pass s root) (start store model)).1 ≠ .error .exhausted ∧
      ∀ d, outcome (pass s root) (start store model) = (.ok ⟨⟩, d) →
        (∀ entry ∈ d.registry, ∃ id x, entry.2 = some id ∧ d.drafts[id]? = some x ∧ x.started = true) ∧
        ∃ log, outcome (loggedPass s root) (start store model, []) = (.ok ⟨⟩, d, log) ∧
          log.Perm (List.range d.drafts.length) := by
  refine ⟨pass_ne_exhausted hfinite model hstore hroot, fun d hok => ?_⟩
  have hsound : d.Sound := ((leads_pass root).steps hok).sound (sound_start store model)
  have hstarted := started_of_pass (sound_start store model) hok
  refine ⟨fun entry hentry => ?_, ?_⟩
  · obtain ⟨id, x, hid, hx⟩ := hsound.of_mem_registry hentry
    exact ⟨id, x, hid, hx, hstarted x (List.mem_of_getElem? hx)⟩
  · have hempty : Logs [] (start store model) := ⟨List.nodup_nil, by simp [start]⟩
    obtain ⟨log, hlogged, hlogs⟩ := mirrors_pass root hempty hok
    refine ⟨log, hlogged, (List.perm_ext_iff_of_nodup hlogs.distinct List.nodup_range).2 fun id => ?_⟩
    rw [hlogs.mem_iff, List.mem_range]
    constructor
    · rintro ⟨x, hx, -⟩
      exact (List.getElem?_eq_some_iff.1 hx).1
    · intro hlt
      exact ⟨d.drafts[id], List.getElem?_eq_getElem hlt, hstarted _ (List.getElem_mem hlt)⟩

/-! ### Documents that refer to each other, with an identifier that is repeated -/

namespace Repeated

def members : Members :=
  [("items", .obj [("$ref", .str "u")])]

def other : Json :=
  .obj [("items", .arr
    [.obj [("$ref", .str "s")], .obj [("$id", .str "s"), ("items", .obj [("$ref", .str "u")])],
      .obj [("type", .str "array"), ("items", .obj [("$ref", .str "#/items/2")])]])]

def setting : Setting :=
  ⟨⟨[("u", other)], ⟨[]⟩, .top⟩, 0, {}⟩

def store : Store :=
  ⟨[⟨"s", survey (.root "s") (.obj members)⟩]⟩

def root : SchemaNode :=
  .root ⟨"s", [], "s", "s", members⟩

def model : Model :=
  ⟨[], [], ["sample"], []⟩

lemma genuine : store.Genuine :=
  fun load hl => ⟨members, by rw [List.mem_singleton.1 hl]⟩

lemma root_mem : root ∈ store.nodes :=
  Store.mem_nodes.2 ⟨_, List.mem_singleton_self _,
    node_mem_survey (show (Position.root "s").enter members = .ok (root, [("s", [])]) from rfl)⟩

end Repeated

/-- The node of the repeated identifier has the draft of the root. -/
theorem pass_ends_of_repeated_identifier :
    (outcome (pass Repeated.setting Repeated.root) (start Repeated.store Repeated.model)).2.uris =
        ["s", "u", "u#/items/2"] ∧
      (outcome (pass Repeated.setting Repeated.root) (start Repeated.store Repeated.model)).1 ≠ .error .exhausted ∧
      ∀ d, outcome (pass Repeated.setting Repeated.root) (start Repeated.store Repeated.model) = (.ok ⟨⟩, d) →
        (∀ entry ∈ d.registry, ∃ id x, entry.2 = some id ∧ d.drafts[id]? = some x ∧ x.started = true) ∧
        ∃ log, outcome (loggedPass Repeated.setting Repeated.root) (start Repeated.store Repeated.model, []) =
            (.ok ⟨⟩, d, log) ∧ log.Perm (List.range d.drafts.length) :=
  ⟨by decide +kernel,
    pass_ends (Loader.finite_of_no_files rfl) Repeated.genuine Repeated.root_mem Repeated.model⟩

end Drafting

end SchemaAccessors
