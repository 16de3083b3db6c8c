import Mathlib.Data.List.Nodup
import SchemaAccessors.Proofs.FillSteps

/-!
# Drafts and their registry

Every draft is registered under the URI of its node, in the order of creation, and nothing else is registered.
No two drafts have one URI, and no two have one type. `Sound` says so; each change keeps it.
-/

namespace SchemaAccessors

/-! ## Numbered keys -/

/-- Keys, each with its position counted from `k` on. -/
def numbered (keys : List String) (k : Nat) : List (String × Option DraftId) :=
  (keys.zipIdx k).map fun p => (p.1, some p.2)

lemma numbered_cons (key : String) (keys : List String) (k : Nat) :
    numbered (key :: keys) k = (key, some k) :: numbered keys (k + 1) := rfl

lemma numbered_append (keys : List String) (key : String) (k : Nat) :
    numbered (keys ++ [key]) k = numbered keys k ++ [(key, some (k + keys.length))] := by
  simp [numbered, List.zipIdx_append]

lemma lookup_numbered_of_notMem {keys : List String} {key : String} (h : key ∉ keys) (k : Nat) :
    (numbered keys k).lookup key = none := by
  induction keys generalizing k with
  | nil => rfl
  | cons first keys ih =>
    obtain ⟨hne, hrest⟩ := not_or.1 (List.mem_cons.not.1 h)
    rw [numbered_cons, List.lookup_cons, beq_false_of_ne hne]
    exact ih hrest _

lemma of_lookup_numbered {keys : List String} {key : String} {id? : Option DraftId} {k : Nat}
    (h : (numbered keys k).lookup key = some id?) : ∃ i, id? = some (k + i) ∧ keys[i]? = some key := by
  induction keys generalizing k with
  | nil => simp [numbered] at h
  | cons first keys ih =>
    rw [numbered_cons, List.lookup_cons] at h
    by_cases hkey : key = first
    · subst hkey
      refine ⟨0, ?_, rfl⟩
      simpa [eq_comm] using h
    · rw [beq_false_of_ne hkey] at h
      obtain ⟨i, rfl, hi⟩ := ih h
      exact ⟨i + 1, congrArg some (by omega), hi⟩

/-! ## Sound states -/

namespace Drafting

/-- The URIs of the nodes that have drafts. -/
def uris (d : Drafting) : List String :=
  d.drafts.map (·.node.uri)

lemma getElem?_uris {d : Drafting} {id : DraftId} {x : Draft} (h : d.drafts[id]? = some x) :
    d.uris[id]? = some x.node.uri := by
  rw [uris, List.getElem?_map, h]
  rfl

lemma of_getElem?_uris {d : Drafting} {id : DraftId} {uri : String} (h : d.uris[id]? = some uri) :
    ∃ x, d.drafts[id]? = some x ∧ x.node.uri = uri := by
  rw [uris, List.getElem?_map] at h
  obtain ⟨x, hx, huri⟩ := Option.map_eq_some_iff.1 h
  exact ⟨x, hx, huri⟩

/-- The registry lists the drafts, no two of a URI, and each draft that has a type has one of its own. -/
structure Sound (d : Drafting) : Prop where
  registry : d.registry = numbered d.uris 0
  distinct : d.uris.Nodup
  raw : ∀ x ∈ d.drafts, x.raw = .ofKinds x.node.kinds
  typed : ∀ x ∈ d.drafts, ∀ t : Nat, x.wrapper? = some t → t < d.model.types.length
  owner : ∀ ⦃i j : DraftId⦄ ⦃x y : Draft⦄ ⦃t : TypeId⦄, d.drafts[i]? = some x → d.drafts[j]? = some y →
    x.wrapper? = some t → y.wrapper? = some t → i = j

namespace Sound

variable {d : Drafting}

/-- What is read and what is noted does not matter. -/
lemma read (h : d.Sound) (store : Store) (trace : Trace) : Sound { d with store, trace } :=
  ⟨h.registry, h.distinct, h.raw, h.typed, h.owner⟩

/-- Every draft is registered under the URI of its node. -/
lemma mem_registry (h : d.Sound) {id : DraftId} {x : Draft} (hx : d.drafts[id]? = some x) :
    (x.node.uri, some id) ∈ d.registry := by
  rw [h.registry]
  exact List.mem_map.2 ⟨(x.node.uri, id), List.mk_mem_zipIdx_iff_getElem?.2 (getElem?_uris hx), rfl⟩

lemma lookup_eq_none (h : d.Sound) {uri : String} : d.registry.lookup uri = none ↔ uri ∉ d.uris := by
  constructor
  · intro hnone hmem
    obtain ⟨id, hid⟩ := List.getElem?_of_mem hmem
    obtain ⟨x, hx, rfl⟩ := of_getElem?_uris hid
    have hne := List.lookup_eq_none_iff.1 hnone _ (h.mem_registry hx)
    simp at hne
  · intro hmem
    rw [h.registry]
    exact lookup_numbered_of_notMem hmem 0

/-- What is registered under a URI is the draft of a node of that URI. -/
lemma of_lookup (h : d.Sound) {uri : String} {id? : Option DraftId} (hl : d.registry.lookup uri = some id?) :
    ∃ id x, id? = some id ∧ d.drafts[id]? = some x ∧ x.node.uri = uri := by
  rw [h.registry] at hl
  obtain ⟨i, rfl, hi⟩ := of_lookup_numbered hl
  obtain ⟨x, hx, huri⟩ := of_getElem?_uris hi
  exact ⟨0 + i, x, rfl, by rwa [Nat.zero_add], huri⟩

/-- Everything that is registered is a draft. -/
lemma of_mem_registry (h : d.Sound) {entry : String × Option DraftId} (hentry : entry ∈ d.registry) :
    ∃ id x, entry.2 = some id ∧ d.drafts[id]? = some x := by
  rw [h.registry] at hentry
  obtain ⟨p, hp, rfl⟩ := List.mem_map.1 hentry
  obtain ⟨x, hx, -⟩ := of_getElem?_uris (List.mk_mem_zipIdx_iff_getElem?.1 hp)
  exact ⟨p.2, x, rfl, hx⟩

/-- Two drafts of one URI are one draft. -/
lemma eq_of_uri (h : d.Sound) {i j : DraftId} {x y : Draft} (hx : d.drafts[i]? = some x)
    (hy : d.drafts[j]? = some y) (huri : x.node.uri = y.node.uri) : i = j := by
  have hi := getElem?_uris hx
  have hj := getElem?_uris hy
  have hlt := (List.getElem?_eq_some_iff.1 hi).1
  exact (List.getElem?_inj hlt h.distinct).1 (by rw [hi, hj, huri])

/-- A draft may change in all that it is not known by. -/
lemma modify (h : d.Sound) {id : DraftId} {f : Draft → Draft} {types : List WrapperType}
    (hnode : ∀ x, (f x).node = x.node) (hraw : ∀ x, (f x).raw = x.raw)
    (hlength : d.model.types.length ≤ types.length)
    (hwrapper : ∀ x ∈ d.drafts, ∀ t : Nat, (f x).wrapper? = some t →
      x.wrapper? = some t ∨ (d.model.types.length ≤ t ∧ t < types.length)) :
    Sound { d with model := { d.model with types }, drafts := d.drafts.modify id f } := by
  have huris : (d.drafts.modify id f).map (·.node.uri) = d.uris := by
    refine List.ext_getElem? fun i => ?_
    rw [uris, List.getElem?_map, List.getElem?_map, List.getElem?_modify, Option.map_eq_map,
      Option.map_map]
    refine congrArg (Option.map · d.drafts[i]?) (funext fun x => ?_)
    simp only [Function.comp]
    split <;> simp [hnode]
  have typed' {i : DraftId} {x : Draft} {t : Nat} (hx : (d.drafts.modify id f)[i]? = some x)
      (ht : x.wrapper? = some t) : ∃ y, d.drafts[i]? = some y ∧
        (y.wrapper? = some t ∨ (i = id ∧ d.model.types.length ≤ t ∧ t < types.length)) := by
    obtain ⟨y, hy, rfl⟩ := getElem?_of_modify hx
    refine ⟨y, hy, ?_⟩
    by_cases hid : id = i
    · rw [if_pos hid] at ht
      rcases hwrapper y (List.mem_of_getElem? hy) t ht with hold | hnew
      · exact .inl hold
      · exact .inr ⟨hid.symm, hnew⟩
    · rw [if_neg hid] at ht
      exact .inl ht
  constructor
  · show d.registry = numbered ((d.drafts.modify id f).map (·.node.uri)) 0
    rw [huris]
    exact h.registry
  · show ((d.drafts.modify id f).map (·.node.uri)).Nodup
    rw [huris]
    exact h.distinct
  · intro x hx
    obtain ⟨i, hi⟩ := List.getElem?_of_mem hx
    obtain ⟨y, hy, rfl⟩ := getElem?_of_modify hi
    have hraw' := h.raw y (List.mem_of_getElem? hy)
    split
    · rw [hraw, hnode, hraw']
    · exact hraw'
  · intro x hx t ht
    obtain ⟨i, hi⟩ := List.getElem?_of_mem hx
    obtain ⟨y, hy, hold | ⟨-, -, hlt⟩⟩ := typed' hi ht
    · exact (h.typed y (List.mem_of_getElem? hy) t hold).trans_le hlength
    · exact hlt
  · intro i j x y t hx hy htx hty
    obtain ⟨x', hx', hxold | ⟨hxi, hxnew, -⟩⟩ := typed' hx htx <;>
      obtain ⟨y', hy', hyold | ⟨hyi, hynew, -⟩⟩ := typed' hy hty
    · exact h.owner hx' hy' hxold hyold
    · have hlt := h.typed x' (List.mem_of_getElem? hx') t hxold
      omega
    · have hlt := h.typed y' (List.mem_of_getElem? hy') t hyold
      omega
    · exact hxi.trans hyi.symm

end Sound

/-- Every change keeps a state sound. -/
theorem Step.sound {s : Setting} {d d' : Drafting} (h : Step s d d') (hd : d.Sound) : d'.Sound := by
  cases h with
  | record trace => exact hd.read d.store trace
  | @read store reads => exact hd.read store d.trace
  | @create n fresh =>
    have hfresh := hd.lookup_eq_none.1 fresh
    have huris : (d.withDraft n).uris = d.uris ++ [n.uri] := by
      simp [uris, withDraft]
    have drafts_cases {i : DraftId} {x : Draft} {t : TypeId} (hx : (d.withDraft n).drafts[i]? = some x)
        (ht : x.wrapper? = some t) : d.drafts[i]? = some x := by
      simp only [withDraft, List.getElem?_append] at hx
      split at hx
      · exact hx
      · obtain rfl := List.mem_singleton.1 (List.mem_of_getElem? hx)
        simp at ht
    constructor
    · rw [huris, numbered_append]
      simp only [withDraft, hd.registry, Nat.zero_add, uris, List.length_map]
    · rw [huris]
      refine hd.distinct.append (List.nodup_singleton _) ?_
      simpa using hfresh
    · intro x hx
      rcases List.mem_append.1 hx with hx | hx
      · exact hd.raw x hx
      · rw [List.mem_singleton.1 hx]
    · intro x hx t ht
      obtain ⟨i, hi⟩ := List.getElem?_of_mem hx
      exact hd.typed x (List.mem_of_getElem? (drafts_cases hi ht)) t ht
    · intro i j x y t hx hy htx hty
      exact hd.owner (drafts_cases hx htx) (drafts_cases hy hty) htx hty
  | @declare id x c name doc found undeclared admitted spelled free single =>
    refine hd.modify (fun _ => rfl) (fun _ => rfl) (by simp) fun y _ t ht => ?_
    obtain rfl : d.model.types.length = t := by
      simpa using ht
    simp
  | @start id x found unstarted =>
    exact hd.modify (fun _ => rfl) (fun _ => rfl) le_rfl fun y _ t ht => .inl ht
  | @extend type f same =>
    refine ⟨hd.registry, hd.distinct, hd.raw, fun x hx t ht => ?_, hd.owner⟩
    simpa [withChange, Model.update] using hd.typed x hx t ht

theorem Steps.sound {s : Setting} {d d' : Drafting} (h : Steps s d d') (hd : d.Sound) : d'.Sound := by
  induction h with
  | refl => exact hd
  | tail _ step ih => exact step.sound ih

lemma sound_start (store : Store) (model : Model) : (start store model).Sound := by
  constructor <;> simp [start, uris, numbered]

/-- Drafting only reads documents. -/
lemma Steps.reads {s : Setting} {d d' : Drafting} (h : Steps s d d') : d.store.Reads s.loader d'.store := by
  induction h with
  | refl => exact .refl
  | tail _ step ih =>
    cases step with
    | read reads => exact ih.trans reads
    | _ => exact ih

/-! ## Drafts stay -/

/-- The drafts of a state are still there in another. -/
def KeepsNodes (d d' : Drafting) : Prop :=
  ∀ ⦃j : DraftId⦄ ⦃x : Draft⦄, d.drafts[j]? = some x →
    ∃ y, d'.drafts[j]? = some y ∧ y.node = x.node ∧ (x.started = true → y.started = true)

lemma KeepsNodes.trans {d d' d'' : Drafting} (h : d.KeepsNodes d') (h' : d'.KeepsNodes d'') :
    d.KeepsNodes d'' := by
  intro j x hx
  obtain ⟨y, hy, hnode, hstarted⟩ := h hx
  obtain ⟨z, hz, hnode', hstarted'⟩ := h' hy
  exact ⟨z, hz, hnode'.trans hnode, hstarted' ∘ hstarted⟩

lemma keepsNodes_modify {d d' : Drafting} {id : DraftId} {f : Draft → Draft}
    (hdrafts : d'.drafts = d.drafts.modify id f) (hnode : ∀ x, (f x).node = x.node)
    (hstarted : ∀ x, x.started = true → (f x).started = true) : d.KeepsNodes d' := by
  intro j x hx
  refine ⟨if id = j then f x else x, ?_, ?_, fun hs => ?_⟩
  · simp [hdrafts, List.getElem?_modify, hx]
  · split
    · exact hnode x
    · rfl
  · split
    · exact hstarted x hs
    · exact hs

/-- No change takes a draft away, or undoes that it is started. -/
lemma Step.keepsNodes {s : Setting} {d d' : Drafting} (h : Step s d d') : d.KeepsNodes d' := by
  cases h with
  | create fresh =>
    intro j x hx
    exact ⟨x, (List.getElem?_append_left (List.getElem?_eq_some_iff.1 hx).1).trans hx, rfl, id⟩
  | declare doc found undeclared admitted spelled free single =>
    exact keepsNodes_modify rfl (fun _ => rfl) fun _ hs => hs
  | start found unstarted => exact keepsNodes_modify rfl (fun _ => rfl) fun _ _ => rfl
  | _ => exact fun j x hx => ⟨x, hx, rfl, id⟩

lemma Steps.keepsNodes {s : Setting} {d d' : Drafting} (h : Steps s d d') : d.KeepsNodes d' := by
  induction h with
  | refl => exact fun j x hx => ⟨x, hx, rfl, id⟩
  | tail _ step ih => exact ih.trans step.keepsNodes

/-! ## Types stay -/

/-- The types of a state are still there in another, under their names and where they were declared. -/
def KeepsPlaces (d d' : Drafting) : Prop :=
  ∀ ⦃t : TypeId⦄ ⦃ty : WrapperType⦄, d.model.types[t]? = some ty →
    ∃ ty', d'.model.types[t]? = some ty' ∧ ty'.name = ty.name ∧ ty'.container = ty.container

lemma Step.keepsPlaces {s : Setting} {d d' : Drafting} (h : Step s d d') : d.KeepsPlaces d' := by
  cases h with
  | declare doc found undeclared admitted spelled free single =>
    intro t ty hty
    exact ⟨ty, (List.getElem?_append_left (List.getElem?_eq_some_iff.1 hty).1).trans hty, rfl, rfl⟩
  | @extend type f same =>
    intro t ty hty
    refine ⟨if type = t then f ty else ty, ?_, ?_⟩
    · simp [withChange, Model.update, List.getElem?_modify, hty]
    · split
      · exact same ty
      · exact ⟨rfl, rfl⟩
  | _ => exact fun t ty hty => ⟨ty, hty, rfl, rfl⟩

lemma Steps.keepsPlaces {s : Setting} {d d' : Drafting} (h : Steps s d d') : d.KeepsPlaces d' := by
  induction h with
  | refl => exact fun t ty hty => ⟨ty, hty, rfl, rfl⟩
  | tail _ step ih =>
    intro t ty hty
    obtain ⟨ty', hty', hname, hcontainer⟩ := ih hty
    obtain ⟨ty'', hty'', hname', hcontainer'⟩ := step.keepsPlaces hty'
    exact ⟨ty'', hty'', hname'.trans hname, hcontainer'.trans hcontainer⟩

/-- Filling starts its draft. -/
lemma started_of_fill {s : Setting} {id : DraftId} {fuel : Nat} {d d' : Drafting}
    (hok : outcome (fill s fuel id) d = (.ok ⟨⟩, d')) :
    ∃ y, d'.drafts[id]? = some y ∧ y.started = true := by
  cases fuel with
  | zero => simp [fill] at hok
  | succ fuel =>
    rw [fill_succ] at hok
    obtain ⟨x, e, hdraft, hrest⟩ := outcome_bind_eq_ok hok
    obtain ⟨hx, rfl⟩ := of_draft_eq_ok hdraft
    split at hrest
    · next hstarted =>
      obtain rfl : e = d' := congrArg Prod.snd hrest
      exact ⟨x, hx, hstarted⟩
    rw [outcome_bind_of_ok (outcome_update e id _)] at hrest
    have hself : (e.withStarted id).drafts[id]? = some { x with started := true } := by
      simp [withStarted, hx]
    have hsteps : Steps s (e.withStarted id) d' := (leads_fillDraft (leads_fill fuel) x).steps hrest
    obtain ⟨y, hy, -, hstarted⟩ := hsteps.keepsNodes hself
    exact ⟨y, hy, hstarted rfl⟩

lemma started_of_finishOne {s : Setting} {id : DraftId} {d d' : Drafting}
    (hok : outcome (finishOne s id) d = (.ok ⟨⟩, d')) :
    ∃ y, d'.drafts[id]? = some y ∧ y.started = true := by
  obtain ⟨x, d₁, hdraft, hrest⟩ := outcome_bind_eq_ok hok
  obtain ⟨⟨⟩, d₂, hnote, hrest'⟩ := outcome_bind_eq_ok hrest
  rw [outcome_bind_of_ok (outcome_bound d₂)] at hrest'
  exact started_of_fill hrest'

/-! ## What is pending -/

lemma outcome_mapM_registered (keys : List String) (k : Nat) (d : Drafting) :
    outcome ((numbered keys k).mapM registered) d = (.ok (List.range' k keys.length), d) := by
  induction keys generalizing k with
  | nil => rfl
  | cons key keys ih =>
    rw [numbered_cons, List.mapM_cons]
    exact outcome_bind_of_ok (ih (k + 1))

/-- The drafts that are not started, in the order of creation. -/
def waiting (d : Drafting) : List DraftId :=
  (List.range' 0 d.uris.length).filter fun id => (d.drafts[id]?).any (!·.started)

lemma mem_waiting {d : Drafting} {id : DraftId} :
    id ∈ d.waiting ↔ ∃ x, d.drafts[id]? = some x ∧ x.started = false := by
  have hlength : d.uris.length = d.drafts.length := List.length_map _
  rw [waiting, List.mem_filter, List.mem_range'_1, hlength, Option.any_eq_true]
  constructor
  · rintro ⟨-, x, hx, hs⟩
    exact ⟨x, hx, by simpa using hs⟩
  · rintro ⟨x, hx, hs⟩
    have hlt := (List.getElem?_eq_some_iff.1 hx).1
    exact ⟨⟨Nat.zero_le _, by omega⟩, x, hx, by simpa using hs⟩

/-- What is pending in a sound state are the drafts that are not started. -/
lemma outcome_pending {d : Drafting} (h : d.Sound) : outcome pending d = (.ok d.waiting, d) := by
  rw [pending_eq, outcome_bind_of_ok (outcome_get d), h.registry]
  exact outcome_bind_of_ok (outcome_mapM_registered d.uris 0 d)

/-- Where nothing is pending, every draft is started. -/
lemma started_of_waiting {d : Drafting} (h : d.waiting = []) : ∀ x ∈ d.drafts, x.started = true := by
  intro x hx
  obtain ⟨j, hj⟩ := List.getElem?_of_mem hx
  by_contra hunstarted
  have hmem : j ∈ d.waiting := mem_waiting.2 ⟨x, hj, by simpa using hunstarted⟩
  simp [h] at hmem

/-- Where finishing succeeds, every draft is started. -/
lemma started_of_finishIn {s : Setting} {rounds : Nat} {d d' : Drafting} (h : d.Sound)
    (hok : outcome (finishIn s rounds) d = (.ok ⟨⟩, d')) : ∀ x ∈ d'.drafts, x.started = true := by
  induction rounds generalizing d with
  | zero => simp [finishIn] at hok
  | succ rounds ih =>
    rw [finishIn_succ, outcome_bind_of_ok (outcome_pending h)] at hok
    split at hok
    · next hempty =>
      obtain rfl : d = d' := congrArg Prod.snd hok
      exact started_of_waiting (List.isEmpty_iff.1 hempty)
    · obtain ⟨⟨⟩, e, hround, hrest⟩ := outcome_bind_eq_ok hok
      have hsteps : Steps s d e := (leads_forM fun id _ => leads_finishOne id).steps hround
      exact ih (hsteps.sound h) hrest

/-- Where a pass succeeds, every draft is started. -/
lemma started_of_pass {s : Setting} {root : SchemaNode} {d d' : Drafting} (h : d.Sound)
    (hok : outcome (pass s root) d = (.ok ⟨⟩, d')) : ∀ x ∈ d'.drafts, x.started = true := by
  obtain ⟨id, e, hcomplete, hfinish⟩ := outcome_bind_eq_ok hok
  unfold finish at hfinish
  rw [outcome_bind_of_ok (outcome_bound e)] at hfinish
  exact started_of_finishIn (((leads_complete root).steps hcomplete).sound h) hfinish

end Drafting

end SchemaAccessors
