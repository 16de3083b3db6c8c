import Mathlib.Data.Set.Function
import SchemaAccessors.Proofs.Coverage

/-!
# Drafts and their types

A draft is registered before its type is declared, and the type of a node that is written in another waits for
the other's draft to have its own. When a pass has succeeded nothing waits: the drafts of the nodes that get
types have one each, there are no further types, and each lies where its node lies. For one state this is said
by `InOrder`, about the drafts; that no type is without a draft is kept by every change.
-/

namespace SchemaAccessors

namespace Drafting

/-! ## Types without drafts -/

/-- A type is the type of a draft. -/
def HasDraft (d : Drafting) (t : TypeId) : Prop :=
  ∃ x ∈ d.drafts, x.wrapper? = some t

/-- Every type is the type of a draft. -/
def Owned (d : Drafting) : Prop :=
  ∀ t < d.model.types.length, d.HasDraft t

/-- Where drafts keep their types, no type is left without its draft. -/
lemma Owned.of_drafts {d d' : Drafting} (h : d.Owned) (htypes : d'.model.types.length = d.model.types.length)
    (hdrafts : ∀ x ∈ d.drafts, ∃ y ∈ d'.drafts, y.wrapper? = x.wrapper?) : d'.Owned := by
  intro t ht
  rw [htypes] at ht
  obtain ⟨x, hx, hwrapper⟩ := h t ht
  obtain ⟨y, hy, hsame⟩ := hdrafts x hx
  exact ⟨y, hy, hsame.trans hwrapper⟩

/-- No change leaves a type without a draft. -/
theorem Step.owned {s : Setting} {d d' : Drafting} (h : Step s d d') (hd : d.Owned) : d'.Owned := by
  cases h with
  | record trace => exact hd.of_drafts rfl fun x hx => ⟨x, hx, rfl⟩
  | read reads => exact hd.of_drafts rfl fun x hx => ⟨x, hx, rfl⟩
  | create fresh => exact hd.of_drafts rfl fun x hx => ⟨x, List.mem_append_left _ hx, rfl⟩
  | @declare id x c name doc found undeclared admitted spelled free single =>
    intro t ht
    rw [withType, List.length_append, List.length_singleton] at ht
    rcases Nat.lt_succ_iff_lt_or_eq.1 ht with hold | rfl
    · obtain ⟨y, hy, hwrapper⟩ := hd t hold
      obtain ⟨j, hj⟩ := List.getElem?_of_mem hy
      -- the draft that is given a type had none, so it is not the one of an old type
      have hne : id ≠ j := by
        rintro rfl
        obtain rfl : x = y := Option.some.inj (found.symm.trans hj)
        rw [undeclared] at hwrapper
        cases hwrapper
      exact ⟨y, List.mem_of_getElem? ((List.getElem?_modify_ne _ _ hne).trans hj), hwrapper⟩
    · refine ⟨{ x with wrapper? := some d.model.types.length }, List.mem_of_getElem? (i := id) ?_, rfl⟩
      simp [withType, found]
  | @start id x found unstarted =>
    refine hd.of_drafts rfl fun y hy => ?_
    obtain ⟨j, hj⟩ := List.getElem?_of_mem hy
    refine ⟨if id = j then { y with started := true } else y, List.mem_of_getElem? (i := j) ?_, ?_⟩
    · simp [withStarted, List.getElem?_modify, hj]
    · split <;> rfl
  | extend same => exact hd.of_drafts (List.length_modify ..) fun x hx => ⟨x, hx, rfl⟩

theorem Steps.owned {s : Setting} {d d' : Drafting} (h : Steps s d d') (hd : d.Owned) : d'.Owned := by
  induction h with
  | refl => exact hd
  | tail _ step ih => exact step.owned ih

lemma owned_start (store : Store) {model : Model} (h : model.types = []) : (start store model).Owned := by
  intro t ht
  simp [start, h] at ht

/-! ## What is registered for a node -/

/-- A draft is registered. -/
def Registers (d : Drafting) (id : DraftId) (x : Draft) : Prop :=
  (∃ uri, (uri, some id) ∈ d.registry) ∧ d.drafts[id]? = some x

/-- The draft that is registered under a URI. -/
def registered? (d : Drafting) (uri : String) : Option Draft :=
  (d.registry.lookup uri).join.bind (d.drafts[·]?)

/-- The registered drafts whose nodes get types. -/
def typed (d : Drafting) : Set DraftId :=
  {id | ∃ x, d.Registers id x ∧ x.node.GetsType}

/-- The type of a draft. -/
def typeOf? (d : Drafting) (id : DraftId) : Option TypeId :=
  d.drafts[id]?.bind Draft.wrapper?

/-- Where the type of a node belongs: inside the type of the draft that is registered for what the node is written
in, where both exist, and in the namespace of the pass else. -/
def home (s : Setting) (d : Drafting) (n : SchemaNode) : Container :=
  within s (n.parent?.bind fun m => (d.registered? m.uri).bind Draft.wrapper?)

lemma Sound.registers {d : Drafting} (h : d.Sound) {id : DraftId} {x : Draft} (hx : d.drafts[id]? = some x) :
    d.Registers id x :=
  ⟨⟨x.node.uri, h.mem_registry hx⟩, hx⟩

lemma Sound.registered?_eq {d : Drafting} (h : d.Sound) {x : Draft} (hx : x ∈ d.drafts) :
    d.registered? x.node.uri = some x := by
  obtain ⟨id, hid⟩ := List.getElem?_of_mem hx
  cases hl : d.registry.lookup x.node.uri with
  | none => exact (h.lookup_eq_none.1 hl (List.mem_map_of_mem hx)).elim
  | some id? =>
    obtain ⟨id', y, rfl, hy, huri⟩ := h.of_lookup hl
    obtain rfl := h.eq_of_uri hy hid huri
    rw [registered?, hl]
    exact hid

lemma typeOf?_eq {d : Drafting} {id : DraftId} {x : Draft} (hx : d.drafts[id]? = some x) :
    d.typeOf? id = x.wrapper? := by
  rw [typeOf?, hx]
  rfl

/-- The container that a node is known to belong in is the one that the registry tells. -/
lemma Belongs.eq_home {s : Setting} {d : Drafting} {n : SchemaNode} {c : Container} (h : d.Belongs s n c)
    (hd : d.Sound) : c = d.home s n := by
  unfold Belongs at h
  unfold home
  cases hparent : n.parent? with
  | none =>
    rw [hparent] at h
    exact h
  | some m =>
    rw [hparent] at h
    obtain ⟨r, ⟨y, hy, huri, rfl, -⟩, rfl⟩ := h
    rw [Option.bind_some, ← huri, hd.registered?_eq hy]
    rfl

/-! ## A whole pass -/

section Pass

variable {s : Setting} {store : Store} {root : SchemaNode} {model : Model} {d : Drafting}

namespace Covered

variable {found : String → Findings}

/-- Drafts and types belong to each other one to one. -/
lemma bijOn_typeOf? (h : Covered s store root found d) (howned : d.Owned) :
    Set.BijOn d.typeOf? d.typed (some '' Set.Iio d.model.types.length) := by
  have hsound := h.accounted.sound
  refine ⟨?_, ?_, ?_⟩
  · rintro id ⟨x, ⟨-, hx⟩, hgets⟩
    have hmem := List.mem_of_getElem? hx
    obtain ⟨t, ht⟩ := h.exists_typed hmem hgets
    exact ⟨t, hsound.typed x hmem t ht, by rw [typeOf?_eq hx, ht]⟩
  · rintro i ⟨x, ⟨-, hx⟩, hgets⟩ j ⟨y, ⟨-, hy⟩, -⟩ hsame
    obtain ⟨t, ht⟩ := h.exists_typed (List.mem_of_getElem? hx) hgets
    rw [typeOf?_eq hx, typeOf?_eq hy, ht] at hsame
    exact hsound.owner hx hy ht hsame.symm
  · rintro _ ⟨t, ht, rfl⟩
    obtain ⟨x, hx, hwrapper⟩ := howned t ht
    obtain ⟨id, hid⟩ := List.getElem?_of_mem hx
    refine ⟨id, ⟨x, hsound.registers hid, (h.typed_iff hx).1 (by rw [hwrapper]; rfl)⟩, ?_⟩
    rw [typeOf?_eq hid, hwrapper]

lemma wrapper?_eq_none (h : Covered s store root found d) {id : DraftId} {x : Draft} (hx : d.Registers id x)
    (hnot : id ∉ d.typed) : x.wrapper? = none := by
  by_contra hwrapper
  have hgets := (h.typed_iff (List.mem_of_getElem? hx.2)).1 (Option.isSome_iff_ne_none.2 hwrapper)
  exact hnot ⟨x, hx, hgets⟩

/-- The type of a draft lies where its node belongs. -/
lemma container_eq (h : Covered s store root found d) {id : DraftId} {x : Draft} {t : TypeId} {ty : WrapperType}
    (hx : d.Registers id x) (hwrapper : x.wrapper? = some t) (hty : d.model.types[t]? = some ty) :
    ty.container = d.home s x.node := by
  obtain ⟨ty', hty', hbelongs⟩ := (h.accounted.inOrder hx.2).placed h.unambiguous t hwrapper
  obtain rfl : ty = ty' := Option.some.inj (hty.symm.trans hty')
  exact hbelongs.eq_home h.accounted.sound

end Covered

/-- A pass that succeeds over documents with unambiguous identifiers gives a type of its own to each registered
draft whose node gets one, and to no other. There are no further types, and each is declared inside the type of
what its node is written in, or in the namespace where that has none. -/
theorem bijOn_typeOf?_of_pass (hstore : store.Intact) (hroot : root ∈ store.nodes) (hmodel : model.types = [])
    (hok : outcome (pass s root) (start store model) = (.ok ⟨⟩, d)) (hunambiguous : d.store.Unambiguous) :
    Set.BijOn d.typeOf? d.typed (some '' Set.Iio d.model.types.length) ∧
      (∀ id x, d.Registers id x → id ∉ d.typed → x.wrapper? = none) ∧
      ∀ id x t ty, d.Registers id x → x.wrapper? = some t → d.model.types[t]? = some ty →
        ty.container = d.home s x.node := by
  obtain ⟨found, h⟩ := covered_of_pass hstore hroot hok hunambiguous
  have howned : d.Owned := ((leads_pass root).steps hok).owned (owned_start store hmodel)
  refine ⟨h.bijOn_typeOf? howned, fun id x hx hnot => ?_, fun id x t ty hx hwrapper hty => ?_⟩
  · exact h.wrapper?_eq_none hx hnot
  · exact h.container_eq hx hwrapper hty

end Pass

/-- The list lies inside the root of its document, whose draft is made for that, and behind the list's own. -/
theorem bijOn_typeOf?_of_two_documents :
    Sample.last.drafts.map (·.wrapper?) = [some 0, none, some 2, some 1, none] ∧
      Sample.last.model.types.map (·.container) = [.top 0, .top 0, .inside 1] ∧
      Set.BijOn Sample.last.typeOf? Sample.last.typed (some '' Set.Iio Sample.last.model.types.length) ∧
      (∀ id x, Sample.last.Registers id x → id ∉ Sample.last.typed → x.wrapper? = none) ∧
      ∀ id x t ty, Sample.last.Registers id x → x.wrapper? = some t → Sample.last.model.types[t]? = some ty →
        ty.container = Sample.last.home Sample.setting x.node :=
  ⟨by decide +kernel, by decide +kernel,
    bijOn_typeOf?_of_pass Sample.intact Sample.root_mem rfl Sample.passes Sample.unambiguous⟩

end Drafting

end SchemaAccessors
