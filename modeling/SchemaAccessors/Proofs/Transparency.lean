import SchemaAccessors.Proofs.Coverage

/-!
# References among the registered nodes

What a property or an item stands for is the end of its references, so filling a type registers no reference. Two
ways into the registry do not follow references: the root of a pass is registered as it is, and so is what a node
with a type is written in. A pass registers no reference exactly if neither way brings one.
-/

namespace SchemaAccessors

namespace Store

variable {loader : Loader} {s t : Store}

/-- References end at a node that is none. -/
lemma ref?_of_follow {fuel : Nat} {seen : List String} {e : Entry} {n : SchemaNode}
    (h : outcome (follow loader fuel seen e) s = (.ok (.node n), t)) : n.ref? = none := by
  have same {a : Entry} {s : Store} (ha : outcome (pure a : StoreM Entry) s = (.ok (.node n), t)) : a = .node n := by
    simpa using congrArg Prod.fst ha
  induction fuel generalizing seen e s with
  | zero =>
    cases e with
    | plain value => cases same (by rwa [follow_plain] at h)
    | node m =>
      cases hr : m.ref? with
      | none =>
        obtain rfl := Entry.node.inj (same (by rwa [follow_of_no_ref hr] at h))
        exact hr
      | some ref =>
        rw [follow_zero hr] at h
        simp at h
  | succ fuel ih =>
    cases e with
    | plain value => cases same (by rwa [follow_plain] at h)
    | node m =>
      cases hr : m.ref? with
      | none =>
        obtain rfl := Entry.node.inj (same (by rwa [follow_of_no_ref hr] at h))
        exact hr
      | some ref =>
        rw [follow_succ hr] at h
        split at h
        · simp at h
        · obtain ⟨target, s₁, -, hresolved⟩ := outcome_bind_eq_ok h
          obtain ⟨entry, s₂, -, hfollowed⟩ := outcome_bind_eq_ok hresolved
          exact ih hfollowed

lemma StoodFor.ref?_eq_none {e : Entry} {n : SchemaNode} (h : StoodFor loader s t e (.node n)) : n.ref? = none := by
  obtain ⟨u, v, -, hderef, -⟩ := h
  unfold deref at hderef
  rw [outcome_bind_of_ok (outcome_get u)] at hderef
  exact ref?_of_follow hderef

end Store

namespace Drafting

section Pass

variable {s : Setting} {store : Store} {root : SchemaNode} {model : Model} {d : Drafting}

/-- What is found for a node when its type is filled is no reference. -/
lemma Filled.ref?_eq_none {loader : Loader} {n m : SchemaNode} {t : WrapperType} {f : Findings}
    (h : Filled loader store d n t f) (hm : m ∈ f.nodes) : m.ref? = none := by
  have ended {e found : Entry} (hstood : Store.StoodFor loader store d.store e found)
      (hfound : found.node? = some m) : m.ref? = none := by
    cases found with
    | plain value => cases hfound
    | node n =>
      obtain rfl := Option.some.inj hfound
      exact hstood.ref?_eq_none
  rcases Findings.mem_nodes.1 hm with ⟨p, hp, hpm⟩ | ⟨e, he, hem⟩
  · obtain ⟨q, -, -, hstood⟩ := Store.exists_of_mem_right h.properties hp
    exact ended hstood hpm
  · obtain ⟨q, -, hstood⟩ := Store.exists_of_mem_right h.items he
    exact ended hstood hem

/-- A registered node is the root, or what a registered node with a type is written in, or no reference. -/
lemma root_or_parent_of_pass (hstore : store.Genuine) (hroot : root ∈ store.nodes)
    (hok : outcome (pass s root) (start store model) = (.ok ⟨⟩, d)) {n : SchemaNode} (hn : d.Registered n) :
    n = root ∨ (∃ m, d.Registered m ∧ d.store.GetsType m ∧ m.parent? = some n) ∨ n.ref? = none := by
  obtain ⟨⟨found, haccounted⟩, hstarted, -, -⟩ := accounted_of_pass hstore hroot hok
  obtain ⟨x, hx, rfl⟩ := haccounted.sound.registered_iff.1 hn
  obtain ⟨j, hj⟩ := List.getElem?_of_mem hx
  rcases (haccounted.inOrder hj).justified with hfirst | ⟨i, y, -, hy, hgets, hreason⟩
  · exact .inl hfirst
  have horder := haccounted.inOrder hy
  have hmem := List.mem_of_getElem? hy
  rcases hreason with ⟨hfilled, hfound⟩ | hparent
  · obtain ⟨t, ht⟩ := Option.isSome_iff_exists.1 ((horder.declared List.not_mem_nil).typed.2 hgets)
    obtain ⟨ty, -, hmembers⟩ := horder.filled hfilled List.not_mem_nil t ht
    exact .inr (.inr (hmembers.ref?_eq_none hfound))
  · exact .inr (.inl ⟨y.node, haccounted.sound.registered_iff.2 ⟨y, hmem, rfl⟩, hgets, hparent⟩)

/-- The root of a pass is registered. -/
lemma registered_root_of_pass (hstore : store.Genuine) (hroot : root ∈ store.nodes)
    (hok : outcome (pass s root) (start store model) = (.ok ⟨⟩, d)) : d.Registered root := by
  obtain ⟨⟨found, haccounted⟩, -, ⟨x, hx, -⟩, -⟩ := accounted_of_pass hstore hroot hok
  obtain ⟨first, hfirst⟩ : ∃ first, d.drafts[0]? = some first := by
    cases hdrafts : d.drafts with
    | nil =>
      rw [hdrafts] at hx
      exact (List.not_mem_nil hx).elim
    | cons first rest => exact ⟨first, rfl⟩
  -- nothing was drafted before the first draft, so nothing but the root can be the reason for it
  rcases (haccounted.inOrder hfirst).justified with hnode | ⟨i, y, hi, -⟩
  · exact haccounted.sound.registered_iff.2 ⟨first, List.mem_of_getElem? hfirst, hnode⟩
  · exact (Nat.not_lt_zero i hi).elim

/-- A pass registers no reference exactly if its root is none, and no registered node with a type is written in
one that is registered. -/
theorem ref?_eq_none_iff_of_pass (hstore : store.Genuine) (hroot : root ∈ store.nodes)
    (hok : outcome (pass s root) (start store model) = (.ok ⟨⟩, d)) :
    (∀ n, d.Registered n → n.ref? = none) ↔
      root.ref? = none ∧ ∀ n m, d.Registered n → d.store.GetsType n → n.parent? = some m → d.Registered m →
        m.ref? = none := by
  constructor
  · intro h
    exact ⟨h root (registered_root_of_pass hstore hroot hok), fun n m _ _ _ hm => h m hm⟩
  · rintro ⟨hrootref, hparents⟩ n hn
    rcases root_or_parent_of_pass hstore hroot hok hn with rfl | ⟨m, hm, hgets, hparent⟩ | hend
    · exact hrootref
    · exact hparents m n hm hgets hparent hn
    · exact hend

end Pass

/-- In two documents that refer to each other, references lie among properties and items only. -/
theorem ref?_eq_none_of_two_documents :
    Sample.root.ref? = none ∧ ∀ n, Sample.last.Registered n → n.ref? = none := by
  have hparents : (Sample.last.drafts.all fun x => x.node.parent?.all (·.ref?.isNone)) = true := by decide +kernel
  have hsound : Sample.last.Sound := (leads_pass Sample.root).steps Sample.passes |>.sound (sound_start _ _)
  have hiff := ref?_eq_none_iff_of_pass Sample.intact.genuine Sample.root_mem Sample.passes
  refine ⟨rfl, hiff.2 ⟨rfl, fun n m hn _ hparent _ => ?_⟩⟩
  obtain ⟨x, hx, rfl⟩ := hsound.registered_iff.1 hn
  have hx' := List.all_eq_true.1 hparents x hx
  rw [hparent, Option.all_some] at hx'
  exact Option.isNone_iff_eq_none.1 hx'

/-! ### A root that is a reference -/

namespace Alias

def target : Json :=
  .obj [("type", .str "object"), ("properties", .obj [("n", .obj [("type", .str "string")])])]

def members : Members :=
  [("$ref", .str "b.json")]

def setting : Setting :=
  ⟨⟨[("b.json", target)], ⟨[]⟩, .top⟩, 0, {}⟩

def store : Store :=
  ⟨[⟨"schema.json", survey (.root "schema.json") (.obj members)⟩]⟩

def root : SchemaNode :=
  .root ⟨"schema.json", [], "schema.json", "schema.json", members⟩

def last : Drafting :=
  (outcome (pass setting root) (start store Sample.model)).2

end Alias

/-- The document that the root refers to is not even loaded. -/
theorem registered_reference :
    outcome (pass Alias.setting Alias.root) (start Alias.store Sample.model) = (.ok ⟨⟩, Alias.last) ∧
      Alias.last.Registered Alias.root ∧ Alias.root.ref? = some "b.json" ∧
      Alias.last.uris = ["schema.json"] ∧ Alias.last.store.hasLoaded "b.json" = false := by
  have hpasses : outcome (pass Alias.setting Alias.root) (start Alias.store Sample.model) = (.ok ⟨⟩, Alias.last) :=
    eq_ok_of_toBool (by decide +kernel)
  have hgenuine : Alias.store.Genuine := fun load hl => ⟨Alias.members, by rw [List.mem_singleton.1 hl]⟩
  have hroot : Alias.root ∈ Alias.store.nodes :=
    Store.mem_nodes.2 ⟨_, List.mem_singleton_self _,
      node_mem_survey (show (Position.root "schema.json").enter Alias.members = .ok (Alias.root, [("schema.json", [])])
        from rfl)⟩
  exact ⟨hpasses, registered_root_of_pass hgenuine hroot hpasses, rfl, by decide +kernel, by decide +kernel⟩

end Drafting

end SchemaAccessors
