import SchemaAccessors.Proofs.Addresses
import SchemaAccessors.Proofs.Stability

/-!
# Documents loaded on demand

A document is loaded when it is first asked for, or before. A store that has the document looks for a node of the
name first, and for the place that a pointer leads to if there is none. A store that has to load the document has
looked for the name before that, in vain, and then looks for it again only if the fragment is no pointer. The two
agree unless a node has a name with a pointer that leads elsewhere, or nowhere.
-/

namespace SchemaAccessors

/-- What an entry shows of itself: its URI if it is a node, and its JSON. -/
def Entry.shown : Entry → Option String × Json
  | node n => (some n.uri, .obj n.members)
  | plain value => (none, value)

namespace Store

/-- A fragment that is read as a pointer. -/
abbrev IsPointer (fragment : String) : Prop :=
  fragment = "" ∨ fragment.startsWith "/"

/-- The result of a search for what a URI leads to. -/
def result (uri : String) (found : Option Entry) : Except Failure Entry :=
  found.elim (.error (.unresolved uri)) .ok

/-! ## Resolving in the two ways -/

section Ways

variable {loader : Loader} {document : Json} {source uri fragment : String} {root : Entry} {s : Store}

lemma pointed?_eq_none (hsplit : Uri.defragment source = .ok (uri, fragment)) (hpointer : ¬ IsPointer fragment) :
    s.pointed? source = none := by
  unfold pointed?
  rw [hsplit]
  exact if_neg hpointer

/-- A store that has the document answers, and loads nothing. -/
lemma outcome_resolve_of_root (hsplit : Uri.defragment source = .ok (uri, fragment))
    (hroot : s.at? (uri, []) = some root) :
    outcome (resolve loader source) s = (result source (s.answer? source), s) := by
  have hloaded : outcome (ensureLoaded loader uri) s = (.ok ⟨⟩, s) := by
    unfold ensureLoaded
    rw [outcome_bind_of_ok (outcome_get s), hroot]
    rfl
  cases hnamed : s.named? source with
  | some n =>
    rw [outcome_resolve_of_named hnamed, answer?, hnamed]
    rfl
  | none =>
    unfold resolve
    rw [outcome_bind_of_ok (outcome_get s), hnamed]
    dsimp only
    rw [outcome_bind_of_ok (outcome_split_of_ok hsplit s), outcome_bind_of_ok hloaded,
      outcome_bind_of_ok (outcome_get s), answer?, hnamed, pointed?, hsplit]
    dsimp only
    by_cases hpointer : IsPointer fragment
    · rw [if_pos hpointer, if_pos hpointer]
      cases s.at? (uri, Uri.pointer fragment) <;> rfl
    · rw [if_neg hpointer, if_neg hpointer]
      rfl

/-- Without the document, the loader is asked for it, and what it fails with is the end. -/
lemma outcome_resolve_of_fetch_error {cause : Failure} (hsplit : Uri.defragment source = .ok (uri, fragment))
    (hnamed : s.named? source = none) (hroot : s.at? (uri, []) = none) (hfetch : loader.fetch uri = .error cause) :
    outcome (resolve loader source) s = (.error cause, s) := by
  have hfetched : outcome (ExceptT.mk (pure (loader.fetch uri)) : StoreM Json) s = (.error cause, s) := by
    rw [hfetch]
    rfl
  have hfailed : outcome (ensureLoaded loader uri) s = (.error cause, s) := by
    unfold ensureLoaded
    rw [outcome_bind_of_ok (outcome_get s), hroot]
    exact outcome_bind_of_error hfetched
  unfold resolve
  rw [outcome_bind_of_ok (outcome_get s), hnamed]
  dsimp only
  rw [outcome_bind_of_ok (outcome_split_of_ok hsplit s)]
  exact outcome_bind_of_error hfailed

/-- An empty store loads the document, and then looks in one way only. -/
lemma outcome_resolve_empty (hsplit : Uri.defragment source = .ok (uri, fragment))
    (hfetch : loader.fetch uri = .ok document) (hload : outcome (load document uri) empty = (.ok root, s)) :
    outcome (resolve loader source) empty =
      (result source
        (if IsPointer fragment then s.at? (uri, Uri.pointer fragment) else (s.named? source).map .node), s) := by
  have hloaded : outcome (ensureLoaded loader uri) empty = (.ok ⟨⟩, s) := by
    have hfetched : outcome (ExceptT.mk (pure (loader.fetch uri)) : StoreM Json) empty = (.ok document, empty) := by
      rw [hfetch]
      rfl
    unfold ensureLoaded
    rw [outcome_bind_of_ok (outcome_get empty)]
    show outcome (ExceptT.mk (pure (loader.fetch uri)) >>=
      fun document => load document uri >>= fun _ => pure PUnit.unit) empty = _
    rw [outcome_bind_of_ok hfetched, outcome_bind_of_ok hload]
    rfl
  unfold resolve
  rw [outcome_bind_of_ok (outcome_get empty)]
  show outcome (split source >>= _) empty = _
  rw [outcome_bind_of_ok (outcome_split_of_ok hsplit empty), outcome_bind_of_ok hloaded,
    outcome_bind_of_ok (outcome_get s)]
  dsimp only
  cases if IsPointer fragment then s.at? (uri, Uri.pointer fragment) else (s.named? source).map .node <;> rfl

/-- On demand or before, the same is loaded. What is found is the same as well, if no node has the URI for a name,
or the fragment is no pointer, or the pointer leads to a node with the URI and the JSON of the first one of that
name; and only then. -/
theorem resolve_on_demand_iff (hsplit : Uri.defragment source = .ok (uri, fragment))
    (hfetch : loader.fetch uri = .ok document) (hload : outcome (load document uri) empty = (.ok root, s)) :
    (outcome (resolve loader source) empty).2 = s ∧ (outcome (resolve loader source) s).2 = s ∧
      ((outcome (resolve loader source) empty).1.map Entry.shown =
          (outcome (resolve loader source) s).1.map Entry.shown ↔
        (IsPointer fragment → ∀ n, s.named? source = some n →
          (s.at? (uri, Uri.pointer fragment)).map Entry.shown = some (Entry.node n).shown)) := by
  obtain ⟨first, hroot⟩ := exists_at?_of_load (Uri.defragment_of_defragment hsplit) hload
  rw [outcome_resolve_empty hsplit hfetch hload, outcome_resolve_of_root hsplit hroot]
  refine ⟨rfl, rfl, ?_⟩
  dsimp only
  by_cases hpointer : IsPointer fragment
  · rw [if_pos hpointer, answer?, pointed?_eq_at? hsplit hpointer]
    cases hnamed : s.named? source with
    | none => simp
    | some n =>
      cases s.at? (uri, Uri.pointer fragment) with
      | none => simp [result, Except.map, hpointer]
      | some e => simp [result, Except.map, hpointer]
  · rw [if_neg hpointer, answer?, pointed?_eq_none hsplit hpointer, Option.or_none]
    simp [hpointer]

/-- Where names that point to a place are those of the node there, a name and its pointer lead to the same. -/
lemma at?_of_isCoherent (h : s.isCoherent = true) (hsplit : Uri.defragment source = .ok (uri, fragment))
    (hpointer : IsPointer fragment) {n : SchemaNode} (hn : s.named? source = some n) :
    s.at? (uri, Uri.pointer fragment) = some (.node n) := by
  have hcoherent := coherent_of_isCoherent h
  rw [isCoherent, Bool.and_eq_true, List.all_eq_true] at h
  obtain ⟨x, hx, hentry⟩ := holds_of_named? hn
  have hnode : x.entry.node? = some n := by
    rw [hentry]
    rfl
  have hunder := h.2 x hx
  rw [hnode, Option.all_some, List.all_eq_true] at hunder
  have hsource := hunder source (of_named? hn)
  unfold isUnder at hsource
  rw [hsplit] at hsource
  have haddress : (uri, Uri.pointer fragment) ∈ x.addresses := by
    rcases hpointer with hempty | hslash
    · simpa [hempty] using hsource
    · simpa [hslash] using hsource
  obtain ⟨e, he⟩ := isSome_at? hx haddress
  obtain ⟨y, hy, hya, rfl⟩ := of_at? he
  rw [he, hcoherent.addresses y hy x hx _ hya haddress, hentry]

end Ways

/-! ### An identifier that looks like a pointer -/

namespace Demanded

def widget : Members :=
  [("$id", .str "#/definitions/widget"), ("type", .str "object")]

def anchored : Members :=
  [("$id", .str "#top"), ("items", .obj [("$anchor", .str "/items")])]

def loader (members : Members) : Loader :=
  ⟨[("w.json", .obj members)], ⟨[]⟩, .top⟩

/-- The store into which a document was loaded. -/
def loaded (members : Members) : Store :=
  (outcome (load (.obj members) "w.json") empty).2

def source : String := "w.json#/definitions/widget"

end Demanded

/-- The widget is found by its name if the document was loaded before, and it is not found on demand. -/
theorem not_found_on_demand :
    Uri.defragment Demanded.source = .ok ("w.json", "/definitions/widget") ∧
      (Demanded.loader Demanded.widget).fetch "w.json" = .ok (.obj Demanded.widget) ∧
      ∃ root n, outcome (load (.obj Demanded.widget) "w.json") empty = (.ok root, Demanded.loaded Demanded.widget) ∧
        outcome (resolve (Demanded.loader Demanded.widget) Demanded.source) (Demanded.loaded Demanded.widget) =
          (.ok (.node n), Demanded.loaded Demanded.widget) ∧
        outcome (resolve (Demanded.loader Demanded.widget) Demanded.source) empty =
          (.error (.unresolved Demanded.source), Demanded.loaded Demanded.widget) := by
  have hsplit : Uri.defragment Demanded.source = .ok ("w.json", "/definitions/widget") := by decide +kernel
  have hfetch : (Demanded.loader Demanded.widget).fetch "w.json" = .ok (.obj Demanded.widget) := rfl
  obtain ⟨root, hload⟩ :
      ∃ root, outcome (load (.obj Demanded.widget) "w.json") empty = (.ok root, Demanded.loaded Demanded.widget) :=
    exists_of_toBool (by decide +kernel)
  obtain ⟨n, hnamed⟩ : ∃ n, (Demanded.loaded Demanded.widget).named? Demanded.source = some n :=
    Option.isSome_iff_exists.1 (by decide +kernel)
  have hnowhere : (Demanded.loaded Demanded.widget).at? ("w.json", Uri.pointer "/definitions/widget") = none :=
    Option.isNone_iff_eq_none.1 (by decide +kernel)
  refine ⟨hsplit, hfetch, root, n, hload, outcome_resolve_of_named hnamed, ?_⟩
  rw [outcome_resolve_empty hsplit hfetch hload, if_pos (by decide +kernel), hnowhere]
  rfl

/-- An anchor that looks like a pointer, and that is put where the pointer leads. -/
theorem resolve_on_demand_of_anchor :
    ((Demanded.loaded Demanded.anchored).named? "w.json#/items").isSome ∧
      (outcome (resolve (Demanded.loader Demanded.anchored) "w.json#/items") empty).1.map Entry.shown =
        (outcome (resolve (Demanded.loader Demanded.anchored) "w.json#/items")
          (Demanded.loaded Demanded.anchored)).1.map Entry.shown := by
  have hsplit : Uri.defragment "w.json#/items" = .ok ("w.json", "/items") := by decide +kernel
  have hcoherent : (Demanded.loaded Demanded.anchored).isCoherent = true := by decide +kernel
  obtain ⟨root, hload⟩ :
      ∃ root, outcome (load (.obj Demanded.anchored) "w.json") empty = (.ok root, Demanded.loaded Demanded.anchored) :=
    exists_of_toBool (by decide +kernel)
  refine ⟨by decide +kernel, (resolve_on_demand_iff hsplit rfl hload).2.2.2 fun hpointer n hn => ?_⟩
  rw [at?_of_isCoherent hcoherent hsplit hpointer hn]
  rfl

end Store

end SchemaAccessors
