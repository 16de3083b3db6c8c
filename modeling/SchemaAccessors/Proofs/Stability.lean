import Mathlib.Data.List.Infix
import SchemaAccessors.Proofs.Settled

/-!
# Answers of a store while documents are added

A store is asked to load, to resolve and to follow references, and every call leaves what was there before. Names
and addresses are kept in different ways: the first node with a name keeps it, and the last place with an address
has it. So a URI that is the name of a node leads to that node for good. A URI that was resolved to a place, and
the URI of a document, lead to the same as before for as long as no document answers to them that came later: an
`$id` with the URI of another document takes the addresses of that document over.
-/

namespace SchemaAccessors

namespace Store

variable {loader : Loader} {s t u : Store}

/-! ## Calls -/

/-- What a store can be asked for. -/
inductive Call
  | load (document : Json) (uri : String)
  | resolve (uri : String)
  | deref (entry : Entry)

def Call.run (loader : Loader) : Call → StoreM Entry
  | load document uri => Store.load document uri
  | resolve uri => Store.resolve loader uri
  | deref entry => Store.deref loader entry

/-- Loading leaves the documents that were loaded before. -/
lemma loads_prefix_of_load (document : Json) (source : String) (s : Store) :
    s.loads <+: (outcome (load document source) s).2.loads := by
  cases hsplit : Uri.defragment source with
  | error fault => rw [outcome_load_of_fault hsplit]
  | ok parts =>
    have hloading := loading_load hsplit document s
    generalize outcome (load document source) s = r at hloading
    cases hloading with
    | known | lost | refused => exact List.prefix_refl _
    | halted | loaded => exact List.prefix_append _ _

lemma loads_prefix_of_call (call : Call) (s : Store) :
    s.loads <+: (outcome (call.run loader) s).2.loads := by
  cases call with
  | load document uri => exact loads_prefix_of_load document uri s
  | resolve uri => exact (reads_resolve loader uri s).loads_extend
  | deref entry => exact (reads_deref loader entry s).loads_extend

/-- However many calls are made, the documents that were loaded before stay. -/
lemma loads_prefix_of_calls (calls : List Call) (s : Store) :
    s.loads <+: (outcome (calls.mapM (Call.run loader)) s).2.loads :=
  outcome_mapM_leads (R := fun s t => s.loads <+: t.loads) (fun _ => List.prefix_refl _) List.IsPrefix.trans calls
    (fun call _ s => loads_prefix_of_call call s) s

/-! ## What was added -/

/-- What a store has, and an earlier one does not. -/
def since (s t : Store) : Store :=
  ⟨t.loads.drop s.loads.length⟩

lemma places_since (h : s.loads <+: t.loads) : t.places = s.places ++ (since s t).places := by
  obtain ⟨rest, hrest⟩ := h
  have hdrop : t.loads.drop s.loads.length = rest := by
    rw [← hrest, List.drop_left]
  unfold places since
  rw [hdrop, ← hrest, List.flatMap_append]

/-- A name that a node has is not given to another one. -/
lemma named?_since (h : s.loads <+: t.loads) (uri : String) :
    t.named? uri = (s.named? uri).or ((since s t).named? uri) := by
  unfold named?
  rw [places_since h, List.findSome?_append]

/-- An address is that of the place that came last. -/
lemma at?_since (h : s.loads <+: t.loads) (address : Address) :
    t.at? address = ((since s t).at? address).or (s.at? address) := by
  unfold at?
  simp only [List.findRev?_eq_find?_reverse]
  rw [places_since h, List.reverse_append, List.find?_append, Option.map_or]

/-- The place that a URI points to, if its fragment is a pointer. -/
def pointed? (s : Store) (uri : String) : Option Entry :=
  match Uri.defragment uri with
  | .ok (document, fragment) =>
    if fragment = "" ∨ fragment.startsWith "/" then s.at? (document, Uri.pointer fragment) else none
  | .error _ => none

/-- What a store answers to a URI: the node of that name, or else the place that it points to. -/
def answer? (s : Store) (uri : String) : Option Entry :=
  ((s.named? uri).map .node).or (s.pointed? uri)

lemma pointed?_eq_at? {uri document fragment : String} (hsplit : Uri.defragment uri = .ok (document, fragment))
    (hpointer : fragment = "" ∨ fragment.startsWith "/") (s : Store) :
    s.pointed? uri = s.at? (document, Uri.pointer fragment) := by
  unfold pointed?
  rw [hsplit]
  exact if_pos hpointer

/-- The names that a store had come first, then those added; of the places, those added come first. -/
lemma answer?_since (h : s.loads <+: t.loads) (uri : String) :
    ((s.named? uri).map Entry.node).or ((since s t).answer? uri) =
      ((t.named? uri).map Entry.node).or ((since s t).pointed? uri) := by
  rw [answer?, named?_since h, Option.map_or, Option.or_assoc]

lemma prefix_loads_since (h : u.loads <+: t.loads) : (since s u).loads <+: (since s t).loads :=
  h.drop s.loads.length

/-- Where nothing added has an address, nothing added before that had it. -/
lemma at?_since_of_none (hsu : s.loads <+: u.loads) (hut : u.loads <+: t.loads) {address : Address}
    (h : (since s t).at? address = none) : u.at? address = s.at? address := by
  rw [at?_since (prefix_loads_since hut), Option.or_eq_none_iff] at h
  rw [at?_since hsu, h.2, Option.none_or]

/-! ## Resolving once more -/

lemma outcome_resolve_of_named {uri : String} {n : SchemaNode} (h : t.named? uri = some n) :
    outcome (resolve loader uri) t = (.ok (.node n), t) := by
  unfold resolve
  rw [outcome_bind_of_ok (outcome_get t), h]
  rfl

/-- Without a node of its name, a URI that points into a document of the store is resolved to a place. -/
lemma outcome_resolve_of_at? {uri document fragment : String} {root e : Entry}
    (hsplit : Uri.defragment uri = .ok (document, fragment)) (hpointer : fragment = "" ∨ fragment.startsWith "/")
    (hnamed : t.named? uri = none) (hroot : t.at? (document, []) = some root)
    (h : t.at? (document, Uri.pointer fragment) = some e) : outcome (resolve loader uri) t = (.ok e, t) := by
  have hloaded : outcome (ensureLoaded loader document) t = (.ok ⟨⟩, t) := by
    unfold ensureLoaded
    rw [outcome_bind_of_ok (outcome_get t), hroot]
    rfl
  unfold resolve
  rw [outcome_bind_of_ok (outcome_get t), hnamed, outcome_bind_of_ok (outcome_split_of_ok hsplit t),
    outcome_bind_of_ok hloaded, outcome_bind_of_ok (outcome_get t)]
  dsimp only
  rw [if_pos hpointer, h]
  rfl

/-- What was resolved: a node by its name, or without one a place, in a document of the store. -/
lemma cases_of_resolve {uri : String} {e : Entry} (h : outcome (resolve loader uri) s = (.ok e, u)) :
    (∃ n, u.named? uri = some n ∧ e = .node n) ∨
      ∃ document fragment root, Uri.defragment uri = .ok (document, fragment) ∧
        (fragment = "" ∨ fragment.startsWith "/") ∧ u.at? (document, []) = some root ∧
        u.at? (document, Uri.pointer fragment) = some e := by
  unfold resolve at h
  rw [outcome_bind_of_ok (outcome_get s)] at h
  split at h
  · next n hn =>
    obtain ⟨rfl, rfl⟩ : .node n = e ∧ s = u := by
      simpa using h
    exact .inl ⟨n, hn, rfl⟩
  obtain ⟨⟨document, fragment⟩, s', hsplit, h⟩ := outcome_bind_eq_ok h
  obtain ⟨⟨⟩, u', hload, h⟩ := outcome_bind_eq_ok h
  rw [outcome_bind_of_ok (outcome_get u')] at h
  have hparts : Uri.defragment uri = .ok (document, fragment) := by
    cases hd : Uri.defragment uri with
    | error fault => simp [outcome_split, hd, Except.mapError] at hsplit
    | ok found => simpa [outcome_split, hd, Except.mapError, eq_comm] using congrArg Prod.fst hsplit
  obtain ⟨root, hroot⟩ := exists_at?_of_ensureLoaded (Uri.defragment_of_defragment hparts) hload
  dsimp only at h
  split at h
  · next e' he =>
    obtain ⟨rfl, rfl⟩ : e' = e ∧ u' = u := by
      simpa using h
    by_cases hpointer : fragment = "" ∨ fragment.startsWith "/"
    · rw [if_pos hpointer] at he
      exact .inr ⟨document, fragment, root, hparts, hpointer, hroot, he⟩
    · rw [if_neg hpointer] at he
      obtain ⟨n, hn, rfl⟩ := Option.map_eq_some_iff.1 he
      exact .inl ⟨n, hn, rfl⟩
  · simp at h

/-- Resolving a URI once more gives a node of that name if there was one, or else what was added and answers to
it, or else what it gave before. -/
lemma resolve_since {uri : String} {e : Entry} (h : outcome (resolve loader uri) s = (.ok e, u))
    (hut : u.loads <+: t.loads) :
    outcome (resolve loader uri) t =
      (.ok ((((s.named? uri).map Entry.node).or ((since s t).answer? uri)).getD e), t) := by
  have hsu : s.loads <+: u.loads := by
    have hreads := (reads_resolve loader uri s).loads_extend
    rwa [h] at hreads
  rw [answer?_since (hsu.trans hut)]
  cases hn : t.named? uri with
  | some n => exact outcome_resolve_of_named hn
  | none =>
    have hnamed : u.named? uri = none := by
      rw [named?_since hut, Option.or_eq_none_iff] at hn
      exact hn.1
    rcases cases_of_resolve h with ⟨n, hn', -⟩ | ⟨document, fragment, root, hsplit, hpointer, hroot, he⟩
    · rw [hnamed] at hn'
      cases hn'
    · have hroot' : ∃ root', t.at? (document, []) = some root' := by
        rw [at?_since hut, hroot]
        cases (since u t).at? (document, []) with
        | none => exact ⟨root, rfl⟩
        | some root' => exact ⟨root', rfl⟩
      obtain ⟨root', hroot'⟩ := hroot'
      refine outcome_resolve_of_at? hsplit hpointer hn hroot' ?_
      rw [pointed?_eq_at? hsplit hpointer, at?_since (hsu.trans hut)]
      cases hat : (since s t).at? (document, Uri.pointer fragment) with
      | some e' => rfl
      | none =>
        rw [← at?_since_of_none hsu hut hat, he]
        rfl

/-! ## Loading once more -/

lemma outcome_load_of_hasLoaded {source uri fragment : String} {e : Entry}
    (hsplit : Uri.defragment source = .ok (uri, fragment)) (hloaded : t.hasLoaded uri = true)
    (h : t.at? (uri, []) = some e) (document : Json) : outcome (load document source) t = (.ok e, t) := by
  rw [outcome_load_of_used hsplit hloaded, h]
  rfl

/-- A load gives what had the address of the document, or it adds something that has. -/
lemma cases_of_load {document : Json} {source uri fragment : String} {e : Entry}
    (hsplit : Uri.defragment source = .ok (uri, fragment)) (h : outcome (load document source) s = (.ok e, u)) :
    u.hasLoaded uri = true ∧ (s.at? (uri, []) = some e ∨ ∃ e', (since s u).at? (uri, []) = some e') := by
  have hloading := loading_load hsplit document s
  rw [h] at hloading
  cases hloading with
  | known used found => exact ⟨used, .inl found⟩
  | loaded new object ends begins =>
    subst object
    obtain ⟨x, hx, hxa⟩ := exists_place_of_root ends
    refine ⟨by simp [hasLoaded], .inr (isSome_at? (p := x) ?_ hxa)⟩
    simp [places, since, hx]

/-- Loading under the URI of a document once more gives what was added under that URI, or else what the load gave
before. -/
lemma load_since {document : Json} {source uri fragment : String} {e : Entry}
    (hsplit : Uri.defragment source = .ok (uri, fragment)) (h : outcome (load document source) s = (.ok e, u))
    (hut : u.loads <+: t.loads) (document' : Json) :
    outcome (load document' source) t = (.ok (((since s t).at? (uri, [])).getD e), t) := by
  have hsu : s.loads <+: u.loads := by
    have hprefix := loads_prefix_of_load document source s
    rwa [h] at hprefix
  obtain ⟨hloaded, hcases⟩ := cases_of_load hsplit h
  have hloaded' : t.hasLoaded uri = true := by
    rw [hasLoaded, List.any_eq_true] at hloaded ⊢
    obtain ⟨load, hload, huri⟩ := hloaded
    exact ⟨load, hut.subset hload, huri⟩
  refine outcome_load_of_hasLoaded hsplit hloaded' ?_ document'
  rw [at?_since (hsu.trans hut)]
  cases hat : (since s t).at? (uri, []) with
  | some e' => rfl
  | none =>
    rcases hcases with he | ⟨e', he'⟩
    · exact he
    · rw [at?_since (prefix_loads_since hut), he', Option.or_eq_none_iff] at hat
      cases hat.2

/-! ## What is answered in the end -/

/-- What a URI was resolved to, and what the load of a document gave, is given again after any calls, unless what
was added since answers to the URI. A URI that was the name of a node before leads to that node for good. -/
theorem answers_after_calls {calls : List Call} {answers : List Entry}
    (hcalls : outcome (calls.mapM (Call.run loader)) u = (.ok answers, t)) :
    (∀ s uri e, outcome (resolve loader uri) s = (.ok e, u) →
      outcome (resolve loader uri) t =
        (.ok ((((s.named? uri).map Entry.node).or ((since s t).answer? uri)).getD e), t)) ∧
    ∀ s document source uri fragment e, Uri.defragment source = .ok (uri, fragment) →
      outcome (load document source) s = (.ok e, u) →
      ∀ document', outcome (load document' source) t = (.ok (((since s t).at? (uri, [])).getD e), t) := by
  have hut : u.loads <+: t.loads := by
    have hcalled : u.loads <+: (outcome (calls.mapM (Call.run loader)) u).2.loads := loads_prefix_of_calls calls u
    rwa [hcalls] at hcalled
  constructor
  · intro s uri e hresolve
    exact resolve_since hresolve hut
  · intro s document source uri fragment e hsplit hload document'
    exact load_since hsplit hload hut document'

/-! ### An identifier that is the URI of another document -/

/-- Calls to resolve one URI have one answer. -/
def ResolvesAlike (calls : List Call) (answers : List Entry) : Prop :=
  ∀ (i j : Nat) uri, calls[i]? = some (Call.resolve uri) → calls[j]? = some (Call.resolve uri) →
     answers[i]? = answers[j]?

/-- Calls to load documents under one URI have one answer. -/
def LoadsAlike (calls : List Call) (answers : List Entry) : Prop :=
  ∀ (i j : Nat) uri document document', calls[i]? = some (Call.load document uri) →
    calls[j]? = some (Call.load document' uri) →
    answers[i]? = answers[j]?

namespace Taken

def first : Json :=
  .obj [("properties", .obj [("x", .bool true)])]

def second : Json :=
  .obj [("$id", .str "a.json"), ("properties", .obj [("x", .bool false)])]

def offline : Loader :=
  ⟨[], ⟨[]⟩, .top⟩

def uri : String := "a.json#/properties/x"

def calls : List Call :=
  [.load first "a.json", .resolve uri, .load second "b.json", .resolve uri, .load first "a.json"]

/-- The store with the first document. -/
def before : Store :=
  (outcome (load first "a.json") empty).2

/-- The store in which the URI is resolved. -/
def resolved : Store :=
  (outcome (resolve offline uri) before).2

/-- The store with both documents. -/
def after : Store :=
  (outcome ([Call.load second "b.json"].mapM (Call.run offline)) resolved).2

/-- The document of a node, and the value of a schema that is no object. -/
def mark : Entry → Option String × Option Bool
  | .node n => (some n.site.document, none)
  | .plain (.bool b) => (none, some b)
  | .plain _ => (none, none)

end Taken

/-- The property is another one and the root is another one as soon as the second document is loaded. -/
theorem taken_over_by_identifier :
    ∃ answers s, outcome (Taken.calls.mapM (Call.run Taken.offline)) empty = (.ok answers, s) ∧
      ¬ ResolvesAlike Taken.calls answers ∧ ¬ LoadsAlike Taken.calls answers := by
  obtain ⟨answers, hrun, hmarks⟩ := exists_of_map_toOption (f := fun answers => answers.map Taken.mark)
    (x := Taken.calls.mapM (Call.run Taken.offline)) (s := empty)
    (b := [(some "a.json", none), (none, some true), (some "b.json", none), (none, some false), (some "b.json", none)])
    (by decide +kernel)
  have hmark (i : Nat) := congrArg (·[i]?) hmarks
  simp only [List.getElem?_map] at hmark
  refine ⟨answers, _, hrun, fun halike => ?_, fun halike => ?_⟩
  · have hsame := halike 1 3 Taken.uri rfl rfl
    have h1 := hmark 1
    rw [hsame, hmark 3] at h1
    exact absurd h1 (by decide)
  · have hsame := halike 0 4 "a.json" Taken.first Taken.first rfl rfl
    have h0 := hmark 0
    rw [hsame, hmark 4] at h0
    exact absurd h0 (by decide)

/-- The property was resolved in the first document, and then the second one answers to its URI. -/
theorem answers_after_calls_of_identifier :
    ∃ e e', outcome (resolve Taken.offline Taken.uri) Taken.before = (.ok e, Taken.resolved) ∧
      outcome (resolve Taken.offline Taken.uri) Taken.after = (.ok e', Taken.after) ∧
      Taken.mark e = (none, some true) ∧ Taken.mark e' = (none, some false) := by
  obtain ⟨e, he, hmark⟩ := exists_of_map_toOption (f := Taken.mark) (x := resolve Taken.offline Taken.uri)
    (s := Taken.before) (b := (none, some true)) (by decide +kernel)
  obtain ⟨answers, hcalls, -⟩ := exists_of_map_toOption (f := List.length)
    (x := [Call.load Taken.second "b.json"].mapM (Call.run Taken.offline)) (s := Taken.resolved) (b := 1)
    (by decide +kernel)
  change outcome _ Taken.resolved = (.ok answers, Taken.after) at hcalls
  have hadded : ((((Taken.before.named? Taken.uri).map Entry.node).or
      ((since Taken.before Taken.after).answer? Taken.uri)).map Taken.mark) = some (none, some false) := by
    decide +kernel
  obtain ⟨e', he', hmark'⟩ := Option.map_eq_some_iff.1 hadded
  have hagain := (answers_after_calls hcalls).1 Taken.before Taken.uri e he
  refine ⟨e, e', he, ?_, hmark, hmark'⟩
  rw [he'] at hagain
  exact hagain

end Store

end SchemaAccessors
