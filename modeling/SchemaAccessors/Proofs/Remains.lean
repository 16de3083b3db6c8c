import SchemaAccessors.Proofs.OnDemand

/-!
# What a refused document leaves behind

A value that is no object is refused before the store has taken note of it. An object is taken down before it is
surveyed, and stays where it is when the survey halts: what was found up to there is found from now on, and the
URI is in use, so that no document is ever loaded under it again. What is given instead is the root of the refused
document, or nothing if the root itself was refused.
-/

namespace SchemaAccessors

namespace Store

variable {document : Json} {source uri fragment : String} {s t : Store} {cause : Failure}

/-! ## Loading under a URI that is in use, and under one that is not -/

/-- Under a URI that is not in use, a document is loaded if its survey comes to the end. -/
lemma exists_root_of_load {ms : Members} (hsplit : Uri.defragment source = .ok (uri, fragment))
    (hnew : s.hasLoaded uri = false) (hhalt : (survey (.root uri) (.obj ms)).halt? = none) :
    ∃ n, outcome (load (.obj ms) source) s = (.ok (.node n), ⟨s.loads ++ [⟨uri, survey (.root uri) (.obj ms)⟩]⟩) ∧
      n.parent? = none ∧ n.members = ms ∧ n.site.document = uri := by
  have hloading := loading_load hsplit (.obj ms) s
  generalize outcome (load (.obj ms) source) s = r at hloading
  cases hloading with
  | known used | lost used =>
    rw [hnew] at used
    cases used
  | refused new plain => exact (plain ms rfl).elim
  | halted new object halts =>
    rw [hhalt] at halts
    cases halts
  | @loaded ms' root rest new object ends begins =>
    cases henter : (Position.root uri).enter ms with
    | error cause => simp [survey_refused henter] at hhalt
    | ok entered =>
      obtain ⟨n, addresses⟩ := entered
      obtain ⟨own, base, rfl, -⟩ := Position.enter_spec henter
      rw [survey_entered henter] at begins
      obtain rfl := (List.cons.inj begins).1
      exact ⟨_, rfl, rfl, rfl, rfl⟩

/-! ## Refused documents -/

/-- How the store refuses a document: a value that is no object before it takes note of it, an object after that. -/
inductive Refused (s : Store) (uri : String) : Json → Failure → Store → Prop
  | unread {document : Json} (plain : ∀ ms, document ≠ .obj ms) : Refused s uri document (.notAnObject uri document) s
  | halted {ms : Members} {halt : Halt} (halts : (survey (.root uri) (.obj ms)).halt? = some halt) :
      Refused s uri (.obj ms) halt.cause ⟨s.loads ++ [⟨uri, survey (.root uri) (.obj ms)⟩]⟩

/-- Under a URI that is not in use, loading fails of the document alone. -/
lemma refused_of_new (hsplit : Uri.defragment source = .ok (uri, fragment)) (hnew : s.hasLoaded uri = false)
    (hload : outcome (load document source) s = (.error cause, t)) : Refused s uri document cause t := by
  have hloading := loading_load hsplit document s
  rw [hload] at hloading
  cases hloading with
  | lost used =>
    rw [hnew] at used
    cases used
  | refused new plain => exact .unread plain
  | halted new object halts =>
    subst object
    exact .halted halts

lemma refused_of_load (hload : outcome (load document source) s = (.error cause, t))
    (hfamily : cause.family = .schema) :
    ∃ uri fragment, Uri.defragment source = .ok (uri, fragment) ∧ s.hasLoaded uri = false ∧
      Refused s uri document cause t := by
  cases hsplit : Uri.defragment source with
  | error fault =>
    rw [outcome_load_of_fault hsplit] at hload
    obtain rfl := Except.error.inj (Prod.mk.inj hload).1
    cases hfamily
  | ok parts =>
    obtain ⟨uri, fragment⟩ := parts
    cases hused : s.hasLoaded uri with
    | true =>
      rw [outcome_load_of_used hsplit hused] at hload
      cases hroot : s.at? (uri, []) with
      | some e =>
        rw [hroot] at hload
        cases hload
      | none =>
        rw [hroot] at hload
        obtain rfl := Except.error.inj (Prod.mk.inj hload).1
        cases hfamily
    | false => exact ⟨uri, fragment, rfl, hused, refused_of_new hsplit hused hload⟩

/-- After a refusal the names of nodes lead where they led. The store is what it was, and refuses the document
again, if the document is no object, and only then; a valid document is then loaded under the URI. After the
refusal of an object its URI is in use: whatever the store is asked to load, it gives what has the address of the
refused document. -/
theorem load_after_refusal (hload : outcome (load document source) s = (.error cause, t))
    (hfamily : cause.family = .schema) :
    ∃ uri fragment, Uri.defragment source = .ok (uri, fragment) ∧
      (∀ loader name n, s.named? name = some n → outcome (resolve loader name) t = (.ok (.node n), t)) ∧
      (t = s ↔ ∀ ms, document ≠ .obj ms) ∧
      (outcome (load document source) t = (.error cause, t) ↔ ∀ ms, document ≠ .obj ms) ∧
      ((∀ ms, document ≠ .obj ms) → ∀ ms, (survey (.root uri) (.obj ms)).halt? = none →
        ∃ n, outcome (load (.obj ms) source) t =
            (.ok (.node n), ⟨t.loads ++ [⟨uri, survey (.root uri) (.obj ms)⟩]⟩) ∧
          n.parent? = none ∧ n.members = ms ∧ n.site.document = uri) ∧
      ∀ ms, document = .obj ms → t = ⟨s.loads ++ [⟨uri, survey (.root uri) (.obj ms)⟩]⟩ ∧
        ∀ document', outcome (load document' source) t = ((t.at? (uri, [])).elim (.error .lostRoot) .ok, t) := by
  obtain ⟨uri, fragment, hsplit, hnew, hrefused⟩ := refused_of_load hload hfamily
  have hkept : s.loads <+: t.loads := by
    have hprefix := loads_prefix_of_load document source s
    rwa [hload] at hprefix
  refine ⟨uri, fragment, hsplit, fun loader name n hn => ?_, ?_⟩
  · apply outcome_resolve_of_named
    rw [named?_since hkept, hn, Option.some_or]
  cases hrefused with
  | unread plain =>
    exact ⟨iff_of_true rfl plain, iff_of_true hload plain, fun _ ms hhalt => exists_root_of_load hsplit hnew hhalt,
      fun ms hms => absurd hms (plain ms)⟩
  | @halted ms halt halts =>
    have hobject : ¬ ∀ ms', Json.obj ms ≠ .obj ms' := fun h => h ms rfl
    have hused : hasLoaded ⟨s.loads ++ [⟨uri, survey (.root uri) (.obj ms)⟩]⟩ uri = true := by
      simp [hasLoaded_append]
    have hagain := outcome_load_of_used hsplit hused
    refine ⟨iff_of_false (fun hsame => ?_) hobject, iff_of_false (fun hsame => ?_) hobject,
      fun plain => absurd plain hobject, fun ms' hms => ?_⟩
    · have hlength := congrArg (·.loads.length) hsame
      simp at hlength
    · rw [hagain] at hsame
      cases hroot : at? ⟨s.loads ++ [⟨uri, survey (.root uri) (.obj ms)⟩]⟩ (uri, []) with
      | some e =>
        rw [hroot] at hsame
        cases hsame
      | none =>
        rw [hroot] at hsame
        rw [← Except.error.inj (Prod.mk.inj hsame).1] at hfamily
        cases hfamily
    · obtain rfl := Json.obj.inj hms
      exact ⟨rfl, hagain⟩

/-! ### A type that is not primitive -/

namespace Halfway

def dated : Members :=
  [("properties", .obj [("when", .obj [("type", .str "date")])])]

def valid : Members :=
  [("type", .str "object")]

def offline : Loader :=
  ⟨[], ⟨[]⟩, .top⟩

/-- The store that has refused the document with the date. -/
def left : Store :=
  (outcome (load (.obj dated) "a.json") empty).2

/-- The family and the wording of the failure that a result is. -/
def told : Except Failure Entry → Option (Failure.Family × String)
  | .error cause => some (cause.family, cause.message)
  | .ok _ => none

lemma exists_refusal : ∃ cause, outcome (load (.obj dated) "a.json") empty = (.error cause, left) ∧
    cause.family = .schema ∧ cause.message = "Unknown type 'date' at 'a.json#/properties/when'" := by
  have htold : told (outcome (load (.obj dated) "a.json") empty).1 =
      some (.schema, "Unknown type 'date' at 'a.json#/properties/when'") := by
    decide +kernel
  cases hresult : (outcome (load (.obj dated) "a.json") empty).1 with
  | error cause =>
    rw [hresult] at htold
    obtain ⟨hfamily, hmessage⟩ := Prod.mk.inj (Option.some.inj htold)
    exact ⟨cause, Prod.ext hresult rfl, hfamily, hmessage⟩
  | ok e =>
    rw [hresult] at htold
    cases htold

/-- What has the address of the refused document is its root. -/
lemma exists_root : ∃ n, left.at? ("a.json", []) = some (.node n) ∧ n.uri = "a.json" ∧
    n.members.map (·.1) = ["properties"] := by
  have hroot : ((left.at? ("a.json", [])).bind Entry.node?).map (fun n => (n.uri, n.members.map (·.1))) =
      some ("a.json", ["properties"]) := by
    decide +kernel
  obtain ⟨n, hn, htold⟩ := Option.map_eq_some_iff.1 hroot
  obtain ⟨huri, hkeys⟩ := Prod.mk.inj htold
  obtain ⟨e, he, hnode⟩ := Option.bind_eq_some_iff.1 hn
  refine ⟨n, ?_, huri, hkeys⟩
  cases e with
  | node m =>
    obtain rfl : m = n := Option.some.inj hnode
    exact he
  | plain value => cases hnode

end Halfway

/-- A document with a type `date` is refused, and after that its root is given in place of any document. -/
theorem load_after_refusal_of_date :
    ∃ cause n, outcome (load (.obj Halfway.dated) "a.json") empty = (.error cause, Halfway.left) ∧
      cause.family = .schema ∧ n.members.map (·.1) = ["properties"] ∧
      ∀ document, outcome (load document "a.json") Halfway.left = (.ok (.node n), Halfway.left) := by
  obtain ⟨cause, hload, hfamily, -⟩ := Halfway.exists_refusal
  obtain ⟨n, hroot, -, hkeys⟩ := Halfway.exists_root
  obtain ⟨uri, fragment, hsplit, -, -, -, -, hobject⟩ := load_after_refusal hload hfamily
  obtain rfl : "a.json" = uri := by
    have hparts : Uri.defragment "a.json" = .ok ("a.json", "") := by decide +kernel
    rw [hparts] at hsplit
    exact (Prod.mk.inj (Except.ok.inj hsplit)).1
  refine ⟨cause, n, hload, hfamily, hkeys, fun document => ?_⟩
  rw [(hobject _ rfl).2 document, hroot]
  rfl

/-- The refusal is not repeated, a valid document is not loaded, and a URI that could not be resolved can be. -/
theorem not_refused_again :
    ∃ cause n, outcome (load (.obj Halfway.dated) "a.json") empty = (.error cause, Halfway.left) ∧
      cause.family = .schema ∧ cause.message = "Unknown type 'date' at 'a.json#/properties/when'" ∧
      outcome (load (.obj Halfway.dated) "a.json") Halfway.left = (.ok (.node n), Halfway.left) ∧
      outcome (load (.obj Halfway.valid) "a.json") Halfway.left = (.ok (.node n), Halfway.left) ∧
      n.members.map (·.1) ≠ Halfway.valid.map (·.1) ∧
      outcome (resolve Halfway.offline "a.json") empty = (.error (.notFetchable "a.json"), empty) ∧
      ∃ m, outcome (resolve Halfway.offline "a.json") Halfway.left = (.ok (.node m), Halfway.left) := by
  obtain ⟨cause, hload, hfamily, hmessage⟩ := Halfway.exists_refusal
  obtain ⟨n, hroot, huri, hkeys⟩ := Halfway.exists_root
  have hsplit : Uri.defragment "a.json" = .ok ("a.json", "") := by decide +kernel
  have hused : Halfway.left.hasLoaded "a.json" = true := by decide +kernel
  have hagain (document : Json) :
      outcome (load document "a.json") Halfway.left = (.ok (.node n), Halfway.left) := by
    rw [outcome_load_of_used hsplit hused, hroot]
    rfl
  refine ⟨cause, n, hload, hfamily, hmessage, hagain _, hagain _, by rw [hkeys]; decide, ?_, ?_⟩
  · exact outcome_resolve_of_fetch_error hsplit rfl rfl rfl
  · obtain ⟨m, hm⟩ : ∃ m, Halfway.left.named? "a.json" = some m := Option.isSome_iff_exists.1 (by decide +kernel)
    exact ⟨m, outcome_resolve_of_named hm⟩

end Store

end SchemaAccessors
