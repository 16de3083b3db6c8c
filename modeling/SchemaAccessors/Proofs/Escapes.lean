import SchemaAccessors.Proofs.Failing
import SchemaAccessors.Proofs.Rendering
import SchemaAccessors.Proofs.Validity

/-!
# What escapes from a generation

A generation gives files, or fails, and most of what it fails of is reported. The rest escapes: failures of its parts
that nothing on the way turns into reported ones (`Escape`). Each has its cause in a text that cannot be read as a URI,
in a document that a reference leads to, in a `type` that is refused and cannot be shown, in a name with very many
digits, or in a default that is a very large integer. So a document without these is either generated for or refused
with a report, if the loader knows finitely many.

All of this is said of texts of Unicode scalar values, which is what a `String` has, and of integers of no more than
`Number.mostDigits` digits, which is what a reader gives. What shows a longer integer does not fail here, and a text
with a surrogate has no place in a `Json` at all: documents with such texts are looked at in `Proofs/TypeChecks.lean`.
-/

namespace SchemaAccessors

/-! ## Defaults -/

namespace SchemaNode

lemma default?_of_literal? {n : SchemaNode} {value : Json} (h : n.literal? = some value) : n.default? = some value := by
  unfold literal? at h
  split at h <;> simp_all

end SchemaNode

namespace Drafting

/-- The values that methods on a filled type give by themselves are defaults of nodes. -/
lemma Written.exists_of_value? {d : Drafting} {n : SchemaNode} {method : Method} {value : Json}
    (h : Written d n method) (hvalue : method.value? = some value) :
    ∃ m ∈ d.store.nodes, m.literal? = some value := by
  have hwrap (r : TypeRef) (lookup : Expr) : (r.wrap lookup).value? = lookup.value? := by
    unfold TypeRef.wrap
    split <;> rfl
  cases h with
  | getter h => simp [h, Method.value?, RawKind.getter, Expr.value?] at hvalue
  | property key required m r suffix declared held h =>
    rw [propertyAccessors_eq] at h
    rcases List.mem_cons.1 h with rfl | h
    · have hliteral : m.literal? = some value := by
        simpa [Method.value?, hwrap, Expr.value?] using hvalue
      exact ⟨m, held, hliteral⟩
    · split at h
      · rw [List.mem_singleton.1 h] at hvalue
        cases hvalue
      · cases h
  | item m r suffix held h =>
    have hliteral : m.literal? = some value := by
      simpa [h, Method.value?, itemAccessor_eq, hwrap, Expr.value?] using hvalue
    exact ⟨m, held, hliteral⟩
  | size h => simp [h, Method.value?, sizeAccessor, Expr.value?] at hvalue

/-- Behind a pass that succeeds, every value that a method gives by itself is the default of a node. -/
lemma exists_literal?_of_pass {s : Setting} {store : Store} {root : SchemaNode} {model : Model} {trace : Trace}
    {d : Drafting} (hstore : store.Genuine) (hmodel : model.types = []) (hroot : root ∈ store.nodes)
    (hok : outcome (pass s root) { start store model with trace } = (.ok ⟨⟩, d)) :
    ∀ t ∈ d.model.types, ∀ method ∈ t.methods, ∀ value, method.value? = some value →
      ∃ n ∈ d.store.nodes, n.literal? = some value := by
  intro t ht method hmethod value hvalue
  have haccounted : Accounted s store root (fun _ => {}) [] [] (start store model) := accounted_start hstore _
  obtain ⟨-, hfilled⟩ := filled_of_pass (haccounted.read .refl trace) (owned_start store hmodel) hroot hok
  obtain ⟨n, -, -, f, hf⟩ := hfilled t ht
  exact (hf.written hmethod).exists_of_value? hvalue

end Drafting

/-! ## Usable configurations -/

/-- A configuration for a language in which every option has a value of the kind that its use needs. -/
structure Config.Usable (c : Config) (l : Language) : Prop where
  target : c.target = .ok l
  package : l = .java → ∃ package, c.javaPackage = .str package
  attempts : ∃ n, c.maxNameAttempts = .int n
  formatter : ∃ options, c.formatter = .options options

lemma Config.usable_default (l : Language) : Config.Usable { language := .str l.name } l where
  target := by cases l <;> rfl
  package _ := ⟨"", rfl⟩
  attempts := ⟨1000, rfl⟩
  formatter := ⟨{}, rfl⟩

lemma Config.Usable.exists_namespaceName {c : Config} {l : Language} (h : c.Usable l) (name : String) :
    ∃ namespaceName, c.namespaceName l name = .ok namespaceName := by
  cases l with
  | python => exact ⟨name, rfl⟩
  | java =>
    obtain ⟨package, hpackage⟩ := h.package rfl
    exact ⟨package, by simp [namespaceName, hpackage]⟩

/-- A pass can begin in a state without drafts, over a store without refused documents. -/
lemma Drafting.ready_start (s : Setting) {store : Store} (hstore : store.Intact) (model : Model) (trace : Trace) :
    Ready { start store model with trace } :=
  Ready.read (s := s) ⟨sound_start store model, seated_start hstore.genuine model, hstore⟩ .refl hstore.whole trace

namespace Generation

/-! ## Generations -/

/-- What a generation for a document of a URI fails of without a report, by the state that it leaves: the URI itself is
refused; or a text, a reference or a `type` in the documents (`Store.Defect`); a name cannot be counted up; an integer
is too large for Java; or there is no end to the documents. -/
inductive Escape (loader : Loader) (l : Language) (uri : String) (d : Drafting) : Failure → Prop
  | given {fault : Uri.Fault} (refused : Uri.defragment uri = .error fault) : Escape loader l uri d (.badUri fault)
  | defect {e : Failure} (h : d.store.Defect loader e) : Escape loader l uri d e
  | counting {o : Number.Overlong} (h : d.Overcounts o) : Escape loader l uri d (.overlong o)
  | literal {n : SchemaNode} {i : Int} (java : l = .java) (known : n ∈ d.store.nodes)
      (default : n.default? = some (.int i)) (large : Binary64.ofInt? i = none) :
      Escape loader l uri d .integerTooLarge
  | bound (infinite : {uri | ∃ document, loader.fetch uri = .ok document}.Infinite) : Escape loader l uri d .exhausted

/-- A failure is reported, or it escapes. -/
def Excused (loader : Loader) (l : Language) (uri : String) (e : Failure) (d : Drafting) : Prop :=
  e.isReported = true ∨ Escape loader l uri d e

/-- The document that a generation is for gives its root, and has no defects then. -/
lemma ensures_root (loader : Loader) (document : Json) (uri : String) :
    Ensures (root (Store.load document uri)) Store.empty (fun root s => s.Intact ∧ root ∈ s.nodes) fun e s =>
      e.isReported = true ∨ s.Defect loader e ∨ ∃ fault, Uri.defragment uri = .error fault ∧ e = .badUri fault := by
  cases hsplit : Uri.defragment uri with
  | error fault =>
    have hfails : outcome (Store.split uri) Store.empty = (.error (.badUri fault), Store.empty) := by
      rw [Store.outcome_split, hsplit]
      rfl
    exact ensures_of_error (outcome_bind_of_error (outcome_bind_of_error hfails)) (.inr (.inr ⟨fault, rfl, rfl⟩))
  | ok parts =>
    refine Ensures.bind (Q := fun e s => s.Intact ∧ ∃ n ∈ s.nodes, e = .node n)
      ⟨fun e s hok => Store.of_load_empty hsplit hok, fun e s hfails => ?_⟩ fun e s _ hloaded => ?_
    · have hload : Ensures (Store.load document uri) Store.empty (fun _ _ => True) (Store.MayFail loader) :=
        Store.ensures_load Store.intact_empty hsplit
      cases hload.fails hfails with
      | reported h => exact .inl h
      | bounded h => exact (Store.load_ne_error rfl document uri _ (congrArg Prod.fst (h ▸ hfails))).elim
      | defect h => exact .inr (.inl h)
    · obtain ⟨hintact, n, hn, rfl⟩ := hloaded
      exact ensures_pure ⟨hintact, hn⟩

section Generate

variable {g : Generation} {l : Language} {uri name : String} {root : SchemaNode} {d : Drafting}

/-- Every value that a method gives by itself is the default of a node. -/
def TakesDefaults (d : Drafting) : Prop :=
  ∀ t ∈ d.model.types, ∀ method ∈ t.methods, ∀ value, method.value? = some value →
    ∃ n ∈ d.store.nodes, n.default? = some value

lemma excused_of_mayFail {s : Setting} {e : Failure} (hloader : s.loader = g.loader)
    (hbound : {uri | ∃ document, g.loader.fetch uri = .ok document}.Finite → e ≠ .exhausted)
    (h : Drafting.MayFail s e d) : Excused g.loader l uri e d := by
  cases h with
  | reading h =>
    cases h with
    | reported h => exact .inl h
    | bounded h => exact .inr (h ▸ .bound fun hfinite => hbound hfinite h)
    | defect h => exact .inr (.defect (hloader ▸ h))
  | counting h he => exact .inr (he ▸ .counting h)

/-- Drafting for a generation is a pass from a state of its own, and a record of how it ended. -/
lemma outcome_build : outcome (g.build l name root) d =
    let begun := Drafting.beginPass g.loader g.config l ((g.config.namespaceName l name).toOption.getD "") d.store
    outcome (do
      Drafting.pass begun.1 root
      Drafting.note (.generated (← get).model.allTypes.length root.uri)) { begun.2 with trace := d.trace } := by
  unfold build Drafting.pass
  rw [outcome_bind_of_ok (outcome_get d)]
  dsimp only
  rw [outcome_bind_of_ok (outcome_set _ _), bind_assoc]

variable (husable : g.config.Usable l)

include husable

/-- Drafting leaves defaults of nodes, or fails with an excuse. -/
lemma ensures_build (hstore : d.store.Intact) (hroot : root ∈ d.store.nodes) :
    Ensures (g.build l name root) d (fun _ d' => TakesDefaults d') (Excused g.loader l uri) := by
  refine Ensures.of_outcome_eq outcome_build ?_
  dsimp only
  generalize (g.config.namespaceName l name).toOption.getD "" = namespaceName
  obtain ⟨most, hmost⟩ := husable.attempts
  have hattempts : (Drafting.beginPass g.loader g.config l namespaceName d.store).1.attempts = .ok most.toNat := by
    have hconfig : (Drafting.beginPass g.loader g.config l namespaceName d.store).1.config = g.config := rfl
    rw [Setting.attempts, hconfig, hmost]
  have hloader : (Drafting.beginPass g.loader g.config l namespaceName d.store).1.loader = g.loader := rfl
  have hempty := Drafting.types_beginPass g.loader g.config l namespaceName d.store
  rw [Drafting.snd_beginPass]
  generalize Drafting.beginPass g.loader g.config l namespaceName d.store = begun at *
  have hready := Drafting.ready_start begun.1 hstore begun.2.model d.trace
  have hpass := Drafting.carries_pass hattempts hready hroot
  refine Ensures.bind (Q := fun _ d' => TakesDefaults d') ⟨fun _ d' hok => ?_, fun e d' hfails => ?_⟩ ?_
  · intro t ht method hmethod value hvalue
    obtain ⟨n, hn, hliteral⟩ := Drafting.exists_literal?_of_pass hstore.genuine hempty hroot hok t ht method hmethod
      value hvalue
    exact ⟨n, hn, SchemaNode.default?_of_literal? hliteral⟩
  · refine excused_of_mayFail hloader (fun hfinite he => ?_) (hpass.fails hfails)
    have hends := Drafting.pass_ne_exhausted_of_seated (hloader ▸ hfinite) hready.sound hready.seated hroot
    exact hends (congrArg Prod.fst (he ▸ hfails))
  · intro _ d' _ hd'
    exact ensures_bind_of_ok (outcome_get d') (ensures_of_ok (Drafting.outcome_note d' _) hd')

/-- Rendering what was drafted fails with an excuse, if it fails. -/
lemma ensures_sources (hstore : d.store.Intact) (hroot : root ∈ d.store.nodes) :
    Ensures (g.sources l name root) d (fun _ _ => True) (Excused g.loader l uri) := by
  obtain ⟨namespaceName, hname⟩ := husable.exists_namespaceName name
  obtain ⟨options, hoptions⟩ := husable.formatter
  refine (ensures_build husable hstore hroot).bind fun _ d₁ _ htakes => ?_
  have hnamed : outcome (Drafting.lift (g.config.namespaceName l name)) d₁ = (.ok namespaceName, d₁) := by
    rw [hname, Drafting.outcome_lift]
  refine ensures_bind_of_ok hnamed (ensures_bind_of_ok (outcome_get d₁) ?_)
  refine Ensures.bind (Q := fun _ _ => True) ?_ fun files d₂ _ _ => ?_
  · refine ensures_mk_pure (fun _ _ => trivial) fun e hfails => ?_
    rcases Language.of_sources_eq_error hfails with hreported | ⟨hjava, t, ht, method, hmethod, i, hvalue, hlarge, rfl⟩
    · exact .inl hreported
    · obtain ⟨n, hn, hdefault⟩ := htakes t ht method hmethod _ hvalue
      exact .inr (.literal hjava hn hdefault hlarge)
  · have hnotes : Ensures (files.forM fun _ => Drafting.note .unformatted) d₂ (fun _ _ => True)
        (Excused g.loader l uri) :=
      ensures_forM (fun _ _ e _ => ensures_of_ok (Drafting.outcome_note e _) trivial) trivial
    have hformatter : outcome (Drafting.lift g.config.formatter.get) d₂ = (.ok options, d₂) := by
      rw [hoptions, Drafting.outcome_lift]
      rfl
    dsimp only
    split
    · refine ensures_bind_of_ok hformatter ?_
      split
      · exact hnotes.bind fun _ _ _ _ => ensures_pure trivial
      · exact ensures_pure trivial
    · exact ensures_pure trivial

/-- A generation gives files, or what it fails of is reported or escapes. -/
theorem ensures_generate (document : Json) (uri name : String) :
    Ensures (g.generate document uri name) Drafting.blank (fun _ _ => True) (Excused g.loader l uri) := by
  have hopen : Ensures (g.openDocument document uri) Drafting.blank
      (fun opened d => opened.1 = l ∧ d.store.Intact ∧ opened.2 ∈ d.store.nodes) (Excused g.loader l uri) := by
    have htarget : outcome (Drafting.lift g.config.target) Drafting.blank = (.ok l, Drafting.blank) := by
      rw [husable.target, Drafting.outcome_lift]
    refine ensures_bind_of_ok htarget ?_
    refine (Drafting.ensures_onStore (ensures_root g.loader document uri)).excuse (fun e d hfails => ?_) |>.bind
      fun root d _ hopened => ?_
    · rcases hfails with hreported | hdefect | ⟨fault, hfault, rfl⟩
      · exact .inl hreported
      · exact .inr (.defect hdefect)
      · exact .inr (.given hfault)
    · obtain ⟨store, trace, hread, rfl⟩ := hopened
      exact ensures_pure ⟨rfl, hread⟩
  refine hopen.bind fun opened d _ hopened => ?_
  obtain ⟨rfl, hstore, hroot⟩ := hopened
  exact ensures_sources husable hstore hroot

end Generate

/-- A generation with the options that a configuration has if none is given. -/
def byDefault (loader : Loader) (l : Language) (commandLine : String) : Generation :=
  ⟨loader, { language := .str l.name }, commandLine⟩

/-- Whatever the document, in either language, a generation by default gives files or fails, and what it fails of is
reported, or it escapes for one of the causes that are known. Texts are of Unicode scalar values, and integers are meant
to have no more than `Number.mostDigits` digits, as those that a reader gives: what shows a longer one in a message, in
documentation or in code does not fail here. -/
theorem files_or_excused_of_generate (loader : Loader) (l : Language) (commandLine : String) (document : Json)
    (uri name : String) :
    (∃ files d, outcome ((byDefault loader l commandLine).generate document uri name) .blank = (.ok files, d)) ∨
      ∃ e d, outcome ((byDefault loader l commandLine).generate document uri name) .blank = (.error e, d) ∧
        (e.isReported = true ∨ Escape loader l uri d e) := by
  have hensures := ensures_generate (g := byDefault loader l commandLine) (Config.usable_default l) document uri name
  rcases h : outcome ((byDefault loader l commandLine).generate document uri name) .blank with ⟨e | files, d⟩
  · exact .inr ⟨e, d, rfl, hensures.fails h⟩
  · exact .inl ⟨files, d, rfl⟩

/-! ### A bracket in a reference -/

namespace Bracketed

def document : Json :=
  .obj [("type", .str "object"), ("properties", .obj [("a", .obj [("$ref", .str "http://[")])])]

def loader : Loader := ⟨[], ⟨[]⟩, .top⟩

/-- What a generation for the document comes to. -/
def last (l : Language) : Except Failure Render.Sources × Drafting :=
  outcome ((byDefault loader l programName).generate document defaultUri "schema") .blank

/-- In neither language does it give files or fail of what is reported. -/
lemma escapes (l : Language) :
    ¬ ((∃ files d, last l = (.ok files, d)) ∨ ∃ e d, last l = (.error e, d) ∧ e.isReported = true) := by
  have h : (match (last l).1 with | .ok _ => true | .error e => e.isReported) = false := by
    cases l <;> decide +kernel
  rintro (⟨files, d, hok⟩ | ⟨e, d, herror, hreported⟩)
  · rw [hok] at h
    cases h
  · rw [herror] at h
    exact Bool.false_ne_true (h.symm.trans hreported)

end Bracketed

/-- A bracket that is not closed makes no authority, and the failure to read one is not reported. -/
theorem unreported_of_bracketed_reference :
    ¬ ((∃ files d, Bracketed.last .python = (.ok files, d)) ∨
      ∃ e d, Bracketed.last .python = (.error e, d) ∧ e.isReported = true) :=
  Bracketed.escapes .python

end Generation

end SchemaAccessors
