import Mathlib.Data.Set.List
import SchemaAccessors.Proofs.DecodedSchemas
import SchemaAccessors.Wrapper.Raw

/-!
# Which documents pass the check of their types

A document is refused for what `type` holds in one of its schemas. This is said of documents as they were read, whose
texts may have surrogates: without an `$id` an object is refused for its types, or for a key on the way to a schema that
no URI can have, and for nothing else. What is left of the check is an invariant of the nodes that are found, and it
makes the raw kind of each one known.
-/

namespace SchemaAccessors

/-! ## Types that are admitted -/

/-- `type` is missing, null, the name of a primitive type, or a list of such names. -/
def Members.TypesAdmitted (ms : Members) : Prop :=
  ∀ value, ms.get? "type" = some value →
    value = .null ∨ (∃ k : Kind, value = .str k.name) ∨ ∃ ks : List Kind, value = .arr (ks.map fun k => .str k.name)

/-- What `Members.TypesAdmitted` says, of an object as it was read. -/
def Decoded.Members.TypesAdmitted (ms : Decoded.Members) : Prop :=
  ∀ value, ms.get? "type" = some value →
    value = .null ∨ (∃ k : Kind, value = .str (.ofString k.name)) ∨
      ∃ ks : List Kind, value = .arr (ks.map fun k => .str (.ofString k.name))

lemma isSome_ofName?_iff {value : Json} :
    (value.str?.bind Kind.ofName?).isSome = true ↔ ∃ k : Kind, value = .str k.name := by
  constructor
  · intro h
    obtain ⟨k, hk⟩ := Option.isSome_iff_exists.1 h
    obtain ⟨name, hname, hkind⟩ := Option.bind_eq_some_iff.1 hk
    cases value with
    | str text =>
      obtain rfl : text = name := Option.some.inj hname
      exact ⟨k, by rw [Kind.name_of_ofName? hkind]⟩
    | _ => cases hname
  · rintro ⟨k, rfl⟩
    simp [Json.str?]

lemma forM_eq_ok_iff {α : Type} {f : α → Except Failure Unit} {xs : List α} :
    xs.forM f = .ok () ↔ ∀ x ∈ xs, f x = .ok () := by
  induction xs with
  | nil => simp [pure, Except.pure]
  | cons x xs ih =>
    rw [List.forall_mem_cons, ← ih]
    exact bind_eq_ok.trans ⟨fun ⟨⟨⟩, hx, hxs⟩ => ⟨hx, hxs⟩, fun ⟨hx, hxs⟩ => ⟨⟨⟩, hx, hxs⟩⟩

lemma exists_kinds_iff {values : List Json} :
    (∀ value ∈ values, ∃ k : Kind, value = .str k.name) ↔
      ∃ ks : List Kind, values = ks.map fun k => .str k.name := by
  have hrange := Set.ext_iff.1 (Set.range_list_map fun k : Kind => Json.str k.name) values
  simpa [eq_comm] using hrange.symm

namespace Position

variable (uri : String)

lemma checkKind_eq_ok_iff {name : Json} : checkKind uri name = .ok () ↔ ∃ k : Kind, name = .str k.name := by
  rw [← isSome_ofName?_iff, checkKind]
  split
  · next hknown => exact iff_of_true rfl hknown
  · next hunknown => exact iff_of_false nofun hunknown

lemma checkKinds_eq_ok_iff {ms : Members} : checkKinds uri ms = .ok () ↔ ms.TypesAdmitted := by
  unfold checkKinds Members.TypesAdmitted
  split
  · next hmissing => simp [hmissing]
  · next hnull => simp [hnull]
  · next name hname =>
    rw [checkKind_eq_ok_iff, hname]
    simp
  · next names hnames =>
    rw [forM_eq_ok_iff, hnames]
    simp only [checkKind_eq_ok_iff, exists_kinds_iff]
    simp
  · next value hnull hname hnames hfound =>
    refine iff_of_false nofun fun h => ?_
    rcases h value hfound with rfl | ⟨k, rfl⟩ | ⟨ks, rfl⟩
    · exact hnull rfl
    · exact hname _ rfl
    · exact hnames _ rfl

end Position

namespace Decoded

lemma replacement_notMem_name (k : Kind) : Text.Utf8.replacement ∉ k.name.toList := by
  cases k <;> decide

lemma json_eq_null_iff {value : Decoded} : value.json = .null ↔ value = .null := by
  cases value <;> simp [json]

lemma json_eq_name_iff {value : Decoded} {k : Kind} : value.json = .str k.name ↔ value = .str (.ofString k.name) := by
  cases value <;> simp [json, CodePoints.replaced_eq_iff (replacement_notMem_name k)]

lemma jsonElements_eq_names_iff {values : List Decoded} {ks : List Kind} :
    jsonElements values = ks.map (fun k => .str k.name) ↔ values = ks.map fun k => .str (.ofString k.name) := by
  induction values generalizing ks with
  | nil => cases ks <;> simp [jsonElements]
  | cons value values ih => cases ks <;> simp [jsonElements, json_eq_name_iff, ih]

lemma json_eq_names_iff {value : Decoded} {ks : List Kind} :
    value.json = .arr (ks.map fun k => .str k.name) ↔ value = .arr (ks.map fun k => .str (.ofString k.name)) := by
  cases value <;> simp [json, jsonElements_eq_names_iff]

/-- The names of the primitive types have no surrogates, so nothing that has one is taken for a name. -/
lemma Members.typesAdmitted_json {ms : Members} : ms.json.TypesAdmitted ↔ ms.TypesAdmitted := by
  have hkey : Text.Utf8.replacement ∉ "type".toList := by decide
  simp only [SchemaAccessors.Members.TypesAdmitted, TypesAdmitted, get?_json ms hkey, Option.map_eq_some_iff,
    forall_exists_index, and_imp, forall_apply_eq_imp_iff₂, json_eq_null_iff, json_eq_name_iff, json_eq_names_iff]

end Decoded

/-! ## Documents that are admitted -/

namespace Decoded

variable {document : Decoded}

/-- No schema of a document has an `$id`. -/
def LacksIds (document : Decoded) : Prop :=
  ∀ path (ms : Members), document.SchemaAt path (.obj ms) → ∀ id, ms.get? "$id" ≠ some (.str id)

/-- The types of a schema of a document are not admitted. -/
def Mistyped (document : Decoded) : Prop :=
  ∃ path, ∃ ms : Members, document.SchemaAt path (.obj ms) ∧ ¬ ms.TypesAdmitted

/-- What a document without an `$id` is refused for: types that are not admitted, which is an error of the schema unless
what `type` holds cannot be shown, or a key that no URI can have. -/
inductive Refused (document : Decoded) : Failure → Prop
  | mistyped {cause : Failure} (wrong : document.Mistyped) (schema : cause.family = .schema) : Refused document cause
  | unshown {path : List CodePoints} {ms : Members} {value : Decoded} (located : document.SchemaAt path (.obj ms))
      (wrong : ¬ ms.TypesAdmitted) (found : ms.get? "type" = some value) (long : value.json.showable = false) :
      Refused document (.overlong .written)
  | torn {fault : Unencodable} (torn : document.Torn) : Refused document (.unencodable fault)

section Object

variable {ms : Members} {cause : Failure}

lemma lacksIds_obj_iff :
    (obj ms).LacksIds ↔ (∀ id, ms.get? "$id" ≠ some (.str id)) ∧ ∀ c ∈ ms.subschemas, c.value.LacksIds := by
  constructor
  · intro h
    exact ⟨h _ ms (.here _), fun c hc _ _ hvalue => h _ _ (.within (Members.mem_subschemas_iff.1 hc) hvalue)⟩
  · rintro ⟨hself, hbelow⟩ path members hvalue
    cases hvalue with
    | here => exact hself
    | within holds deeper => exact hbelow _ (Members.mem_subschemas_iff.2 holds) _ _ deeper

lemma LacksIds.get?_id (h : (obj ms).LacksIds) : (ms.json.get? "$id").bind Json.str? = none := by
  rw [Members.get?_json ms (by decide)]
  have hid := (lacksIds_obj_iff.1 h).1
  cases hfound : ms.get? "$id" with
  | none => rfl
  | some value =>
    cases value with
    | str id => exact (hid id hfound).elim
    | _ => rfl

lemma mistyped_obj_iff :
    (obj ms).Mistyped ↔ ¬ ms.TypesAdmitted ∨ ∃ c ∈ ms.subschemas, c.value.Mistyped := by
  constructor
  · rintro ⟨path, members, hvalue, hwrong⟩
    cases hvalue with
    | here => exact .inl hwrong
    | within holds deeper => exact .inr ⟨_, Members.mem_subschemas_iff.2 holds, _, members, deeper, hwrong⟩
  · rintro (hwrong | ⟨c, hc, path, members, hvalue, hwrong⟩)
    · exact ⟨[], ms, .here _, hwrong⟩
    · exact ⟨_, members, .within (Members.mem_subschemas_iff.1 hc) hvalue, hwrong⟩

lemma Refused.of_subschema {c : Subschema} (h : c.value.Refused cause) (hc : c ∈ ms.subschemas) :
    (obj ms).Refused cause := by
  cases h with
  | mistyped wrong schema => exact .mistyped (mistyped_obj_iff.2 (.inr ⟨c, hc, wrong⟩)) schema
  | unshown located wrong found long =>
    exact .unshown (.within (Members.mem_subschemas_iff.1 hc) located) wrong found long
  | torn torn => exact .torn (torn_obj_iff.2 ⟨c, hc, .inr torn⟩)

end Object

/-- Without an `$id`, only the types of an object can be at fault. -/
lemma exists_enter_iff {p : Position} {ms : Members} (hid : (ms.json.get? "$id").bind Json.str? = none) :
    (∃ entered, p.enter ms.json = .ok entered) ↔ ms.TypesAdmitted := by
  rw [← Members.typesAdmitted_json, ← Position.checkKinds_eq_ok_iff p.uri]
  constructor
  · rintro ⟨entered, h⟩
    obtain ⟨⟨⟩, hkinds, -⟩ := bind_eq_ok.1 h
    exact hkinds
  · intro h
    unfold Position.enter
    rw [h]
    dsimp only [bind, Except.bind]
    split
    · next id hfound =>
      rw [hfound] at hid
      cases hid
    · exact ⟨_, rfl⟩

/-- An object is refused for its types, which may be ones that cannot be shown. -/
lemma refused_of_enter {p : Position} {ms : Members} {cause : Failure} (hid : (obj ms).LacksIds)
    (h : p.enter ms.json = .error cause) : (obj ms).Refused cause := by
  have hwrong : ¬ ms.TypesAdmitted := fun hadmitted => by
    obtain ⟨entered, hok⟩ := (exists_enter_iff hid.get?_id).2 hadmitted
    rw [h] at hok
    cases hok
  rcases Position.of_enter_eq_error h with hfamily | ⟨rfl, value, hfound, hlong⟩ | ⟨id, _, hfound, -⟩
  · exact .mistyped ⟨[], ms, .here _, hwrong⟩ hfamily
  · rw [Members.get?_json ms (by decide), Option.map_eq_some_iff] at hfound
    obtain ⟨held, hheld, rfl⟩ := hfound
    exact .unshown (.here _) hwrong hheld hlong
  · have hnone := hid.get?_id
    rw [hfound] at hnone
    cases hnone

/-- The survey of a document without an `$id` comes to its end where the types of all schemas are admitted, and all keys
on the way to them can be read. -/
theorem halt?_survey_eq_none_iff (p : Position) (document : Decoded) (hid : document.LacksIds) :
    (document.survey p).halt? = none ↔ ¬ document.Mistyped ∧ ¬ document.Torn := by
  induction p, document using survey_induction with
  | plain p value hplain =>
    refine iff_of_true (by rw [survey_plain hplain]) ⟨fun ⟨_, _, hvalue, _⟩ => ?_, fun ⟨_, _, hvalue, _, hkey, _⟩ => ?_⟩
    · cases hvalue with
      | here => exact hplain _ rfl
      | within => exact hplain _ rfl
    · cases hvalue with
      | here => cases hkey
      | within => exact hplain _ rfl
  | object p ms ih =>
    have henters := exists_enter_iff (p := p) hid.get?_id
    have hbelow := (lacksIds_obj_iff.1 hid).2
    rw [mistyped_obj_iff, torn_obj_iff]
    push Not
    constructor
    · intro h
      cases henter : p.enter ms.json with
      | error cause => simp [survey_refused henter] at h
      | ok entered =>
        rw [survey_entered henter] at h
        have hparts := Survey.of_sequence_not_halted (Survey.halt?_of_andThen h).2.1
        have hpart {c : Subschema} (hc : c ∈ ms.subschemas) :
            (∀ key ∈ c.keys, ¬ key.Torn) ∧ ¬ c.value.Mistyped ∧ ¬ c.value.Torn := by
          obtain ⟨keys, hkeys, hnone⟩ := Subschema.halt?_survey_eq_none_iff.1 (hparts _ (List.mem_map_of_mem hc)).1
          exact ⟨Uri.exists_mapM_readKey_iff.1 ⟨keys, hkeys⟩, (ih c hc _ (hbelow c hc)).1 hnone⟩
        exact ⟨⟨henters.1 ⟨entered, henter⟩, fun c hc => (hpart hc).2.1⟩, fun c hc => ⟨(hpart hc).1, (hpart hc).2.2⟩⟩
    · rintro ⟨⟨hadmitted, hmistyped⟩, htorn⟩
      obtain ⟨⟨n, addresses⟩, henter⟩ := henters.2 hadmitted
      rw [survey_entered henter]
      apply Survey.halt?_sequence_eq_none
      intro part hpart
      obtain ⟨c, hc, rfl⟩ := List.mem_map.1 hpart
      obtain ⟨keys, hkeys⟩ := Uri.exists_mapM_readKey_iff.2 (htorn c hc).1
      exact Subschema.halt?_survey_eq_none_iff.2
        ⟨keys, hkeys, (ih c hc _ (hbelow c hc)).2 ⟨hmistyped c hc, (htorn c hc).2⟩⟩

/-- Without an `$id`, a survey halts for a schema that is wrong, for a type that cannot be shown or for a key. -/
lemma refused_of_halt (p : Position) (document : Decoded) (hid : document.LacksIds) :
    ∀ halt, (document.survey p).halt? = some halt → document.Refused halt.cause := by
  induction p, document using survey_induction with
  | plain p value hplain => simp [survey_plain hplain]
  | object p ms ih =>
    intro halt hhalt
    cases henter : p.enter ms.json with
    | error cause =>
      obtain rfl : ⟨p.path, cause⟩ = halt := by
        simpa [survey_refused henter] using hhalt
      exact refused_of_enter hid henter
    | ok entered =>
      rw [survey_entered henter] at hhalt
      rcases Survey.halt?_andThen_eq_some hhalt with hnone | hparts
      · cases hnone
      obtain ⟨part, hpart, hcause⟩ := Survey.halt?_sequence_eq_some hparts
      obtain ⟨c, hc, rfl⟩ := List.mem_map.1 hpart
      rcases Subschema.of_halt hcause with ⟨fault, hfault, hkeys⟩ | ⟨keys, hvalue⟩
      · rw [hfault]
        exact .torn (torn_obj_iff.2 ⟨c, hc, .inl hkeys⟩)
      · exact (ih c hc _ ((lacksIds_obj_iff.1 hid).2 c hc) halt hvalue).of_subschema hc

/-- Every node that is found is a schema of the document. -/
lemma schemaAt_of_mem_nodes (p : Position) (document : Decoded) :
    ∀ n ∈ (document.survey p).nodes, ∃ path, ∃ ms : Members, document.SchemaAt path (.obj ms) ∧
      n.members = ms.json := by
  induction p, document using survey_induction with
  | plain p value hplain =>
    intro n hn
    rw [survey_plain hplain] at hn
    cases hn
  | object p ms ih =>
    intro n hn
    obtain ⟨x, hx, hentry⟩ := Survey.mem_nodes.1 hn
    cases henter : p.enter ms.json with
    | error cause =>
      rw [survey_refused henter] at hx
      cases hx
    | ok entered =>
      obtain ⟨m, addresses⟩ := entered
      rw [survey_entered henter] at hx
      rcases Survey.mem_places_andThen hx with hself | hparts
      · obtain rfl := List.mem_singleton.1 hself
        obtain rfl : m = n := Entry.node.inj hentry
        exact ⟨[], ms, .here _, Position.members_of_enter henter⟩
      · obtain ⟨part, hpart, hx, -⟩ := Survey.mem_places_sequence hparts
        obtain ⟨c, hc, rfl⟩ := List.mem_map.1 hpart
        obtain ⟨keys, hx⟩ := Subschema.mem_survey_of_mem hx
        obtain ⟨path, members, hvalue, hmembers⟩ := ih c hc _ n (Survey.mem_nodes.2 ⟨x, hx, hentry⟩)
        exact ⟨_, members, .within (Members.mem_subschemas_iff.1 hc) hvalue, hmembers⟩

end Decoded

/-! ## Raw kinds of nodes -/

/-- `type` is the name, or a list that has it. -/
def Members.Declares (ms : Members) (name : String) : Prop :=
  ms.get? "type" = some (.str name) ∨ ∃ names, ms.get? "type" = some (.arr names) ∧ .str name ∈ names

lemma Kind.name_injective : Function.Injective Kind.name := fun a b h => by
  have hsome := congrArg Kind.ofName? h
  rw [Kind.ofName?_name, Kind.ofName?_name] at hsome
  exact Option.some.inj hsome

lemma Kind.nodup_sorted (kinds : List Kind) : (sorted kinds).Nodup :=
  List.Nodup.filter _ (by decide)

namespace Members

variable {ms : Members}

lemma nodup_declaredKinds : ms.declaredKinds.Nodup := by
  unfold declaredKinds
  split
  · next name _ =>
    cases Kind.ofName? name with
    | none => exact List.nodup_nil
    | some k => exact List.nodup_singleton k
  · exact Kind.nodup_sorted _
  · exact List.nodup_nil

/-- Where the types are admitted, the types that a schema names are all of its names. -/
lemma mem_names_declaredKinds_iff (h : ms.TypesAdmitted) (name : String) :
    name ∈ ms.declaredKinds.map Kind.name ↔ ms.Declares name := by
  unfold Declares declaredKinds
  cases hfound : ms.get? "type" with
  | none => simp
  | some value =>
    rcases h value hfound with rfl | ⟨k, rfl⟩ | ⟨ks, rfl⟩
    · simp
    · simp [eq_comm]
    · simp [Json.str?, List.filterMap_map, eq_comm]

end Members

/-- For one primitive type, and for several, its raw kind is known. -/
lemma RawKind.ofNames_of_perm {names : List String} {kinds : List Kind} (h : names.Perm (kinds.map Kind.name)) :
    RawKind.ofNames (names.map .str) = .ok (RawKind.ofKinds kinds) := by
  have hlength := h.length_eq
  rw [List.length_map] at hlength
  by_cases hone : kinds.length = 1
  · obtain ⟨k, rfl⟩ := List.length_eq_one_iff.1 hone
    obtain rfl : names = [k.name] := List.perm_singleton.1 h
    simp [ofNames, ofKinds, Json.str?]
  · rw [ofKinds_eq_any_iff.2 hone]
    rcases names with _ | ⟨name, _ | ⟨other, names⟩⟩
    · rfl
    · exact (hone hlength.symm).elim
    · rfl

namespace Store

variable {document : Decoded} {source uri fragment : String}

section Loading

variable (hsplit : Uri.defragment source = .ok (uri, fragment))
include hsplit

/-- A document is loaded where it is an object and its survey comes to the end, and it is all that the store has. -/
lemma of_loadDecoded_eq_ok {root : Entry} {t : Store}
    (h : outcome (loadDecoded document source) empty = (.ok root, t)) :
    (∃ ms, document = .obj ms) ∧ (document.survey (.root uri)).halt? = none ∧
      ∀ n, n ∈ t.nodes ↔ n ∈ (document.survey (.root uri)).nodes := by
  have hloading := loading_loadDecoded hsplit document empty
  rw [h] at hloading
  cases hloading with
  | known used => cases used
  | loaded new object ends =>
    refine ⟨Decoded.exists_obj_of_json object, ends, fun n => mem_nodes.trans ?_⟩
    simp [empty]

/-- A document is refused where it is no object, or where its survey halts. -/
lemma of_loadDecoded_eq_error {cause : Failure} {t : Store}
    (h : outcome (loadDecoded document source) empty = (.error cause, t)) :
    (∀ ms, document ≠ .obj ms) ∧ cause.family = .schema ∨
      ∃ halt, (document.survey (.root uri)).halt? = some halt ∧ halt.cause = cause := by
  have hloading := loading_loadDecoded hsplit document empty
  rw [h] at hloading
  cases hloading with
  | lost used => cases used
  | refused new plain => exact .inl ⟨fun ms hms => plain _ (congrArg Decoded.json hms), rfl⟩
  | halted new object halts => exact .inr ⟨_, halts, rfl⟩

/-- An object is refused with what its survey halts for. -/
lemma exists_error_of_halt {ms : Decoded.Members} {halt : Halt}
    (h : ((Decoded.obj ms).survey (.root uri)).halt? = some halt) :
    ∃ t, outcome (loadDecoded (.obj ms) source) empty = (.error halt.cause, t) := by
  rcases hload : outcome (loadDecoded (.obj ms) source) empty with ⟨cause | root, t⟩
  · rcases of_loadDecoded_eq_error hsplit hload with ⟨hplain, -⟩ | ⟨halt', hhalt, rfl⟩
    · exact (hplain ms rfl).elim
    · obtain rfl : halt = halt' := Option.some.inj (h.symm.trans hhalt)
      exact ⟨t, rfl⟩
  · rw [(of_loadDecoded_eq_ok hsplit hload).2.1] at h
    cases h

end Loading

/-- The texts of a document are code points here, surrogates included, and its integers are of any size. Without an
`$id` a document is refused by an empty store exactly where it is no object, where `type` holds in one of its schemas,
at any depth, what is neither null nor the name of a primitive type nor a list of such names, or where a key on the way
to a schema has a surrogate on its own. This is an error of the schema, but for two kinds of documents: a surrogate is
no error of the schema, and a `type` that holds an integer with too many digits to be shown need not be one. In a
document that is loaded, the different names that a node declares, in whatever order, have the raw kind of the node, and
this is that of any value unless exactly one name is declared. -/
theorem load_checks_types (hsplit : Uri.defragment source = .ok (uri, fragment)) (hid : document.LacksIds) :
    ((∃ cause t, outcome (loadDecoded document source) empty = (.error cause, t)) ↔
      (∀ ms, document ≠ .obj ms) ∨ document.Mistyped ∨ document.Torn) ∧
    (∀ cause t, outcome (loadDecoded document source) empty = (.error cause, t) →
      (∀ ms, document ≠ .obj ms) ∧ cause.family = .schema ∨ document.Refused cause) ∧
    ∀ root t, outcome (loadDecoded document source) empty = (.ok root, t) → ∀ n ∈ t.nodes, ∀ names : List String,
      names.Nodup → (∀ name, name ∈ names ↔ n.members.Declares name) →
        RawKind.ofNames (names.map .str) = .ok (.ofKinds n.kinds) ∧
          (RawKind.ofKinds n.kinds = .any ↔ names.length ≠ 1) := by
  have hends := Decoded.halt?_survey_eq_none_iff (.root uri) document hid
  refine ⟨⟨?_, fun h => ?_⟩, fun cause t h => ?_, fun root t h n hn names hdistinct hnames => ?_⟩
  · rintro ⟨cause, t, h⟩
    rcases of_loadDecoded_eq_error hsplit h with ⟨hplain, -⟩ | ⟨halt, hhalt, -⟩
    · exact .inl hplain
    · rw [or_iff_not_imp_left, not_forall_not]
      rintro -
      by_contra hnone
      rw [hends.2 (not_or.1 hnone)] at hhalt
      cases hhalt
  · rcases hload : outcome (loadDecoded document source) empty with ⟨cause | root, t⟩
    · exact ⟨cause, t, rfl⟩
    · obtain ⟨⟨ms, hms⟩, hhalt, -⟩ := of_loadDecoded_eq_ok hsplit hload
      obtain ⟨hmistyped, htorn⟩ := hends.1 hhalt
      rcases h with hplain | hwrong | hwrong
      · exact (hplain ms hms).elim
      · exact (hmistyped hwrong).elim
      · exact (htorn hwrong).elim
  · rcases of_loadDecoded_eq_error hsplit h with hplain | ⟨halt, hhalt, rfl⟩
    · exact .inl hplain
    · exact .inr (Decoded.refused_of_halt _ document hid halt hhalt)
  · obtain ⟨-, hhalt, hnodes⟩ := of_loadDecoded_eq_ok hsplit h
    obtain ⟨path, ms, hvalue, hmembers⟩ := Decoded.schemaAt_of_mem_nodes _ _ n ((hnodes n).1 hn)
    have hadmitted : n.members.TypesAdmitted := by
      rw [hmembers, Decoded.Members.typesAdmitted_json]
      by_contra hwrong
      exact (hends.1 hhalt).1 ⟨path, ms, hvalue, hwrong⟩
    have hperm : names.Perm (n.kinds.map Kind.name) := by
      refine (List.perm_ext_iff_of_nodup hdistinct ?_).2 fun name => ?_
      · exact Members.nodup_declaredKinds.map Kind.name_injective
      · rw [hnames, SchemaNode.kinds, Members.mem_names_declaredKinds_iff hadmitted]
    refine ⟨RawKind.ofNames_of_perm hperm, ?_⟩
    rw [RawKind.ofKinds_eq_any_iff, hperm.length_eq, List.length_map]

end Store

/-! ### Types in places that are schemas and in places that are not -/

namespace TypeSample

open Decoded (lacksIds_obj_iff mistyped_obj_iff)

def date : Decoded.Members :=
  [(.ofString "type", .str (.ofString "date"))]

/-- A property has the name `type`, and neither what `enum` lists nor a list of dependencies is a schema. -/
def loaded : Decoded.Members :=
  [(.ofString "type", .arr [.str (.ofString "string"), .str (.ofString "string")]),
    (.ofString "enum", .arr [.obj date]),
    (.ofString "properties", .obj [(.ofString "type", .obj [(.ofString "type", .null)])]),
    (.ofString "dependencies", .obj [(.ofString "type", .arr [.str (.ofString "date")])])]

def refused : Decoded.Members :=
  [(.ofString "items", .arr [.bool true, .obj [(.ofString "not", .obj date)]])]

/-- The name of a property is a surrogate. -/
def torn : Decoded.Members :=
  [(.ofString "properties", .obj [([.surrogate 0], .obj [])])]

lemma halt?_loaded : ((Decoded.obj loaded).survey (.root "s")).halt? = none :=
  Option.isNone_iff_eq_none.1 (by decide +kernel)

lemma lacksIds_loaded : (Decoded.obj loaded).LacksIds := by
  have hproperties : loaded.subschemas =
      [⟨[.ofString "properties", .ofString "type"], .obj [(.ofString "type", .null)]⟩] := rfl
  have hinner : Decoded.Members.subschemas [(.ofString "type", .null)] = [] := rfl
  rw [lacksIds_obj_iff, hproperties, List.forall_mem_singleton, lacksIds_obj_iff, hinner]
  exact ⟨nofun, nofun, nofun⟩

lemma lacksIds_date : (Decoded.obj date).LacksIds := by
  have hdate : date.subschemas = [] := rfl
  rw [lacksIds_obj_iff, hdate]
  exact ⟨nofun, nofun⟩

lemma lacksIds_refused : (Decoded.obj refused).LacksIds := by
  have hitems : refused.subschemas = [⟨[.ofString "items", .ofString "0"], .bool true⟩,
      ⟨[.ofString "items", .ofString "1"], .obj [(.ofString "not", .obj date)]⟩] := rfl
  have hnot : Decoded.Members.subschemas [(.ofString "not", .obj date)] = [⟨[.ofString "not"], .obj date⟩] := rfl
  rw [lacksIds_obj_iff, hitems, List.forall_mem_cons, List.forall_mem_singleton, lacksIds_obj_iff, hnot,
    List.forall_mem_singleton]
  refine ⟨nofun, fun path ms h => ?_, nofun, lacksIds_date⟩
  cases h

lemma date_at :
    (Decoded.obj refused).SchemaAt [.ofString "items", .ofString "1", .ofString "not"] (.obj date) :=
  .within (.itemAt (i := 1) rfl rfl) (.within (.single (by decide) rfl) (.here _))

lemma not_admitted_date : ¬ date.TypesAdmitted := by
  intro h
  rcases h (.str (.ofString "date")) rfl with hnull | ⟨k, hk⟩ | ⟨ks, hks⟩
  · cases hnull
  · have hname : "date" = k.name := CodePoints.ofString_injective (Decoded.str.inj hk)
    cases k <;> simp [Kind.name] at hname
  · cases hks

end TypeSample

/-- A wrong type in a schema of the items is found; a property, an example and a dependency that look like one are
not taken for it. The document is loaded, and its types are looked at as the one name that they are. -/
theorem load_checks_types_of_places :
    (∃ cause t, outcome (Store.loadDecoded (.obj TypeSample.refused) "s") Store.empty = (.error cause, t) ∧
      (Decoded.obj TypeSample.refused).Refused cause) ∧
    ∃ root t, outcome (Store.loadDecoded (.obj TypeSample.loaded) "s") Store.empty = (.ok root, t) ∧
      ∃ n ∈ t.nodes, n.members = TypeSample.loaded.json ∧ RawKind.ofNames [.str "string"] = .ok (.ofKinds n.kinds) ∧
        RawKind.ofKinds n.kinds ≠ .any := by
  have hsplit : Uri.defragment "s" = .ok ("s", "") := by decide +kernel
  constructor
  · obtain ⟨hrefused, hcauses, -⟩ := Store.load_checks_types hsplit TypeSample.lacksIds_refused
    have hwrong : (Decoded.obj TypeSample.refused).Mistyped := ⟨_, _, TypeSample.date_at, TypeSample.not_admitted_date⟩
    obtain ⟨cause, t, h⟩ := hrefused.2 (.inr (.inl hwrong))
    refine ⟨cause, t, h, ?_⟩
    rcases hcauses cause t h with ⟨hplain, -⟩ | hcause
    · exact (hplain _ rfl).elim
    · exact hcause
  · obtain ⟨-, -, hkinds⟩ := Store.load_checks_types hsplit TypeSample.lacksIds_loaded
    rcases h : outcome (Store.loadDecoded (.obj TypeSample.loaded) "s") Store.empty with ⟨cause | root, t⟩
    · rcases Store.of_loadDecoded_eq_error hsplit h with ⟨hplain, -⟩ | ⟨halt, hhalt, -⟩
      · exact (hplain _ rfl).elim
      · rw [TypeSample.halt?_loaded] at hhalt
        cases hhalt
    obtain ⟨n, addresses, rest, hplaces, hmembers⟩ := Decoded.exists_node_of_not_halted TypeSample.halt?_loaded
    have hstored : n ∈ t.nodes :=
      ((Store.of_loadDecoded_eq_ok hsplit h).2.2 n).2 (Survey.mem_nodes.2 ⟨_, by rw [hplaces]; exact .head _, rfl⟩)
    refine ⟨root, t, rfl, n, hstored, hmembers, ?_⟩
    obtain ⟨hraw, hany⟩ := hkinds _ _ h n hstored ["string"] (List.nodup_singleton _) fun name => by
      have htype : TypeSample.loaded.json.get? "type" = some (.arr [.str "string", .str "string"]) :=
        Decoded.Members.get?_json _ (by decide)
      rw [hmembers, Members.Declares, htype]
      simp
    exact ⟨hraw, fun h => hany.1 h rfl⟩

/-- The name of a property is a surrogate on its own. All types are admitted, and yet the document is refused, by what
is no error of the schema. -/
theorem unreported_of_surrogate :
    (Decoded.obj TypeSample.torn).LacksIds ∧ ¬ (Decoded.obj TypeSample.torn).Mistyped ∧
      ∃ cause t, outcome (Store.loadDecoded (.obj TypeSample.torn) "schema.json") Store.empty = (.error cause, t) ∧
        cause.family = .surrogate := by
  have hsplit : Uri.defragment "schema.json" = .ok ("schema.json", "") := by decide +kernel
  have hproperties : TypeSample.torn.subschemas = [⟨[.ofString "properties", [.surrogate 0]], .obj []⟩] := rfl
  have hinner : Decoded.Members.subschemas [] = [] := rfl
  refine ⟨?_, ?_, ?_⟩
  · rw [Decoded.lacksIds_obj_iff, hproperties, List.forall_mem_singleton, Decoded.lacksIds_obj_iff, hinner]
    exact ⟨nofun, nofun, nofun⟩
  · rw [Decoded.mistyped_obj_iff, hproperties]
    rintro (htypes | ⟨c, hc, hwrong⟩)
    · exact htypes nofun
    · rw [List.mem_singleton.1 hc, Decoded.mistyped_obj_iff, hinner] at hwrong
      rcases hwrong with htypes | ⟨c, hc, -⟩
      · exact htypes nofun
      · exact List.not_mem_nil hc
  · have hfamily : ((Decoded.obj TypeSample.torn).survey (.root "schema.json")).halt?.map (·.cause.family) =
        some .surrogate := by decide +kernel
    obtain ⟨halt, hhalt, hcause⟩ := Option.map_eq_some_iff.1 hfamily
    obtain ⟨t, h⟩ := Store.exists_error_of_halt hsplit hhalt
    exact ⟨halt.cause, t, h, hcause⟩

/-- A `type` is an integer with too many digits to be shown. The document is refused for it, by what is no error of the
schema. -/
theorem unreported_of_long_integer :
    ∃ cause t, outcome (Store.loadDecoded (.obj [(.ofString "type", .int (10 ^ 4300))]) "schema.json") Store.empty =
      (.error cause, t) ∧ cause.family = .value := by
  have hsplit : Uri.defragment "schema.json" = .ok ("schema.json", "") := by decide +kernel
  have hfamily : ((Decoded.obj [(.ofString "type", .int (10 ^ 4300))]).survey (.root "schema.json")).halt?.map
      (·.cause.family) = some .value := by decide +kernel
  obtain ⟨halt, hhalt, hcause⟩ := Option.map_eq_some_iff.1 hfamily
  obtain ⟨t, h⟩ := Store.exists_error_of_halt hsplit hhalt
  exact ⟨halt.cause, t, h, hcause⟩

end SchemaAccessors
