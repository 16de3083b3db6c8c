import SchemaAccessors.Proofs.Escapes
import SchemaAccessors.Proofs.JavaDefaults
import SchemaAccessors.Proofs.JavaFiles

/-!
# Defaults that are passed to lookups

A getter whose node has a default passes it to a lookup, and the code of the getter stands in a file. What is passed is
an expression that the lookup takes, if the default is of the kind of the lookup: nothing in a schema sees to that, and
nothing that writes code does but for the numbers where an `int` is looked up.
-/

namespace SchemaAccessors

/-- The lookup with a default that an expression is or wraps: its kind, and the default. -/
def Expr.defaulted? : Expr → Option (RawKind × Json)
  | .property _ _ kind (some value) | .item _ _ kind (some value) => some (kind, value)
  | .construct _ argument => argument.defaulted?
  | _ => none

lemma Expr.value?_of_defaulted? {e : Expr} {kind : RawKind} {value : Json} (h : e.defaulted? = some (kind, value)) :
    e.value? = some value := by
  induction e with
  | property f key kind' default? =>
    cases default? with
    | none => cases h
    | some value' => exact congrArg some (Prod.mk.inj (Option.some.inj h)).2
  | item f index kind' default? =>
    cases default? with
    | none => cases h
    | some value' => exact congrArg some (Prod.mk.inj (Option.some.inj h)).2
  | construct type argument ih => exact ih h
  | field f => cases h
  | literal value => cases h
  | presence f key => cases h
  | length f => cases h
  | foreign value => cases h

namespace Render.Java

/-- Code is, or wraps, a call that passes a default to a lookup of a name. -/
inductive Passes (m : Model) (name default : String) : String → Prop
  | call (target key : String) : Passes m name default s!"{target}.opt{name}({key}, {default})"
  | construct (type : TypeId) {code : String} (h : Passes m name default code) :
      Passes m name default s!"new {typeName m type}({code})"

/-- Where a kind has a lookup of its own, the default is passed to it. -/
lemma passes_of_lookup {m : Model} {target key name code : String} {kind : RawKind} {value : Json}
    (h : lookup target key kind (some value) = .ok code) (hname : lookupKind kind = some name) :
    ∃ default, literalFor kind value = .ok default ∧ Passes m name default code := by
  obtain ⟨default, hdefault, hlast⟩ := bind_eq_ok.1 h
  rw [hname] at hlast
  rw [← Except.ok.inj hlast]
  exact ⟨default, hdefault, .call target key⟩

lemma passes_of_expr {m : Model} {e : Expr} {name code : String} {kind : RawKind} {value : Json}
    (h : expr m e = .ok code) (hdefault : e.defaulted? = some (kind, value)) (hname : lookupKind kind = some name) :
    ∃ default, literalFor kind value = .ok default ∧ Passes m name default code := by
  induction e generalizing code with
  | property f key kind' default? =>
    cases default? with
    | none => cases hdefault
    | some value' =>
      obtain ⟨rfl, rfl⟩ := Prod.mk.inj (Option.some.inj hdefault)
      exact passes_of_lookup h hname
  | item f index kind' default? =>
    cases default? with
    | none => cases hdefault
    | some value' =>
      obtain ⟨rfl, rfl⟩ := Prod.mk.inj (Option.some.inj hdefault)
      exact passes_of_lookup h hname
  | construct type argument ih =>
    obtain ⟨inner, hinner, hlast⟩ := bind_eq_ok.1 h
    obtain ⟨default, hliteral, hpasses⟩ := ih hinner hdefault
    rw [← Except.ok.inj hlast]
    exact ⟨default, hliteral, .construct type hpasses⟩
  | field f => cases hdefault
  | literal value => cases hdefault
  | presence f key => cases hdefault
  | length f => cases hdefault
  | foreign value => cases hdefault

lemma isSome_defaultType?_of_literal? {n : SchemaNode} {value : Json} (h : n.literal? = some value) (kind : RawKind) :
    (defaultType? kind value).isSome := by
  unfold SchemaNode.literal? at h
  split at h <;> cases h <;> rfl

end Render.Java

namespace Generation

section Sources

variable {g : Generation} {name : String} {root : SchemaNode} {d d' : Drafting} {files : Render.Sources}

/-- Where a generation succeeds, every value that a method gives by itself is the default of a node. -/
lemma exists_literal?_of_sources {l : Language} (hstore : d.store.Genuine) (hroot : root ∈ d.store.nodes)
    (hok : outcome (g.sources l name root) d = (.ok files, d')) :
    ∀ t ∈ d'.model.types, ∀ method ∈ t.methods, ∀ value, method.value? = some value →
      ∃ n : SchemaNode, n.literal? = some value := by
  obtain ⟨s, model, d₁, -, hempty, -, hpass, hmodel⟩ := exists_pass_of_sources hok
  intro t ht method hmethod value hvalue
  rw [hmodel] at ht
  obtain ⟨n, -, hliteral⟩ := Drafting.exists_literal?_of_pass hstore hempty hroot hpass t ht method hmethod value hvalue
  exact ⟨n, hliteral⟩

/-- Where a generation for Java succeeds, every getter with a default that has a lookup of its own kind passes its
default to it, in the code of a file. What is passed is assignable to the type of the lookup, if the default is of the
kind of the lookup and no type has taken the name of the class that a constant is from, and only then. -/
theorem assignable_iff_of_sources (hstore : d.store.Genuine) (hroot : root ∈ d.store.nodes)
    (hok : outcome (g.sources .java name root) d = (.ok files, d')) {id : TypeId} {t : WrapperType}
    (ht : d'.model.types[id]? = some t) {method : Method} (hmethod : method ∈ t.methods) {body : Expr}
    (hbody : method.body? = some body) {kind : RawKind} {value : Json}
    (hdefault : body.defaulted? = some (kind, value)) {suffix : String}
    (hkind : Render.Java.lookupKind kind = some suffix) :
    ∃ code default, Render.Java.expr d'.model body = .ok code ∧ Render.Java.Passes d'.model suffix default code ∧
      (∃ file ∈ files, ("return " ++ code ++ ";").toList <:+: file.2.toList) ∧
      (Render.Java.Assignable (Render.Java.scope d'.model id) default kind ↔
        Render.Java.admits kind value = true ∧ (Render.Java.needsDouble value = true →
          (Render.Java.scope d'.model id).simple? "Double" = none)) := by
  have hmem := List.mem_of_getElem? ht
  obtain ⟨lines, hlines, file, hfile, hshown⟩ := exists_file_of_sources hstore hroot hok t hmem method hmethod
  unfold Render.Java.methodLines at hlines
  rw [hbody] at hlines
  obtain ⟨code, hcode, hlast⟩ := bind_eq_ok.1 hlines
  obtain ⟨default, hliteral, hpasses⟩ := Render.Java.passes_of_expr hcode hdefault hkind
  have hvalue : method.value? = some value := by
    rw [Method.value?, hbody]
    exact Expr.value?_of_defaulted? hdefault
  obtain ⟨n, hn⟩ := exists_literal?_of_sources hstore hroot hok t hmem method hmethod value hvalue
  refine ⟨code, default, hcode, hpasses, ⟨file, hfile, ?_⟩, ?_⟩
  · have hline := hshown (Render.indentUnit ++ "return " ++ code ++ ";") (by simp [← Except.ok.inj hlast, toString])
    simp only [String.toList_append, List.append_assoc] at hline ⊢
    exact (List.suffix_append _ _).isInfix.trans hline
  · exact Render.Java.assignable_iff_of_literalFor hliteral (by rw [hkind]; rfl)
      (Render.Java.isSome_defaultType?_of_literal? hn kind)

end Sources

/-! ### A number for an `int`, and one for a text -/

namespace Defaulted

def members : Members :=
  [("type", .str "object"), ("properties", .obj
    [("count", .obj [("type", .str "integer"), ("default", .float (.ofDecimal false 25 (-1)))]),
      ("label", .obj [("type", .str "string"), ("default", .int 5)])])]

def store : Store :=
  ⟨[⟨defaultUri, survey (.root defaultUri) (.obj members)⟩]⟩

def root : SchemaNode :=
  .root ⟨defaultUri, [], defaultUri, defaultUri, members⟩

def generation : Generation :=
  ⟨⟨[], ⟨[]⟩, .top⟩, {}, programName⟩

def begun : Drafting :=
  .start store (.empty [] [])

def last : Drafting :=
  (outcome (generation.sources .java "schema" root) begun).2

lemma genuine : begun.store.Genuine := fun load hl =>
  ⟨members, by rw [List.mem_singleton.1 hl]⟩

lemma root_mem : root ∈ begun.store.nodes :=
  Store.mem_nodes.2 ⟨_, List.mem_singleton_self _,
    node_mem_survey (show (Position.root defaultUri).enter members = .ok (root, [(defaultUri, [])]) from rfl)⟩

lemma exists_files : ∃ files, outcome (generation.sources .java "schema" root) begun = (.ok files, last) ∧
    files.length = 1 :=
  exists_of_map_toOption (by decide +kernel)

/-- The getter for the number is among the methods. -/
lemma exists_getter : ∃ t, last.model.types[0]? = some t ∧ ∃ method ∈ t.methods, ∃ body, method.body? = some body ∧
    ∃ value, body.defaulted? = some (.integer, value) ∧ Render.Java.admits .integer value = true ∧
      Render.Java.needsDouble value = false := by
  have hcomputed : (last.model.types[0]?.any fun t => t.methods.any fun method => method.body?.any fun body =>
      body.defaulted?.any fun p => decide (p.1 = .integer) && Render.Java.admits p.1 p.2 &&
        !Render.Java.needsDouble p.2) = true := by decide +kernel
  simp only [Option.any_eq_true, List.any_eq_true, Bool.and_eq_true, decide_eq_true_eq, Bool.not_eq_true'] at hcomputed
  obtain ⟨t, ht, method, hmethod, body, hbody, ⟨kind, value⟩, hdefault, ⟨rfl, hadmits⟩, hneeds⟩ := hcomputed
  exact ⟨t, ht, method, hmethod, body, hbody, value, hdefault, hadmits, hneeds⟩

end Defaulted

/-- A number that is no `int` is passed as one. -/
theorem assignable_of_number_for_int :
    ∃ files code default, outcome (Defaulted.generation.sources .java "schema" Defaulted.root) Defaulted.begun =
        (.ok files, Defaulted.last) ∧
      Render.Java.Passes Defaulted.last.model "Int" default code ∧
      (∃ file ∈ files, ("return " ++ code ++ ";").toList <:+: file.2.toList) ∧
      Render.Java.Assignable (Render.Java.scope Defaulted.last.model 0) default .integer := by
  obtain ⟨files, hok, -⟩ := Defaulted.exists_files
  obtain ⟨t, ht, method, hmethod, body, hbody, value, hdefault, hadmits, hneeds⟩ := Defaulted.exists_getter
  obtain ⟨code, default, -, hpasses, hshown, hassignable⟩ :=
    assignable_iff_of_sources Defaulted.genuine Defaulted.root_mem hok ht hmethod hbody hdefault rfl
  refine ⟨files, code, default, hok, hpasses, hshown, hassignable.2 ⟨hadmits, fun hdouble => ?_⟩⟩
  rw [hneeds] at hdouble
  cases hdouble

/-- The getter for a text passes a number where a text is taken. -/
theorem number_passed_for_text :
    (∃ files, outcome (Defaulted.generation.sources .java "schema" Defaulted.root) Defaulted.begun =
        (.ok files, Defaulted.last) ∧ files.length = 1) ∧
      Defaulted.last.model.types.map (fun t => t.methods.filterMap fun method => method.body?.bind fun body =>
          body.defaulted?.map fun p => (p.1, (Render.Java.expr Defaulted.last.model body).toOption)) =
        [[(.integer, some "jsonObject.optInt(\"count\", (int) 2.5)"),
          (.string, some "jsonObject.optString(\"label\", 5)")]] ∧
      Render.Java.Passes Defaulted.last.model "String" "5" "jsonObject.optString(\"label\", 5)" ∧
      ¬ Render.Java.Assignable (Render.Java.scope Defaulted.last.model 0) "5" .string := by
  refine ⟨Defaulted.exists_files, by decide +kernel, .call "jsonObject" "\"label\"", ?_⟩
  rintro ⟨type, htype, hassigns⟩
  have hint : Render.Java.expressionType? (Render.Java.scope Defaulted.last.model 0) "5" = some .int :=
    Render.Java.expressionType?_of_isInt (n := 5) (by decide)
  obtain rfl := Option.some.inj (hint.symm.trans htype)
  cases hassigns

end Generation

end SchemaAccessors
