import SchemaAccessors.Proofs.Spelling
import SchemaAccessors.Proofs.TypeNames

/-!
# What names mean in code

Code refers to a type by a dotted name. What its first part means depends on the class that it is written in,
and each further part is looked up in the type found before. A `Scope` holds these two ways of looking up;
each language has its own. In both, the qualified name of a type means that type in every class, because names
are apart: nothing between a class and its module or package can stand for the first part, and nothing inside a
type for another.
-/

namespace SchemaAccessors

/-! ## Dotted names -/

/-- The parts of a dotted name. -/
def nameParts (text : String) : List String :=
  (text.toList.splitOn '.').map String.ofList

/-- Names without dots in them are told apart again after they were joined by dots. -/
lemma nameParts_intercalate {names : List String} (hne : names ≠ []) (hdots : ∀ name ∈ names, '.' ∉ name.toList) :
    nameParts (String.intercalate "." names) = names := by
  have hparts : (String.intercalate "." names).toList.splitOn '.' = names.map String.toList := by
    rw [String.toList_intercalate]
    refine List.splitOn_intercalate '.' (fun part hpart => ?_) (by simpa using hne)
    obtain ⟨name, hname, rfl⟩ := List.mem_map.1 hpart
    exact hdots name hname
  rw [nameParts, hparts, List.map_map]
  exact List.map_id'' (fun _ => String.ofList_toList) names

/-- What names mean at some place in code: the types of simple names there, and the types that are found in a
type. -/
structure Scope where
  simple? : String → Option TypeId
  member? : TypeId → String → Option TypeId

namespace Scope

/-- The type that a list of names leads to, one inside another. -/
def follow (scope : Scope) : List String → Option TypeId
  | [] => none
  | name :: names => (scope.simple? name).bind fun id => names.foldlM scope.member? id

/-- The type that a dotted name means. -/
def resolve (scope : Scope) (text : String) : Option TypeId :=
  scope.follow (nameParts text)

lemma follow_concat (scope : Scope) {names : List String} (hne : names ≠ []) (name : String) :
    scope.follow (names ++ [name]) = (scope.follow names).bind (scope.member? · name) := by
  cases names with
  | nil => exact (hne rfl).elim
  | cons first names =>
    cases hfirst : scope.simple? first with
    | none => simp [follow, hfirst]
    | some id => simp [follow, hfirst, List.foldlM_append]

end Scope

namespace Model

/-! ## Types by their names -/

/-- The names of all types are spelled like names of types. -/
def Spelled (m : Model) : Prop :=
  ∀ t ∈ m.types, Naming.isTypeName t.name = true

/-- All types that are directly in a namespace are in the same one. -/
def Within (m : Model) (k : Nat) : Prop :=
  ∀ t ∈ m.types, t.isTopLevel = true → t.container = .top k

section Children

variable {m : Model} {c : Container} {name : String} {id : TypeId} {t : WrapperType}

lemma of_find?_eq_some (h : m.find? c name = some id) :
    ∃ t, m.types[id]? = some t ∧ t.container = c ∧ t.name = name := by
  obtain ⟨⟨i, t⟩, hfound, rfl⟩ := Option.map_eq_some_iff.1 h
  obtain ⟨ht, hc⟩ := mem_children.1 (List.mem_of_find?_eq_some hfound)
  have hname := List.find?_some hfound
  exact ⟨t, ht, hc, by simpa using hname⟩

/-- Every type is found by its name where it was declared. -/
lemma WellNamed.find?_eq (hm : m.WellNamed) (ht : m.types[id]? = some t) : m.find? t.container t.name = some id := by
  cases hfound : m.find? t.container t.name with
  | none => exact (ne_of_find?_eq_none hfound ht rfl rfl).elim
  | some i =>
    obtain ⟨u, hu, hcontainer, hname⟩ := of_find?_eq_some hfound
    exact congrArg some (hm.siblings hu ht hcontainer hname)

/-- A top-level type and a type of the same name are one. -/
lemma WellNamed.eq_of_top (hm : m.WellNamed) {k : Nat} (hwithin : m.Within k) {i : TypeId} {u : WrapperType}
    (ht : m.types[id]? = some t) (htop : t.isTopLevel = true) (hu : m.types[i]? = some u) (hname : u.name = t.name) :
    i = id := by
  have htmem := List.mem_of_getElem? ht
  have humem := List.mem_of_getElem? hu
  cases hlevel : u.isTopLevel with
  | false => exact (hm.levels t htmem u humem htop hlevel hname.symm).elim
  | true => exact hm.siblings hu ht (by rw [hwithin u humem hlevel, hwithin t htmem htop]) hname

end Children

/-! ## The way to a type -/

/-- The types around a type and the type itself, outermost first. -/
def path (m : Model) (id : TypeId) : List TypeId :=
  (m.enclosing id).reverse ++ [id]

/-- The container that the outermost type around a type is declared in. -/
def outside? (m : Model) (id : TypeId) : Option Container :=
  ((m.path id).head?.bind (m.types[·]?)).map WrapperType.container

section Path

variable {m : Model} {id o : TypeId} {t : WrapperType}

lemma path_ne_nil (m : Model) (id : TypeId) : m.path id ≠ [] := by
  simp [path]

lemma path_of_top (ht : m.types[id]? = some t) (htop : t.isTopLevel = true) : m.path id = [id] := by
  have houter : m.outer? id = none := by
    rw [outer?, ht]
    cases hc : t.container with
    | top k => simp [hc]
    | inside o => simp [WrapperType.isTopLevel, hc] at htop
  rw [path, enclosing, houter]
  rfl

lemma Layered.path_of_inside (hm : m.Layered) (ht : m.types[id]? = some t) (hc : t.container = .inside o) :
    m.path id = m.path o ++ [id] := by
  have houter : m.outer? id = some o := outer?_eq_some.2 ⟨t, ht, hc⟩
  rw [path, enclosing, houter]
  simp [hm houter, path]

/-- What holds of top-level types, and of a type with the one that it is inside of, holds of all types. -/
lemma Layered.induction {P : TypeId → Prop} (hm : m.Layered)
    (top : ∀ id t, m.types[id]? = some t → t.isTopLevel = true → P id)
    (inside : ∀ id t o u, m.types[id]? = some t → t.container = .inside o → m.types[o]? = some u → P o → P id)
    {id : TypeId} {t : WrapperType} (ht : m.types[id]? = some t) : P id := by
  induction id using Nat.strong_induction_on generalizing t with
  | _ id ih =>
    cases hc : t.container with
    | top k => exact top id t ht (by simp [WrapperType.isTopLevel, hc])
    | inside o =>
      have hlt : o < id := hm (outer?_eq_some.2 ⟨t, ht, hc⟩)
      have hu := List.getElem?_eq_getElem (hlt.trans (lt_of_getElem? ht))
      exact inside id t o _ ht hc hu (ih o hlt hu)

/-- All types lie in the namespace that top-level types are in. -/
lemma Layered.outside?_eq (hm : m.Layered) {k : Nat} (hwithin : m.Within k) (ht : m.types[id]? = some t) :
    m.outside? id = some (.top k) := by
  refine hm.induction (P := fun id => m.outside? id = some (.top k)) (fun id t ht htop => ?_)
    (fun id t o u ht hc hu ih => ?_) ht
  · have hc := hwithin t (List.mem_of_getElem? ht) htop
    simp [outside?, path_of_top ht htop, ht, hc]
  · rw [outside?, hm.path_of_inside ht hc, List.head?_append_of_ne_nil _ (m.path_ne_nil o)]
    exact ih

/-- The types around a type come before it. -/
lemma lt_of_mem_enclosing (h : o ∈ m.enclosing id) : o < id := by
  induction id using Nat.strong_induction_on with
  | _ id ih =>
    rw [enclosing] at h
    split at h
    · next outer _ =>
      split at h
      · next hlt =>
        rcases List.mem_cons.1 h with rfl | h
        · exact hlt
        · exact (ih outer hlt h).trans hlt
      · cases h
    · cases h

end Path

end Model

/-! ## Qualified names -/

/-- A scope finds the types of a model: those of a namespace by their simple names, and every other type in the
one that it is inside of. -/
structure Scope.Finds (scope : Scope) (m : Model) : Prop where
  simple : ∀ ⦃id : TypeId⦄ ⦃t : WrapperType⦄, m.types[id]? = some t → t.isTopLevel = true →
    scope.simple? t.name = some id
  member : ∀ ⦃id : TypeId⦄ ⦃t : WrapperType⦄ ⦃o : TypeId⦄, m.types[id]? = some t → t.container = .inside o →
    o < m.types.length → scope.member? o t.name = some id

/-- A scope that finds the types of a model takes their qualified names for them. -/
theorem Scope.Finds.resolve_qualifiedName {scope : Scope} {m : Model} (h : scope.Finds m) (hm : m.Layered)
    (hspelled : m.Spelled) {id : TypeId} {t : WrapperType} (ht : m.types[id]? = some t) :
    scope.resolve (m.qualifiedName id) = some id := by
  have hdots : ∀ name ∈ (m.path id).map m.nameOf, '.' ∉ name.toList := by
    intro name hname
    obtain ⟨i, hi, rfl⟩ := List.mem_map.1 hname
    have hle : i ≤ id := by
      rcases List.mem_append.1 hi with hi | hi
      · exact (Model.lt_of_mem_enclosing (List.mem_reverse.1 hi)).le
      · exact (List.mem_singleton.1 hi).le
    have hu := List.getElem?_eq_getElem (hle.trans_lt (Model.lt_of_getElem? ht))
    rw [Model.nameOf_eq hu]
    exact Naming.notMem_of_isTypeName (by decide) (hspelled _ (List.mem_of_getElem? hu))
  have hparts : nameParts (m.qualifiedName id) = (m.path id).map m.nameOf :=
    nameParts_intercalate (List.map_eq_nil_iff.not.2 (m.path_ne_nil id)) hdots
  rw [resolve, hparts]
  refine hm.induction (P := fun id => scope.follow ((m.path id).map m.nameOf) = some id)
    (fun id t ht htop => ?_) (fun id t o u ht hc hu ih => ?_) ht
  · rw [Model.path_of_top ht htop, List.map_singleton, Model.nameOf_eq ht, follow, h.simple ht htop]
    rfl
  · rw [hm.path_of_inside ht hc, List.map_append, List.map_singleton, Model.nameOf_eq ht,
      follow_concat _ (List.map_eq_nil_iff.not.2 (m.path_ne_nil o)), ih]
    exact h.member ht hc (Model.lt_of_getElem? hu)

/-! ## Java

A simple name means a member of a class around it before that class itself, innermost first. What is imported
hides the classes of the package. -/

namespace Render.Java

/-- What every file imports. -/
def imported : List String := ["JSONArray", "JSONObject"]

/-- What names mean in a class. -/
def scope (m : Model) (id : TypeId) : Scope where
  simple? name :=
    let around := (id :: m.enclosing id).findSome? fun c =>
      (m.find? (.inside c) name).or (if m.nameOf c = name then some c else none)
    around.or (if imported.contains name then none else (m.outside? id).bind (m.find? · name))
  member? outer name := m.find? (.inside outer) name

section

variable {m : Model} {k : Nat} {i id : TypeId} {t u : WrapperType}

/-- Around a class, the name of a top-level type means that type if it means any. -/
lemma eq_of_around (hm : m.WellNamed) (hwithin : m.Within k) (hu : m.types[i]? = some u)
    (ht : m.types[id]? = some t) (htop : t.isTopLevel = true) {found : TypeId}
    (hfound : (m.find? (.inside i) t.name).or (if m.nameOf i = t.name then some i else none) = some found) :
    found = id := by
  rcases Option.or_eq_some_iff.1 hfound with hmember | ⟨-, hself⟩
  · obtain ⟨v, hv, hc, hname⟩ := Model.of_find?_eq_some hmember
    exact hm.eq_of_top hwithin ht htop hv hname
  · split at hself
    · next hname =>
      obtain rfl := Option.some.inj hself
      rw [Model.nameOf_eq hu] at hname
      exact hm.eq_of_top hwithin ht htop hu hname
    · cases hself

/-- In every class, all types are found. -/
theorem finds_scope (hm : m.WellNamed) (hlayered : m.Layered) (hwithin : m.Within k)
    (hreserved : m.reservedTypes = reservedTypes) (hu : m.types[i]? = some u) : (scope m i).Finds m where
  simple id t ht htop := by
    simp only [scope]
    cases haround : (i :: m.enclosing i).findSome? fun c =>
        (m.find? (.inside c) t.name).or (if m.nameOf c = t.name then some c else none) with
    | some found =>
      obtain ⟨c, hc, hfound⟩ := List.exists_of_findSome?_eq_some haround
      have hle : c ≤ i := by
        rcases List.mem_cons.1 hc with rfl | hc
        · exact le_rfl
        · exact (Model.lt_of_mem_enclosing hc).le
      have hv := List.getElem?_eq_getElem (hle.trans_lt (Model.lt_of_getElem? hu))
      rw [eq_of_around hm hwithin hv ht htop hfound]
      rfl
    | none =>
      have himported : imported.contains t.name = false := by
        have hnot := hm.reserved t (List.mem_of_getElem? ht)
        rw [hreserved] at hnot
        have hsub : ∀ name ∈ imported, name ∈ reservedTypes := by decide
        simpa using fun hmem => hnot (hsub t.name hmem)
      have hc := hwithin t (List.mem_of_getElem? ht) htop
      rw [himported, hlayered.outside?_eq hwithin hu, ← hc]
      exact hm.find?_eq ht
  member id t o ht hc _ := by
    show m.find? (.inside o) t.name = some id
    rw [← hc]
    exact hm.find?_eq ht

end

end Render.Java

/-! ## Python

A simple name means what the module binds it to at last, and a name behind a dot what the class binds it to. The
classes inside a class come last in it. -/

namespace Render.Python

/-- Words that are no names. -/
def keywords : List String :=
  ["False", "None", "True", "and", "as", "assert", "async", "await", "break", "class", "continue", "def", "del",
    "elif", "else", "except", "finally", "for", "from", "global", "if", "import", "in", "is", "lambda", "nonlocal",
    "not", "or", "pass", "raise", "return", "try", "while", "with", "yield"]

/-- The classes in a container, as bindings of their names. -/
def classBindings (m : Model) (c : Container) : List (String × Option TypeId) :=
  (m.children c).map fun (id, t) => (t.name, some id)

/-- What a module binds, in order: what it imports, and its classes. -/
def globals (m : Model) (c : Container) : List (String × Option TypeId) :=
  [("annotations", none), ("Any", none)] ++ classBindings m c

/-- What a class binds, in order: its constructors, its methods, and the classes inside it. -/
def attributes (m : Model) (id : TypeId) : List (String × Option TypeId) :=
  ((m.types[id]?).elim [] fun t =>
    t.constructors.map (fun _ => ("__init__", none)) ++ t.methods.map fun method => (method.name, none))
    ++ classBindings m (.inside id)

/-- The class that a name is bound to at last. -/
def bound? (bindings : List (String × Option TypeId)) (name : String) : Option TypeId :=
  if keywords.contains name then none else (bindings.reverse.lookup name).join

/-- What names mean in a class. -/
def scope (m : Model) (id : TypeId) : Scope where
  simple? name := (m.outside? id).bind fun c => bound? (globals m c) name
  member? outer name := bound? (attributes m outer) name

section

variable {m : Model} {k : Nat} {i id : TypeId} {t u : WrapperType}

lemma notMem_keywords (hm : m.WellNamed) (hspelled : m.Spelled) (hreserved : m.reservedTypes = reservedTypes)
    (ht : t ∈ m.types) : t.name ∉ keywords := by
  intro hmem
  have hkeywords : ∀ word ∈ keywords, word ∈ reservedTypes ∨ Naming.isTypeName word = false := by decide
  rcases hkeywords t.name hmem with hword | hword
  · exact hm.reserved t ht (hreserved ▸ hword)
  · rw [hspelled t ht] at hword
    cases hword

/-- A name is looked up as the only value that it has. -/
lemma lookup_eq_some {bindings : List (String × Option TypeId)} {name : String} {value : Option TypeId}
    (hmem : (name, value) ∈ bindings) (honly : ∀ other, (name, other) ∈ bindings → other = value) :
    bindings.lookup name = some value := by
  cases hfound : bindings.lookup name with
  | none =>
    have hne := List.lookup_eq_none_iff.1 hfound (name, value) hmem
    simp at hne
  | some other =>
    obtain ⟨before, after, hbindings, -⟩ := List.lookup_eq_some_iff.1 hfound
    rw [honly other (by simp [hbindings])]

/-- A class is what its name is bound to, whatever was bound before the classes beside it. -/
lemma bound?_eq (hm : m.WellNamed) (hspelled : m.Spelled) (hreserved : m.reservedTypes = reservedTypes)
    (ht : m.types[id]? = some t) (before : List (String × Option TypeId)) :
    bound? (before ++ classBindings m t.container) t.name = some id := by
  have hword : keywords.contains t.name = false := by
    simpa using notMem_keywords hm hspelled hreserved (List.mem_of_getElem? ht)
  have hclass : (classBindings m t.container).reverse.lookup t.name = some (some id) := by
    refine lookup_eq_some (List.mem_reverse.2 ?_) fun other hother => ?_
    · exact List.mem_map.2 ⟨(id, t), Model.mem_children.2 ⟨ht, rfl⟩, rfl⟩
    · obtain ⟨⟨i, u⟩, hu, heq⟩ := List.mem_map.1 (List.mem_reverse.1 hother)
      obtain ⟨hname, rfl⟩ := Prod.mk.injEq .. ▸ heq
      obtain ⟨hu, hc⟩ := Model.mem_children.1 hu
      rw [hm.siblings hu ht hc hname]
  rw [bound?, hword, List.reverse_append, List.lookup_append, hclass]
  rfl

/-- In every class, all types are found. -/
theorem finds_scope (hm : m.WellNamed) (hlayered : m.Layered) (hwithin : m.Within k) (hspelled : m.Spelled)
    (hreserved : m.reservedTypes = reservedTypes) (hu : m.types[i]? = some u) : (scope m i).Finds m where
  simple id t ht htop := by
    have hc := hwithin t (List.mem_of_getElem? ht) htop
    simp only [scope, hlayered.outside?_eq hwithin hu, Option.bind_some]
    rw [← hc]
    exact bound?_eq hm hspelled hreserved ht _
  member id t o ht hc ho := by
    simp only [scope, attributes]
    rw [← hc]
    exact bound?_eq hm hspelled hreserved ht _

end

end Render.Python

/-! ## Both languages -/

namespace Language

/-- What names mean in a class. -/
def scope (l : Language) (m : Model) (id : TypeId) : Scope :=
  match l with
  | python => Render.Python.scope m id
  | java => Render.Java.scope m id

/-- Types are named by their qualified names, but for those in a package with a name. -/
lemma typeName_eq_qualifiedName {l : Language} {m : Model} (hunnamed : l = java → ∀ name ∈ m.namespaces, name = "")
    (id : TypeId) : l.typeName m id = m.qualifiedName id := by
  cases l with
  | python => rfl
  | java =>
    show Render.Java.typeName m id = m.qualifiedName id
    unfold Render.Java.typeName
    split
    · next package _ hpackage =>
      have hname : package = "" := by
        obtain ⟨t, -, ht⟩ := Option.bind_eq_some_iff.1 hpackage
        split at ht
        · exact hunnamed rfl package (List.mem_of_getElem? ht)
        · cases ht
      rw [hname]
      rfl
    · rfl

/-- In every class, the name of a type means that type. -/
theorem resolve_typeName {l : Language} {m : Model} {k : Nat} (hm : m.WellNamed) (hlayered : m.Layered)
    (hwithin : m.Within k) (hspelled : m.Spelled) (hreserved : m.reservedTypes = l.model.reservedTypes)
    (hunnamed : l = java → ∀ name ∈ m.namespaces, name = "") {i id : TypeId} {u t : WrapperType}
    (hu : m.types[i]? = some u) (ht : m.types[id]? = some t) :
    (l.scope m i).resolve (l.typeName m id) = some id := by
  have hfinds : (l.scope m i).Finds m := by
    cases l with
    | python => exact Render.Python.finds_scope hm hlayered hwithin hspelled hreserved hu
    | java => exact Render.Java.finds_scope hm hlayered hwithin hreserved hu
  rw [typeName_eq_qualifiedName hunnamed id]
  exact hfinds.resolve_qualifiedName hlayered hspelled ht

end Language

end SchemaAccessors
